import SortedCollections.Sorting.Basic
import SortedCollections.Proofs.Sorting.Merging

/-!
# The sort is stable

Whatever runs are found and in whatever order they are merged, every run stays sorted, and the runs
one behind the other have the ties of the list. So the sort answers with the items in sorted order,
those that tie in the order in which they came.
-/
namespace SortedCollections

namespace Sorting

variable {ε α : Type} {lt : α → α → Except ε Bool} {less : α → α → Bool} {P : α → Prop}

/-- The newest run and those before it are sorted, and all items lie in the domain. -/
structure Stacked (less : α → α → Bool) (P : α → Prop) (newest : List α)
    (before : List (List α × Nat)) : Prop where
  top : Sorted less newest
  below : ∀ entry ∈ before, Sorted less entry.1
  inside : ∀ a ∈ Runs.itemsOf before ++ newest, P a

/-- Two neighbouring runs on top of a stack may be merged. -/
theorem Stacked.join (order : Decides lt less P) (threshold : Nat) {run newest : List α}
    {deep : Nat} {before : List (List α × Nat)}
    (stacked : Stacked less P newest ((run, deep) :: before)) :
    ∃ later zs, joinRuns lt threshold run newest = .ok (later, zs) ∧ Stacked less P zs before ∧
      SameTies less P (Runs.itemsOf before ++ zs) (Runs.itemsOf before ++ run ++ newest) := by
  have inside := stacked.inside
  simp only [Runs.itemsOf, List.append_assoc, List.mem_append] at inside
  obtain ⟨later, zs, joined, sort⟩ := joinRuns_sorts order threshold
    (stacked.below (run, deep) (by simp)) stacked.top
    (fun a mem => inside a (Or.inr (Or.inl mem))) (fun a mem => inside a (Or.inr (Or.inr mem)))
  refine ⟨later, zs, joined, ⟨sort.sorted, ?_, ?_⟩, ?_⟩
  · intro entry mem
    exact stacked.below entry (List.mem_cons_of_mem _ mem)
  · intro a mem
    rcases List.mem_append.mp mem with mem | mem
    · exact inside a (Or.inl mem)
    · exact sort.inside a mem
  · rw [List.append_assoc]
    exact (SameTies.refl _).append sort.ties

theorem mergeDeeper_sorts (order : Decides lt less P) (boundary threshold : Nat)
    {newest : List α} {before : List (List α × Nat)} (stacked : Stacked less P newest before) :
    ∃ r, Runs.mergeDeeper lt boundary threshold newest before = .ok r ∧
      Stacked less P r.newest r.before ∧
      SameTies less P r.items (Runs.itemsOf before ++ newest) := by
  induction before generalizing threshold newest with
  | nil => exact ⟨_, rfl, stacked, SameTies.refl _⟩
  | cons entry before ih =>
    obtain ⟨run, deep⟩ := entry
    rw [Runs.mergeDeeper]
    by_cases lower : boundary < deep
    · obtain ⟨later, zs, joined, fewer, ties⟩ := stacked.join order threshold
      obtain ⟨r, merged, kept, tiesRest⟩ := ih later fewer
      refine ⟨r, ?_, kept, tiesRest.trans ties⟩
      rw [if_pos lower, joined]
      exact merged
    · exact ⟨_, by rw [if_neg lower]; rfl, stacked, SameTies.refl _⟩

theorem push_sorts (order : Decides lt less P) (total : Nat) {r : Runs α} {run origin : List α}
    (stacked : Stacked less P r.newest r.before) (sort : IsSortOf less P run origin) :
    ∃ pushed, r.push lt total run = .ok pushed ∧ Stacked less P pushed.newest pushed.before ∧
      SameTies less P pushed.items (r.items ++ origin) := by
  obtain ⟨merged, deeper, kept, ties⟩ := mergeDeeper_sorts order
    (depth total (Runs.itemsOf r.before).length r.newest.length run.length) r.threshold stacked
  rw [Runs.push]
  simp only [deeper]
  refine ⟨_, rfl, ⟨sort.sorted, ?_, ?_⟩, ties.append sort.ties⟩
  · intro entry mem
    rcases List.mem_cons.mp mem with rfl | mem
    · exact kept.top
    · exact kept.below entry mem
  · intro a mem
    rcases List.mem_append.mp mem with mem | mem
    · exact kept.inside a mem
    · exact sort.inside a mem

theorem mergeAll_sorts (order : Decides lt less P) (threshold : Nat) {newest : List α}
    {before : List (List α × Nat)} (stacked : Stacked less P newest before) :
    ∃ ys, Runs.mergeAll lt threshold newest before = .ok ys ∧
      IsSortOf less P ys (Runs.itemsOf before ++ newest) := by
  fun_induction Runs.mergeAll lt threshold newest before with
  | case1 threshold newest => exact ⟨newest, rfl, stacked.top, SameTies.refl _, stacked.inside⟩
  | case2 threshold newest run deep =>
    obtain ⟨later, zs, joined, fewer, ties⟩ := stacked.join order threshold
    refine ⟨zs, ?_, fewer.top, ties, fewer.inside⟩
    rw [joined]
    rfl
  | case3 threshold newest run deep earlier deeper before shorter ih =>
    -- The two runs below the newest one are merged first.
    have below : Stacked less P run ((earlier, deeper) :: before) := by
      refine ⟨stacked.below (run, deep) (by simp), ?_, ?_⟩
      · intro entry mem
        exact stacked.below entry (List.mem_cons_of_mem _ mem)
      · intro a mem
        exact stacked.inside a (List.mem_append_left _ mem)
    obtain ⟨later, zs, joined, fewer, ties⟩ := below.join order threshold
    have stackedRest : Stacked less P newest ((zs, deep) :: before) := by
      refine ⟨stacked.top, ?_, ?_⟩
      · intro entry mem
        rcases List.mem_cons.mp mem with rfl | mem
        · exact fewer.top
        · exact fewer.below entry mem
      · intro a mem
        rcases List.mem_append.mp mem with mem | mem
        · exact fewer.inside a mem
        · exact stacked.inside a (List.mem_append_right _ mem)
    obtain ⟨ys, merged, sort⟩ := ih later zs stackedRest
    refine ⟨ys, ?_, sort.sorted, sort.ties.trans (ties.append (SameTies.refl _)), sort.inside⟩
    rw [joined]
    exact merged
  | case4 threshold newest run deep earlier deeper before longer ih =>
    obtain ⟨later, zs, joined, fewer, ties⟩ := stacked.join order threshold
    obtain ⟨ys, merged, sort⟩ := ih later zs fewer
    refine ⟨ys, ?_, sort.sorted, sort.ties.trans ties, sort.inside⟩
    rw [joined]
    exact merged

theorem sortBehind_sorts (order : Decides lt less P) (total : Nat) {r : Runs α} {rest : List α}
    (stacked : Stacked less P r.newest r.before) (inside : ∀ a ∈ rest, P a) :
    ∃ ys, sortBehind lt total r rest = .ok ys ∧ IsSortOf less P ys (r.items ++ rest) := by
  fun_induction sortBehind lt total r rest with
  | case1 r =>
    rw [List.append_nil]
    exact mergeAll_sorts order r.threshold stacked
  | case2 r x xs e cut =>
    obtain ⟨run, rest, middle, found, _⟩ := nextRun_sorts order (leastRun total) inside
    rw [cut] at found
    cases found
  | case3 r x xs run rest cut ih =>
    obtain ⟨run', rest', middle, found, whole, sort⟩ :=
      nextRun_sorts order (leastRun total) inside
    rw [cut] at found
    cases found
    obtain ⟨pushed, push, kept, ties⟩ := push_sorts order total stacked sort
    rw [push]
    have insideRest (a : α) (mem : a ∈ rest) : P a :=
      inside a (by rw [whole]; exact List.mem_append_right _ mem)
    obtain ⟨ys, sorted, sortRest⟩ := ih pushed kept insideRest
    refine ⟨ys, sorted, sortRest.sorted, ?_, sortRest.inside⟩
    rw [whole, ← List.append_assoc]
    exact sortRest.ties.trans (ties.append (SameTies.refl rest))

end Sorting

/-- Sorting answers with the items in sorted order, and those that tie keep their order. -/
theorem stableSort_sorts {ε α : Type} {lt : α → α → Except ε Bool} {less : α → α → Bool}
    {P : α → Prop} (order : Decides lt less P) {xs : List α} (inside : ∀ a ∈ xs, P a) :
    ∃ ys, stableSort lt xs = .ok ys ∧ IsSortOf less P ys xs := by
  obtain ⟨run, rest, middle, found, rfl, sort⟩ :=
    Sorting.nextRun_sorts order (Sorting.leastRun xs.length) inside
  have stacked : Sorting.Stacked less P run [] := ⟨sort.sorted, by simp, sort.inside⟩
  obtain ⟨ys, sorted, sorts⟩ := Sorting.sortBehind_sorts order (middle ++ rest).length
    (r := .first run) stacked fun a mem => inside a (List.mem_append_right _ mem)
  refine ⟨ys, ?_, sorts.sorted, ?_, sorts.inside⟩
  · rw [stableSort, found]
    exact sorted
  · exact sorts.ties.trans (sort.ties.append (SameTies.refl rest))

end SortedCollections
