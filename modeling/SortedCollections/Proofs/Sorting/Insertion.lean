import SortedCollections.Sorting.Insertion
import SortedCollections.Proofs.Sorting.Boundary

/-!
# Runs are sorted

The start of a list that is taken as a run, turned round if it descends and made longer by
insertion, holds the items of that stretch in sorted order. Items that tie keep their order: in a
strict descent no two items tie, and an item is inserted behind those that it ties with.
-/
namespace SortedCollections

namespace Sorting

variable {ε α : Type} {lt : α → α → Except ε Bool} {less : α → α → Bool} {P : α → Prop}

/-- Putting an item between those that are not above it and those that are. -/
theorem isSortOf_insert (order : Decides lt less P) (front rest : List α) {x : α}
    (sorted : Sorted less (front ++ rest)) (inside : ∀ y ∈ front ++ rest, P y) (hx : P x)
    (below : ∀ y ∈ front, less x y = false) (above : ∀ y ∈ rest, less x y = true) :
    IsSortOf less P (front ++ x :: rest) (front ++ rest ++ [x]) where
  sorted := by
    rw [Sorted, List.pairwise_append] at sorted ⊢
    refine ⟨sorted.1, ?_, ?_⟩
    · rw [List.pairwise_cons]
      refine ⟨?_, sorted.2.1⟩
      intro y mem
      exact order.asymm hx (inside y (by simp [mem])) (above y mem)
    · intro a ha b hb
      rcases List.mem_cons.mp hb with rfl | hb
      · exact below a ha
      · exact sorted.2.2 a ha b hb
  ties := by
    have moved : SameTies less P ([x] ++ rest) (rest ++ [x]) := by
      apply SameTies.append_comm order
      · simpa using hx
      · intro y mem
        exact inside y (by simp [mem])
      · simpa using above
    have both := SameTies.append (SameTies.refl front) moved
    simpa using both
  inside := by
    intro y mem
    have cases : y ∈ front ++ rest ∨ y = x := by
      simp only [List.mem_append, List.mem_cons] at mem ⊢
      tauto
    rcases cases with mem | rfl
    · exact inside y mem
    · exact hx

theorem insert_sorts (order : Decides lt less P) {xs : List α} {x : α} (sorted : Sorted less xs)
    (inside : ∀ y ∈ xs, P y) (hx : P x) :
    ∃ ys, insert lt xs x = .ok ys ∧ IsSortOf less P ys (xs ++ [x]) := by
  have falling : xs.Pairwise fun a b => (!less x b) = true → (!less x a) = true := by
    refine sorted.imp_of_mem ?_
    intro a b ha hb hba hxb
    simp only [Bool.not_eq_true'] at hxb ⊢
    exact order.not_less_trans (inside a ha) (inside b hb) hx hba hxb
  obtain ⟨front, rest, rfl, pass, stop⟩ := exists_cut (fun y => !less x y) falling
  simp only [Bool.not_eq_true', Bool.not_eq_false'] at pass stop
  have answer (y : α) (mem : y ∈ front ++ rest) :
      (do return !(← lt x y) : Except ε Bool) = .ok (!less x y) := by
    rw [order.answers hx (inside y mem)]
    rfl
  have turns : Turns (fun y => do return !(← lt x y)) (front ++ rest) front.length := by
    apply turns_append
    · intro y mem
      rw [answer y (by simp [mem]), pass y mem]
      rfl
    · intro y mem
      rw [answer y (by simp [mem]), stop y mem]
      rfl
  refine ⟨front ++ x :: rest, ?_, isSortOf_insert order front rest sorted inside hx pass stop⟩
  rw [insert, halve, boundary_eq turns (Nat.zero_le _) turns.inside]
  show Except.ok _ = _
  rw [List.take_left, List.drop_left]

theorem foldlM_insert_sorts (order : Decides lt less P) {rest run origin : List α}
    (sort : IsSortOf less P run origin) (inside : ∀ y ∈ rest, P y) :
    ∃ ys, rest.foldlM (insert lt) run = .ok ys ∧ IsSortOf less P ys (origin ++ rest) := by
  induction rest generalizing run origin with
  | nil =>
    refine ⟨run, rfl, ?_⟩
    rw [List.append_nil]
    exact sort
  | cons x rest ih =>
    obtain ⟨next, inserted, longer⟩ := insert_sorts order sort.sorted sort.inside
      (inside x (by simp))
    have ties : SameTies less P next (origin ++ [x]) :=
      longer.ties.trans (sort.ties.append (SameTies.refl [x]))
    obtain ⟨ys, done, sorts⟩ := ih ⟨longer.sorted, ties, longer.inside⟩
      fun y mem => inside y (by simp [mem])
    refine ⟨ys, ?_, by simpa using sorts⟩
    rw [List.foldlM_cons, inserted]
    exact done

theorem ascent_sorts (order : Decides lt less P) {last : α} {xs : List α} (hlast : P last)
    (inside : ∀ y ∈ xs, P y) :
    ∃ run rest, ascent lt last xs = .ok (run, rest) ∧ run ++ rest = xs ∧
      Sorted less (last :: run) := by
  induction xs generalizing last with
  | nil => exact ⟨[], [], rfl, rfl, List.pairwise_singleton _ _⟩
  | cons x xs ih =>
    have hx : P x := inside x (by simp)
    cases falls : less x last with
    | true =>
      refine ⟨[], x :: xs, ?_, rfl, List.pairwise_singleton _ _⟩
      rw [ascent, order.answers hx hlast, falls]
      rfl
    | false =>
      obtain ⟨run, rest, split, whole, sorted⟩ := ih hx fun y mem => inside y (by simp [mem])
      refine ⟨x :: run, rest, ?_, by simp [whole], ?_⟩
      · rw [ascent, order.answers hx hlast, falls]
        show (ascent lt x xs >>= _) = _
        rw [split]
        rfl
      · have above := List.pairwise_cons.mp sorted
        rw [Sorted, List.pairwise_cons]
        refine ⟨?_, sorted⟩
        intro y mem
        rcases List.mem_cons.mp mem with rfl | mem
        · exact falls
        · have hy : P y := inside y (by simp [← whole, mem])
          exact order.not_less_trans hlast hx hy falls (above.1 y mem)

/-- A strict descent is turned round. `origin` is the stretch as it stood. -/
theorem descent_sorts (order : Decides lt less P) {last : α} {front xs origin : List α}
    (sort : IsSortOf less P (last :: front) origin) (inside : ∀ y ∈ xs, P y) :
    ∃ run rest middle, descent lt last (last :: front) xs = .ok (run, rest) ∧
      xs = middle ++ rest ∧ IsSortOf less P run (origin ++ middle) := by
  induction xs generalizing last front origin with
  | nil => exact ⟨_, [], [], rfl, rfl, by simpa using sort⟩
  | cons x xs ih =>
    have hx : P x := inside x (by simp)
    have hlast : P last := sort.inside last (by simp)
    cases falls : less x last with
    | true =>
      have least (y : α) (mem : y ∈ last :: front) : less x y = true := by
        rcases List.mem_cons.mp mem with rfl | mem'
        · exact falls
        · exact order.less_of_less_of_not_less hx hlast (sort.inside y mem) falls
            ((List.pairwise_cons.mp sort.sorted).1 y mem')
      have longer : IsSortOf less P (x :: last :: front) (last :: front ++ [x]) :=
        isSortOf_insert order [] (last :: front) sort.sorted sort.inside hx (by simp) least
      have ties := longer.ties.trans (sort.ties.append (SameTies.refl [x]))
      obtain ⟨run, rest, middle, split, rfl, sorts⟩ :=
        ih ⟨longer.sorted, ties, longer.inside⟩ fun y mem => inside y (by simp [mem])
      refine ⟨run, rest, x :: middle, ?_, rfl, by simpa using sorts⟩
      rw [descent, order.answers hx hlast, falls]
      exact split
    | false =>
      refine ⟨_, x :: xs, [], ?_, rfl, by simpa using sort⟩
      rw [descent, order.answers hx hlast, falls]
      rfl

theorem leadingRun_sorts (order : Decides lt less P) {xs : List α} (inside : ∀ y ∈ xs, P y) :
    ∃ run rest middle, leadingRun lt xs = .ok (run, rest) ∧ xs = middle ++ rest ∧
      IsSortOf less P run middle := by
  rcases xs with _ | ⟨x, _ | ⟨y, xs⟩⟩
  · exact ⟨[], [], [], rfl, rfl, List.Pairwise.nil, SameTies.refl _, by simp⟩
  · exact ⟨[x], [], [x], rfl, rfl, List.pairwise_singleton _ _, SameTies.refl _, inside⟩
  · have hx : P x := inside x (by simp)
    have hy : P y := inside y (by simp)
    have others : ∀ z ∈ xs, P z := fun z mem => inside z (by simp [mem])
    cases falls : less y x with
    | true =>
      have start : IsSortOf less P [y, x] [x, y] :=
        isSortOf_insert order [] [x] (List.pairwise_singleton _ _) (by simpa using hx) hy (by simp)
          (by simpa using falls)
      obtain ⟨run, rest, middle, split, rfl, sorts⟩ := descent_sorts order start others
      refine ⟨run, rest, x :: y :: middle, ?_, rfl, sorts⟩
      rw [leadingRun, order.answers hy hx, falls]
      exact split
    | false =>
      obtain ⟨run, rest, split, rfl, sorted⟩ := ascent_sorts order hy others
      have above := List.pairwise_cons.mp sorted
      refine ⟨x :: y :: run, rest, x :: y :: run, ?_, rfl, ?_, SameTies.refl _, ?_⟩
      · rw [leadingRun, order.answers hy hx, falls]
        show (ascent lt y (run ++ rest) >>= _) = _
        rw [split]
        rfl
      · rw [Sorted, List.pairwise_cons]
        refine ⟨?_, sorted⟩
        intro z mem
        rcases List.mem_cons.mp mem with rfl | mem'
        · exact falls
        · exact order.not_less_trans hx hy (others z (by simp [mem'])) falls (above.1 z mem')
      · intro z mem
        refine inside z ?_
        simp only [List.mem_cons, List.mem_append] at mem ⊢
        tauto

theorem nextRun_sorts (order : Decides lt less P) (least : Nat) {xs : List α}
    (inside : ∀ y ∈ xs, P y) :
    ∃ run rest middle, nextRun lt least xs = .ok (run, rest) ∧ xs = middle ++ rest ∧
      IsSortOf less P run middle := by
  obtain ⟨run, rest, middle, split, rfl, sorts⟩ := leadingRun_sorts order inside
  have others : ∀ y ∈ rest.take (least - run.length), P y := fun y mem =>
    inside y (List.mem_append_right _ (List.mem_of_mem_take mem))
  obtain ⟨longer, inserted, done⟩ := foldlM_insert_sorts order sorts others
  refine ⟨longer, rest.drop (least - run.length), middle ++ rest.take (least - run.length), ?_, ?_,
    done⟩
  · rw [nextRun, split]
    show (List.foldlM (insert lt) run (rest.take (least - run.length)) >>= _) = _
    rw [inserted]
    rfl
  · rw [List.append_assoc, List.take_append_drop]

end Sorting

end SortedCollections
