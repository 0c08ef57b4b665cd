import SortedCollections.Sorting.Gallop
import SortedCollections.Proofs.Order

/-!
# Finding where a test stops passing

If a list is a part that passes a test followed by a part that fails it, halving and galloping
both find the length of the first part, from either end and whatever stretch they begin with.
-/
namespace SortedCollections

namespace Sorting

variable {ε α : Type}

/-- The items before position `w` pass the test, the others fail it. -/
structure Turns (test : α → Except ε Bool) (xs : List α) (w : Nat) : Prop where
  inside : w ≤ xs.length
  answer : ∀ i (h : i < xs.length), test xs[i] = .ok (decide (i < w))

theorem turns_append {test : α → Except ε Bool} {front rest : List α}
    (pass : ∀ x ∈ front, test x = .ok true) (stop : ∀ x ∈ rest, test x = .ok false) :
    Turns test (front ++ rest) front.length where
  inside := by simp
  answer i h := by
    by_cases early : i < front.length
    · rw [List.getElem_append_left early, pass _ (List.getElem_mem early)]
      simp [early]
    · have late : front.length ≤ i := by omega
      rw [List.getElem_append_right late, stop _ (List.getElem_mem _)]
      simp [early]

/-- A list is cut in two by a test that no item passes behind one that fails. -/
theorem exists_cut (test : α → Bool) {xs : List α}
    (falling : xs.Pairwise fun x y => test y = true → test x = true) :
    ∃ front rest, xs = front ++ rest ∧ (∀ x ∈ front, test x = true) ∧
      ∀ x ∈ rest, test x = false := by
  induction xs with
  | nil => exact ⟨[], [], rfl, by simp, by simp⟩
  | cons x xs ih =>
    rw [List.pairwise_cons] at falling
    cases passed : test x with
    | true =>
      obtain ⟨front, rest, rfl, pass, stop⟩ := ih falling.2
      exact ⟨x :: front, rest, rfl, by simpa [passed] using pass, stop⟩
    | false =>
      refine ⟨[], x :: xs, rfl, by simp, ?_⟩
      intro y mem
      rcases List.mem_cons.mp mem with rfl | mem
      · exact passed
      · have back := falling.1 y mem
        rw [passed] at back
        simpa using back

theorem boundary_eq {d : Direction} {test : α → Except ε Bool} {xs : List α} {w lo hi : Nat}
    {bound : hi ≤ xs.length} (turns : Turns test xs w) (low : lo ≤ w) (high : w ≤ hi) :
    boundary d test xs lo hi bound = .ok w := by
  fun_induction boundary d test xs lo hi bound with
  | case1 lo hi bound less mid middle inside right left =>
    rw [turns.answer mid inside]
    by_cases before : mid < w
    · simp only [before, decide_true]
      exact right before high
    · simp only [before, decide_false]
      exact left low (by omega)
  | case2 lo hi bound stop =>
    have done : lo = w := by omega
    rw [done]

theorem gallopFrom_eq {d : Direction} {test : α → Except ε Bool} {xs : List α} {w last next : Nat}
    (turns : Turns test xs w) (passed : last < w) (ahead : last < next) :
    gallopFrom d test xs last next = .ok w := by
  fun_induction gallopFrom d test xs last next with
  | case1 last next inside further =>
    rw [turns.answer next inside]
    by_cases before : next < w
    · simp only [before, decide_true]
      exact further before (by omega)
    · simp only [before, decide_false]
      exact boundary_eq turns passed (by omega)
  | case2 last next outside => exact boundary_eq turns passed turns.inside

/-- Galloping finds how many items at the front pass. -/
theorem gallop_append {d : Direction} {test : α → Except ε Bool} {front rest : List α}
    (pass : ∀ x ∈ front, test x = .ok true) (stop : ∀ x ∈ rest, test x = .ok false) :
    gallop d test (front ++ rest) = .ok front.length := by
  have turns := turns_append pass stop
  rcases front with _ | ⟨x, front⟩
  · cases rest with
    | nil => rfl
    | cons x rest =>
      have failed : test x = .ok false := stop x (by simp)
      simp only [List.nil_append, gallop, failed]
      rfl
  · have passed : test x = .ok true := pass x (by simp)
    simp only [List.cons_append, gallop, passed]
    exact gallopFrom_eq turns (by simp) (by omega)

end Sorting

end SortedCollections
