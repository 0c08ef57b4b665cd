import SortedCollections.Sorting.Gallop

/-!
# Short sorted runs

The longest ascending or strictly descending start of a list is a run: it is taken over as it
stands, or turned round, which costs one comparison an item. A run that is too short is made longer
by inserting the items that follow, each behind every item that it is not less than. So items that
tie keep the order in which they came.
-/
namespace SortedCollections

namespace Sorting

variable {ε α : Type}

/-- Splits off the items that continue an ascent from `last`. -/
def ascent (lt : α → α → Except ε Bool) (last : α) : List α → Except ε (List α × List α)
  | [] => .ok ([], [])
  | x :: xs => do
    if ← lt x last then
      return ([], x :: xs)
    else
      let (run, rest) ← ascent lt x xs
      return (x :: run, rest)

/-- Splits off the items that continue a strict descent from `last`, and turns them round: the
run comes back in ascending order in front of `run`. -/
def descent (lt : α → α → Except ε Bool) (last : α) (run : List α) :
    List α → Except ε (List α × List α)
  | [] => .ok (run, [])
  | x :: xs => do
    if ← lt x last then
      descent lt x (x :: run) xs
    else
      return (run, x :: xs)

/-- The sorted start of a list, in ascending order, and the items behind it. -/
def leadingRun (lt : α → α → Except ε Bool) : List α → Except ε (List α × List α)
  | [] => .ok ([], [])
  | [x] => .ok ([x], [])
  | x :: y :: rest => do
    if ← lt y x then
      descent lt y [y, x] rest
    else
      let (run, rest) ← ascent lt y rest
      return (x :: y :: run, rest)

/-- Inserts an item into a sorted list, behind the items that it ties with. -/
def insert (lt : α → α → Except ε Bool) (xs : List α) (x : α) : Except ε (List α) := do
  let i ← halve .forward (fun y => do return !(← lt x y)) xs
  return xs.take i ++ x :: xs.drop i

/-- A sorted run of at least `least` items, if there are so many, and the items behind it. -/
def nextRun (lt : α → α → Except ε Bool) (least : Nat) (xs : List α) :
    Except ε (List α × List α) := do
  let (run, rest) ← leadingRun lt xs
  let wanted := least - run.length
  return (← (rest.take wanted).foldlM (insert lt) run, rest.drop wanted)

theorem ascent_append {lt : α → α → Except ε Bool} {last : α} {xs run rest : List α}
    (split : ascent lt last xs = .ok (run, rest)) : run ++ rest = xs := by
  induction xs generalizing last run with
  | nil => cases split; rfl
  | cons x xs ih =>
    obtain ⟨less, _, split⟩ := bind_eq_ok.mp split
    cases less with
    | true => cases split; rfl
    | false =>
      obtain ⟨⟨front, back⟩, inner, split⟩ := bind_eq_ok.mp split
      cases split
      exact congrArg (x :: ·) (ih inner)

theorem descent_perm {lt : α → α → Except ε Bool} {last : α} {xs front run rest : List α}
    (split : descent lt last front xs = .ok (run, rest)) :
    (run ++ rest).Perm (front ++ xs) := by
  induction xs generalizing last front with
  | nil => cases split; exact List.Perm.refl _
  | cons x xs ih =>
    obtain ⟨less, _, split⟩ := bind_eq_ok.mp split
    cases less with
    | true => exact (ih split).trans List.perm_middle.symm
    | false => cases split; exact List.Perm.refl _

theorem leadingRun_perm {lt : α → α → Except ε Bool} {xs run rest : List α}
    (split : leadingRun lt xs = .ok (run, rest)) : (run ++ rest).Perm xs := by
  rcases xs with _ | ⟨x, _ | ⟨y, xs⟩⟩
  · cases split
    exact List.Perm.refl _
  · cases split
    exact List.Perm.refl _
  · obtain ⟨less, _, split⟩ := bind_eq_ok.mp split
    cases less with
    | true => exact (descent_perm split).trans (List.Perm.swap x y xs)
    | false =>
      obtain ⟨⟨front, back⟩, inner, split⟩ := bind_eq_ok.mp split
      cases split
      exact List.Perm.of_eq (congrArg (x :: y :: ·) (ascent_append inner))

/-- A strict descent leaves over no more than it was given. -/
theorem length_descent_le {lt : α → α → Except ε Bool} {last : α} {xs front run rest : List α}
    (split : descent lt last front xs = .ok (run, rest)) : rest.length ≤ xs.length := by
  induction xs generalizing last front with
  | nil => cases split; exact Nat.le_refl _
  | cons x xs ih =>
    obtain ⟨less, _, split⟩ := bind_eq_ok.mp split
    cases less with
    | true => exact Nat.le_succ_of_le (ih split)
    | false => cases split; exact Nat.le_refl _

/-- The run at the start of a list has at least one item. -/
theorem length_leadingRun_lt {lt : α → α → Except ε Bool} {x : α} {xs run rest : List α}
    (split : leadingRun lt (x :: xs) = .ok (run, rest)) : rest.length < (x :: xs).length := by
  cases xs with
  | nil => cases split; exact Nat.zero_lt_one
  | cons y xs =>
    obtain ⟨less, _, split⟩ := bind_eq_ok.mp split
    cases less with
    | true => exact Nat.lt_succ_of_le (Nat.le_succ_of_le (length_descent_le split))
    | false =>
      obtain ⟨⟨front, back⟩, inner, split⟩ := bind_eq_ok.mp split
      cases split
      have length := congrArg List.length (ascent_append inner)
      rw [List.length_append] at length
      simp only [List.length_cons]
      omega

theorem insert_perm {lt : α → α → Except ε Bool} {xs ys : List α} {x : α}
    (inserted : insert lt xs x = .ok ys) : ys.Perm (x :: xs) := by
  obtain ⟨i, _, inserted⟩ := bind_eq_ok.mp inserted
  cases inserted
  exact List.perm_middle.trans (List.Perm.of_eq (congrArg (x :: ·) (List.take_append_drop i xs)))

theorem foldlM_insert_perm {lt : α → α → Except ε Bool} {rest run ys : List α}
    (inserted : rest.foldlM (insert lt) run = .ok ys) : ys.Perm (run ++ rest) := by
  induction rest generalizing run with
  | nil => cases inserted; rw [List.append_nil]
  | cons x rest ih =>
    obtain ⟨next, first, inserted⟩ := bind_eq_ok.mp inserted
    have moved : (next ++ rest).Perm (x :: run ++ rest) :=
      List.Perm.append_right rest (insert_perm first)
    exact (ih inserted).trans (moved.trans List.perm_middle.symm)

theorem nextRun_perm {lt : α → α → Except ε Bool} {least : Nat} {xs run rest : List α}
    (split : nextRun lt least xs = .ok (run, rest)) : (run ++ rest).Perm xs := by
  obtain ⟨⟨start, behind⟩, first, split⟩ := bind_eq_ok.mp split
  obtain ⟨longer, inserted, split⟩ := bind_eq_ok.mp split
  cases split
  have moved := List.Perm.append_right (behind.drop (least - start.length))
    (foldlM_insert_perm inserted)
  rw [List.append_assoc, List.take_append_drop] at moved
  exact moved.trans (leadingRun_perm first)

/-- A run has at least one item. -/
theorem length_nextRun_lt {lt : α → α → Except ε Bool} {least : Nat} {x : α}
    {xs run rest : List α} (split : nextRun lt least (x :: xs) = .ok (run, rest)) :
    rest.length < (x :: xs).length := by
  obtain ⟨⟨start, behind⟩, first, split⟩ := bind_eq_ok.mp split
  obtain ⟨longer, _, split⟩ := bind_eq_ok.mp split
  cases split
  have shorter := length_leadingRun_lt first
  rw [List.length_drop]
  omega

end Sorting

end SortedCollections
