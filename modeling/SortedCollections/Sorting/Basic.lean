import SortedCollections.Sorting.Insertion
import SortedCollections.Sorting.Merging

/-!
# Stable sorting

A list is cut into sorted runs, from the front to the back, and neighbouring runs are merged. Items
that tie keep the order in which they came.

Which runs are merged first depends on where the runs lie within the whole list. Two neighbouring
runs have a depth: how many binary digits the positions of their midpoints share, as fractions of
the list. A new run lets the runs before it be merged where they lie deeper than its own boundary;
so the merges come close to a balanced tree. When there are no items left, all runs are merged from
the back.

The comparison may fail; a failure ends the sort.
-/
namespace SortedCollections

namespace Sorting

variable {ε α : Type}

/-- The least length of the runs of a list of `n` items. A list of less than 64 items is one run;
a longer one is halved until its parts are that short, and the length is rounded up. So the number
of runs of that length is a power of two, or just below one. -/
def leastRun (n : Nat) : Nat :=
  let halvings := n.log2 - 5
  (n + Nat.pow 2 halvings - 1) / Nat.pow 2 halvings

/-- The depth of the boundary between two neighbouring runs of `m` and `n` items, the first of
which begins at `start` in a list of `total` items. -/
def depth (total start m n : Nat) : Nat :=
  let middle := 2 * start + m
  let next := middle + m + n
  let differAt (digits : Nat) : Bool :=
    Nat.pow 2 digits * middle / total ≠ Nat.pow 2 digits * next / total
  ((List.range (total.log2 + 1)).find? differAt).getD total.log2

/-- The runs found so far. -/
structure Runs (α : Type) where
  /-- The number of wins in a row from which on a merge gallops. -/
  threshold : Nat
  /-- The newest run. -/
  newest : List α
  /-- The runs before it, the last one first, each with the depth of the boundary behind it. -/
  before : List (List α × Nat)

namespace Runs

def first (run : List α) : Runs α := ⟨longStretch, run, []⟩

/-- The items of runs that stand one before the other, in order. -/
def itemsOf : List (List α × Nat) → List α
  | [] => []
  | (run, _) :: before => itemsOf before ++ run

/-- The items of all runs, in order. -/
def items (r : Runs α) : List α := itemsOf r.before ++ r.newest

/-- Merges the newest run with those before it that lie deeper than a boundary. -/
def mergeDeeper (lt : α → α → Except ε Bool) (boundary threshold : Nat) (newest : List α) :
    List (List α × Nat) → Except ε (Runs α)
  | [] => .ok ⟨threshold, newest, []⟩
  | (run, deep) :: before => do
    if boundary < deep then
      let (threshold, newest) ← joinRuns lt threshold run newest
      mergeDeeper lt boundary threshold newest before
    else
      return ⟨threshold, newest, (run, deep) :: before⟩

/-- Puts a run behind the others in a list of `total` items. -/
def push (lt : α → α → Except ε Bool) (total : Nat) (r : Runs α) (run : List α) :
    Except ε (Runs α) := do
  let boundary := depth total (itemsOf r.before).length r.newest.length run.length
  let r ← mergeDeeper lt boundary r.threshold r.newest r.before
  return ⟨r.threshold, run, (r.newest, boundary) :: r.before⟩

/-- Merges all runs, from the back. A run is first merged with the one before it if that one is
shorter than the run behind it. -/
def mergeAll (lt : α → α → Except ε Bool) (threshold : Nat) (newest : List α) :
    List (List α × Nat) → Except ε (List α)
  | [] => .ok newest
  | [(run, _)] => do return (← joinRuns lt threshold run newest).2
  | (run, deep) :: (earlier, deeper) :: before => do
    if earlier.length < newest.length then
      let (threshold, run) ← joinRuns lt threshold earlier run
      mergeAll lt threshold newest ((run, deep) :: before)
    else
      let (threshold, newest) ← joinRuns lt threshold run newest
      mergeAll lt threshold newest ((earlier, deeper) :: before)
termination_by before => before.length

end Runs

/-- Cuts the rest of a list of `total` items into runs and merges all of them. -/
def sortBehind (lt : α → α → Except ε Bool) (total : Nat) (r : Runs α) :
    List α → Except ε (List α)
  | [] => Runs.mergeAll lt r.threshold r.newest r.before
  | x :: xs =>
    match _cut : nextRun lt (leastRun total) (x :: xs) with
    | .error e => .error e
    | .ok (run, rest) => do sortBehind lt total (← r.push lt total run) rest
termination_by rest => rest.length
decreasing_by exact length_nextRun_lt _cut

namespace Runs

theorem mergeDeeper_perm {lt : α → α → Except ε Bool} {boundary threshold : Nat}
    {newest : List α} {before : List (List α × Nat)} {r : Runs α}
    (merged : mergeDeeper lt boundary threshold newest before = .ok r) :
    r.items.Perm (itemsOf before ++ newest) := by
  induction before generalizing threshold newest with
  | nil => cases merged; exact List.Perm.refl _
  | cons entry before ih =>
    obtain ⟨run, deep⟩ := entry
    rw [mergeDeeper] at merged
    split at merged
    · obtain ⟨⟨later, joined⟩, join, merged⟩ := bind_eq_ok.mp merged
      refine (ih merged).trans ?_
      rw [itemsOf, List.append_assoc]
      exact List.Perm.append_left _ (joinRuns_perm join)
    · cases merged
      exact List.Perm.refl _

theorem push_perm {lt : α → α → Except ε Bool} {total : Nat} {r pushed : Runs α} {run : List α}
    (result : r.push lt total run = .ok pushed) : pushed.items.Perm (r.items ++ run) := by
  obtain ⟨merged, inner, result⟩ := bind_eq_ok.mp result
  cases result
  exact List.Perm.append_right run (mergeDeeper_perm inner)

theorem mergeAll_perm {lt : α → α → Except ε Bool} {threshold : Nat} {newest sorted : List α}
    {before : List (List α × Nat)} (merged : mergeAll lt threshold newest before = .ok sorted) :
    sorted.Perm (itemsOf before ++ newest) := by
  fun_induction mergeAll lt threshold newest before with
  | case1 => cases merged; exact List.Perm.refl _
  | case2 threshold newest run _ =>
    obtain ⟨⟨later, joined⟩, join, merged⟩ := bind_eq_ok.mp merged
    cases merged
    exact joinRuns_perm join
  | case3 threshold newest run deep earlier deeper before _ ih =>
    obtain ⟨⟨later, joined⟩, join, merged⟩ := bind_eq_ok.mp merged
    refine (ih later joined merged).trans ?_
    rw [itemsOf, itemsOf, itemsOf, List.append_assoc (itemsOf before) earlier run]
    exact List.Perm.append_right _ (List.Perm.append_left _ (joinRuns_perm join))
  | case4 threshold newest run deep earlier deeper before _ ih =>
    obtain ⟨⟨later, joined⟩, join, merged⟩ := bind_eq_ok.mp merged
    refine (ih later joined merged).trans ?_
    rw [itemsOf, itemsOf, List.append_assoc _ run]
    exact List.Perm.append_left _ (joinRuns_perm join)

end Runs

theorem sortBehind_perm {lt : α → α → Except ε Bool} {total : Nat} {r : Runs α}
    {rest sorted : List α} (done : sortBehind lt total r rest = .ok sorted) :
    sorted.Perm (r.items ++ rest) := by
  fun_induction sortBehind lt total r rest with
  | case1 => rw [List.append_nil]; exact Runs.mergeAll_perm done
  | case2 => cases done
  | case3 r x xs run rest cut ih =>
    obtain ⟨pushed, push, done⟩ := bind_eq_ok.mp done
    refine (ih pushed done).trans ?_
    refine (List.Perm.append_right rest (Runs.push_perm push)).trans ?_
    rw [List.append_assoc]
    exact List.Perm.append_left _ (nextRun_perm cut)

end Sorting

/-- Sorts a list; items that tie keep their order. -/
def stableSort {ε α : Type} (lt : α → α → Except ε Bool) (xs : List α) : Except ε (List α) := do
  let (run, rest) ← Sorting.nextRun lt (Sorting.leastRun xs.length) xs
  Sorting.sortBehind lt xs.length (.first run) rest

/-- Sorting puts the items in another order and does nothing else. -/
theorem stableSort_perm {ε α : Type} {lt : α → α → Except ε Bool} {xs ys : List α}
    (sorted : stableSort lt xs = .ok ys) : ys.Perm xs := by
  obtain ⟨⟨run, rest⟩, cut, sorted⟩ := bind_eq_ok.mp sorted
  exact (Sorting.sortBehind_perm sorted).trans (Sorting.nextRun_perm cut)

end SortedCollections
