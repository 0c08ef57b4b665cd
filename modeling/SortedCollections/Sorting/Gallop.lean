import SortedCollections.Comparison

/-!
# Where a test stops passing

The items that pass a test are known to be at the front of a list. Their number is found by
halving, or by galloping: the positions 0, 1, 3, 7 and so on are looked at until one fails, and the
place is then found by halving the last stride. Galloping is quick if the place is near the front.

A list may be a run that is walked from its end. Halving then takes the upper one of two middle
positions, so that it looks at the same items as halving the run itself.
-/
namespace SortedCollections

namespace Sorting

variable {ε α : Type}

/-- The end from which a run is walked. -/
inductive Direction where
  | forward
  | backward
  deriving Repr, DecidableEq

/-- The position at which a stretch of a walked run is halved. -/
def Direction.middle : Direction → Nat → Nat → Nat
  | .forward, lo, hi => lo + (hi - lo) / 2
  | .backward, lo, hi => hi - 1 - (hi - lo) / 2

theorem Direction.middle_bounds (d : Direction) {lo hi : Nat} (less : lo < hi) :
    lo ≤ d.middle lo hi ∧ d.middle lo hi < hi := by
  cases d with
  | forward => simp only [middle]; omega
  | backward => simp only [middle]; omega

/-- The first position in `[lo, hi)` whose item fails the test, found by halving. -/
def boundary (d : Direction) (test : α → Except ε Bool) (xs : List α) (lo hi : Nat)
    (bound : hi ≤ xs.length) : Except ε Nat :=
  if h : lo < hi then do
    let mid := d.middle lo hi
    have middle := d.middle_bounds h
    have inside : mid < xs.length := by omega
    if ← test xs[mid] then
      boundary d test xs (mid + 1) hi bound
    else
      boundary d test xs lo mid (by omega)
  else
    .ok lo
termination_by hi - lo
decreasing_by all_goals omega

/-- How many items at the front of a list pass the test, found by halving. -/
def halve (d : Direction) (test : α → Except ε Bool) (xs : List α) : Except ε Nat :=
  boundary d test xs 0 xs.length (Nat.le_refl _)

/-- Goes on galloping: the item at `last` has passed, the one at `next` is looked at next. -/
def gallopFrom (d : Direction) (test : α → Except ε Bool) (xs : List α) (last next : Nat) :
    Except ε Nat :=
  if h : next < xs.length then do
    if ← test xs[next] then
      gallopFrom d test xs next (2 * next + 1)
    else
      boundary d test xs (last + 1) next (Nat.le_of_lt h)
  else
    boundary d test xs (last + 1) xs.length (Nat.le_refl _)
termination_by xs.length - next
decreasing_by omega

/-- How many items at the front of a list pass the test, found by galloping. -/
def gallop (d : Direction) (test : α → Except ε Bool) : List α → Except ε Nat
  | [] => .ok 0
  | x :: xs => do
    if ← test x then
      gallopFrom d test (x :: xs) 0 1
    else
      return 0

end Sorting

end SortedCollections
