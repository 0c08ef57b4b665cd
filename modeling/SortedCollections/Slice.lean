/-!
# Stretches of a list, with bounds counted from either end

A bound counts from the front of a list if it is not negative, and from the end if it is. A bound
beyond one of the ends stands for that end, so every two bounds mark out a stretch, which may be
empty.
-/
namespace SortedCollections

namespace Slice

variable {α : Type}

/-- The place in a list of `size` items that a bound stands for. -/
def place (size : Nat) (bound : Int) : Nat :=
  if bound < 0 then (bound + size).toNat else min bound.toNat size

def before (xs : List α) (stop : Int) : List α := xs.take (place xs.length stop)

def behind (xs : List α) (start : Int) : List α := xs.drop (place xs.length start)

/-- The items from one bound on and before another one. -/
def between (xs : List α) (start stop : Int) : List α :=
  (before xs stop).drop (place xs.length start)

/-- Puts items in the place of a stretch. Where the stretch ends before it begins, they are put in
front of its beginning. -/
def replace (xs : List α) (start stop : Int) (items : List α) : List α :=
  let first := place xs.length start
  xs.take first ++ items ++ xs.drop (max first (place xs.length stop))

/-- Can a position be asked for at all? Positions are numbers of 64 bits with a sign. -/
def isIndex (i : Int) : Bool := -Int.pow 2 63 ≤ i ∧ i < Int.pow 2 63

/-- The position of a single item counted from either end, if there is such an item. -/
def position? (size : Nat) (i : Int) : Option Nat :=
  if i < 0 then
    if 0 ≤ i + size then some (i + size).toNat else none
  else
    if i < size then some i.toNat else none

/-- The bound of a walk along `size` items, kept to where a walk in its direction can start or
stop. -/
def walkBound (size : Int) (forward : Bool) (bound : Int) : Int :=
  let least := if forward then 0 else -1
  let most := if forward then size else size - 1
  let bound := if bound < 0 then bound + size else bound
  max least (min most bound)

/-- Every `step`-th item from one bound up to, but not including, another one. Missing bounds are
the ends of the list. A step of zero leads nowhere. -/
def walk (xs : List α) (start stop : Option Int) (step : Int) : List α :=
  let size : Int := xs.length
  let forward : Bool := 0 < step
  let first := (start.map (walkBound size forward)).getD (if forward then 0 else size - 1)
  let last := (stop.map (walkBound size forward)).getD (if forward then size else -1)
  let distance := (if forward then last - first else first - last).toNat
  let count := (distance + step.natAbs - 1) / step.natAbs
  (List.range count).filterMap fun k : Nat => xs[(first + step * (k : Int)).toNat]?

theorem place_natCast (size n : Nat) : place size (n : Int) = min n size := by
  rw [place, if_neg (by omega), Int.toNat_natCast]

theorem before_natCast (xs : List α) (n : Nat) : before xs (n : Int) = xs.take n := by
  rw [before, place_natCast]
  exact List.take_eq_take_min.symm

theorem behind_natCast (xs : List α) (n : Nat) : behind xs (n : Int) = xs.drop n := by
  rw [behind, place_natCast]
  by_cases inside : n ≤ xs.length
  · rw [Nat.min_eq_left inside]
  · rw [List.drop_eq_nil_of_le (by omega), List.drop_eq_nil_of_le (by omega)]

theorem between_natCast (xs : List α) (m n : Nat) :
    between xs (m : Int) (n : Int) = (xs.take n).drop m := by
  rw [between, before_natCast, place_natCast]
  by_cases inside : m ≤ xs.length
  · rw [Nat.min_eq_left inside]
  · have short := List.length_take_le' n xs
    rw [List.drop_eq_nil_of_le (by omega), List.drop_eq_nil_of_le (by omega)]

theorem replace_natCast (xs : List α) {m n : Nat} (order : m ≤ n) (inside : m ≤ xs.length)
    (items : List α) :
    replace xs (m : Int) (n : Int) items = xs.take m ++ items ++ xs.drop n := by
  rw [replace, place_natCast, place_natCast, Nat.min_eq_left inside]
  by_cases within : n ≤ xs.length
  · rw [Nat.min_eq_left within, Nat.max_eq_right order]
  · rw [List.drop_eq_nil_of_le (by omega : xs.length ≤ n),
      List.drop_eq_nil_of_le (by omega : xs.length ≤ max m (min n xs.length))]

theorem position?_natCast {size n : Nat} (inside : n < size) :
    position? size (n : Int) = some n := by
  rw [position?, if_neg (by omega), if_pos (by omega), Int.toNat_natCast]

end Slice

end SortedCollections
