import SortedCollections.Comparison

/-!
# Searching a window of a sorted list

A window `[lo, hi)` of a list is searched by halving. Only the keys of items inside the window
are compared with the value sought, so what stands outside may be arbitrary.

The halving asks `key < value`; the final test for a hit asks `value < key`. The two questions
are asked in these directions because keys and value may be of kinds that compare one way only.
-/
namespace SortedCollections

variable {ε α κ : Type}

def itemAt (data : List α) (i : Nat) : Except (Fault ε) α :=
  match data[i]? with
  | some x => .ok x
  | none => .error .readPastEnd

theorem itemAt_of_lt {data : List α} {i : Nat} (inside : i < data.length) :
    itemAt data i = (.ok data[i] : Except (Fault ε) α) := by
  rw [itemAt, List.getElem?_eq_getElem inside]

/-- The first position of the window whose key is not less than the value. -/
def bisect (cmp : Comparison ε κ) (key : α → Except ε κ) (data : List α) (value : κ)
    (lo hi : Nat) : Except (Fault ε) Nat :=
  if lo < hi then do
    let mid := (lo + hi) / 2
    let k ← Fault.lift (key (← itemAt data mid))
    if ← Fault.lift (cmp.lt k value) then
      bisect cmp key data value (mid + 1) hi
    else
      bisect cmp key data value lo mid
  else
    .ok lo
termination_by hi - lo
decreasing_by all_goals omega

/-- A search ends inside its window, whatever the comparison answers. -/
theorem bisect_bounds {cmp : Comparison ε κ} {key : α → Except ε κ} {data : List α} {value : κ}
    {lo hi i : Nat} (window : lo ≤ hi) (found : bisect cmp key data value lo hi = .ok i) :
    lo ≤ i ∧ i ≤ hi := by
  fun_induction bisect cmp key data value lo hi with
  | case1 lo hi less mid right left =>
    obtain ⟨x, _, found⟩ := bind_eq_ok.mp found
    obtain ⟨k, _, found⟩ := bind_eq_ok.mp found
    obtain ⟨below, _, found⟩ := bind_eq_ok.mp found
    have middle : lo ≤ mid ∧ mid < hi := by omega
    cases below with
    | false =>
      have inside := left middle.1 found
      omega
    | true =>
      have inside := right middle.2 found
      omega
  | case2 lo hi less => cases found; exact ⟨Nat.le_refl _, window⟩

/-- Is the value not less than the key at a position? At the insertion point of the value this
says that the two tie. -/
def tiesAt (cmp : Comparison ε κ) (key : α → Except ε κ) (data : List α) (value : κ) (i : Nat) :
    Except (Fault ε) Bool := do
  let k ← Fault.lift (key (← itemAt data i))
  return !(← Fault.lift (cmp.lt value k))

/-- The insertion point of a value within a window, and whether the value is there. An equal item
just behind the window does not count. -/
def findIn (cmp : Comparison ε κ) (key : α → Except ε κ) (data : List α) (value : κ)
    (lo hi : Nat) : Except (Fault ε) (Nat × Bool) := do
  let i ← bisect cmp key data value lo hi
  if i = hi then
    return (i, false)
  else
    return (i, ← tiesAt cmp key data value i)

/-- The insertion point of a value within a whole list, and whether the value is there. -/
def find (cmp : Comparison ε κ) (key : α → Except ε κ) (data : List α) (value : κ) :
    Except (Fault ε) (Nat × Bool) :=
  findIn cmp key data value 0 data.length

/-- A search within bounds that were not checked beforehand. A negative start is refused. Only a
search that ends exactly at `hi` misses for certain; every other answer is compared. A bound of
`-1` searches to the end of the list but is a place where no search can end. -/
def search (cmp : Comparison ε κ) (key : α → Except ε κ) (data : List α) (value : κ)
    (lo hi : Int) : Except (Fault ε) (Nat × Bool) := do
  if lo < 0 then
    throw .negativeStart
  let i ← bisect cmp key data value lo.toNat (if hi = -1 then data.length else hi.toNat)
  if (i : Int) = hi then
    return (i, false)
  else
    return (i, ← tiesAt cmp key data value i)

end SortedCollections
