import SortedCollections.Merge.Relation
import SortedCollections.Runs
import SortedCollections.SortedMap
import SortedCollections.Value.Lookup

/-!
# Lists of values

Searching, sorting and merging of lists whose items are values of any kind. Items may be compared
by a key that is computed from them, and be read as pairs.
-/
namespace SortedCollections

namespace Value

/-- A key computed from a value. -/
abbrev Key : Type := Value → Except Failure Value

/-- Values that are their own keys. -/
def ownKey : Key := .ok

/-- What a fault means for the text, tuple or list that was searched. -/
def searchFailure (data : Value) : Fault Failure → Failure
  | .readPastEnd =>
    match data with
    | .text _ => .textIndexOutOfRange
    | .tuple _ => .tupleIndexOutOfRange
    | _ => .listIndexOutOfRange
  | fault => .ofFault fault

/-- A bound of a search. -/
def searchBound (v : Value) : Except Failure Int :=
  match v.int? with
  | some i => if Slice.isIndex i then .ok i else .error .overflow
  | Option.none => .error (.notAnIndex v.kind)

/-- A search in something whose items do not stand at positions. It has an answer only if no item
has to be looked at before the place of the value is known. -/
def searchWithoutItems (data value : Value) (lo hi : Int) (key : Key) :
    Except Failure (Nat × Bool) := do
  if lo < 0 then
    throw .negativeStart
  let stop ← if hi = -1 then Int.ofNat <$> data.length else pure hi
  if lo < stop then
    throw (.notSubscriptable data.kind)
  else if lo = hi then
    return (lo.toNat, false)
  else
    let found ← key (← data.subscript (.int lo))
    return (lo.toNat, !(← relate .lt value found))

/-- The insertion point of a value within the bounds of a list, a tuple or a text, and whether the
value is there. -/
def search (data value lo : Value) (hi : Option Value) (key : Key) :
    Except Failure (Nat × Bool) := do
  let stop ←
    match hi with
    | some hi => pure hi
    | Option.none => do pure (.int (← data.length))
  let lo ← lo.searchBound
  let hi ← stop.searchBound
  match data with
  | .text _ | .list _ | .tuple _ =>
    (SortedCollections.search order key (← data.items) value lo hi).mapError
      (searchFailure data)
  | _ => searchWithoutItems data value lo hi key

def isStrictlySorted (data : Value) (key : Key) : Except Failure Bool := do
  SortedCollections.isStrictlySorted order key (← data.items)

def sortDedup (data : Value) (key : Key) (keep : Keep) : Except Failure (List Value) := do
  Failure.lift (SortedCollections.sortDedup order key keep (← data.items))

def sortCombine (data : Value) (f : Value → Value → Except Failure Value) :
    Except Failure (List Value) := do
  return ofEntries (← Failure.lift (SortedCollections.sortCombine order first pairView f
    (← data.items)))

abbrev MergeOperation : Type := SortedCollections.Operation Failure Value Value

/-- A rule on sets; items are compared as they are, or by the first of their parts. -/
def setOperation (rule : SetRule) (keyed : Bool) : MergeOperation :=
  ⟨if keyed then first else ownKey, .ofRule rule⟩

/-- A rule on maps, for lists of pairs. -/
def mapOperation (rule : MapRule Failure Value Value) : MergeOperation :=
  ⟨first, rule.policy pairView⟩

/-- The combination of two maps with defaults, for lists of pairs. -/
def pointwiseOperation (f : Value → Value → Except Failure Value)
    (leftDefault rightDefault resultDefault : Value) : MergeOperation :=
  ⟨first, .pointwise pairView
    { eq := same, combine := f, leftDefault, rightDefault, resultDefault }⟩

/-- An operation that says nothing. -/
def absentOperation : MergeOperation := ⟨ownKey, .absent⟩

end Value

end SortedCollections
