import SortedCollections.Value.Order

/-!
# Looking values up

What a value holds at a position or under a key, whether it holds a given value at all, and what it
becomes when something is put at a position or under a key, or removed from there.
-/
namespace SortedCollections

namespace Value

/-- The position of one of a number of items that a value stands for. -/
def positionOf (size : Nat) (index : Value) (outside : Failure) : Except Failure Nat :=
  match index.int? with
  | some i =>
    if Slice.isIndex i then
      match Slice.position? size i with
      | some k => .ok k
      | Option.none => .error outside
    else
      .error .noIndex
  | Option.none => .error (.notAnIndex index.kind)

/-- The item of a list at the position that a value stands for. -/
def atPosition (items : List Value) (index : Value) (outside : Failure) :
    Except Failure Value := do
  let k ← positionOf items.length index outside
  match items[k]? with
  | some item => return item
  | Option.none => throw outside

/-- The value that a map gave for a key, which must be there. -/
def present (key : Value) (found : Option Value) : Except Failure Value :=
  match found with
  | some value => .ok value
  | Option.none => .error (.keyMissing key)

/-- The characters of a text, each as a text. -/
def characters (s : String) : List Value := s.toList.map fun c => .text (String.ofList [c])

/-- The value at a position of a list, a set, a tuple or a text, or under a key of a map. -/
def subscript (v key : Value) : Except Failure Value :=
  match v with
  | .list items | .sortedSet items => atPosition items key .listIndexOutOfRange
  | .tuple items => atPosition items key .tupleIndexOutOfRange
  | .text s => atPosition (characters s) key .textIndexOutOfRange
  | .dict entries => do
    key.requireHashable
    present key (← parts.valueIn key entries)
  | .sortedMap entries => do
    present key (← Failure.lift (SortedMap.get? order ⟨entries⟩ key))
  | .defaultMap entries fallback => .ok (DefaultMap.get order ⟨⟨entries⟩, fallback⟩ key)
  | _ => .error (.notSubscriptable v.kind)

/-- The value at position zero or under the key zero. -/
def first (v : Value) : Except Failure Value := v.subscript (.int 0)

/-- Why nothing can be put into a value or removed from it. A value with items is asked for the
position first. -/
def fixed (v key : Value) : Failure :=
  match v with
  | .none | .bool _ | .int _ | .double _ | .notANumber _ => .notSubscriptable v.kind
  | _ => if key.int?.any (!Slice.isIndex ·) then .noIndex else .notSubscriptable v.kind

def put (v key value : Value) : Except Failure Value :=
  match v with
  | .list items => do
    return .list (items.set (← positionOf items.length key .storeOutOfRange) value)
  | .dict entries => do return .dict (← parts.dictOf (entries ++ [(key, value)]))
  | .sortedMap entries => do
    return ofMap (← Failure.lift (SortedMap.insert order ⟨entries⟩ key value)).2
  | .defaultMap entries fallback => do
    return ofDefaultMap
      (← Failure.lift (DefaultMap.set order same ⟨⟨entries⟩, fallback⟩ key value))
  | _ => .error (v.fixed key)

/-- Removes what is at a position or under a key. A map with a default gives the key its default
again. -/
def erase (v key : Value) : Except Failure Value :=
  match v with
  | .list items => do
    return .list (items.eraseIdx (← positionOf items.length key .storeOutOfRange))
  | .dict entries => do
    let _ ← v.subscript key
    return .dict (← entries.filterM fun entry => do return !(← parts.alike entry.1 key))
  | .sortedMap entries => do
    match ← Failure.lift (SortedMap.erase? order ⟨entries⟩ key) with
    | some m => return ofMap m
    | Option.none => throw (.keyMissing key)
  | .defaultMap entries fallback =>
    .ok (ofDefaultMap (DefaultMap.reset order ⟨⟨entries⟩, fallback⟩ key))
  | _ => .error (v.fixed key)

/-- A bound of a stretch: a whole number, or nothing. -/
def bound (v : Value) : Except Failure (Option Int) :=
  match v, v.int? with
  | .none, _ => .ok Option.none
  | _, some i => .ok (some i)
  | _, Option.none => .error (.notAnIndex v.kind)

/-- The items of a list from `start` up to, but not including, `stop`, every `step`-th. -/
def walk (items : List Value) (start stop step : Value) : Except Failure (List Value) := do
  let step := (← step.bound).getD 1
  if step = 0 then
    throw .zeroSliceStep
  let start ← start.bound
  return Slice.walk items start (← stop.bound) step

/-- A stretch of a list, a tuple, a text or a sorted set. A map takes the bounds for a key, which
is none that compares with any other. -/
def slice (v start stop step : Value) : Except Failure Value :=
  match v with
  | .list items | .sortedSet items => do return .list (← walk items start stop step)
  | .tuple items => do return .tuple (← walk items start stop step)
  | .text s => do
    let parts ← walk (characters s) start stop step
    return .text (String.join (parts.map asText))
  | .dict _ => .error (.unhashable .slice)
  | .sortedMap entries =>
    match entries[entries.length / 2]? with
    | some (key, _) => .error (.unordered .lt key.kind .slice)
    | Option.none => .error (.notSubscriptable v.kind)
  | .defaultMap _ fallback => .ok fallback
  | _ => .error (.notSubscriptable v.kind)

/-- One more than the greatest position under which a map stores a value. -/
def positionsOf (entries : List (Value × Value)) : Nat :=
  (entries.map fun entry => ((entry.1.number?.map Number.ceiling).getD 0).toNat + 1).foldl max 0

/-- Is a value equal to what a map with a default holds under one of the numbers from `k` on, `n` of
them? -/
def isUnderPosition (m : DefaultMap Value Value) (v : Value) (k : Nat) : Nat → Except Failure Bool
  | 0 => .ok false
  | n + 1 => do
    if ← parts.alike (m.get order (.int k)) v then return true else isUnderPosition m v (k + 1) n

/-- Is a value in a collection? A finite or cofinite set holds, or lacks, anything at all. A map
with a default is asked under the numbers from zero on, up to one that it does not store. -/
def holds (collection v : Value) : Except Failure Bool :=
  match collection with
  | .list items | .tuple items => parts.isAmong v items
  | .hashSet items => parts.isInHashSet items v
  | .dict entries => do
    v.requireHashable
    parts.isAmong v (entries.map Prod.fst)
  | .sortedSet items => .ok (SortedSet.contains order ⟨items⟩ v)
  | .sortedMap entries => .ok (SortedMap.contains order ⟨entries⟩ v)
  | .cofiniteSet items negated => .ok (CofiniteSet.contains order ⟨⟨items⟩, negated⟩ v)
  | .defaultMap entries fallback =>
    isUnderPosition ⟨⟨entries⟩, fallback⟩ v 0 (positionsOf entries + 1)
  | .text s =>
    match v with
    | .text part => .ok ((s.splitOn part).length > 1 || part.isEmpty)
    | _ => .error .wrongArguments
  | _ => .error (.notACollectionToSearch collection.kind)

end Value

end SortedCollections
