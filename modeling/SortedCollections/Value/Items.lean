import SortedCollections.Value.Failure

/-!
# Items of values

What a value holds: its items in order, its length, the two halves of a pair, and whether it can
be a key of an unordered set or a dictionary.
-/
namespace SortedCollections

namespace Value

/-- The items of a value, if it holds any. A text holds its characters, a map its keys. -/
def items? : Value → Option (List Value)
  | .text s => some (s.toList.map fun c => .text (String.ofList [c]))
  | .list items | .tuple items | .hashSet items | .sortedSet items => some items
  | .dict entries | .sortedMap entries => some (entries.map Prod.fst)
  | _ => Option.none

def items (v : Value) : Except Failure (List Value) :=
  match v.items? with
  | some items => .ok items
  | Option.none => .error (.notIterable v.kind)

/-- Reads a value as a pair. Anything with exactly two items is one. A map with a default has
values under more than two positions. -/
def toPair (v : Value) : Except Failure (Value × Value) :=
  match v, v.items? with
  | _, some [a, b] => .ok (a, b)
  | _, some (_ :: _ :: _) => .error .tooManyToUnpack
  | _, some short => .error (.notEnoughToUnpack short.length)
  | .defaultMap _ _, Option.none => .error .tooManyToUnpack
  | _, Option.none => .error (.cannotUnpack v.kind)

/-- Values that are pairs of any make, written as tuples. -/
def pairView : PairView Failure Value Value Value where
  read := toPair
  write := pair

/-- The entries of a collection whose items are pairs. A map that lists its entries does so
itself; anything else is read item by item. -/
def entries? : Value → Option (Except Failure (List (Value × Value)))
  | .dict entries | .sortedMap entries => some (.ok entries)
  | v => v.items?.map fun items => items.mapM toPair

def length (v : Value) : Except Failure Nat :=
  match v with
  | .text s => .ok s.length
  | _ =>
    match v.items? with
    | some items => .ok items.length
    | Option.none => .error (.noLength v.kind)

/-- The items of a value, last to first. Unordered sets have no last item; a map with a default
can be asked for values by position, but not for how many there are. -/
def reversedItems (v : Value) : Except Failure (List Value) :=
  match v with
  | .hashSet _ => .error (.notReversible v.kind)
  | .defaultMap _ _ => .error (.noLength v.kind)
  | _ =>
    match v.items? with
    | some items => .ok items.reverse
    | Option.none => .error (.notReversible v.kind)

mutual

/-- The kind for which a value cannot be a key of an unordered set or a dictionary, if any. -/
def unhashablePart : Value → Option Kind
  | .tuple items => unhashableItem items
  | .list _ => some .list
  | .hashSet _ => some .hashSet
  | .dict _ => some .dict
  | .sortedSet _ => some .sortedSet
  | .sortedMap _ => some .sortedMap
  | .cofiniteSet _ _ => some .cofiniteSet
  | .defaultMap _ _ => some .defaultMap
  | _ => Option.none

def unhashableItem : List Value → Option Kind
  | [] => Option.none
  | x :: xs =>
    match x.unhashablePart with
    | some kind => some kind
    | Option.none => unhashableItem xs

end

/-- Refuses a value that cannot be a key. -/
def requireHashable (v : Value) : Except Failure Unit :=
  match v.unhashablePart with
  | some kind => .error (.unhashable kind)
  | Option.none => .ok ()

end Value

end SortedCollections
