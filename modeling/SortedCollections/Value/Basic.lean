import SortedCollections.CofiniteSet
import SortedCollections.DefaultMap
import SortedCollections.Number.Basic

/-!
# Values

The containers of a session hold values of any kind: nothing at all, truth values, whole numbers
of any size, doubles, text, lists, tuples, unordered sets and dictionaries, and containers.
-/
namespace SortedCollections

inductive Value where
  /-- No value. -/
  | none
  /-- The mark for a side of a join that does not have the key. -/
  | missing
  | bool (b : Bool)
  | int (n : Int)
  | double (x : Float)
  /-- What arithmetic gives where there is no number to give. It is equal to nothing; but a
  container knows the one that it holds, by its mark. All that are results bear the mark zero. -/
  | notANumber (mark : Nat)
  | text (s : String)
  | list (items : List Value)
  | tuple (items : List Value)
  /-- An unordered set: distinct items, in the order in which the set lists them. -/
  | hashSet (items : List Value)
  /-- A dictionary: entries with distinct keys, in the order in which they came. -/
  | dict (entries : List (Value × Value))
  | sortedSet (items : List Value)
  | sortedMap (entries : List (Value × Value))
  | cofiniteSet (items : List Value) (negated : Bool)
  | defaultMap (entries : List (Value × Value)) (fallback : Value)

inductive Kind where
  | none
  | missing
  | bool
  | int
  | double
  | text
  | list
  | tuple
  | hashSet
  | dict
  | sortedSet
  | sortedMap
  | cofiniteSet
  | defaultMap
  /-- No value, but the bounds by which a stretch of one is asked for. -/
  | slice
  deriving Repr, DecidableEq

/-- The name of a kind in messages. -/
def Kind.name : Kind → String
  | .none => "NoneType"
  | .missing => "_Missing"
  | .bool => "bool"
  | .int => "int"
  | .double => "float"
  | .text => "str"
  | .list => "list"
  | .tuple => "tuple"
  | .hashSet => "set"
  | .dict => "dict"
  | .sortedSet => "FlatSet"
  | .sortedMap => "FlatMap"
  | .cofiniteSet => "TotalSet"
  | .defaultMap => "TotalMap"
  | .slice => "slice"

namespace Value

instance : Inhabited Value := ⟨.none⟩

def kind : Value → Kind
  | .none => .none
  | .missing => .missing
  | .bool _ => .bool
  | .int _ => .int
  | .double _ | .notANumber _ => .double
  | .text _ => .text
  | .list _ => .list
  | .tuple _ => .tuple
  | .hashSet _ => .hashSet
  | .dict _ => .dict
  | .sortedSet _ => .sortedSet
  | .sortedMap _ => .sortedMap
  | .cofiniteSet _ _ => .cofiniteSet
  | .defaultMap _ _ => .defaultMap

def pair (a b : Value) : Value := .tuple [a, b]

def ofEntry (entry : Value × Value) : Value := pair entry.1 entry.2

def ofEntries (entries : List (Value × Value)) : List Value := entries.map ofEntry

def ofSet (s : SortedSet Value) : Value := .sortedSet s.items

def ofMap (m : SortedMap Value Value) : Value := .sortedMap m.entries

def ofCofinite (s : CofiniteSet Value) : Value := .cofiniteSet s.elements.items s.negated

def ofDefaultMap (m : DefaultMap Value Value) : Value := .defaultMap m.entries.entries m.default

/-- The number that a value is; truth values count as one and zero. -/
def number? : Value → Option Number
  | .bool b => some (.int (if b then 1 else 0))
  | .int n => some (.int n)
  | .double x => some (.double x)
  | .notANumber _ => some (.double Double.nan)
  | _ => Option.none

def ofNumber : Number → Value
  | .int n => .int n
  | .double x => if x.isNaN then .notANumber 0 else .double x

/-- The text that a value is. -/
def asText : Value → String
  | .text s => s
  | _ => ""

/-- The whole number that a value is. -/
def int? : Value → Option Int
  | .bool b => some (if b then 1 else 0)
  | .int n => some n
  | _ => Option.none

def isContainer : Value → Bool
  | .sortedSet _ | .sortedMap _ | .cofiniteSet _ _ | .defaultMap _ _ => true
  | _ => false

/-- Is the value a set whose items can all be counted? -/
def isFiniteSet : Value → Bool
  | .hashSet _ | .sortedSet _ => true
  | _ => false

/-- Does the value map finitely many keys? -/
def isFiniteMap : Value → Bool
  | .dict _ | .sortedMap _ => true
  | _ => false

/-- The truth of a value: zeros and empty things are false. -/
def truth : Value → Bool
  | .none => false
  | .missing | .notANumber _ => true
  | .bool b => b
  | .int n => n != 0
  | .double x => !(Number.double x).isZero
  | .text s => !s.isEmpty
  | .list items | .tuple items | .hashSet items | .sortedSet items => !items.isEmpty
  | .dict entries | .sortedMap entries => !entries.isEmpty
  | .cofiniteSet _ _ | .defaultMap _ _ => true

mutual

/-- How deep a value is nested. -/
def depth : Value → Nat
  | .list items | .tuple items | .hashSet items | .sortedSet items | .cofiniteSet items _ =>
    depthOfList items + 1
  | .dict entries | .sortedMap entries => depthOfEntries entries + 1
  | .defaultMap entries fallback => max (depthOfEntries entries) fallback.depth + 1
  | _ => 0

/-- The greatest depth of a list's items. -/
def depthOfList : List Value → Nat
  | [] => 0
  | x :: xs => max x.depth (depthOfList xs)

/-- The greatest depth of a list's keys and values. -/
def depthOfEntries : List (Value × Value) → Nat
  | [] => 0
  | (k, v) :: rest => max (max k.depth v.depth) (depthOfEntries rest)

end

end Value

end SortedCollections
