import SortedCollections.Value.Lookup
import SortedCollections.Value.Operators

/-!
# Operators that assign their result

An operator that assigns works like the operator without assignment, but for two kinds of values
that change in place: a list takes in the items of whatever has items, and a dictionary takes in
entries. What a dictionary has taken in stays when a later entry fails.
-/
namespace SortedCollections

namespace Value

/-- A change of a value in place. -/
abbrev Change : Type := EStateM Failure Value Unit

def replaceBy (result : Except Failure Value) : Change := do
  set (← MonadExcept.ofExcept result)

/-- Reads a value as an entry of a dictionary. -/
def toEntry (v : Value) : Except Failure (Value × Value) :=
  match v, v.items? with
  | _, some [key, value] => .ok (key, value)
  | _, some _ => .error .notAnEntry
  | .defaultMap _ _, Option.none => .error .notAnEntry
  | _, Option.none => .error .wrongArguments

/-- Takes entries into a dictionary, one after the other: those of a map, by its keys, or the pairs
in any other collection. -/
def takeEntries (v : Value) : Change := do
  let one (read : Except Failure (Value × Value)) : Change := do
    let (key, value) ← MonadExcept.ofExcept read
    replaceBy ((← get).put key value)
  match v with
  | .dict entries | .sortedMap entries =>
    entries.forM fun (key, _) => one do return (key, ← v.subscript key)
  | .defaultMap _ _ => one do (← v.first).toEntry
  | _ => (← MonadExcept.ofExcept v.items).forM fun item => one item.toEntry

/-- Combines the value with another one by an operator, and keeps the result in its place. -/
def assign (op : Operator) (b : Value) : Change := do
  let a ← get
  match a, op with
  | .dict _, .or => takeEntries b
  | _, _ =>
    match offered? (operationInside a b) op a b, a, op with
    | some answer, _, _ => replaceBy answer
    | _, .list items, .add => replaceBy do return .list (items ++ (← b.items))
    | _, _, _ =>
      replaceBy ((sequenceResult op a b).getD (.error (.unsupportedAssignment op a.kind b.kind)))

end Value

end SortedCollections
