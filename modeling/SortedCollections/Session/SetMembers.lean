import SortedCollections.Session.MemberCall

/-!
# Members of sorted sets

The members by which a session works on a sorted set, by name.
-/
namespace SortedCollections

namespace SetMembers

open MemberCall

abbrev Member : Type := MemberCall (SortedSet Value) Value

/-- The members that combine a set with others, and whether they take any number of others. -/
def combining? : String → Option (SetRule × Bool)
  | "union" => some (.union, true)
  | "intersection" => some (.intersection, true)
  | "difference" => some (.difference, true)
  | "symmetric_difference" => some (.symmetricDifference, false)
  | _ => none

/-- The members that combine a set with others in place. -/
def updating? : String → Option (SetRule × Bool)
  | "update" => some (.union, true)
  | "intersection_update" => some (.intersection, true)
  | "difference_update" => some (.difference, true)
  | "symmetric_difference_update" => some (.symmetricDifference, false)
  | _ => none

def onValue? : String → Option (Value → Member)
  | "add" => some fun x => do
    set (← answer ((← get).insert Value.order x))
    return .none
  | "discard" => some fun x => do
    set (← answer ((← get).discard Value.order x))
    return .none
  | "remove" => some fun x => do
    match ← answer ((← get).erase? Value.order x) with
    | some s =>
      set s
      return .none
    | none => throw (.keyMissing x)
  | _ => none

/-- The members that compare a set with a collection. -/
def relating? : String → Option (Argument → Member)
  | "isdisjoint" => some fun x => do
    return .bool (← answer ((← get).isDisjointFrom Value.order x.asSet))
  | "issubset" => some fun x => do
    return .bool (← answer ((← get).isSubsetOf Value.order x.asSet))
  | "issuperset" => some fun x => do
    return .bool (← answer ((← get).isSupersetOf Value.order x.asSet))
  | _ => none

def plain? : String → Option Member
  | "pop" => some do
    match (← get).popMax? with
    | some (item, rest) =>
      set rest
      return item
    | none => throw (.keyMissing (.text "pop from an empty set"))
  | "clear" => some do
    set (SortedSet.empty : SortedSet Value)
    return .none
  | "copy" => some do return .ofSet (← get)
  | "to_list" => some do return .list (← get).items
  | _ => none

def call (name : String) (args : Arguments) : Member := do
  if !args.named.isEmpty then
    throw .wrongArguments
  let args := args.positional
  match combining? name, updating? name, onValue? name, relating? name, plain? name, args with
  | some (rule, variadic), _, _, _, _, _ =>
    if variadic || args.length == 1 then
      return .ofSet (← answer ((← get).merged Value.order rule (args.map Argument.asSet)))
    else
      throw .wrongArguments
  | _, some (rule, variadic), _, _, _, _ =>
    if variadic || args.length == 1 then
      change (SortedSet.update Value.order rule (args.map Argument.asSet))
    else
      throw .wrongArguments
  | _, _, some member, _, _, [x] => do member (x.toValue (.ofSet (← get)))
  | _, _, _, some member, _, [x] => member x
  | _, _, _, _, some member, [] => member
  | none, none, none, none, none, _ => throw .noSuchMember
  | _, _, _, _, _, _ => throw .wrongArguments

def assign (rule : SetRule) (argument : Argument) : Member :=
  change (SortedSet.assign Value.order rule argument.asSet)

end SetMembers

end SortedCollections
