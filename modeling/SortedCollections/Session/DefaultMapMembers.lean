import SortedCollections.Session.MemberCall

/-!
# Members of maps with a default

The members by which a session works on a map with a default, by name.
-/
namespace SortedCollections

namespace DefaultMapMembers

open MemberCall

abbrev Map : Type := DefaultMap Value Value

abbrev Member : Type := MemberCall Map Value

/-- The other map of a combination; `none` stands for the map itself. -/
def other? : Argument → Option (Option Map)
  | .self => some none
  | .value (.defaultMap entries fallback) => some (some ⟨⟨entries⟩, fallback⟩)
  | _ => none

def combine (f : Value → Value → Except Failure Value) (argument : Argument) : Member := do
  let m ← get
  match other? argument with
  | some other =>
    return .ofDefaultMap (← answer (m.combine Value.order Value.same f (other.getD m)))
  | none => throw .noSuchMember

def combineInPlace (f : Value → Value → Except Failure Value) (argument : Argument) : Member :=
  match other? argument with
  | some other => change (DefaultMap.combineInPlace Value.order Value.same f other)
  | none => throw .noSuchMember

/-- The members that take another map and a function. -/
def onMapAndFunction? : String → Option (Argument → Argument → Member)
  | "combine" => some fun other f => combine f.combining other
  | "combine_update" => some fun other f => combineInPlace f.combining other
  | _ => none

def onOne? : String → Option (Argument → Member)
  | "supremum" => some (combine Value.larger)
  | "infimum" => some (combine Value.smaller)
  | "map_values" => some fun f => do
    return .ofDefaultMap (← answer ((← get).mapValues Value.same fun v => f.call [v]))
  | "get" => some fun k => do
    let m ← get
    return m.get Value.order (k.toValue (.ofDefaultMap m))
  | _ => none

def plain? : String → Option (Map → Value)
  | "is_constant" => some fun m => .bool m.isConstant
  | "items" => some fun m => .list (Value.ofEntries m.entries.entries)
  | "copy" => some .ofDefaultMap
  | _ => none

def call (name : String) (args : Arguments) : Member := do
  if !args.named.isEmpty then
    throw .wrongArguments
  match onMapAndFunction? name, onOne? name, plain? name, args.positional with
  | some member, _, _, [other, f] => member other f
  | _, some member, _, [x] => member x
  | _, _, some member, [] => return member (← get)
  | none, none, none, _ => throw .noSuchMember
  | _, _, _, _ => throw .wrongArguments

end DefaultMapMembers

end SortedCollections
