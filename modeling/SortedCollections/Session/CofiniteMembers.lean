import SortedCollections.Session.MemberCall

/-!
# Members of finite and cofinite sets

The members by which a session works on a set that is finite or has a finite complement, by name.
-/
namespace SortedCollections

namespace CofiniteMembers

open MemberCall

abbrev Member : Type := MemberCall (CofiniteSet Value) Value

/-- The members that combine two sets. -/
def combining? : String → Option SetRule
  | "union" => some .union
  | "intersection" => some .intersection
  | "difference" => some .difference
  | "symmetric_difference" => some .symmetricDifference
  | _ => none

/-- The members that combine two sets in place. -/
def updating? : String → Option SetRule
  | "update" | "union_update" => some .union
  | "intersection_update" => some .intersection
  | "difference_update" => some .difference
  | "symmetric_difference_update" => some .symmetricDifference
  | _ => none

def onOne? (name : String) : Option (Argument → Member) :=
  match combining? name, updating? name, name with
  | some rule, _, _ => some fun x => do
    return .ofCofinite (← answer ((← get).merged Value.order rule x.asCofinite))
  | _, some rule, _ => some fun x => change (CofiniteSet.update Value.order rule x.asCofinite)
  | _, _, "add" => some fun x => do
    let s ← get
    set (← answer (s.insert Value.order (x.toValue (.ofCofinite s))))
    return .none
  | _, _, "discard" => some fun x => do
    let s ← get
    set (← answer (s.discard Value.order (x.toValue (.ofCofinite s))))
    return .none
  | _, _, "isdisjoint" => some fun x => do
    return .bool (← answer ((← get).isDisjointFrom Value.order x.asCofinite))
  | _, _, "issubset" => some fun x => do
    return .bool (← answer ((← get).isSubsetOf Value.order x.asCofinite))
  | _, _, "issuperset" => some fun x => do
    return .bool (← answer ((← get).isSupersetOf Value.order x.asCofinite))
  | _, _, _ => none

def plain? : String → Option (CofiniteSet Value → Value)
  | "is_all" => some fun s => .bool s.isAll
  | "is_empty" => some fun s => .bool s.isEmpty
  | "complement" => some fun s => .ofCofinite s.complement
  | "copy" => some .ofCofinite
  | "iter_elements" => some fun s => .list s.elements.items
  | _ => none

def call (name : String) (args : Arguments) : Member := do
  if !args.named.isEmpty then
    throw .wrongArguments
  match onOne? name, plain? name, args.positional with
  | some member, _, [x] => member x
  | _, some member, [] => return member (← get)
  | none, none, _ => throw .noSuchMember
  | _, _, _ => throw .wrongArguments

def assign (rule : SetRule) (argument : Argument) : Member :=
  change (CofiniteSet.update Value.order rule argument.asCofinite)

end CofiniteMembers

end SortedCollections
