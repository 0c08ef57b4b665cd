import SortedCollections.Session.MemberCall

/-!
# Members of sorted maps

The members by which a session works on a sorted map, by name.
-/
namespace SortedCollections

namespace MapMembers

open MemberCall

abbrev Map : Type := SortedMap Value Value

abbrev Member : Type := MemberCall Map Value

/-- The rules that take a function or prefer the right value if none is given. -/
def combining? : String → Option ((Value → Value → Except Failure Value) →
    MapRule Failure Value Value)
  | "union" => some .union
  | "intersection" => some .intersection
  | _ => none

/-- The rules that take no function. -/
def keyed? : String → Option (MapRule Failure Value Value)
  | "difference" => some .difference
  | "symmetric_difference" => some .symmetricDifference
  | _ => none

def join? : String → Option Join
  | "outer_join" => some .outer
  | "left_join" => some .left
  | "right_join" => some .right
  | "inner_join" => some .inner
  | _ => none

/-- The rule and the other operand of a member that merges two maps. -/
def rule? (name : String) (args : Arguments) :
    Option (Except Failure (MapRule Failure Value Value × Argument)) :=
  match combining? name, keyed? name, join? name with
  | some rule, _, _ => some <|
    match args.bind? [none] [some "combine"] with
    | some ([other], [f]) =>
      .ok (rule ((f.map Argument.combining).getD MapRule.preferRight), other)
    | _ => .error .wrongArguments
  | _, some rule, _ => some <|
    match args.bind? [none] [] with
    | some ([other], []) => .ok (rule, other)
    | _ => .error .wrongArguments
  | _, _, some kind => some <|
    match args.bind? [none, none] [] with
    | some ([other, f], []) => .ok (.join kind f.joining, other)
    | _ => .error .wrongArguments
  | none, none, none => none

/-- The name of a member without the ending of those that work in place. -/
def inPlaceName? (name : String) : Option String :=
  if name.endsWith "_update" then some (name.dropEnd 7).toString else none

/-- Merges in another map and then the named values, its values winning on equal keys. -/
def update (args : Arguments) : Member := do
  let merge (operand : Operand Failure (Value × Value)) : Member :=
    change (SortedMap.update Value.order (.union MapRule.preferRight) operand)
  let m ← get
  match args.positional with
  | [] =>
    let _ ← merge (.unsorted [])
  | [other] =>
    let _ ← merge other.asMap
  | _ => throw .wrongArguments
  if args.named.isEmpty then
    return .none
  else
    merge (.unsorted (args.named.map fun (name, x) => (.text name, x.toValue (.ofMap m))))

def plain? : String → Option Member
  | "popitem" => some do
    match (← get).popMax? with
    | some (entry, rest) =>
      set rest
      return .ofEntry entry
    | none => throw (.keyMissing (.text "popitem from an empty map"))
  | "clear" => some do
    set (SortedMap.empty : Map)
    return .none
  | "copy" => some do return .ofMap (← get)
  | "to_list" | "items" => some do return .list (Value.ofEntries (← get).entries)
  | "keys" => some do return .list (← get).keys
  | "values" => some do return .list (← get).values
  | "keys_set" => some do return .ofSet (← get).keySet
  | _ => none

/-- The members that work on single keys or on every value. -/
def onKeys (name : String) (args : Arguments) : Member := do
  let m ← get
  let value (x : Argument) : Value := x.toValue (.ofMap m)
  match name with
  | "get" =>
    match args.bind? [none] [none] with
    | some ([k], [default]) =>
      return (m.lookup? Value.order (value k)).getD ((default.map value).getD .none)
    | _ => throw .wrongArguments
  | "insert" =>
    match args.bind? [none, none] [] with
    | some ([k, v], []) =>
      let (previous, m) ← answer (m.insert Value.order (value k) (value v))
      set m
      return previous.getD .none
    | _ => throw .wrongArguments
  | "pop" =>
    match args.bind? [some "key"] [some "default"] with
    | some ([k], [default]) =>
      match ← answer (m.pop? Value.order (value k)) with
      | some (v, m) =>
        set m
        return v
      | none =>
        match default with
        | some v => return value v
        | none => throw (.keyMissing (value k))
    | _ => throw .wrongArguments
  | "setdefault" =>
    match args.bind? [some "key"] [some "default"] with
    | some ([k], [default]) =>
      let (v, m) ← answer
        (m.getOrInsert Value.order (value k) ((default.map value).getD .none))
      set m
      return v
    | _ => throw .wrongArguments
  | "retain" =>
    match args.bind? [none] [] with
    | some ([f], []) =>
      set (← answer (m.retain fun k v => do return (← f.call [k, v]).truth))
      return .none
    | _ => throw .wrongArguments
  | "map_values" =>
    match args.bind? [none] [] with
    | some ([f], []) => return .ofMap (← answer (m.mapValues fun v => f.call [v]))
    | _ => throw .wrongArguments
  | _ => throw .noSuchMember

def call (name : String) (args : Arguments) : Member := do
  match rule? name args, (inPlaceName? name).bind (rule? · args), plain? name with
  | some request, _, _ =>
    match request with
    | .ok (rule, other) =>
      return .ofMap (← answer ((← get).merged Value.order rule other.asMap))
    | .error e => throw e
  | _, some request, _ =>
    match request with
    | .ok (rule, other) => change (SortedMap.update Value.order rule other.asMap)
    | .error e => throw e
  | _, _, some member =>
    if args.positional.isEmpty && args.named.isEmpty then member else throw .wrongArguments
  | none, none, none => if name = "update" then update args else onKeys name args

def assign (rule : MapRule Failure Value Value) (argument : Argument) : Member :=
  change (SortedMap.update Value.order rule argument.asMap)

end MapMembers

end SortedCollections
