import SortedCollections.Session.MemberCall
import SortedCollections.Value.Lists

/-!
# Members of lists and tuples

The members by which a session works on a plain list, by name. A tuple has those that only look.
-/
namespace SortedCollections

namespace ListMembers

abbrev Member : Type := MemberCall (List Value) Value

/-- The first place from `place` on at which a list holds a value. -/
def placeOf (v : Value) (place : Nat) : List Value → Except Failure Nat
  | [] => .error .noSuchItem
  | x :: xs => do
    if ← Value.parts.alike x v then return place else placeOf v (place + 1) xs

/-- A bound of the stretch that is searched. One that no position reaches stands for an end. -/
def stretchBound (bound : Value) : Except Failure Int :=
  match bound.int? with
  | some i => .ok i
  | none => .error (.notAnIndex bound.kind)

/-- The members that only look at the items. -/
def looking? (name : String) (args items : List Value) : Option (Except Failure Value) :=
  let placeWithin (v : Value) (start stop : Int) : Except Failure Value := do
    let start' := Slice.place items.length start
    return .int (← placeOf v start' (Slice.between items start stop))
  match name, args with
  | "count", [v] => some do
    return .int (← items.filterM (Value.parts.alike · v)).length
  | "index", [v] => some (placeWithin v 0 items.length)
  | "index", [v, start] => some do placeWithin v (← stretchBound start) items.length
  | "index", [v, start, stop] => some do
    let start ← stretchBound start
    placeWithin v start (← stretchBound stop)
  | "count", _ | "index", _ => some (.error .wrongArguments)
  | _, _ => none

def takeOut (position : Int) : Member := do
  let items ← get
  match Slice.position? items.length position with
  | some k =>
    set (items.eraseIdx k)
    return items.getD k .none
  | none => throw .storeOutOfRange

def become (items : Except Failure (List Value)) : Member := do
  set (← MonadExcept.ofExcept items)
  return .none

/-- Sorts by a key, or the other way round. Equal items keep their order in both cases. -/
def sorted (key : Value.Key) (descending : Bool) (items : List Value) :
    Except Failure (List Value) :=
  let turn (xs : List Value) : List Value := if descending then xs.reverse else xs
  match sortByKey Value.order key (turn items) with
  | .ok keyed => .ok (turn (keyed.map Prod.snd))
  | .error (.unsortable cause) => .error cause
  | .error fault => .error (.ofFault fault)

/-- The members that change the list, but for sorting. -/
def changing? (name : String) (args items : List Value) : Option Member :=
  match name, args with
  | "append", [v] => some (become (.ok (items ++ [v])))
  | "extend", [v] => some (become do return items ++ (← v.items))
  | "insert", [position, v] => some (become do
    let place := Slice.place items.length (← position.searchBound)
    return items.insertIdx place v)
  | "pop", [] => some (takeOut (-1))
  | "pop", [position] => some do takeOut (← MonadExcept.ofExcept position.searchBound)
  | "remove", [v] => some (become do return items.eraseIdx (← placeOf v 0 items))
  | "reverse", [] => some (become (.ok items.reverse))
  | "clear", [] => some (become (.ok []))
  | "copy", [] => some (return .list items)
  | "append", _ | "extend", _ | "insert", _ | "pop", _ | "remove", _ | "reverse", _ | "clear", _
  | "copy", _ => some (throw .wrongArguments)
  | _, _ => none

/-- The key of a sort, which may be left out. -/
def keyOf : Option Argument → Value.Key
  | some (.function f) => fun v => f [v]
  | _ => Value.ownKey

def sort (args : Arguments) : Member := do
  let known := args.named.all fun (name, _) => ["key", "reverse"].contains name
  if args.positional.isEmpty && known then
    let descending := ((args.named.lookup "reverse").map (·.toValue .none)).any Value.truth
    become (sorted (keyOf (args.named.lookup "key")) descending (← get))
  else
    throw .wrongArguments

def call (name : String) (args : Arguments) : Member := do
  let items ← get
  if name = "sort" then
    sort args
  else
    let values := args.positional.map (·.toValue (.list items))
    match looking? name values items, changing? name values items with
    | none, none => throw .noSuchMember
    | some answer, _ =>
      if args.named.isEmpty then MonadExcept.ofExcept answer else throw .wrongArguments
    | _, some member => if args.named.isEmpty then member else throw .wrongArguments

def callOnTuple (name : String) (args : Arguments) (items : List Value) : Except Failure Value :=
  match looking? name (args.positional.map (·.toValue (.tuple items))) items with
  | some answer => if args.named.isEmpty then answer else .error .wrongArguments
  | none => .error .noSuchMember

end ListMembers

end SortedCollections
