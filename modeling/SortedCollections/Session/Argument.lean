import SortedCollections.Value.Assignment

/-!
# Arguments

What a member of a container is called with: a value, a client's function, or the container
itself. Each kind of container reads an argument as the other side of its operations in its own
way.
-/
namespace SortedCollections

abbrev ValueFunction : Type := List Value → Except Failure Value

inductive Argument where
  | value (v : Value)
  | function (f : ValueFunction)
  /-- The container that is called. -/
  | self

namespace Argument

/-- The argument as a value, called on `self`. -/
def toValue (self : Value) : Argument → Value
  | .value v => v
  | .function _ => .none
  | .self => self

def call : Argument → ValueFunction
  | .function f => f
  | _ => fun _ => .error .notCallable

def combining (f : Argument) (a b : Value) : Except Failure Value := f.call [a, b]

def joining (f : Argument) : Policy.JoinFunction Failure Value Value := fun key left right => do
  match ← f.call [key, left.getD .missing, right.getD .missing] with
  | .none => return Option.none
  | result => return some result

def asSet : Argument → Operand Failure Value
  | .self => .self
  | .value (.sortedSet items) => .sorted items
  | .value v =>
    match v.items? with
    | some items => .unsorted items
    | none => .refused (.notACollection v)
  | .function _ => .refused .wrongArguments

def asMap : Argument → Operand Failure (Value × Value)
  | .self => .self
  | .value (.sortedMap entries) => .sorted entries
  | .value v =>
    match v.entries? with
    | some (.ok entries) => .unsorted entries
    | some (.error e) => .refused e
    | none => .refused (.notAMap v)
  | .function _ => .refused .wrongArguments

def asCofinite : Argument → CofiniteSet.Operand Failure Value
  | .self => .self
  | .value (.cofiniteSet items negated) => .set ⟨⟨items⟩, negated⟩
  | .value (.sortedSet items) => .set ⟨⟨items⟩, false⟩
  | .value v =>
    match v.items? with
    | some items => .unsorted items
    | none => .refused (.notASet v)
  | .function _ => .refused .wrongArguments

end Argument

structure Arguments where
  positional : List Argument
  named : List (String × Argument)

namespace Arguments

/-- The arguments with the container that is called written out as a value. -/
def withSelf (args : Arguments) (self : Value) : Arguments :=
  let write (x : Argument) : Argument :=
    match x with
    | .self => .value self
    | x => x
  ⟨args.positional.map write, args.named.map fun (name, x) => (name, write x)⟩

/-- The arguments of a call that takes `required` ones and then any of those in `optional`. An
argument with a name may also be given by its name, unless it was given by position. An optional
one that is left out is absent. -/
def bind? (args : Arguments) (required optional : List (Option String)) :
    Option (List Argument × List (Option Argument)) := do
  let parameters := required ++ optional
  let left := parameters.drop args.positional.length
  let byName := left.map fun name => name.bind fun name => args.named.lookup name
  let known := args.named.all fun (name, _) => left.contains (some name)
  if args.positional.length ≤ parameters.length ∧ known then
    let given := args.positional.map some ++ byName
    return (← (given.take required.length).mapM id, given.drop required.length)
  else
    none

end Arguments

end SortedCollections
