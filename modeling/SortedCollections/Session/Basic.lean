import SortedCollections.Session.CofiniteMembers
import SortedCollections.Session.Creation
import SortedCollections.Session.DefaultMapMembers
import SortedCollections.Session.ListMembers
import SortedCollections.Session.MapMembers
import SortedCollections.Session.SetMembers

/-!
# Sessions

A session is a set of named registers that hold values, worked on by commands. Each command gives
an answer or a failure; after a failure the register worked on is as the command has left it, and
the session goes on.

Registers share nothing: a register is set to a value of its own, and what a container shows of itself,
such as the elements of a cofinite set, is answered as a value as well. What is written into a list
that several containers refer to is told by `Storage`.
-/
namespace SortedCollections

namespace Session

/-- What a command is given: a value, a function, what a register holds, or a value made out of
further terms. -/
inductive Term where
  | value (v : Value)
  | function (f : ValueFunction)
  | register (name : String)
  | made (parts : List Term) (make : List Value → Except Failure Value)

/-- The questions that can be asked of any value. -/
inductive Query where
  | invert
  | negate
  | length
  | truth
  | list
  | reversed
  | text
  | hash
  | copy
  /-- A copy all the way down. -/
  | deepCopy
  /-- A copy that was written out and read in again. -/
  | reload
  | save
  deriving Repr, DecidableEq

/-- The signs between two values. -/
inductive Sign where
  | operator (op : Operator)
  | relation (relation : Relation)
  | equal
  | unequal
  /-- Is the left value in the right one? -/
  | isIn
  deriving Repr, DecidableEq

/-- The parts of a map that a view shows. -/
inductive View where
  | items
  | keys
  | values
  deriving Repr, DecidableEq

/-- What is done with a view. -/
inductive ViewQuery where
  | contains (x : Term)
  | list
  | reversed
  | length

inductive Command where
  | create (kind : ContainerKind) (positional : List Term) (named : List (String × Term))
  | special (kind : ContainerKind) (name : String) (positional : List Term)
      (named : List (String × Term))
  | restore (kind : ContainerKind) (saved : Term)
  | combine (sign : Sign) (left right : Term)
  | query (query : Query) (x : Term)
  | assign (op : Operator) (on : String) (x : Term)
  | call (on name : String) (positional : List Term) (named : List (String × Term))
  | property (on name : String)
  | getItem (on : String) (key : Term)
  | setItem (on : String) (key value : Term)
  | deleteItem (on : String) (key : Term)
  | slice (on : String) (start stop step : Term)
  | view (on : String) (view : View) (query : ViewQuery)

/-- The registers that are set, with what they hold. -/
abbrev Registers : Type := List (String × Value)

def Registers.set (registers : Registers) (name : String) (v : Value) : Registers :=
  match registers with
  | [] => [(name, v)]
  | (other, w) :: rest =>
    if other = name then (name, v) :: rest else (other, w) :: Registers.set rest name v

def Registers.read (registers : Registers) (name : String) : Except Failure Value :=
  match registers.lookup name with
  | some v => .ok v
  | none => .error .noRegister

mutual

/-- A term as a value. A function is none. -/
def Term.read (registers : Registers) : Term → Except Failure Value
  | .value v => .ok v
  | .function _ => .error .wrongArguments
  | .register name => registers.read name
  | .made parts make => do make (← Term.readAll registers parts)

def Term.readAll (registers : Registers) : List Term → Except Failure (List Value)
  | [] => .ok []
  | t :: ts => do return (← t.read registers) :: (← Term.readAll registers ts)

end

def Term.isRegister : Term → Option String → Bool
  | .register name, some other => name == other
  | _, _ => false

/-- A term as an argument. The register worked on stands for itself. -/
def Term.resolve (registers : Registers) (on : Option String) : Term → Except Failure Argument
  | .function f => .ok (.function f)
  | t => do
    let v ← t.read registers
    return if t.isRegister on then .self else .value v

def resolveAll (registers : Registers) (on : Option String) (positional : List Term)
    (named : List (String × Term)) : Except Failure Arguments := do
  return {
    positional := ← positional.mapM (Term.resolve registers on)
    named := ← named.mapM fun (name, t) => do return (name, ← t.resolve registers on) }

def combine (sign : Sign) (a b : Value) : Except Failure Value :=
  match sign with
  | .operator op => Value.operate op a b
  | .relation relation => do return .bool (← Value.relate relation a b)
  | .equal => do return .bool (← Value.same a b)
  | .unequal => do return .bool !(← Value.same a b)
  | .isIn => do return .bool (← b.holds a)

def ask (query : Query) (v : Value) : Except Failure Value :=
  match query with
  | .invert => v.invert
  | .negate => v.negate
  | .length => do return .int (← v.length)
  | .truth => .ok (.bool v.truth)
  | .list => do return .list (← v.items)
  | .reversed => do return .list (← v.reversedItems)
  | .text => .ok (.text v.render)
  | .hash => do return .int (← v.hash)
  | .copy => .ok v
  | .deepCopy => Creation.roundTrip id v
  | .reload => Creation.roundTrip (fun _ => 0) v
  | .save => .ok (Creation.save v)

abbrev OnRegister : Type := EStateM Failure Value Value

/-- Works on a container inside a value. -/
def inside {σ : Type} (wrap : σ → Value) (s : σ) (step : EStateM Failure σ Value) : OnRegister :=
  fun _ =>
    match step s with
    | .ok result s => .ok result (wrap s)
    | .error e s => .error e (wrap s)

/-- A property of a container. The elements of a cofinite set are answered as they are now: they do not
follow that set as its own holder of them does. -/
def property? (name : String) (v : Value) : Option Value :=
  match v, name with
  | .cofiniteSet items _, "elements" => some (.sortedSet items)
  | .cofiniteSet _ negated, "negated" => some (.bool negated)
  | .defaultMap entries _, "entries" => some (.sortedMap entries)
  | .defaultMap _ fallback, "default" => some fallback
  | _, _ => none

def property (name : String) (v : Value) : Except Failure Value :=
  match property? name v with
  | some value => .ok value
  | none => .error .noSuchMember

/-- A way to create a container, asked of a container of that kind. -/
def special? (name : String) (args : Arguments) (v : Value) : Option (Except Failure Value) := do
  Creation.special? (← ContainerKind.of? v) name (args.withSelf v)

/-- Calls a member of what a register holds. A property is no member that can be called. -/
def call (name : String) (args : Arguments) : OnRegister := do
  let v ← get
  if let some created := special? name args v then
    return ← MonadExcept.ofExcept created
  if (property? name v).isSome then
    throw .notCallable
  match v with
  | .sortedSet items => inside Value.ofSet ⟨items⟩ (SetMembers.call name args)
  | .sortedMap entries => inside Value.ofMap ⟨entries⟩ (MapMembers.call name args)
  | .cofiniteSet items negated =>
    inside Value.ofCofinite ⟨⟨items⟩, negated⟩ (CofiniteMembers.call name args)
  | .defaultMap entries fallback =>
    inside Value.ofDefaultMap ⟨⟨entries⟩, fallback⟩ (DefaultMapMembers.call name args)
  | .list items => inside Value.list items (ListMembers.call name args)
  | .tuple items => MonadExcept.ofExcept (ListMembers.callOnTuple name args items)
  | _ => throw .noSuchMember

/-- Combines what a register holds with an argument, and keeps the result there. Sets and maps
change in place by the operators that stand for set operations. -/
def assign (op : Operator) (argument : Argument) : OnRegister := do
  let v ← get
  match v, op.rule?, op.mapRule? with
  | .sortedSet items, some rule, _ =>
    inside Value.ofSet ⟨items⟩ (SetMembers.assign rule argument)
  | .sortedMap entries, _, some rule =>
    inside Value.ofMap ⟨entries⟩ (MapMembers.assign rule argument)
  | .cofiniteSet items negated, some rule, _ =>
    inside Value.ofCofinite ⟨⟨items⟩, negated⟩ (CofiniteMembers.assign rule argument)
  | _, _, _ => do
    Value.assign op (argument.toValue v)
    return .none

/-- Is an entry in a map? It is read as a pair first; a key that cannot be compared is absent. -/
def hasEntry (entries : List (Value × Value)) (entry : Value) : Except Failure Bool := do
  let (key, value) ← entry.toPair
  match SortedMap.lookup? Value.order ⟨entries⟩ key with
  | some found => Value.same found value
  | none => return false

/-- Is a value in a map? Each value of the map is looked up by its key. -/
def hasValue (entries : List (Value × Value)) (value : Value) : Except Failure Bool := do
  let m : SortedMap Value Value := ⟨entries⟩
  match ← Failure.lift (m.anyValue Value.order (Value.parts.alike · value) m.keys) with
  | .ok found => return found
  | .error key => throw (.keyMissing key)

def viewItems (view : View) (entries : List (Value × Value)) : List Value :=
  match view with
  | .items => Value.ofEntries entries
  | .keys => entries.map Prod.fst
  | .values => entries.map Prod.snd

def lookAt (registers : Registers) (view : View) (query : ViewQuery) (v : Value) :
    Except Failure Value :=
  match v with
  | .sortedMap entries =>
    match query with
    | .list => .ok (.list (viewItems view entries))
    | .reversed =>
      match view with
      | .keys => .error (.notReversible v.kind)
      | _ => .ok (.list (viewItems view entries).reverse)
    | .length => .ok (.int entries.length)
    | .contains x => do
      let x ← x.read registers
      match view with
      | .items => return .bool (← hasEntry entries x)
      | .keys => return .bool (SortedMap.contains Value.order ⟨entries⟩ x)
      | .values => return .bool (← hasValue entries x)
  | _ => .error .noSuchMember

def onRegister (registers : Registers) (name : String) (step : OnRegister) :
    Except Failure Value × Registers :=
  match registers.read name with
  | .error e => (.error e, registers)
  | .ok v =>
    match step v with
    | .ok result v => (.ok result, registers.set name v)
    | .error e v => (.error e, registers.set name v)

def reading (registers : Registers) (name : String) (f : Value → Except Failure Value) :
    Except Failure Value × Registers :=
  (do f (← registers.read name), registers)

def replacing (registers : Registers) (name : String) (f : Value → Except Failure Value) :
    Except Failure Value × Registers :=
  match (do f (← registers.read name)) with
  | .ok v => (.ok .none, registers.set name v)
  | .error e => (.error e, registers)

def run (registers : Registers) (command : Command) : Except Failure Value × Registers :=
  match command with
  | .create kind positional named =>
    (do Creation.create kind (← resolveAll registers none positional named), registers)
  | .special kind name positional named =>
    (do Creation.special kind name (← resolveAll registers none positional named), registers)
  | .restore kind saved => (do Creation.restore kind (← saved.read registers), registers)
  | .combine sign left right =>
    (do combine sign (← left.read registers) (← right.read registers), registers)
  | .query query x => (do ask query (← x.read registers), registers)
  | .assign op on x =>
    onRegister registers on do
      match x.resolve registers (some on) with
      | .ok argument => assign op argument
      | .error e => throw e
  | .call on name positional named =>
    onRegister registers on do
      match resolveAll registers (some on) positional named with
      | .ok args => call name args
      | .error e => throw e
  | .property on name => reading registers on (property name)
  | .getItem on key => reading registers on fun v => do v.subscript (← key.read registers)
  | .setItem on key value =>
    replacing registers on fun v => do
      v.put (← key.read registers) (← value.read registers)
  | .deleteItem on key =>
    replacing registers on fun v => do v.erase (← key.read registers)
  | .slice on start stop step =>
    reading registers on fun v => do
      v.slice (← start.read registers) (← stop.read registers) (← step.read registers)
  | .view on view query => reading registers on (lookAt registers view query)

/-- A command, and the registers that its answer goes to and that is to be shown. -/
structure Step where
  command : Command
  target : Option String
  shown : Option String

/-- What a step has answered, and what the register to be shown holds after it. -/
structure Report where
  answer : Except Failure Value
  shown : Option Value

/-- Carries out one step. A failure is put into no register. -/
def runStep (registers : Registers) (step : Step) : Report × Registers :=
  let (answer, registers) := run registers step.command
  let registers :=
    match answer, step.target with
    | .ok v, some name => registers.set name v
    | _, _ => registers
  (⟨answer, step.shown.bind (registers.lookup ·)⟩, registers)

/-- Carries out steps one after the other, from registers that are not set. -/
def runAll (steps : List Step) : List Report × Registers :=
  let (reports, registers) := steps.foldl
    (fun (reports, registers) step =>
      let (report, registers) := runStep registers step
      (report :: reports, registers)) ([], [])
  (reports.reverse, registers)

end Session

end SortedCollections
