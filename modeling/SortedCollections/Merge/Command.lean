import SortedCollections.Merge.Engine

/-!
# Commands on a merge target

A sequence of commands drives a merge target without an engine: cursors are moved, items taken
and pushed, and whole merges run from where the cursors stand. After a fault the target goes on as
the command has left it.
-/
namespace SortedCollections

inductive MergeCommand (ε α κ : Type) where
  | advanceLeft (n : Nat) (take : Bool)
  | advanceRight (n : Nat) (take : Bool)
  | takeLeft (n : Nat)
  | takeRight (n : Nat)
  | push (item : α)
  | merge (operation : Operation ε α κ)
  /-- Changes the target itself, where it can be. -/
  | finish
  | abort

inductive MergeAnswer (α : Type) where
  | done
  | flag (goOn : Bool)
  | items (items : List α)
  deriving Repr

/-- A target that can be driven by commands. -/
structure Driven (ε α σ : Type) where
  sink : Sink ε α σ
  /-- Ends the merge, if the target has an end of its own. -/
  finish : Option (σ → σ)
  /-- Gives the merge up, if the target can. -/
  abort : Option (σ → σ)

namespace Driven

variable {ε α κ σ : Type}

def list : Driven ε α (ListMerge α) := ⟨ListMerge.sink, none, none⟩

def inPlace [Inhabited α] : Driven ε α (InPlaceMerge α) :=
  ⟨InPlaceMerge.sink, some InPlaceMerge.finish, some InPlaceMerge.abort⟩

def probe : Driven ε α (Probe α) := ⟨Probe.sink, none, none⟩

def absent : Driven ε α Unit := ⟨Sink.absent, none, none⟩

/-- Changes the target, if it can be changed so. -/
def change (f : Option (σ → σ)) : EStateM (Fault ε) σ (MergeAnswer α) :=
  match f with
  | some f => do
    modify f
    return .flag true
  | none => throw (.missing .cursors)

def run (target : Driven ε α σ) (cmp : Comparison ε κ) :
    MergeCommand ε α κ → EStateM (Fault ε) σ (MergeAnswer α)
  | .advanceLeft n take => .flag <$> target.sink.advanceLeft n take
  | .advanceRight n take => .flag <$> target.sink.advanceRight n take
  | .takeLeft n => .items <$> target.sink.takeLeft n
  | .takeRight n => .items <$> target.sink.takeRight n
  | .push item => do
    target.sink.push item
    return .done
  | .merge operation => do
    operation.run cmp target.sink
    return .done
  | .finish => change target.finish
  | .abort => change target.abort

/-- What a command has answered, and the state after it. -/
structure Report (ε α σ : Type) where
  answer : Except (Fault ε) (MergeAnswer α)
  after : σ

def runAll (target : Driven ε α σ) (cmp : Comparison ε κ) (s : σ) :
    List (MergeCommand ε α κ) → List (Report ε α σ)
  | [] => []
  | command :: rest =>
    match target.run cmp command s with
    | .ok answer after => ⟨.ok answer, after⟩ :: runAll target cmp after rest
    | .error e after => ⟨.error e, after⟩ :: runAll target cmp after rest

end Driven

end SortedCollections
