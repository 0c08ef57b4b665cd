import SortedCollections.GapBuffer.Basic

/-!
# Commands on a gap buffer

A sequence of commands drives a gap buffer step by step. Each command gives an answer or a fault;
after a fault the buffer goes on as the command has left it.
-/
namespace SortedCollections

namespace GapBuffer

inductive Command (α : Type) where
  | consume (n : Int) (take : Bool)
  | extend (items : List α)
  | push (item : α)
  | popFront (n : Int)
  | finish
  | restart (items : List α)
  | check
  | remaining
  | text
  /-- Moves the end of the written items, whatever the regions then cover. -/
  | setTarget (position : Int)
  /-- Moves the start of the unread items, whatever the regions then cover. -/
  | setSource (position : Int)
  deriving Repr

inductive Answer (α : Type) where
  | done
  | accepted
  | items (items : List α)
  | count (n : Int)
  | text (text : String)
  deriving Repr

variable {ε α : Type}

def Command.run [Inhabited α] : Command α → Step ε α (Answer α)
  | .consume n take => do
    consumeStep n take
    return .done
  | .extend items => do
    extendStep items
    return .done
  | .push item => do
    pushStep item
    return .done
  | .popFront n => do
    return .items (← popFrontStep n)
  | .finish => do
    modify GapBuffer.finish
    return .accepted
  | .restart items => do
    modify (GapBuffer.restart · items)
    return .accepted
  | .check => do
    checkStep
    return .done
  | .remaining => do
    return .count (← get).remaining
  | .text => do
    let b ← get
    return .text (GapBuffer.text b.target b.source b.size)
  | .setTarget position => do
    modify fun b => { b with target := position }
    return .done
  | .setSource position => do
    modify fun b => { b with source := position }
    return .done

/-- What a command has answered, and the buffer after it. -/
structure Report (ε α : Type) where
  answer : Except (Fault ε) (Answer α)
  after : GapBuffer α

def runAll [Inhabited α] (b : GapBuffer α) : List (Command α) → List (Report ε α)
  | [] => []
  | command :: rest =>
    match command.run b with
    | .ok answer after => ⟨.ok answer, after⟩ :: runAll after rest
    | .error e after => ⟨.error e, after⟩ :: runAll after rest

end GapBuffer

end SortedCollections
