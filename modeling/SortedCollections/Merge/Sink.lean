import SortedCollections.GapBuffer.Basic
import SortedCollections.Merge.Script

/-!
# Merge targets

A merge reads two inputs through two cursors and hands what it finds to a sink. There are three
kinds, and a fourth that offers nothing:

* `ListMerge` collects the output in a new list;
* `InPlaceMerge` writes it back into the left input, through a gap buffer;
* `Probe` only notes whether there would be any output, and stops at the first item;
* `Sink.absent` has no steps at all.

A step that fails leaves the state as it was, unless a write into the gap buffer has already
happened.
-/
namespace SortedCollections

/-- The two inputs of a merge and how far they have been read. -/
structure Inputs (α : Type) where
  left : List α
  right : List α
  i : Nat
  j : Nat
  deriving Repr

/-- What a merge target of state `σ` offers. -/
structure Sink (ε α σ : Type) where
  /-- The inputs and cursors; a target may have none. -/
  inputs : σ → Except (Fault ε) (Inputs α)
  advanceLeft : Nat → Bool → EStateM (Fault ε) σ Bool
  advanceRight : Nat → Bool → EStateM (Fault ε) σ Bool
  takeLeft : Nat → EStateM (Fault ε) σ (List α)
  takeRight : Nat → EStateM (Fault ε) σ (List α)
  push : α → EStateM (Fault ε) σ Unit

/-- Makes a step of which even a fault is an answer. -/
def attempt {ε σ β : Type} (step : EStateM (Fault ε) σ β) :
    EStateM (Fault ε) σ (Except (Fault ε) β) := fun s =>
  match step s with
  | .ok result s => .ok (.ok result) s
  | .error e s => .ok (.error e) s

def Script.run {ε α σ β : Type} (sink : Sink ε α σ) : Script ε α β → EStateM (Fault ε) σ β
  | .done result => pure result
  | .fail fault => throw fault
  | .advanceLeft n take next => do
    let answer ← attempt (sink.advanceLeft n take)
    (next answer).run sink
  | .advanceRight n take next => do
    let answer ← attempt (sink.advanceRight n take)
    (next answer).run sink
  | .takeLeft n next => do
    let answer ← attempt (sink.takeLeft n)
    (next answer).run sink
  | .takeRight n next => do
    let answer ← attempt (sink.takeRight n)
    (next answer).run sink
  | .push item next => do
    let answer ← attempt (sink.push item)
    (next answer).run sink

/-- Running one script after another runs what they are together. -/
theorem Script.run_bind {ε α σ β γ : Type} (sink : Sink ε α σ) (s : Script ε α β)
    (f : β → Script ε α γ) :
    (s.bind f).run sink = (do let b ← s.run sink; (f b).run sink) := by
  induction s with
  | done result => rfl
  | fail fault => rfl
  | advanceLeft n take next ih =>
    simp only [Script.bind, Script.run, bind_assoc]
    exact congrArg (bind _) (funext ih)
  | advanceRight n take next ih =>
    simp only [Script.bind, Script.run, bind_assoc]
    exact congrArg (bind _) (funext ih)
  | takeLeft n next ih =>
    simp only [Script.bind, Script.run, bind_assoc]
    exact congrArg (bind _) (funext ih)
  | takeRight n next ih =>
    simp only [Script.bind, Script.run, bind_assoc]
    exact congrArg (bind _) (funext ih)
  | push item next ih =>
    simp only [Script.bind, Script.run, bind_assoc]
    exact congrArg (bind _) (funext ih)

/-- A stretch of `n` items of an input from a cursor on, if there are so many. -/
def stretch {ε α : Type} (items : List α) (cursor n : Nat) : Except (Fault ε) (List α) :=
  if cursor + n ≤ items.length then
    .ok ((items.drop cursor).take n)
  else
    .error .cursorOutOfBounds

/-- Merges into a new list. -/
structure ListMerge (α : Type) extends Inputs α where
  result : List α
  deriving Repr

namespace ListMerge

variable {ε α : Type}

def start (left right : List α) : ListMerge α :=
  { left, right, i := 0, j := 0, result := [] }

def advanceLeft (n : Nat) (take : Bool) : EStateM (Fault ε) (ListMerge α) Bool := fun s =>
  match stretch s.left s.i n with
  | .error e => .error e s
  | .ok items =>
    .ok true { s with i := s.i + n, result := if take then s.result ++ items else s.result }

def advanceRight (n : Nat) (take : Bool) : EStateM (Fault ε) (ListMerge α) Bool := fun s =>
  match stretch s.right s.j n with
  | .error e => .error e s
  | .ok items =>
    .ok true { s with j := s.j + n, result := if take then s.result ++ items else s.result }

def takeLeft (n : Nat) : EStateM (Fault ε) (ListMerge α) (List α) := fun s =>
  match stretch s.left s.i n with
  | .error e => .error e s
  | .ok items => .ok items { s with i := s.i + n }

def takeRight (n : Nat) : EStateM (Fault ε) (ListMerge α) (List α) := fun s =>
  match stretch s.right s.j n with
  | .error e => .error e s
  | .ok items => .ok items { s with j := s.j + n }

def push (item : α) : EStateM (Fault ε) (ListMerge α) Unit := fun s =>
  .ok () { s with result := s.result ++ [item] }

def sink : Sink ε α (ListMerge α) where
  inputs s := .ok s.toInputs
  advanceLeft := advanceLeft
  advanceRight := advanceRight
  takeLeft := takeLeft
  takeRight := takeRight
  push := push

end ListMerge

/-- Merges back into the left list. Items kept from the left stay where they are or move towards
the front; items from the right are written into the gap. -/
structure InPlaceMerge (α : Type) where
  buffer : GapBuffer α
  right : List α
  j : Nat
  /-- The left list before the merge, put back if the merge fails. -/
  saved : List α
  deriving Repr

namespace InPlaceMerge

variable {ε α : Type}

def start (left right : List α) : InPlaceMerge α :=
  { buffer := .ofList left, right, j := 0, saved := left }

/-- The left input is what the buffer holds, and its cursor is where the unread items start. -/
def inputs (s : InPlaceMerge α) : Inputs α :=
  { left := s.buffer.slots, right := s.right, i := s.buffer.source.toNat, j := s.j }

def onBuffer {β : Type} (step : GapBuffer.Step ε α β) : EStateM (Fault ε) (InPlaceMerge α) β :=
  fun s =>
    match step s.buffer with
    | .ok result buffer => .ok result { s with buffer }
    | .error e buffer => .error e { s with buffer }

/-- Makes a step on the buffer that reads `n` items, if there are so many. -/
def reading {β : Type} (n : Nat) (step : GapBuffer.Step ε α β) :
    EStateM (Fault ε) (InPlaceMerge α) β := fun s =>
  if (n : Int) ≤ s.buffer.remaining then onBuffer step s else .error .cursorOutOfBounds s

def advanceLeft [Inhabited α] (n : Nat) (take : Bool) :
    EStateM (Fault ε) (InPlaceMerge α) Bool := do
  reading n (GapBuffer.consumeStep n take)
  return true

def advanceRight [Inhabited α] (n : Nat) (take : Bool) :
    EStateM (Fault ε) (InPlaceMerge α) Bool := fun s =>
  match stretch s.right s.j n with
  | .error e => .error e s
  | .ok items =>
    match onBuffer (if take then GapBuffer.extendStep items else pure ()) s with
    | .error e s => .error e s
    | .ok () s => .ok true { s with j := s.j + n }

def takeLeft [Inhabited α] (n : Nat) : EStateM (Fault ε) (InPlaceMerge α) (List α) :=
  reading n (GapBuffer.popFrontStep n)

def takeRight (n : Nat) : EStateM (Fault ε) (InPlaceMerge α) (List α) := fun s =>
  match stretch s.right s.j n with
  | .error e => .error e s
  | .ok items => .ok items { s with j := s.j + n }

def push [Inhabited α] (item : α) : EStateM (Fault ε) (InPlaceMerge α) Unit :=
  onBuffer (GapBuffer.pushStep item)

def sink [Inhabited α] : Sink ε α (InPlaceMerge α) where
  inputs s := .ok s.inputs
  advanceLeft := advanceLeft
  advanceRight := advanceRight
  takeLeft := takeLeft
  takeRight := takeRight
  push := push

/-- Ends the merge: the list is what was written. -/
def finish (s : InPlaceMerge α) : InPlaceMerge α := { s with buffer := s.buffer.finish }

/-- Gives the merge up: the list is what it was before. -/
def abort (s : InPlaceMerge α) : InPlaceMerge α :=
  { s with buffer := s.buffer.restart s.saved }

end InPlaceMerge

/-- Only notes whether the merge would produce anything, and stops it at the first item. -/
structure Probe (α : Type) extends Inputs α where
  /-- An item was about to be produced. -/
  result : Bool
  deriving Repr

namespace Probe

variable {ε α : Type}

def start (left right : List α) : Probe α :=
  { left, right, i := 0, j := 0, result := false }

/-- The name under which a probe refuses steps. -/
def name : String := "BoolOpMergeState"

/-- Keeping items stops the merge, however many there are; the cursor stays in front of them. -/
def advanceLeft (n : Nat) (take : Bool) : EStateM (Fault ε) (Probe α) Bool := fun s =>
  if take then
    .ok false { s with result := true }
  else if s.i + n ≤ s.left.length then
    .ok true { s with i := s.i + n }
  else
    .error .cursorOutOfBounds s

def advanceRight (n : Nat) (take : Bool) : EStateM (Fault ε) (Probe α) Bool := fun s =>
  if take then
    .ok false { s with result := true }
  else if s.j + n ≤ s.right.length then
    .ok true { s with j := s.j + n }
  else
    .error .cursorOutOfBounds s

def takeRight (n : Nat) : EStateM (Fault ε) (Probe α) (List α) := fun s =>
  match stretch s.right s.j n with
  | .error e => .error e s
  | .ok items => .ok items { s with j := s.j + n }

/-- The steps of a probe. It hands out no items of the left input and takes none. -/
def sink : Sink ε α (Probe α) where
  inputs s := .ok s.toInputs
  advanceLeft := advanceLeft
  advanceRight := advanceRight
  takeLeft _ := throw (.missing (.handOut name))
  takeRight := takeRight
  push _ := throw (.missing (.push name))

end Probe

/-- A target that offers no step and has no cursors. -/
def Sink.absent {ε α : Type} : Sink ε α Unit where
  inputs _ := .error (.missing .cursors)
  advanceLeft _ _ := throw (.missing .advanceLeft)
  advanceRight _ _ := throw (.missing .advanceRight)
  takeLeft _ := throw (.missing (.handOut "MergeState"))
  takeRight _ := throw (.missing .cursors)
  push _ := throw (.missing (.push "MergeState"))

end SortedCollections
