import SortedCollections.Merge.Engine

/-!
# Functions that remember

The function that a join or a combination of values is given may do more than answer. It may count what
it is asked, write it down, or answer a question by those before it, and what it remembers outlasts its
failure. Here an operation is given such a function, whose memory stands beside the state of the
target. A function that remembers nothing gives the policies of this library.
-/
namespace SortedCollections

/-- What happens to a run that only one side has. -/
inductive OneSided where
  /-- It is kept or dropped as it stands. -/
  | pass (keep : Bool)
  /-- The function is asked about each of its items. -/
  | ask
  deriving Repr, DecidableEq

/-- A question to the function: a key, with the values that it has on the left and on the right. -/
structure Question (κ ν : Type) where
  key : κ
  left : Option ν
  right : Option ν
  deriving Repr, DecidableEq

namespace Question

variable {ε κ ν : Type}

/-- The question about a key that only the left side has. -/
def leftOnly (key : κ) (left : ν) : Question κ ν := ⟨key, some left, none⟩

/-- The question about a key that only the right side has. -/
def rightOnly (key : κ) (right : ν) : Question κ ν := ⟨key, none, some right⟩

/-- What a function that remembers nothing answers. -/
def answerOf (f : Policy.JoinFunction ε κ ν) (question : Question κ ν) : Except ε (Option ν) :=
  f question.key question.left question.right

end Question

/-- An operation on pairs that asks a function with a memory of type `μ` about every tie, and about the
runs that only one side has if it says so. No result leaves the key out. -/
structure Asking (ε κ ν μ : Type) where
  onLeft : OneSided
  onRight : OneSided
  function : Question κ ν → EStateM ε μ (Option ν)

namespace Asking

variable {ε α κ ν μ σ β : Type}

/-- All keys; the function gives those on both sides a value. -/
def union (function : Question κ ν → EStateM ε μ (Option ν)) : Asking ε κ ν μ where
  onLeft := .pass true
  onRight := .pass true
  function

/-- The keys on both sides, with the values that the function gives them. -/
def intersection (function : Question κ ν → EStateM ε μ (Option ν)) : Asking ε κ ν μ where
  onLeft := .pass false
  onRight := .pass false
  function

/-- The keys that the join covers, with the values that the function gives them. -/
def join (kind : Join) (function : Question κ ν → EStateM ε μ (Option ν)) : Asking ε κ ν μ where
  onLeft := if kind.coversLeft then .ask else .pass false
  onRight := if kind.coversRight then .ask else .pass false
  function

/-- A function that writes down what it is asked, in order. -/
def noting (f : Policy.JoinFunction ε κ ν) (question : Question κ ν) :
    EStateM ε (List (Question κ ν)) (Option ν) := fun asked =>
  match question.answerOf f with
  | .ok value => .ok value (asked ++ [question])
  | .error e => .error e (asked ++ [question])

/-- A step of the target, which leaves the memory alone. -/
def beside (step : EStateM (Fault ε) σ β) : EStateM (Fault ε) (σ × μ) β := fun (s, memory) =>
  match step s with
  | .ok result s => .ok result (s, memory)
  | .error e s => .error e (s, memory)

/-- A step of the client, which leaves the target alone. -/
def client (step : EStateM ε μ β) : EStateM (Fault ε) (σ × μ) β := fun (s, memory) =>
  match step memory with
  | .ok result memory => .ok result (s, memory)
  | .error e memory => .error (.raised e) (s, memory)

variable (op : Asking ε κ ν μ) (view : PairView ε α κ ν) (sink : Sink ε α σ)

/-- Asks about a key and adds the answer to the output, if there is one. -/
def put (question : Question κ ν) : EStateM (Fault ε) (σ × μ) Unit := do
  let value ← client (op.function question)
  beside ((Policy.emitIfAny view question.key value).run sink)

def onTie : EStateM (Fault ε) (σ × μ) Bool := do
  let ((key, left), (_, right)) ← beside ((Policy.tiedPairs view).run sink)
  op.put view sink ⟨key, some left, some right⟩
  return true

/-- Asks about items that only one side has, one after the other. -/
def onEach (question : κ → ν → Question κ ν) (items : List α) : EStateM (Fault ε) (σ × μ) Unit :=
  items.forM fun item => do
    let (key, value) ← beside ((Script.ask (view.read item)).run sink)
    op.put view sink (question key value)

/-- What happens to a run that only one side has. -/
def onAlone (side : OneSided) (passing : Bool → Script ε α Bool) (taking : Script ε α (List α))
    (question : κ → ν → Question κ ν) : EStateM (Fault ε) (σ × μ) Bool :=
  match side with
  | .pass keep => beside ((passing keep).run sink)
  | .ask => do
    op.onEach view sink question (← beside (taking.run sink))
    return true

/-- What happens to each call. -/
def handler : Handler ε (σ × μ)
  | .left n => op.onAlone view sink op.onLeft (.left n) (.leftItems n) .leftOnly
  | .right n => op.onAlone view sink op.onRight (.right n) (.rightItems n) .rightOnly
  | .tie => op.onTie view sink

def merge (cmp : Comparison ε κ) (key : α → Except ε κ) (left right : List α) :
    EStateM (Fault ε) μ (List α) := fun memory =>
  match Engine.remainder cmp key (fun s => ListMerge.sink.inputs s.1) (op.handler view ListMerge.sink)
      (.start left right, memory) with
  | .ok _ s => .ok s.1.result s.2
  | .error e s => .error e s.2

end Asking

end SortedCollections
