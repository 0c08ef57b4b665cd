import SortedCollections.Merge.Policy
import SortedCollections.Merge.Sink
import SortedCollections.Window

/-!
# The bisecting merge

A merge walks two lists in increasing order of their keys and hands runs of items to a policy.
It does not step through both lists item by item. It picks the middle item of what is left on the
left side, searches for it in what is left on the right side, and goes on with the parts before
and behind it. If the left side is short, most of the right side is handed over in a few long
runs without being compared.

Where the output goes is up to the sink. `merge` makes a new list, `mergeInPlace` rebuilds the
left one, and `anyOutput` only says whether there would be any output.
-/
namespace SortedCollections

/-- What a merge asks of its policy: take a run found only on one side, or a tie. -/
inductive Call where
  | left (n : Nat)
  | right (n : Nat)
  | tie
  deriving Repr, DecidableEq

def Policy.script {ε α : Type} (policy : Policy ε α) : Call → Script ε α Bool
  | .left n => policy.onLeft n
  | .right n => policy.onRight n
  | .tie => policy.onTie

/-- How a merge answers its calls. -/
abbrev Handler (ε σ : Type) : Type := Call → EStateM (Fault ε) σ Bool

/-- Calls answered by a policy's scripts, run against a sink. -/
def Policy.handler {ε α σ : Type} (policy : Policy ε α) (sink : Sink ε α σ) : Handler ε σ :=
  fun call => (policy.script call).run sink

namespace Engine

variable {ε α κ σ : Type}

/-- An answer that does not touch the state. -/
def lift {β : Type} : Except (Fault ε) β → EStateM (Fault ε) σ β
  | .ok b => pure b
  | .error e => throw e

/-- Searches the next `n` items on the right for the item that stands `half` places ahead on the
left. The place is counted from the right cursor. -/
def locate (cmp : Comparison ε κ) (key : α → Except ε κ) (inputs : Inputs α) (half n : Nat) :
    Except (Fault ε) (Nat × Bool) := do
  let value ← Fault.lift (key (← itemAt inputs.left (inputs.i + half)))
  let (place, found) ← findIn cmp key inputs.right value inputs.j (inputs.j + n)
  return (place - inputs.j, found)

/-- Merges the next `m` items on the left with the next `n` items on the right. The answer says
whether the merge should go on; after a call that was answered with no, nothing more is done. -/
def window (cmp : Comparison ε κ) (key : α → Except ε κ)
    (inputs : σ → Except (Fault ε) (Inputs α)) (handler : Handler ε σ) (m n : Nat) :
    EStateM (Fault ε) σ Bool :=
  if m = 0 then
    if n = 0 then pure true else handler (.right n)
  else if n = 0 then
    handler (.left m)
  else do
    let half := m / 2
    let (place, found) ← lift (locate cmp key (← lift (inputs (← get))) half n)
    if ← window cmp key inputs handler half place then
      if ← handler (if found then .tie else .left 1) then
        window cmp key inputs handler (m - half - 1) (if found then n - place - 1 else n - place)
      else
        return false
    else
      return false
termination_by m
decreasing_by all_goals omega

/-- Merges all that is left of both inputs. -/
def remainder (cmp : Comparison ε κ) (key : α → Except ε κ)
    (inputs : σ → Except (Fault ε) (Inputs α)) (handler : Handler ε σ) :
    EStateM (Fault ε) σ Unit := do
  let now ← lift (inputs (← get))
  let _ ← window cmp key inputs handler (now.left.length - now.i) (now.right.length - now.j)

end Engine

namespace Operation

variable {ε α κ σ : Type}

/-- Merges all that is left of both inputs of a sink. -/
def run (op : Operation ε α κ) (cmp : Comparison ε κ) (sink : Sink ε α σ) :
    EStateM (Fault ε) σ Unit :=
  Engine.remainder cmp op.key sink.inputs (op.policy.handler sink)

end Operation

variable {ε α κ : Type}

def merge (cmp : Comparison ε κ) (op : Operation ε α κ) (left right : List α) :
    Except (Fault ε) (List α) :=
  match op.run cmp ListMerge.sink (.start left right) with
  | .ok _ s => .ok s.result
  | .error e _ => .error e

/-- Merges a list into another one, which is rebuilt in place. If the merge fails, the list is
put back as it was. -/
def mergeInPlace [Inhabited α] (cmp : Comparison ε κ) (op : Operation ε α κ) (right : List α) :
    EStateM (Fault ε) (List α) Unit := fun left =>
  match op.run cmp InPlaceMerge.sink (.start left right) with
  | .ok _ s => .ok () s.finish.buffer.slots
  | .error e s => .error e s.abort.buffer.slots

/-- Would a merge of two lists produce any item? -/
def anyOutput (cmp : Comparison ε κ) (op : Operation ε α κ) (left right : List α) :
    Except (Fault ε) Bool :=
  match op.run cmp Probe.sink (.start left right) with
  | .ok _ s => .ok s.result
  | .error e _ => .error e

/-- A rule on sets, with items that are their own keys. -/
def SetRule.operation (rule : SetRule) : Operation ε α α where
  key := .ok
  policy := .ofRule rule

end SortedCollections
