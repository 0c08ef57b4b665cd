import SortedCollections.Merge.Engine

/-!
# Watching a merge

A watched merge notes every call that it makes of its policy, with both cursors as they were
before the call. It can also be cut short: after a number of calls every further one is noted
but answered with no instead of being passed on.
-/
namespace SortedCollections

/-- A call and the cursors before it. -/
structure TracedCall where
  call : Call
  i : Nat
  j : Nat
  deriving Repr, DecidableEq

/-- How many items a call hands over on its own side; a tie counts as one. -/
def Call.count : Call → Nat
  | .left n | .right n => n
  | .tie => 1

/-- A merge state with the calls made so far, in order. -/
structure Traced (σ : Type) where
  state : σ
  calls : List TracedCall
  deriving Repr

namespace Traced

variable {ε α κ σ : Type}

def inside {β : Type} (step : EStateM (Fault ε) σ β) : EStateM (Fault ε) (Traced σ) β := fun s =>
  match step s.state with
  | .ok result state => .ok result { s with state }
  | .error e state => .error e { s with state }

/-- Notes a call, and passes it on if fewer than `limit` calls were made before. -/
def handler (inputs : σ → Except (Fault ε) (Inputs α)) (limit : Option Nat)
    (inner : Handler ε σ) : Handler ε (Traced σ) := fun call => do
  let s ← get
  let now ← Engine.lift (inputs s.state)
  set { s with calls := s.calls ++ [TracedCall.mk call now.i now.j] }
  if limit.all (s.calls.length < ·) then
    inside (inner call)
  else
    return false

end Traced

namespace Operation

variable {ε α κ σ : Type}

/-- Merges all that is left of both inputs of a sink, noting the calls. -/
def runTraced (op : Operation ε α κ) (cmp : Comparison ε κ) (sink : Sink ε α σ)
    (limit : Option Nat) : EStateM (Fault ε) (Traced σ) Unit :=
  Engine.remainder cmp op.key (fun s => sink.inputs s.state)
    (Traced.handler sink.inputs limit (op.policy.handler sink))

end Operation

end SortedCollections
