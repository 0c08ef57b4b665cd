import SortedCollections.Merge.Engine

/-!
# Operations with a memory

What an operation of a client's own does with a run may depend on the runs before: it may count
them, stop after some of them, or call functions that remember. Such an operation carries a memory
from one call to the next. A policy is the case of an operation that remembers nothing.
-/
namespace SortedCollections

/-- What a merge does with each run, with a memory of type `μ`. -/
structure MemoryOperation (ε α κ μ : Type) where
  key : α → Except ε κ
  /-- What happens to a run, whether the merge goes on, and what is remembered. -/
  script : Call → μ → Script ε α (Bool × μ)

namespace MemoryOperation

variable {ε α κ μ σ : Type}

/-- Calls answered by the scripts, run against a sink. The memory stands beside the sink's state. -/
def handler (op : MemoryOperation ε α κ μ) (sink : Sink ε α σ) : Handler ε (σ × μ) :=
  fun call (s, memory) =>
    match (op.script call memory).run sink s with
    | .ok (more, memory) s => .ok more (s, memory)
    | .error e s => .error e (s, memory)

def run (op : MemoryOperation ε α κ μ) (cmp : Comparison ε κ) (sink : Sink ε α σ) :
    EStateM (Fault ε) (σ × μ) Unit :=
  Engine.remainder cmp op.key (fun s => sink.inputs s.1) (op.handler sink)

def merge (op : MemoryOperation ε α κ μ) (cmp : Comparison ε κ) (memory : μ)
    (left right : List α) : Except (Fault ε) (List α) :=
  match op.run cmp ListMerge.sink (.start left right, memory) with
  | .ok _ s => .ok s.1.result
  | .error e _ => .error e

/-- Merges a list into another one, which is rebuilt in place, with a memory to begin with. If the
merge fails, the list is put back as it was. -/
def mergeInPlace [Inhabited α] (op : MemoryOperation ε α κ μ) (cmp : Comparison ε κ) (memory : μ)
    (right : List α) : EStateM (Fault ε) (List α) Unit := fun left =>
  match op.run cmp InPlaceMerge.sink (.start left right, memory) with
  | .ok _ s => .ok () s.1.finish.buffer.slots
  | .error e s => .error e s.1.abort.buffer.slots

end MemoryOperation

end SortedCollections
