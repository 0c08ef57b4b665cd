import SortedCollections.Session.Argument

/-!
# Calls of members

A call of a member works on a container and may change it. A failure says what went wrong with
the values, and leaves the container as the call had made it by then.
-/
namespace SortedCollections

abbrev MemberCall (σ : Type) : Type → Type := EStateM Failure σ

namespace MemberCall

variable {σ α : Type}

/-- An answer that leaves the container as it is. -/
def answer (result : Except (Fault Failure) α) : MemberCall σ α :=
  match result with
  | .ok a => pure a
  | .error e => throw (.ofFault e)

/-- A change of the container in place, which answers nothing. -/
def change (step : EStateM (Fault Failure) σ Unit) : MemberCall σ Value := fun s =>
  match step s with
  | .ok () s => .ok .none s
  | .error e s => .error (.ofFault e) s

end MemberCall

end SortedCollections
