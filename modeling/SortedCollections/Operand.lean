import SortedCollections.Runs

/-!
# What a container is combined with

The other side of a set or map operation may be the container itself, another container, whose
items are in order already, or any collection of items, which is brought into order first. It may
also be no collection at all; then the operation fails when that operand's turn comes.
-/
namespace SortedCollections

inductive Operand (ε α : Type) where
  /-- The container operated on, as it stands when the operand's turn comes. -/
  | self
  /-- Items in strictly increasing order. -/
  | sorted (items : List α)
  /-- Items in any order, the last of equal ones counting. -/
  | unsorted (items : List α)
  /-- Something that holds no items. -/
  | refused (cause : ε)
  deriving Repr

/-- The operand's items in strictly increasing order of their keys. -/
def Operand.resolve {ε α κ : Type} (cmp : Comparison ε κ) (key : α → Except ε κ) (self : List α) :
    Operand ε α → Except (Fault ε) (List α)
  | .self => .ok self
  | .sorted items => .ok items
  | .unsorted items => sortDedup cmp key .standard items
  | .refused cause => .error (.raised cause)

end SortedCollections
