/-!
# Comparisons that may fail

Every search, sort and merge of this library is driven by two questions about keys: is one less
than the other, and are the two equal. Either question may fail, with a cause of a type `ε` that
the client chooses, because keys of different kinds need not be comparable.

`Fault ε` adds to those causes everything that can go wrong inside the library itself: a cursor
or an index that leaves its list, a buffer whose regions overlap, an operation that a merge
target does not offer.
-/
namespace SortedCollections

/-- Two steps succeed together exactly if both succeed. -/
theorem bind_eq_ok {ε α β : Type} {first : Except ε α} {second : α → Except ε β} {result : β} :
    first >>= second = .ok result ↔ ∃ a, first = .ok a ∧ second a = .ok result := by
  cases first with
  | error e =>
    constructor
    · intro h
      cases h
    · rintro ⟨_, h, _⟩
      cases h
  | ok a =>
    constructor
    · exact fun h => ⟨a, rfl, h⟩
    · rintro ⟨_, same, h⟩
      cases same
      exact h

/-- A step on a state and then another one, from a given state. -/
theorem bind_run {τ σ β γ : Type} (first : EStateM τ σ β) (second : β → EStateM τ σ γ) (s : σ) :
    (first >>= second) s =
      match first s with
      | .ok b s => second b s
      | .error e s => .error e s := by
  show EStateM.bind first second s = _
  unfold EStateM.bind
  cases first s <;> rfl

/-- The two questions asked about keys. -/
structure Comparison (ε κ : Type) where
  lt : κ → κ → Except ε Bool
  eq : κ → κ → Except ε Bool

namespace Comparison

variable {ε κ : Type}

/-- The comparison of an order that always answers. -/
def ofDecision (lt eq : κ → κ → Bool) : Comparison ε κ where
  lt a b := .ok (lt a b)
  eq a b := .ok (eq a b)

/-- Keys are ordered among themselves on the domain `P`: both questions answer there, `lt` is a
strict total order up to ties, and the ties are exactly the equal keys. -/
structure OrderedOn (cmp : Comparison ε κ) (P : κ → Prop) : Prop where
  lt_answers : ∀ a b, P a → P b → ∃ r, cmp.lt a b = .ok r
  eq_answers : ∀ a b, P a → P b → ∃ r, cmp.eq a b = .ok r
  lt_irrefl : ∀ a, P a → cmp.lt a a = .ok false
  lt_trans : ∀ a b c, P a → P b → P c →
    cmp.lt a b = .ok true → cmp.lt b c = .ok true → cmp.lt a c = .ok true
  tie_iff : ∀ a b, P a → P b →
    (cmp.eq a b = .ok true ↔ cmp.lt a b = .ok false ∧ cmp.lt b a = .ok false)
  tie_trans : ∀ a b c, P a → P b → P c →
    cmp.eq a b = .ok true → cmp.eq b c = .ok true → cmp.eq a c = .ok true

/-- All keys are ordered among themselves. -/
def Ordered (cmp : Comparison ε κ) : Prop := cmp.OrderedOn fun _ => True

end Comparison

/-- The operations that a merge target or a merge policy may leave out. -/
inductive Missing where
  /-- The target has no way to move its left or its right cursor. -/
  | advanceLeft
  | advanceRight
  /-- The named target takes no new items. -/
  | push (target : String)
  /-- The named target hands out no items. -/
  | handOut (target : String)
  /-- The target has no cursors at all. -/
  | cursors
  /-- The policy does not say what happens to a run of the left or the right input, or to a tie. -/
  | onLeft
  | onRight
  | onTie
  deriving Repr, DecidableEq

/-- Everything that can stop an operation. -/
inductive Fault (ε : Type) where
  /-- A comparison, a key or a client's function failed. -/
  | raised (cause : ε)
  /-- A comparison failed while items were being sorted. Which pairs a sort compares is its own
  affair, so a client may find that the two items compared are of no interest. -/
  | unsortable (cause : ε)
  /-- An item was read past the end of its list. -/
  | readPastEnd
  /-- An item was stored past the end of its list. -/
  | storePastEnd
  /-- A search was asked to start before the first item. -/
  | negativeStart
  /-- A merge cursor was moved past the end of its input. -/
  | cursorOutOfBounds
  /-- A write left the written part of a gap buffer overlapping the unread part. -/
  | overrun
  /-- The regions of a gap buffer were found out of order. -/
  | incoherent (target source : Int) (size : Nat)
  | missing (what : Missing)
  deriving Repr

namespace Fault

variable {ε α : Type}

/-- A client's answer, with its failure as a fault. -/
def lift : Except ε α → Except (Fault ε) α
  | .ok a => .ok a
  | .error e => .error (.raised e)

/-- The answer of a comparison made while sorting. -/
def liftSort : Except ε α → Except (Fault ε) α
  | .ok a => .ok a
  | .error e => .error (.unsortable e)

@[simp] theorem lift_ok (a : α) : lift (.ok a : Except ε α) = .ok a := rfl

@[simp] theorem lift_error (e : ε) : lift (.error e : Except ε α) = .error (.raised e) := rfl

theorem lift_eq_ok {answer : Except ε α} {a : α} : lift answer = .ok a ↔ answer = .ok a := by
  cases answer <;> simp

@[simp] theorem liftSort_ok (a : α) : liftSort (.ok a : Except ε α) = .ok a := rfl

end Fault

end SortedCollections
