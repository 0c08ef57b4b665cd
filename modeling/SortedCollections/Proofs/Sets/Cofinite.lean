import SortedCollections.CofiniteSet
import SortedCollections.Proofs.Merge.InPlace
import SortedCollections.Proofs.Merge.Rules
import SortedCollections.Proofs.Sets.Deduplication

/-!
# What finite and cofinite sets denote

A set denotes a predicate on all of the domain, however few items it stores. Each operation keeps
the stored items increasing and combines the predicates as its rule says; the plan of the operation
has to make up for the forms of its operands. An operation in place does what the operation that
makes a new set does.
-/
namespace SortedCollections

variable {ε α : Type} {cmp : Comparison ε α} {P : α → Prop}

namespace CofiniteSet

/-- The stored items increase, and the set holds what the predicate says. -/
structure Denotes (cmp : Comparison ε α) (P : α → Prop) (s : CofiniteSet α) (members : α → Bool) :
    Prop where
  kept : IncreasingOn cmp.less P s.elements.items
  contains : ∀ x, P x → s.contains cmp x = members x

theorem contains_eq (ordered : cmp.OrderedOn P) {s : CofiniteSet α}
    (kept : IncreasingOn cmp.less P s.elements.items) {x : α} (hx : P x) :
    s.contains cmp x = (s.negated != hasTie cmp.less s.elements.items x) := by
  rw [contains, SortedSet.contains_eq ordered kept hx]

/-- A set denotes what it is asked for. -/
theorem denotes_contains {s : CofiniteSet α} (kept : IncreasingOn cmp.less P s.elements.items) :
    s.Denotes cmp P (s.contains cmp) :=
  ⟨kept, fun _ _ => rfl⟩

theorem denotes_of_hasTie (ordered : cmp.OrderedOn P) {s : CofiniteSet α} {members : α → Bool}
    (kept : IncreasingOn cmp.less P s.elements.items)
    (holds : ∀ x, P x → (s.negated != hasTie cmp.less s.elements.items x) = members x) :
    s.Denotes cmp P members :=
  ⟨kept, fun x hx => by rw [contains_eq ordered kept hx, holds x hx]⟩

theorem constant_denotes (ordered : cmp.OrderedOn P) (value : Bool) :
    (constant value).Denotes cmp P fun _ => value :=
  denotes_of_hasTie ordered ⟨List.Pairwise.nil, by simp [constant, SortedSet.empty]⟩ fun x _ => by
    simp [constant, SortedSet.empty]

theorem ofList_denotes (ordered : cmp.OrderedOn P) {items : List α} (inside : ∀ x ∈ items, P x)
    (negated : Bool) :
    ∃ s, ofList cmp items negated = .ok s ∧ s.Denotes cmp P fun x => negated != cmp.among items x := by
  obtain ⟨elements, done, kept, members⟩ := SortedSet.ofList_members ordered inside
  refine ⟨⟨elements, negated⟩, by rw [ofList, done]; rfl, denotes_of_hasTie ordered kept ?_⟩
  intro x hx
  rw [members x hx, ordered.among_eq inside hx]

/-- Removing an item is adding it to the complement. -/
theorem discard_eq (s : CofiniteSet α) (x : α) :
    s.discard cmp x = do return (← s.complement.insert cmp x).complement := by
  cases form : s.negated with
  | true =>
    rw [discard, CofiniteSet.insert, complement, form]
    cases s.elements.insert cmp x <;> simp [complement]
  | false =>
    rw [discard, CofiniteSet.insert, complement, form]
    cases s.elements.discard cmp x <;> simp [complement]

namespace Denotes

variable {s t : CofiniteSet α} {left right : α → Bool}

theorem congr (denotes : s.Denotes cmp P left) (same : ∀ x, P x → left x = right x) :
    s.Denotes cmp P right :=
  ⟨denotes.kept, fun x hx => (denotes.contains x hx).trans (same x hx)⟩

theorem complement (denotes : s.Denotes cmp P left) :
    s.complement.Denotes cmp P fun x => !left x where
  kept := denotes.kept
  contains x hx := by
    rw [← denotes.contains x hx]
    cases h : s.negated <;> simp [CofiniteSet.complement, CofiniteSet.contains, h]

theorem hasTie_eq (ordered : cmp.OrderedOn P) (denotes : s.Denotes cmp P left) {x : α} (hx : P x) :
    hasTie cmp.less s.elements.items x = (s.negated != left x) := by
  rw [← denotes.contains x hx, contains_eq ordered denotes.kept hx]
  cases s.negated <;> simp

theorem insert (ordered : cmp.OrderedOn P) (denotes : s.Denotes cmp P left) {x : α} (hx : P x) :
    ∃ t, s.insert cmp x = .ok t ∧ t.Denotes cmp P fun y => cmp.same y x || left y := by
  cases form : s.negated with
  | true =>
    obtain ⟨elements, done, kept, members⟩ := SortedSet.discard_members ordered denotes.kept hx
    refine ⟨{ s with elements }, by rw [CofiniteSet.insert, form, if_pos rfl, done]; rfl,
      denotes_of_hasTie ordered kept fun y hy => ?_⟩
    rw [members y hy, denotes.hasTie_eq ordered hy, ordered.same_eq hy hx, form]
    simp
  | false =>
    obtain ⟨elements, done, kept, members⟩ := SortedSet.insert_members ordered denotes.kept hx
    refine ⟨{ s with elements }, by rw [CofiniteSet.insert, form, if_neg (by simp), done]; rfl,
      denotes_of_hasTie ordered kept fun y hy => ?_⟩
    rw [members y hy, denotes.hasTie_eq ordered hy, ordered.same_eq hy hx, form]
    simp

theorem discard (ordered : cmp.OrderedOn P) (denotes : s.Denotes cmp P left) {x : α} (hx : P x) :
    ∃ t, s.discard cmp x = .ok t ∧ t.Denotes cmp P fun y => !cmp.same y x && left y := by
  obtain ⟨t, done, inserted⟩ := denotes.complement.insert ordered hx
  refine ⟨t.complement, by rw [discard_eq, done]; rfl, inserted.complement.congr fun y _ => ?_⟩
  rw [Bool.not_or, Bool.not_not]

end Denotes

/-- Does the result of a plan hold something, by whether it is among the stored items of the left
and of the right operand? -/
def Plan.holds (p : Plan) (inLeft inRight : Bool) : Bool :=
  p.negated != if p.swapped then p.rule.holds inRight inLeft else p.rule.holds inLeft inRight

/-- A plan makes up for the forms of the operands. -/
theorem plan_holds (rule : SetRule) (left right inLeft inRight : Bool) :
    (plan rule left right).holds inLeft inRight =
      rule.holds (left != inLeft) (right != inRight) := by
  cases rule <;> cases left <;> cases right <;> cases inLeft <;> cases inRight <;> rfl

theorem Denotes.combine (ordered : cmp.OrderedOn P) (rule : SetRule) {s t : CofiniteSet α}
    {left right : α → Bool} (hs : s.Denotes cmp P left) (ht : t.Denotes cmp P right) :
    ∃ u, s.combine cmp rule t = .ok u ∧ u.Denotes cmp P fun x => rule.holds (left x) (right x) := by
  have meaning (x : α) (hx : P x) : rule.holds (left x) (right x) =
      (plan rule s.negated t.negated).holds (hasTie cmp.less s.elements.items x)
        (hasTie cmp.less t.elements.items x) := by
    rw [plan_holds, ← contains_eq ordered hs.kept hx, ← contains_eq ordered ht.kept hx,
      hs.contains x hx, ht.contains x hx]
  rw [CofiniteSet.combine]
  generalize plan rule s.negated t.negated = p at meaning
  cases swapped : p.swapped with
  | true =>
    obtain ⟨c, done, kept, members⟩ := merge_members ordered p.rule ht.kept hs.kept
    refine ⟨⟨⟨c⟩, p.negated⟩, by simp only [if_true, done]; rfl,
      denotes_of_hasTie ordered kept fun x hx => ?_⟩
    rw [meaning x hx, Plan.holds, swapped, if_pos rfl, ← members x hx]
  | false =>
    obtain ⟨c, done, kept, members⟩ := merge_members ordered p.rule hs.kept ht.kept
    refine ⟨⟨⟨c⟩, p.negated⟩, by simp only [Bool.false_eq_true, if_false, done]; rfl,
      denotes_of_hasTie ordered kept fun x hx => ?_⟩
    rw [meaning x hx, Plan.holds, swapped, if_neg Bool.false_ne_true, ← members x hx]

/-- An operation in place changes the set to what the operation would make a new set of, whichever
way the plan goes. After a fault the set is as it was. -/
theorem update_eq [Inhabited α] (rule : SetRule) (operand : Operand ε α) (s : CofiniteSet α) :
    update cmp rule operand s = changedTo s (s.merged cmp rule operand) := by
  rw [update, merged]
  cases operand.resolve cmp s with
  | error e => rfl
  | ok t =>
    show _ = changedTo s (s.combine cmp rule t)
    rw [combine]
    dsimp only
    cases swapped : (plan rule s.negated t.negated).swapped with
    | true =>
      simp only [if_true, mergeInPlace_eq]
      cases merge cmp _ t.elements.items s.elements.items <;> rfl
    | false =>
      simp only [Bool.false_eq_true, if_false, mergeInPlace_eq]
      cases merge cmp _ s.elements.items t.elements.items <;> rfl

end CofiniteSet

end SortedCollections
