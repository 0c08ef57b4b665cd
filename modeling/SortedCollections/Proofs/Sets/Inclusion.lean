import SortedCollections.Proofs.Merge.Pointwise
import SortedCollections.Proofs.Sets.Lists

/-!
# Inclusion of increasing lists

One list lies within another if all its items tie with items there. Of two increasing lists the one that
lies within the other is not longer, and if it is as long both lie within each other. So it does not
matter whether a question about two sets compares lengths before it looks at items, and the questions
that a merge answers are questions about inclusion.
-/
namespace SortedCollections

variable {ε α : Type} {lt : α → α → Except ε Bool} {less : α → α → Bool} {P : α → Prop}
  {a b : List α}

/-- Every item of the first list ties with one of the second. -/
def Within (less : α → α → Bool) (a b : List α) : Prop := ∀ x ∈ a, hasTie less b x = true

section Lengths

variable (order : Decides lt less P) (ha : IncreasingOn less P a) (hb : IncreasingOn less P b)
include order ha hb

theorem right_of_within (within : Within less a b) {p : Pairing α} (mem : p ∈ pairings less a b) :
    p.right?.isSome = true := by
  cases p with
  | left x =>
    obtain ⟨memX, apart⟩ := (left_mem_pairings order ha hb).mp mem
    rw [within x memX] at apart
    cases apart
  | right y => rfl
  | tie x y => rfl

theorem length_le_of_within (within : Within less a b) : a.length ≤ b.length :=
  length_le_of_right less fun _ mem _ => right_of_within order ha hb within mem

/-- A list within another one that is as long leaves nothing out. -/
theorem within_of_length (within : Within less a b) (length : a.length = b.length) :
    Within less b a := by
  have left := congrArg List.length (filterMap_left_pairings less a b)
  have right := congrArg List.length (filterMap_right_pairings less a b)
  rw [List.length_filterMap_eq_countP] at left right
  have all : (pairings less a b).countP (fun p => p.right?.isSome) = (pairings less a b).length :=
    List.countP_eq_length.mpr fun _ mem => right_of_within order ha hb within mem
  have both := List.countP_eq_length.mp (left.trans (length.trans (right.symm.trans all)))
  intro y mem
  by_contra apart
  have alone := (right_mem_pairings order ha hb).mpr ⟨mem, Bool.eq_false_iff.mpr apart⟩
  cases both _ alone

/-- One list is shorter than another that it lies within exactly if something is left out. -/
theorem length_lt_iff (within : Within less a b) : a.length < b.length ↔ ¬Within less b a := by
  have bound := length_le_of_within order ha hb within
  constructor
  · intro shorter back
    have := length_le_of_within order hb ha back
    omega
  · intro missing
    have : a.length ≠ b.length := fun length => missing (within_of_length order ha hb within length)
    omega

end Lengths

section Questions

variable {cmp : Comparison ε α} (ordered : cmp.OrderedOn P) (ha : IncreasingOn cmp.less P a)
  (hb : IncreasingOn cmp.less P b)
include ordered ha hb

theorem isSubset_iff_within : Answers (isSubset cmp a b) (Within cmp.less a b) := by
  refine (isSubset_iff_ties ordered ha hb).congr ?_
  exact forall₂_congr fun x _ => hasTie_eq_true.symm

/-- Lists that lie within each other have the same members. -/
theorem hasTie_eq_of_within (within : Within cmp.less a b) (back : Within cmp.less b a) {x : α}
    (hx : P x) : hasTie cmp.less a x = hasTie cmp.less b x := by
  have order := ordered.decides
  rw [Bool.eq_iff_iff, hasTie_eq_true]
  constructor
  · rintro ⟨y, mem, same⟩
    rw [order.hasTie_congr hb.inside hx (ha.inside y mem) same]
    exact within y mem
  · intro met
    obtain ⟨z, mem, same⟩ := hasTie_eq_true.mp met
    rw [← hasTie_eq_true, order.hasTie_congr ha.inside hx (hb.inside z mem) same]
    exact back z mem

theorem isEqual_iff_within :
    Answers (isEqual cmp a b) (Within cmp.less a b ∧ Within cmp.less b a) := by
  have order := ordered.decides
  refine (isEqual_iff_ties ordered ha hb).congr ⟨?_, ?_⟩
  · rintro ⟨length, alike⟩
    refine ⟨fun x mem => ?_, fun y mem => ?_⟩
    · obtain ⟨i, bound, rfl⟩ := List.getElem_of_mem mem
      exact hasTie_eq_true.mpr ⟨_, List.getElem_mem _, alike i bound (length ▸ bound)⟩
    · obtain ⟨i, bound, rfl⟩ := List.getElem_of_mem mem
      have boundA : i < a.length := by omega
      refine hasTie_eq_true.mpr ⟨a[i], List.getElem_mem boundA, ?_⟩
      rw [tied_comm]
      exact alike i boundA bound
  · rintro ⟨within, back⟩
    have ties := forall₂_tied order ha hb fun x hx =>
      hasTie_eq_of_within ordered ha hb within back hx
    exact List.forall₂_iff_get.mp ties

end Questions

end SortedCollections
