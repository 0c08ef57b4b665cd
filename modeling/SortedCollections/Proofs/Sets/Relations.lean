import SortedCollections.Proofs.Merge.Probe
import SortedCollections.Proofs.Sets.Cofinite

/-!
# Relations of sets and of what they denote

Two sets are disjoint if their intersection is empty, one lies in another if their difference is, and
they are equal if their symmetric difference is. The questions never build these sets: for two lists a
probe stops at the first item of the result, after lengths that already decide, and for finite and
cofinite sets a table leads back to such questions, or to a constant, where the universe has no end.
-/
namespace SortedCollections

variable {ε α : Type} {cmp : Comparison ε α} {P : α → Prop}

/-- A question is answered, and with yes exactly if `p` holds. -/
def Answers (question : Except (Fault ε) Bool) (p : Prop) : Prop :=
  ∃ answer, question = .ok answer ∧ (answer = true ↔ p)

theorem Answers.congr {question : Except (Fault ε) Bool} {p q : Prop} (answers : Answers question p)
    (same : p ↔ q) : Answers question q := by
  obtain ⟨answer, asked, iff⟩ := answers
  exact ⟨answer, asked, iff.trans same⟩

section Lengths

variable {a b : List α}

theorem length_le_of_right (less : α → α → Bool)
    (h : ∀ p ∈ pairings less a b, p.left?.isSome → p.right?.isSome) :
    a.length ≤ b.length := by
  have left := congrArg List.length (filterMap_left_pairings less a b)
  have right := congrArg List.length (filterMap_right_pairings less a b)
  rw [List.length_filterMap_eq_countP] at left right
  rw [← left, ← right]
  exact List.countP_mono_left h

theorem length_le_of_left (less : α → α → Bool)
    (h : ∀ p ∈ pairings less a b, p.right?.isSome → p.left?.isSome) :
    b.length ≤ a.length := by
  have left := congrArg List.length (filterMap_left_pairings less a b)
  have right := congrArg List.length (filterMap_right_pairings less a b)
  rw [List.length_filterMap_eq_countP] at left right
  rw [← left, ← right]
  exact List.countP_mono_left h

theorem SetRule.keeps_of_kept_nil {rule : SetRule} {ps : List (Pairing α)} (none : rule.kept ps = [])
    {p : Pairing α} (mem : p ∈ ps) : rule.keeps p = false := by
  rw [SetRule.kept, List.map_eq_nil_iff, List.filter_eq_nil_iff] at none
  simpa using none p mem

/-- A difference is not empty if there is less to take away than there is. -/
theorem length_le_of_difference {less : α → α → Bool}
    (none : SetRule.difference.kept (pairings less a b) = []) :
    a.length ≤ b.length := by
  refine length_le_of_right less fun p mem _ => ?_
  have dropped := SetRule.keeps_of_kept_nil none mem
  cases p with
  | left x => cases dropped
  | right y => rfl
  | tie x y => rfl

theorem length_eq_of_symmetricDifference {less : α → α → Bool}
    (none : SetRule.symmetricDifference.kept (pairings less a b) = []) : a.length = b.length := by
  have tie (p : Pairing α) (mem : p ∈ pairings less a b) : ∃ x y, p = .tie x y := by
    have dropped := SetRule.keeps_of_kept_nil none mem
    cases p with
    | left x => cases dropped
    | right y => cases dropped
    | tie x y => exact ⟨x, y, rfl⟩
  refine Nat.le_antisymm (length_le_of_right less fun p mem _ => ?_)
    (length_le_of_left less fun p mem _ => ?_)
  · obtain ⟨x, y, rfl⟩ := tie p mem
    rfl
  · obtain ⟨x, y, rfl⟩ := tie p mem
    rfl

end Lengths

section Lists

variable {a b c : List α}

/-- A probe finds out whether a merge is empty. -/
theorem anyOutput_of_merge (ordered : cmp.OrderedOn P) (rule : SetRule)
    (ha : IncreasingOn cmp.less P a) (hb : IncreasingOn cmp.less P b)
    (merged : merge cmp rule.operation a b = .ok c) :
    anyOutput cmp rule.operation a b = .ok !c.isEmpty ∧ c = rule.kept (pairings cmp.less a b) := by
  have keyedA := increasingOn_self.mpr ha
  have keyedB := increasingOn_self.mpr hb
  have probed := rule.anyOutput_pairings ordered keyedA keyedB
  have made := rule.merge_kept ordered keyedA keyedB
  have same : c = rule.kept (pairings cmp.less a b) := Except.ok.inj (merged.symm.trans made)
  exact ⟨by rw [same]; exact probed, same⟩

theorem noOutput_of_merge (ordered : cmp.OrderedOn P) (rule : SetRule)
    (ha : IncreasingOn cmp.less P a) (hb : IncreasingOn cmp.less P b)
    (merged : merge cmp rule.operation a b = .ok c) :
    (do return !(← anyOutput cmp rule.operation a b)) = .ok c.isEmpty := by
  rw [(anyOutput_of_merge ordered rule ha hb merged).1]
  show (Except.ok !!c.isEmpty : Except (Fault ε) Bool) = _
  rw [Bool.not_not]

theorem isDisjoint_of_merge (ordered : cmp.OrderedOn P) (ha : IncreasingOn cmp.less P a)
    (hb : IncreasingOn cmp.less P b) (merged : merge cmp SetRule.intersection.operation a b = .ok c) :
    isDisjoint cmp a b = .ok c.isEmpty :=
  noOutput_of_merge ordered .intersection ha hb merged

theorem isSubset_of_merge (ordered : cmp.OrderedOn P) (ha : IncreasingOn cmp.less P a)
    (hb : IncreasingOn cmp.less P b) (merged : merge cmp SetRule.difference.operation a b = .ok c) :
    isSubset cmp a b = .ok c.isEmpty := by
  obtain ⟨_, same⟩ := anyOutput_of_merge ordered .difference ha hb merged
  rw [isSubset]
  by_cases fits : a.length ≤ b.length
  · rw [if_pos fits]
    exact noOutput_of_merge ordered .difference ha hb merged
  · have some : c.isEmpty = false := by
      rw [List.isEmpty_eq_false_iff]
      intro none
      exact fits (length_le_of_difference (same.symm.trans none))
    rw [if_neg fits, some]
    rfl

theorem isEqual_of_merge (ordered : cmp.OrderedOn P) (ha : IncreasingOn cmp.less P a)
    (hb : IncreasingOn cmp.less P b)
    (merged : merge cmp SetRule.symmetricDifference.operation a b = .ok c) :
    isEqual cmp a b = .ok c.isEmpty := by
  obtain ⟨_, same⟩ := anyOutput_of_merge ordered .symmetricDifference ha hb merged
  rw [isEqual]
  by_cases fits : a.length = b.length
  · rw [if_pos fits]
    exact noOutput_of_merge ordered .symmetricDifference ha hb merged
  · have some : c.isEmpty = false := by
      rw [List.isEmpty_eq_false_iff]
      intro none
      exact fits (length_eq_of_symmetricDifference (same.symm.trans none))
    rw [if_neg fits, some]
    rfl

end Lists

namespace CofiniteSet

variable {s t d : CofiniteSet α}

/-- The table of inclusion asks whether the difference is empty. -/
theorem isSubset_of_combine (ordered : cmp.OrderedOn P)
    (hs : IncreasingOn cmp.less P s.elements.items) (ht : IncreasingOn cmp.less P t.elements.items)
    (combined : s.combine cmp .difference t = .ok d) : s.isSubset cmp t = .ok d.isEmpty := by
  obtain ⟨⟨a⟩, n⟩ := s
  obtain ⟨⟨b⟩, m⟩ := t
  obtain ⟨c, merged, made⟩ := bind_eq_ok.mp combined
  cases made
  cases n with
  | false =>
    cases m with
    | false => exact isSubset_of_merge ordered hs ht merged
    | true => exact isDisjoint_of_merge ordered hs ht merged
  | true =>
    cases m with
    | false => rfl
    | true => exact isSubset_of_merge ordered ht hs merged

/-- The table of disjointness asks whether the intersection is empty. -/
theorem isDisjoint_of_combine (ordered : cmp.OrderedOn P)
    (hs : IncreasingOn cmp.less P s.elements.items) (ht : IncreasingOn cmp.less P t.elements.items)
    (combined : s.combine cmp .intersection t = .ok d) : s.isDisjoint cmp t = .ok d.isEmpty := by
  obtain ⟨⟨a⟩, n⟩ := s
  obtain ⟨⟨b⟩, m⟩ := t
  obtain ⟨c, merged, made⟩ := bind_eq_ok.mp combined
  cases made
  cases n with
  | false =>
    cases m with
    | false => exact isDisjoint_of_merge ordered hs ht merged
    | true => exact isSubset_of_merge ordered hs ht merged
  | true =>
    cases m with
    | false => exact isSubset_of_merge ordered ht hs merged
    | true => rfl

/-- Sets of different forms are never equal: their symmetric difference is cofinite. -/
theorem isEqual_of_combine (ordered : cmp.OrderedOn P)
    (hs : IncreasingOn cmp.less P s.elements.items) (ht : IncreasingOn cmp.less P t.elements.items)
    (combined : s.combine cmp .symmetricDifference t = .ok d) : s.isEqual cmp t = .ok d.isEmpty := by
  obtain ⟨⟨a⟩, n⟩ := s
  obtain ⟨⟨b⟩, m⟩ := t
  obtain ⟨c, merged, made⟩ := bind_eq_ok.mp combined
  cases made
  cases n with
  | false =>
    cases m with
    | false => exact isEqual_of_merge ordered hs ht merged
    | true => rfl
  | true =>
    cases m with
    | false => rfl
    | true => exact isEqual_of_merge ordered hs ht merged

/-- A set is empty if it holds nothing of the domain: a cofinite set always holds something. -/
theorem isEmpty_iff (ordered : cmp.OrderedOn P) (endless : cmp.Endless P) {members : α → Bool}
    (denotes : s.Denotes cmp P members) : s.isEmpty = true ↔ ∀ x, P x → members x = false := by
  have inside := denotes.kept.inside
  cases form : s.negated with
  | false =>
    have stored : s.isEmpty = s.elements.items.isEmpty := by simp [isEmpty, form]
    rw [stored, ordered.isEmpty_iff inside]
    refine forall₂_congr fun x hx => ?_
    rw [denotes.hasTie_eq ordered hx, form, Bool.false_bne]
  | true =>
    obtain ⟨x, hx, fresh⟩ := endless s.elements.items inside
    rw [ordered.among_eq inside hx, denotes.hasTie_eq ordered hx, form] at fresh
    have absent : s.isEmpty = false := by simp [isEmpty, form]
    rw [absent]
    constructor
    · intro empty
      cases empty
    · intro none
      rw [none x hx] at fresh
      cases fresh

theorem isAll_iff (ordered : cmp.OrderedOn P) (endless : cmp.Endless P) {members : α → Bool}
    (denotes : s.Denotes cmp P members) : s.isAll = true ↔ ∀ x, P x → members x = true := by
  have complement : s.isAll = s.complement.isEmpty := by simp [isAll, isEmpty, CofiniteSet.complement]
  rw [complement, isEmpty_iff ordered endless denotes.complement]
  simp only [Bool.not_eq_false']

/-- Everything of the domain that is in `s` is in `t`. -/
def Within (cmp : Comparison ε α) (P : α → Prop) (s t : CofiniteSet α) : Prop :=
  ∀ x, P x → s.contains cmp x = true → t.contains cmp x = true

/-- A question that comes down to whether a combination of two sets is empty. -/
theorem answers_of_combine (ordered : cmp.OrderedOn P) (endless : cmp.Endless P)
    (hs : IncreasingOn cmp.less P s.elements.items) (ht : IncreasingOn cmp.less P t.elements.items)
    (rule : SetRule) {question : Except (Fault ε) Bool}
    (asks : ∀ d, s.combine cmp rule t = .ok d → question = .ok d.isEmpty) :
    Answers question (∀ x, P x → rule.holds (s.contains cmp x) (t.contains cmp x) = false) := by
  obtain ⟨d, combined, denotes⟩ :=
    (denotes_contains hs).combine ordered rule (denotes_contains ht)
  exact ⟨d.isEmpty, asks d combined, isEmpty_iff ordered endless denotes⟩

theorem isSubset_answers (ordered : cmp.OrderedOn P) (endless : cmp.Endless P)
    (hs : IncreasingOn cmp.less P s.elements.items) (ht : IncreasingOn cmp.less P t.elements.items) :
    Answers (s.isSubset cmp t) (Within cmp P s t) := by
  refine (answers_of_combine ordered endless hs ht .difference fun d combined =>
    isSubset_of_combine ordered hs ht combined).congr (forall₂_congr fun x _ => ?_)
  cases s.contains cmp x <;> cases t.contains cmp x <;> simp [SetRule.holds]

theorem isEqual_answers (ordered : cmp.OrderedOn P) (endless : cmp.Endless P)
    (hs : IncreasingOn cmp.less P s.elements.items) (ht : IncreasingOn cmp.less P t.elements.items) :
    Answers (s.isEqual cmp t) (∀ x, P x → s.contains cmp x = t.contains cmp x) := by
  refine (answers_of_combine ordered endless hs ht .symmetricDifference fun d combined =>
    isEqual_of_combine ordered hs ht combined).congr (forall₂_congr fun x _ => ?_)
  cases s.contains cmp x <;> cases t.contains cmp x <;> simp [SetRule.holds]

theorem isDisjoint_answers (ordered : cmp.OrderedOn P) (endless : cmp.Endless P)
    (hs : IncreasingOn cmp.less P s.elements.items) (ht : IncreasingOn cmp.less P t.elements.items) :
    Answers (s.isDisjoint cmp t)
      (∀ x, P x → ¬(s.contains cmp x = true ∧ t.contains cmp x = true)) := by
  refine (answers_of_combine ordered endless hs ht .intersection fun d combined =>
    isDisjoint_of_combine ordered hs ht combined).congr (forall₂_congr fun x _ => ?_)
  cases s.contains cmp x <;> cases t.contains cmp x <;> simp [SetRule.holds]

/-- Sets that lie in each other have the same members. -/
theorem within_both_iff : Within cmp P s t ∧ Within cmp P t s ↔
    ∀ x, P x → s.contains cmp x = t.contains cmp x := by
  constructor
  · rintro ⟨left, right⟩ x hx
    exact Bool.eq_iff_iff.mpr ⟨left x hx, right x hx⟩
  · intro same
    exact ⟨fun x hx mem => same x hx ▸ mem, fun x hx mem => (same x hx).symm ▸ mem⟩

/-- Equality is asked first, inclusion only if it is denied. -/
theorem strict_answers {same question : Except (Fault ε) Bool} {p q : Prop}
    (equal : Answers same (p ∧ q)) (answers : Answers question p) :
    Answers (do if ← same then return false else question) (p ∧ ¬q) := by
  obtain ⟨equal, asked, equal_iff⟩ := equal
  obtain ⟨answer, asked', answer_iff⟩ := answers
  rw [asked, asked']
  cases equal with
  | true =>
    have both : p ∧ q := equal_iff.mp rfl
    exact ⟨false, rfl, by simp [both]⟩
  | false =>
    have differ : ¬(p ∧ q) := fun both => by cases equal_iff.mpr both
    refine ⟨answer, rfl, answer_iff.trans ?_⟩
    tauto

/-- For any two sets of a domain without end, the questions about them are answered by what they
hold of the domain: inclusion either way, disjointness, equality, strict inclusion either way, and
whether a set holds nothing or everything. A set lies in another exactly if their difference is empty,
and two sets are disjoint exactly if their intersection is. -/
theorem cofinite_relations_decide (ordered : cmp.OrderedOn P) (endless : cmp.Endless P)
    (hs : IncreasingOn cmp.less P s.elements.items) (ht : IncreasingOn cmp.less P t.elements.items)
    {operand : Operand ε α} (resolved : operand.resolve cmp s = .ok t) :
    Answers (s.isSubsetOf cmp operand) (Within cmp P s t) ∧
    Answers (s.isSupersetOf cmp operand) (Within cmp P t s) ∧
    Answers (s.isDisjointFrom cmp operand)
      (∀ x, P x → ¬(s.contains cmp x = true ∧ t.contains cmp x = true)) ∧
    Answers (s.isEqual cmp t) (∀ x, P x → s.contains cmp x = t.contains cmp x) ∧
    Answers (s.isProperSubset cmp t) (Within cmp P s t ∧ ¬Within cmp P t s) ∧
    Answers (s.isProperSuperset cmp t) (Within cmp P t s ∧ ¬Within cmp P s t) ∧
    (s.isEmpty = true ↔ ∀ x, P x → s.contains cmp x = false) ∧
    (s.isAll = true ↔ ∀ x, P x → s.contains cmp x = true) ∧
    (∃ d, s.merged cmp .difference operand = .ok d ∧ s.isSubsetOf cmp operand = .ok d.isEmpty) ∧
    ∃ d, s.merged cmp .intersection operand = .ok d ∧ s.isDisjointFrom cmp operand = .ok d.isEmpty := by
  have subset := isSubset_answers ordered endless hs ht
  have superset := isSubset_answers ordered endless ht hs
  have equal := isEqual_answers ordered endless hs ht
  have disjoint := isDisjoint_answers ordered endless hs ht
  have members := denotes_contains hs
  obtain ⟨d, difference, _⟩ := members.combine ordered .difference (denotes_contains ht)
  obtain ⟨c, intersection, _⟩ := members.combine ordered .intersection (denotes_contains ht)
  rw [isSubsetOf, isSupersetOf, isDisjointFrom, merged, merged, resolved]
  exact ⟨subset, superset, disjoint, equal,
    strict_answers (equal.congr within_both_iff.symm) subset,
    strict_answers (equal.congr (within_both_iff.symm.trans and_comm)) superset,
    isEmpty_iff ordered endless members, isAll_iff ordered endless members,
    ⟨d, difference, isSubset_of_combine ordered hs ht difference⟩,
    ⟨c, intersection, isDisjoint_of_combine ordered hs ht intersection⟩⟩

/-- A finite set and a cofinite one that leaves out something else. -/
theorem finite_within_complement :
    let s : CofiniteSet Nat := ⟨⟨[1, 3]⟩, false⟩
    let t : CofiniteSet Nat := ⟨⟨[2]⟩, true⟩
    Answers (s.isSubsetOf (.natural : Comparison Empty Nat) (.set t))
        (Within (.natural : Comparison Empty Nat) (fun _ => True) s t) ∧
      ∃ d, s.merged (.natural : Comparison Empty Nat) .difference (.set t) = .ok d ∧
        s.isSubsetOf (.natural : Comparison Empty Nat) (.set t) = .ok d.isEmpty := by
  have kept (items : List Nat) (increasing : Increasing Comparison.natural.less items) :
      IncreasingOn (.natural : Comparison Empty Nat).less (fun _ => True) items :=
    ⟨increasing, fun _ _ => trivial⟩
  have resolved : Operand.resolve (.natural : Comparison Empty Nat) ⟨⟨[1, 3]⟩, false⟩
      (.set ⟨⟨[2]⟩, true⟩) = .ok ⟨⟨[2]⟩, true⟩ := rfl
  obtain ⟨subset, _, _, _, _, _, _, _, difference, _⟩ :=
    cofinite_relations_decide Comparison.natural_ordered Comparison.natural_endless
      (kept [1, 3] (by decide)) (kept [2] (by decide)) resolved
  exact ⟨subset, difference⟩

end CofiniteSet

end SortedCollections
