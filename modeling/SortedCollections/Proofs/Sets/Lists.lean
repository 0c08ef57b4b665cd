import SortedCollections.Proofs.Sets.Elements
import SortedCollections.Proofs.Sets.Relations

/-!
# The lists that rules on sets make, and the relations read off them

A merge of two increasing lists by a rule on sets is a list that can be said without the merge: an
intersection and a difference keep some items of the left list as they stand there, and a union and a
symmetric difference are the increasing lists of what they keep of both. That one list lies in another,
shares nothing with it or equals it place by place is that such a list is empty, so that lengths which
rule the relation out rule out the empty list, too.
-/
namespace SortedCollections

variable {ε α κ : Type}

/-- A merge returns, and what it returns is the only increasing list of the items that `p` holds of. -/
def MakesList (less : α → α → Bool) (p : α → Prop) (merged : Except (Fault ε) (List α)) : Prop :=
  ∃ c, merged = .ok c ∧ ∀ d, (Increasing less d ∧ ∀ x, x ∈ d ↔ p x) ↔ d = c

section Rules

variable {cmp : Comparison ε κ} {key : α → Except ε κ} {P : κ → Prop} {a b : List α}

/-- What a rule makes of two increasing lists, by which items it keeps. -/
theorem SetRule.merge_makesList (ordered : cmp.OrderedOn P) (rule : SetRule)
    (ha : IncreasingOn (cmp.on key).less (Comparison.KeyIn key P) a)
    (hb : IncreasingOn (cmp.on key).less (Comparison.KeyIn key P) b) {p : α → Prop}
    (keeps : ∀ x, p x ↔
      (rule.keepsLeft = true ∧ x ∈ a ∧ hasTie (cmp.on key).less b x = false) ∨
        (rule.keepsRight = true ∧ x ∈ b ∧ hasTie (cmp.on key).less a x = false) ∨
          rule.keepsTie = true ∧ x ∈ a ∧ hasTie (cmp.on key).less b x = true) :
    MakesList (cmp.on key).less p (merge cmp ⟨key, .ofRule rule⟩ a b) := by
  have order := (ordered.on key).decides
  have increasing := (rule.kept_pairings order ha hb).increasing
  have mem (x : α) : x ∈ rule.kept (pairings (cmp.on key).less a b) ↔ p x :=
    (rule.mem_kept order ha hb).trans (keeps x).symm
  have inside (x : α) (holds : p x) : Comparison.KeyIn key P x := by
    rcases (keeps x).mp holds with ⟨_, memA, _⟩ | ⟨_, memB, _⟩ | ⟨_, memA, _⟩
    · exact ha.inside x memA
    · exact hb.inside x memB
    · exact ha.inside x memA
  refine ⟨_, rule.merge_kept ordered ha hb, fun d => ?_⟩
  constructor
  · rintro ⟨increasing', mem'⟩
    have kept : IncreasingOn (cmp.on key).less (Comparison.KeyIn key P) d :=
      ⟨increasing', fun x memD => inside x ((mem' x).mp memD)⟩
    have kept' : IncreasingOn (cmp.on key).less (Comparison.KeyIn key P) _ :=
      ⟨increasing, fun x memC => inside x ((mem x).mp memC)⟩
    exact kept.ext order kept' fun x => (mem' x).trans (mem x).symm
  · rintro rfl
    exact ⟨increasing, mem⟩

/-- A list with the right items in increasing order is what the merge makes. -/
theorem MakesList.eq_ok {less : α → α → Bool} {p : α → Prop} {merged : Except (Fault ε) (List α)}
    (makes : MakesList less p merged) {d : List α} (increasing : Increasing less d)
    (mem : ∀ x, x ∈ d ↔ p x) : merged = .ok d := by
  obtain ⟨c, done, only⟩ := makes
  rw [done, (only d).mp ⟨increasing, mem⟩]

/-- An intersection keeps the items of the left list that tie with one of the right list. -/
theorem merge_intersection (ordered : cmp.OrderedOn P)
    (ha : IncreasingOn (cmp.on key).less (Comparison.KeyIn key P) a)
    (hb : IncreasingOn (cmp.on key).less (Comparison.KeyIn key P) b) :
    merge cmp ⟨key, .ofRule .intersection⟩ a b = .ok (a.filter (hasTie (cmp.on key).less b)) := by
  have makes := SetRule.intersection.merge_makesList ordered ha hb
    (p := fun x => x ∈ a ∧ hasTie (cmp.on key).less b x = true) fun x => by
      simp [SetRule.keepsLeft, SetRule.keepsRight, SetRule.keepsTie]
  exact makes.eq_ok (ha.increasing.sublist List.filter_sublist) fun x => List.mem_filter

/-- A difference keeps the items of the left list that tie with none of the right list. -/
theorem merge_difference (ordered : cmp.OrderedOn P)
    (ha : IncreasingOn (cmp.on key).less (Comparison.KeyIn key P) a)
    (hb : IncreasingOn (cmp.on key).less (Comparison.KeyIn key P) b) :
    merge cmp ⟨key, .ofRule .difference⟩ a b =
      .ok (a.filter fun x => !hasTie (cmp.on key).less b x) := by
  have makes := SetRule.difference.merge_makesList ordered ha hb
    (p := fun x => x ∈ a ∧ (!hasTie (cmp.on key).less b x) = true) fun x => by
      simp [SetRule.keepsLeft, SetRule.keepsRight, SetRule.keepsTie]
  exact makes.eq_ok (ha.increasing.sublist List.filter_sublist) fun x => List.mem_filter

/-- What the four rules make of two lists, as lists of the items themselves. Of two items that tie it is
the left one that stays. -/
structure RulesMake (cmp : Comparison ε κ) (key : α → Except ε κ) (a b : List α) : Prop where
  intersection : merge cmp ⟨key, .ofRule .intersection⟩ a b =
    .ok (a.filter (hasTie (cmp.on key).less b))
  difference : merge cmp ⟨key, .ofRule .difference⟩ a b =
    .ok (a.filter fun x => !hasTie (cmp.on key).less b x)
  union : MakesList (cmp.on key).less
    (fun x => x ∈ a ∨ x ∈ b ∧ hasTie (cmp.on key).less a x = false)
    (merge cmp ⟨key, .ofRule .union⟩ a b)
  symmetricDifference : MakesList (cmp.on key).less
    (fun x => (x ∈ a ∧ hasTie (cmp.on key).less b x = false) ∨
      x ∈ b ∧ hasTie (cmp.on key).less a x = false)
    (merge cmp ⟨key, .ofRule .symmetricDifference⟩ a b)

/-- For lists that increase by their keys, the four rules make the lists that a reader of their names
expects. Lists of items that are their own keys are the case `key = .ok`. -/
theorem set_rules_make_lists (ordered : cmp.OrderedOn P)
    (ha : IncreasingOn (cmp.on key).less (Comparison.KeyIn key P) a)
    (hb : IncreasingOn (cmp.on key).less (Comparison.KeyIn key P) b) : RulesMake cmp key a b where
  intersection := merge_intersection ordered ha hb
  difference := merge_difference ordered ha hb
  union := SetRule.union.merge_makesList ordered ha hb fun x => by
    -- An item of the left list either ties with one on the right or does not.
    cases hasTie (cmp.on key).less b x <;>
      simp [SetRule.keepsLeft, SetRule.keepsRight, SetRule.keepsTie, or_comm]
  symmetricDifference := SetRule.symmetricDifference.merge_makesList ordered ha hb fun x => by
    simp [SetRule.keepsLeft, SetRule.keepsRight, SetRule.keepsTie]

/-- Numbers with a name in two languages. The name on the left stays. -/
theorem set_rules_on_named_numbers :
    let english := [(1, "one"), (2, "two")]
    let german := [(2, "zwei"), (3, "drei")]
    let number : Nat × String → Except Empty Nat := fun named => .ok named.1
    RulesMake .natural number english german ∧
      merge .natural ⟨number, .ofRule .intersection⟩ english german = .ok [(2, "two")] := by
  intro english german number
  have kept (named : List (Nat × String))
      (increasing : Increasing (Comparison.on .natural number).less named) :
      IncreasingOn (Comparison.on .natural number).less
        (Comparison.KeyIn number fun _ => True) named :=
    ⟨increasing, fun x _ => ⟨x.1, rfl, trivial⟩⟩
  have make := set_rules_make_lists Comparison.natural_ordered (kept english (by decide))
    (kept german (by decide))
  exact ⟨make, make.intersection⟩

end Rules

section Relations

variable {cmp : Comparison ε α} {P : α → Prop} {a b : List α}

/-- A list filtered by a test is empty if no item passes. -/
theorem isEmpty_filter_iff {test : α → Bool} {xs : List α} :
    (xs.filter test).isEmpty = true ↔ ∀ x ∈ xs, test x = false := by
  rw [List.isEmpty_iff, List.filter_eq_nil_iff]
  simp

theorem isSubset_iff_ties (ordered : cmp.OrderedOn P) (ha : IncreasingOn cmp.less P a)
    (hb : IncreasingOn cmp.less P b) :
    Answers (isSubset cmp a b) (∀ x ∈ a, ∃ y ∈ b, tied cmp.less x y = true) := by
  have merged := merge_difference ordered (increasingOn_self.mpr ha) (increasingOn_self.mpr hb)
  refine ⟨_, isSubset_of_merge ordered ha hb merged, isEmpty_filter_iff.trans ?_⟩
  refine forall₂_congr fun x _ => ?_
  rw [Bool.not_eq_false']
  exact hasTie_eq_true

theorem isDisjoint_iff_apart (ordered : cmp.OrderedOn P) (ha : IncreasingOn cmp.less P a)
    (hb : IncreasingOn cmp.less P b) :
    Answers (isDisjoint cmp a b) (∀ x ∈ a, ∀ y ∈ b, tied cmp.less x y = false) := by
  have merged := merge_intersection ordered (increasingOn_self.mpr ha) (increasingOn_self.mpr hb)
  refine ⟨_, isDisjoint_of_merge ordered ha hb merged, isEmpty_filter_iff.trans ?_⟩
  exact forall₂_congr fun x _ => hasTie_eq_false

/-- A symmetric difference is empty if the lists tie place by place. -/
theorem kept_symmetricDifference_eq_nil (less : α → α → Bool) (a b : List α) :
    SetRule.symmetricDifference.kept (pairings less a b) = [] ↔
      List.Forall₂ (fun x y => tied less x y = true) a b := by
  fun_induction pairings less a b with
  | case1 => simp [SetRule.kept]
  | case2 x xs ih => simp [SetRule.kept, SetRule.keeps, SetRule.keepsLeft]
  | case3 y ys ih => simp [SetRule.kept, SetRule.keeps, SetRule.keepsRight]
  | case4 x xs y ys less_xy ih =>
    simp [SetRule.kept, SetRule.keeps, SetRule.keepsLeft, tied, less_xy]
  | case5 x xs y ys not_less less_yx ih =>
    simp [SetRule.kept, SetRule.keeps, SetRule.keepsRight, tied, less_yx]
  | case6 x xs y ys not_less not_less' ih =>
    have same : tied less x y = true := by simp [tied, not_less, not_less']
    rw [List.forall₂_cons, ← ih]
    simp [SetRule.kept, SetRule.keeps, SetRule.keepsTie, same]

theorem isEqual_iff_ties (ordered : cmp.OrderedOn P) (ha : IncreasingOn cmp.less P a)
    (hb : IncreasingOn cmp.less P b) :
    Answers (isEqual cmp a b)
      (a.length = b.length ∧ ∀ i (left : i < a.length) (right : i < b.length),
        tied cmp.less a[i] b[i] = true) := by
  have merged := SetRule.symmetricDifference.merge_kept ordered (increasingOn_self.mpr ha)
    (increasingOn_self.mpr hb)
  refine ⟨_, isEqual_of_merge ordered ha hb merged, ?_⟩
  rw [List.isEmpty_iff]
  exact (kept_symmetricDifference_eq_nil cmp.less a b).trans List.forall₂_iff_get

/-- The answer without a look at the lengths. -/
theorem isSubset_eq_probe (ordered : cmp.OrderedOn P) (ha : IncreasingOn cmp.less P a)
    (hb : IncreasingOn cmp.less P b) :
    isSubset cmp a b = do return !(← anyOutput cmp SetRule.difference.operation a b) := by
  have merged := merge_difference ordered (increasingOn_self.mpr ha) (increasingOn_self.mpr hb)
  rw [isSubset_of_merge ordered ha hb merged, noOutput_of_merge ordered _ ha hb merged]

theorem isEqual_eq_probe (ordered : cmp.OrderedOn P) (ha : IncreasingOn cmp.less P a)
    (hb : IncreasingOn cmp.less P b) :
    isEqual cmp a b = do return !(← anyOutput cmp SetRule.symmetricDifference.operation a b) := by
  have merged := SetRule.symmetricDifference.merge_kept ordered (increasingOn_self.mpr ha)
    (increasingOn_self.mpr hb)
  rw [isEqual_of_merge ordered ha hb merged, noOutput_of_merge ordered _ ha hb merged]

/-- What the questions about two lists are answered, and that the answers are those of the merges behind
them, whatever the lengths of the lists. -/
structure RelationsDecide (cmp : Comparison ε α) (a b : List α) : Prop where
  subset : Answers (isSubset cmp a b) (∀ x ∈ a, ∃ y ∈ b, tied cmp.less x y = true)
  superset : Answers (isSuperset cmp a b) (∀ y ∈ b, ∃ x ∈ a, tied cmp.less y x = true)
  disjoint : Answers (isDisjoint cmp a b) (∀ x ∈ a, ∀ y ∈ b, tied cmp.less x y = false)
  equal : Answers (isEqual cmp a b)
    (a.length = b.length ∧ ∀ i (left : i < a.length) (right : i < b.length),
      tied cmp.less a[i] b[i] = true)
  subset_merge : isSubset cmp a b = do return !(← anyOutput cmp SetRule.difference.operation a b)
  superset_merge : isSuperset cmp a b = do return !(← anyOutput cmp SetRule.difference.operation b a)
  equal_merge : isEqual cmp a b =
    do return !(← anyOutput cmp SetRule.symmetricDifference.operation a b)

/-- For increasing lists, one and the same list among them, the questions are answered by which items
tie. Two lists are equal if they tie place by place. -/
theorem list_relations_decide (ordered : cmp.OrderedOn P) (ha : IncreasingOn cmp.less P a)
    (hb : IncreasingOn cmp.less P b) : RelationsDecide cmp a b where
  subset := isSubset_iff_ties ordered ha hb
  superset := isSubset_iff_ties ordered hb ha
  disjoint := isDisjoint_iff_apart ordered ha hb
  equal := isEqual_iff_ties ordered ha hb
  subset_merge := isSubset_eq_probe ordered ha hb
  superset_merge := isSubset_eq_probe ordered hb ha
  equal_merge := isEqual_eq_probe ordered ha hb

/-- Two of three numbers, compared with all of them and with themselves. -/
theorem relations_of_numbers :
    RelationsDecide (.natural : Comparison Empty Nat) [1, 3] [1, 2, 3] ∧
      RelationsDecide (.natural : Comparison Empty Nat) [1, 3] [1, 3] := by
  have kept (numbers : List Nat) (increasing : Increasing Comparison.natural.less numbers) :
      IncreasingOn (.natural : Comparison Empty Nat).less (fun _ => True) numbers :=
    ⟨increasing, fun _ _ => trivial⟩
  exact ⟨list_relations_decide Comparison.natural_ordered (kept _ (by decide)) (kept _ (by decide)),
    list_relations_decide Comparison.natural_ordered (kept _ (by decide)) (kept _ (by decide))⟩

end Relations

end SortedCollections
