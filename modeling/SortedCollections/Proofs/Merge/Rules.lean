import SortedCollections.Proofs.Merge.Pairing

/-!
# What the rules on sets make of two increasing lists

A rule keeps or drops each item of a run as it stands. What it keeps of two increasing lists increases,
and something is in it exactly if the rule says so of its being in either list.
-/
namespace SortedCollections

variable {ε α κ : Type}

namespace SetRule

/-- Is something in the result of a rule, by whether it is on the left and on the right? -/
def holds : SetRule → Bool → Bool → Bool
  | .union, left, right => left || right
  | .intersection, left, right => left && right
  | .difference, left, right => left && !right
  | .symmetricDifference, left, right => left != right

theorem holds_none (rule : SetRule) : rule.holds false false = false := by cases rule <;> rfl

theorem holds_left (rule : SetRule) : rule.holds true false = rule.keepsLeft := by
  cases rule <;> rfl

theorem holds_right (rule : SetRule) : rule.holds false true = rule.keepsRight := by
  cases rule <;> rfl

theorem holds_both (rule : SetRule) : rule.holds true true = rule.keepsTie := by cases rule <;> rfl

/-- Is the item of a pairing kept? -/
def keeps (rule : SetRule) : Pairing α → Bool
  | .left _ => rule.keepsLeft
  | .right _ => rule.keepsRight
  | .tie _ _ => rule.keepsTie

/-- What a rule keeps of pairings. -/
def kept (rule : SetRule) (ps : List (Pairing α)) : List α := (ps.filter rule.keeps).map Pairing.item

/-- What a rule makes of one pairing. -/
def pick (rule : SetRule) (p : Pairing α) : Except ε (Option α) :=
  .ok (if rule.keeps p then some p.item else none)

theorem filterMapM_pick (rule : SetRule) (ps : List (Pairing α)) :
    ps.filterMapM rule.pick = (.ok (rule.kept ps) : Except ε (List α)) := by
  induction ps with
  | nil => rfl
  | cons p ps ih =>
    rw [List.filterMapM_cons, ih, pick, kept, kept, List.filter_cons]
    cases rule.keeps p <;> rfl

theorem kept_append (rule : SetRule) (ps qs : List (Pairing α)) :
    rule.kept (ps ++ qs) = rule.kept ps ++ rule.kept qs := by
  rw [kept, List.filter_append, List.map_append]
  rfl

/-- A rule holds for an item that either list may have exactly if it keeps their pairing. -/
theorem any_keeps (rule : SetRule) (x y : Option α) :
    (Pairing.of? x y).any rule.keeps = rule.holds x.isSome y.isSome := by
  cases x with
  | none =>
    cases y with
    | none => exact rule.holds_none.symm
    | some y => exact rule.holds_right.symm
  | some x =>
    cases y with
    | none => exact rule.holds_left.symm
    | some y => exact rule.holds_both.symm

/-- A list made of two others as a rule says. -/
structure Combines (rule : SetRule) (less : α → α → Bool) (P : α → Prop) (xs ys zs : List α) :
    Prop where
  increasing : Increasing less zs
  origin : ∀ z ∈ zs, z ∈ xs ∨ z ∈ ys
  members : ∀ x, P x → hasTie less zs x = rule.holds (hasTie less xs x) (hasTie less ys x)

variable {lt : α → α → Except ε Bool} {less : α → α → Bool} {P : α → Prop} {xs ys : List α}

theorem hasTie_kept (order : Decides lt less P) (rule : SetRule) {ps : List (Pairing α)}
    (increasing : IncreasingOn (fun p q => less p.item q.item) (fun p : Pairing α => P p.item) ps)
    {x : α} (hx : P x) :
    hasTie less (rule.kept ps) x = (ps.find? fun p => tied less x p.item).any rule.keeps := by
  rw [hasTie_eq_isSome, kept, List.find?_map, Option.isSome_map]
  show ((ps.filter rule.keeps).find? fun p => tied less x p.item).isSome = _
  rw [((order.picksOne hx).comap Pairing.item).find?_filter rule.keeps increasing]
  cases ps.find? fun p => tied less x p.item with
  | none => rfl
  | some p => cases h : rule.keeps p <;> simp [h]

/-- What a rule keeps of the pairings combines the two lists. -/
theorem kept_pairings (rule : SetRule) (order : Decides lt less P) (hx : IncreasingOn less P xs)
    (hy : IncreasingOn less P ys) : Combines rule less P xs ys (rule.kept (pairings less xs ys)) := by
  have increasing := pairings_increasing order hx hy
  refine ⟨List.pairwise_map.mpr (increasing.increasing.sublist List.filter_sublist), ?_, ?_⟩
  · intro z mem
    obtain ⟨p, memKept, rfl⟩ := List.mem_map.mp mem
    exact mem_pairings (List.mem_filter.mp memKept).1
  · intro z hz
    rw [hasTie_kept order rule increasing hz, find?_pairings order (order.picksOne hz) hx hy,
      any_keeps, hasTie_eq_isSome, hasTie_eq_isSome]

/-- What a rule keeps of two increasing lists, item by item. -/
theorem mem_kept (order : Decides lt less P) (rule : SetRule) (hx : IncreasingOn less P xs)
    (hy : IncreasingOn less P ys) {x : α} :
    x ∈ rule.kept (pairings less xs ys) ↔
      (rule.keepsLeft = true ∧ x ∈ xs ∧ hasTie less ys x = false) ∨
        (rule.keepsRight = true ∧ x ∈ ys ∧ hasTie less xs x = false) ∨
          rule.keepsTie = true ∧ x ∈ xs ∧ hasTie less ys x = true := by
  rw [kept, List.mem_map]
  simp only [List.mem_filter]
  constructor
  · rintro ⟨p, ⟨mem, keeps⟩, rfl⟩
    cases p with
    | left x => exact .inl ⟨keeps, (left_mem_pairings order hx hy).mp mem⟩
    | right y => exact .inr (.inl ⟨keeps, (right_mem_pairings order hx hy).mp mem⟩)
    | tie x y =>
      obtain ⟨memX, memY, twins⟩ := (tie_mem_pairings order hx hy).mp mem
      exact .inr (.inr ⟨keeps, memX, hasTie_eq_true.mpr ⟨y, memY, twins⟩⟩)
  · rintro (⟨keeps, alone⟩ | ⟨keeps, alone⟩ | ⟨keeps, memX, met⟩)
    · exact ⟨.left x, ⟨(left_mem_pairings order hx hy).mpr alone, keeps⟩, rfl⟩
    · exact ⟨.right x, ⟨(right_mem_pairings order hx hy).mpr alone, keeps⟩, rfl⟩
    · obtain ⟨y, memY, twins⟩ := hasTie_eq_true.mp met
      exact ⟨.tie x y, ⟨(tie_mem_pairings order hx hy).mpr ⟨memX, memY, twins⟩, keeps⟩, rfl⟩

theorem append_filter (keeps : Bool) (result items : List α) :
    (if keeps then result ++ items else result) = result ++ items.filter fun _ => keeps := by
  cases keeps <;> simp

variable {a b result : List α} {p q : Nat}

theorem advanceLeft_adds (keeps : Bool) {n : Nat} (room : p + n ≤ a.length) :
    Adds true ⟨a, b, p + n, q⟩ result
      ((Script.left n keeps : Script ε α Bool).run ListMerge.sink ⟨⟨a, b, p, q⟩, result⟩)
      (.ok (((a.drop p).take n).filter fun _ => keeps)) := by
  show _ = _
  rw [Script.run_left]
  simp only [ListMerge.sink, ListMerge.advanceLeft, stretch_of_le room, append_filter]

theorem advanceRight_adds (keeps : Bool) {n : Nat} (room : q + n ≤ b.length) :
    Adds true ⟨a, b, p, q + n⟩ result
      ((Script.right n keeps : Script ε α Bool).run ListMerge.sink ⟨⟨a, b, p, q⟩, result⟩)
      (.ok (((b.drop q).take n).filter fun _ => keeps)) := by
  show _ = _
  rw [Script.run_right]
  simp only [ListMerge.sink, ListMerge.advanceRight, stretch_of_le room, append_filter]

theorem kept_lefts (rule : SetRule) (xs : List α) :
    rule.kept (xs.map .left) = xs.filter fun _ => rule.keepsLeft := by
  rw [kept, List.filter_map, List.map_map]
  exact List.map_id _

theorem kept_rights (rule : SetRule) (ys : List α) :
    rule.kept (ys.map .right) = ys.filter fun _ => rule.keepsRight := by
  rw [kept, List.filter_map, List.map_map]
  exact List.map_id _

theorem kept_tie (rule : SetRule) (left : p + 1 ≤ a.length) (right : q + 1 ≤ b.length) :
    rule.kept (Call.tie.paired (a.drop p) (b.drop q)) =
      ((a.drop p).take 1).filter (fun _ => rule.keepsTie) ++
        ((b.drop q).take 1).filter fun _ => false := by
  obtain ⟨x, headA⟩ := exists_take_one left
  obtain ⟨y, headB⟩ := exists_take_one right
  rw [Call.paired, headA, headB]
  cases h : rule.keepsTie <;> simp [kept, keeps, h]

/-- A rule keeps or drops the items of a run one by one. -/
theorem itemwise (rule : SetRule) : (Policy.ofRule rule : Policy ε α).Itemwise rule.pick where
  adds {a b result p q} call left right := by
    rw [filterMapM_pick]
    cases call with
    | left n =>
      rw [Call.paired, kept_lefts]
      exact advanceLeft_adds _ left
    | right n =>
      rw [Call.paired, kept_rights]
      exact advanceRight_adds _ right
    | tie =>
      rw [kept_tie rule left right]
      exact Policy.andThen_adds (advanceLeft_adds _ left) fun items _ => advanceRight_adds false right

end SetRule

section Merge

variable {cmp : Comparison ε κ} {key : α → Except ε κ} {P : κ → Prop} {a b : List α}

/-- A rule makes of two increasing lists what it keeps of their pairings. -/
theorem SetRule.merge_kept (ordered : cmp.OrderedOn P) (rule : SetRule)
    (ha : IncreasingOn (cmp.on key).less (Comparison.KeyIn key P) a)
    (hb : IncreasingOn (cmp.on key).less (Comparison.KeyIn key P) b) :
    merge cmp ⟨key, .ofRule rule⟩ a b = .ok (rule.kept (pairings (cmp.on key).less a b)) := by
  rw [rule.itemwise.merge_pairings ordered ha hb, filterMapM_pick]
  rfl

/-- A rule combines two increasing lists to an increasing list. -/
theorem merge_combines (ordered : cmp.OrderedOn P) (rule : SetRule)
    (ha : IncreasingOn (cmp.on key).less (Comparison.KeyIn key P) a)
    (hb : IncreasingOn (cmp.on key).less (Comparison.KeyIn key P) b) :
    ∃ c, merge cmp ⟨key, .ofRule rule⟩ a b = .ok c ∧
      rule.Combines (cmp.on key).less (Comparison.KeyIn key P) a b c :=
  ⟨_, rule.merge_kept ordered ha hb, rule.kept_pairings (ordered.on key).decides ha hb⟩

end Merge

/-- A rule on items that are their own keys. -/
theorem merge_members {cmp : Comparison ε α} {P : α → Prop} (ordered : cmp.OrderedOn P)
    (rule : SetRule) {a b : List α} (ha : IncreasingOn cmp.less P a)
    (hb : IncreasingOn cmp.less P b) :
    ∃ c, merge cmp rule.operation a b = .ok c ∧ IncreasingOn cmp.less P c ∧
      ∀ x, P x → hasTie cmp.less c x = rule.holds (hasTie cmp.less a x) (hasTie cmp.less b x) := by
  obtain ⟨c, done, combines⟩ :=
    merge_combines ordered rule (increasingOn_self.mpr ha) (increasingOn_self.mpr hb)
  refine ⟨c, done, ⟨combines.increasing, fun x mem => ?_⟩,
    fun x hx => combines.members x (keyIn_self.mpr hx)⟩
  rcases combines.origin x mem with mem | mem
  · exact ha.inside x mem
  · exact hb.inside x mem

end SortedCollections
