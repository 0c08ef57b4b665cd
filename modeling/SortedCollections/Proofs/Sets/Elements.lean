import Mathlib.Data.Set.Card
import SortedCollections.Proofs.Sets.Deduplication
import SortedCollections.Proofs.Sets.InPlace

/-!
# The items that a set stores

A strictly increasing list is determined by which items it holds, so a set of items that has such a
list has just one. Each operation on sorted lists makes the list of a set that can be said item by
item, and so says which of several equal items is stored: an item that is added takes the place of
its equal, a merge keeps the item of the left operand, and of a collection in any order the last of
equal items counts.
-/
namespace SortedCollections

variable {ε α : Type}

/-- Increasing lists with the same items are equal. -/
theorem IncreasingOn.ext {lt : α → α → Except ε Bool} {less : α → α → Bool} {P : α → Prop}
    (order : Decides lt less P) {xs ys : List α} (hx : IncreasingOn less P xs)
    (hy : IncreasingOn less P ys) (same : ∀ x, x ∈ xs ↔ x ∈ ys) : xs = ys := by
  have distinct {zs : List α} (kept : IncreasingOn less P zs) : zs.Nodup := by
    refine kept.increasing.imp_of_mem ?_
    rintro a b memA _ below rfl
    rw [order.irrefl (kept.inside a memA)] at below
    cases below
  have perm := (List.perm_ext_iff_of_nodup (distinct hx) (distinct hy)).mpr same
  refine perm.eq_of_pairwise ?_ hx.increasing hy.increasing
  intro a b memA memB below above
  rw [order.asymm (hx.inside a memA) (hy.inside b memB) below] at above
  cases above

/-- The strictly increasing list of the members of a set, which lie in the domain `P`. -/
structure Enumerates (cmp : Comparison ε α) (P : α → Prop) (items : List α) (members : Set α) :
    Prop where
  kept : IncreasingOn cmp.less P items
  mem : ∀ x, x ∈ items ↔ x ∈ members

namespace Comparison

variable (cmp : Comparison ε α)

/-- Is the item equal to a member? -/
def Meets (members : Set α) (x : α) : Prop := ∃ y ∈ members, cmp.same x y = true

/-- A set after an item was added. It takes the place of the member equal to it. -/
def put (x : α) (members : Set α) : Set α := fun y => y = x ∨ y ∈ members ∧ cmp.same x y = false

/-- A set after an item was removed. -/
def without (x : α) (members : Set α) : Set α := fun y => y ∈ members ∧ cmp.same x y = false

/-- The members that are less than another one. -/
def notGreatest (members : Set α) : Set α := fun y => y ∈ members ∧ ∃ z ∈ members, cmp.less y z = true

/-- Of a collection in any order, the last of each equal items. -/
def lastOf (items : List α) : Set α := fun x => Keep.last.Stays cmp.same items x

end Comparison

/-- What a rule makes of two sets. Of two equal members it is the left one that stays. -/
def SetRule.combine (cmp : Comparison ε α) (rule : SetRule) (left right : Set α) : Set α := fun x =>
  match rule with
  | .union => x ∈ left ∨ x ∈ right ∧ ¬cmp.Meets left x
  | .intersection => x ∈ left ∧ cmp.Meets right x
  | .difference => x ∈ left ∧ ¬cmp.Meets right x
  | .symmetricDifference => x ∈ left ∧ ¬cmp.Meets right x ∨ x ∈ right ∧ ¬cmp.Meets left x

def Operand.members (cmp : Comparison ε α) (self : Set α) : Operand ε α → Set α
  | .self => self
  | .sorted items => fun x => x ∈ items
  | .unsorted items => cmp.lastOf items
  | .refused _ => fun _ => False

/-- The other side holds items of the domain; those of a sorted set are in order. -/
def Operand.Inside (cmp : Comparison ε α) (P : α → Prop) : Operand ε α → Prop
  | .self => True
  | .sorted items => IncreasingOn cmp.less P items
  | .unsorted items => ∀ x ∈ items, P x
  | .refused _ => False

variable {cmp : Comparison ε α} {P : α → Prop} {xs ys : List α} {left right members : Set α} {x y : α}

namespace Enumerates

theorem inside (list : Enumerates cmp P xs members) (mem : x ∈ members) : P x :=
  list.kept.inside x ((list.mem x).mpr mem)

theorem congr (list : Enumerates cmp P xs left) (same : ∀ x, x ∈ left ↔ x ∈ right) :
    Enumerates cmp P xs right :=
  ⟨list.kept, fun x => (list.mem x).trans (same x)⟩

theorem ncard_eq (ordered : cmp.OrderedOn P) (list : Enumerates cmp P xs members) :
    members.ncard = xs.length := by
  classical
  have distinct : xs.Nodup := by
    refine list.kept.increasing.imp_of_mem ?_
    rintro a b memA _ below rfl
    rw [ordered.decides.irrefl (list.kept.inside a memA)] at below
    cases below
  have whole : members = ↑xs.toFinset := by
    ext x
    rw [Finset.mem_coe, List.mem_toFinset, list.mem]
  rw [whole, Set.ncard_coe_finset, List.toFinset_card_of_nodup distinct]

/-- Something is equal to a member exactly if an item of the list ties with it. -/
theorem hasTie_iff (ordered : cmp.OrderedOn P) (list : Enumerates cmp P xs members) (hx : P x) :
    hasTie cmp.less xs x = true ↔ cmp.Meets members x := by
  rw [hasTie_eq_true]
  refine exists_congr fun y => ?_
  rw [list.mem y]
  exact and_congr_right fun mem => by rw [ordered.same_eq hx (list.inside mem)]

/-- Removing what is equal to no member changes nothing. -/
theorem without_of_apart (list : Enumerates cmp P xs members)
    (missing : ¬cmp.Meets members x) : Enumerates cmp P xs (cmp.without x members) :=
  list.congr fun y => ⟨fun mem => ⟨mem, by
    rw [← Bool.not_eq_true]
    exact fun same => missing ⟨y, mem, same⟩⟩, And.left⟩

theorem nil : Enumerates cmp P [] (∅ : Set α) := ⟨⟨List.Pairwise.nil, by simp⟩, by simp⟩

theorem of_increasing (kept : IncreasingOn cmp.less P xs) : Enumerates cmp P xs fun x => x ∈ xs :=
  ⟨kept, fun _ => Iff.rfl⟩

end Enumerates

namespace SortedSet

variable {s : SortedSet α}

theorem apart_iff (ordered : cmp.OrderedOn P) (list : Enumerates cmp P s.items members) (hx : P x) :
    y ∈ s.items ∧ tied cmp.less x y = false ↔ y ∈ cmp.without x members := by
  rw [list.mem y]
  exact and_congr_right fun mem => by rw [ordered.same_eq hx (list.inside mem)]

theorem insert_enumerates (ordered : cmp.OrderedOn P) (list : Enumerates cmp P s.items members)
    (hx : P x) :
    ∃ t, s.insert cmp x = .ok t ∧ Enumerates cmp P t.items (cmp.put x members) := by
  obtain ⟨t, done, kept, items⟩ := insert_items ordered list.kept hx
  exact ⟨t, done, kept, fun y => (items y).trans (or_congr_right (apart_iff ordered list hx))⟩

theorem discard_enumerates (ordered : cmp.OrderedOn P) (list : Enumerates cmp P s.items members)
    (hx : P x) :
    ∃ t, s.discard cmp x = .ok t ∧ Enumerates cmp P t.items (cmp.without x members) := by
  obtain ⟨t, _, done, kept, items⟩ := erase?_items ordered list.kept hx
  exact ⟨t, done, kept, fun y => (items y).trans (apart_iff ordered list hx)⟩

theorem erase?_enumerates (ordered : cmp.OrderedOn P) (list : Enumerates cmp P s.items members)
    (hx : P x) :
    (cmp.Meets members x ∧ ∃ t, s.erase? cmp x = .ok (some t) ∧
        Enumerates cmp P t.items (cmp.without x members)) ∨
      ¬cmp.Meets members x ∧ s.erase? cmp x = .ok none := by
  obtain ⟨t, done, _, kept, items⟩ := erase?_items ordered list.kept hx
  have met := list.hasTie_iff ordered hx
  cases hit : hasTie cmp.less s.items x with
  | true =>
    rw [hit, if_pos rfl] at done
    exact .inl ⟨met.mp hit, t, done, kept, fun y => (items y).trans (apart_iff ordered list hx)⟩
  | false =>
    rw [hit] at done
    refine .inr ⟨fun meets => ?_, done⟩
    rw [met.mpr meets] at hit
    cases hit

/-- The largest item is the last one; what is left are the items that are less. -/
theorem popMax?_enumerates (ordered : cmp.OrderedOn P) (list : Enumerates cmp P s.items members) :
    (members = ∅ ∧ s.popMax? = none ∧ Enumerates cmp P s.items (cmp.notGreatest members)) ∨
      ∃ x t, s.popMax? = some (x, t) ∧ x ∈ members ∧ (∀ y ∈ members, y = x ∨ cmp.less y x = true) ∧
        Enumerates cmp P t.items (cmp.notGreatest members) := by
  obtain ⟨items⟩ := s
  rcases List.eq_nil_or_concat' items with rfl | ⟨front, x, rfl⟩
  · have empty (y : α) : y ∉ members := fun mem => List.not_mem_nil ((list.mem y).mpr mem)
    exact .inl ⟨Set.eq_empty_of_forall_notMem empty, rfl,
      list.congr fun y => ⟨fun mem => (empty y mem).elim, And.left⟩⟩
  · right
    obtain ⟨increasing, _, below⟩ := List.pairwise_append.mp list.kept.increasing
    have last (y : α) : y ∈ members ↔ y ∈ front ∨ y = x := by
      rw [← list.mem y, List.mem_append, List.mem_singleton]
    have lesser {y : α} (mem : y ∈ front) : cmp.less y x = true := below y mem x (by simp)
    refine ⟨x, ⟨front⟩, ?_, (last x).mpr (.inr rfl), fun y mem => ?_, ⟨increasing, fun y mem => ?_⟩,
      fun y => ⟨fun mem => ?_, ?_⟩⟩
    · simp [popMax?]
    · exact ((last y).mp mem).symm.imp_right lesser
    · exact list.kept.inside y (List.mem_append_left _ mem)
    · exact ⟨(last y).mpr (.inl mem), x, (last x).mpr (.inr rfl), lesser mem⟩
    · rintro ⟨mem, z, memZ, less_yz⟩
      rcases (last y).mp mem with front | rfl
      · exact front
      · -- Nothing is greater than the last item.
        have notLess : cmp.less y z = false := by
          rcases (last z).mp memZ with front | rfl
          · exact ordered.decides.asymm (list.inside memZ) (list.inside mem) (lesser front)
          · exact ordered.decides.irrefl (list.inside mem)
        rw [notLess] at less_yz
        cases less_yz

end SortedSet

/-- A merge makes the list of what its rule makes of the two sets. -/
theorem merge_enumerates (ordered : cmp.OrderedOn P) (rule : SetRule)
    (hx : Enumerates cmp P xs left) (hy : Enumerates cmp P ys right) :
    ∃ zs, merge cmp rule.operation xs ys = .ok zs ∧
      Enumerates cmp P zs (rule.combine cmp left right) := by
  obtain ⟨zs, done, kept, _⟩ := merge_members ordered rule hx.kept hy.kept
  have made : zs = rule.kept (pairings cmp.less xs ys) :=
    Except.ok.inj (done.symm.trans
      (rule.merge_kept ordered (increasingOn_self.mpr hx.kept) (increasingOn_self.mpr hy.kept)))
  refine ⟨zs, done, kept, fun x => ?_⟩
  rw [made, rule.mem_kept ordered.decides hx.kept hy.kept]
  rw [hx.mem x, hy.mem x, ← Bool.not_eq_true, ← Bool.not_eq_true]
  have onLeft (mem : x ∈ left) : hasTie cmp.less ys x = true ↔ cmp.Meets right x :=
    hy.hasTie_iff ordered (hx.inside mem)
  have onRight (mem : x ∈ right) : hasTie cmp.less xs x = true ↔ cmp.Meets left x :=
    hx.hasTie_iff ordered (hy.inside mem)
  show _ ↔ SetRule.combine cmp rule left right x
  cases rule <;>
    simp only [SetRule.combine, SetRule.keepsLeft, SetRule.keepsRight, SetRule.keepsTie, true_and,
      Bool.false_eq_true, false_and, false_or, or_false] <;>
    tauto

theorem Operand.resolve_keyed {κ : Type} {cmp : Comparison ε κ} {P : κ → Prop}
    (ordered : cmp.OrderedOn P) {key : α → Except ε κ} {operand : Operand ε α}
    (inside : operand.Inside (cmp.on key) (Comparison.KeyIn key P))
    (self : Enumerates (cmp.on key) (Comparison.KeyIn key P) xs members) :
    ∃ ys, operand.resolve cmp key xs = .ok ys ∧
      Enumerates (cmp.on key) (Comparison.KeyIn key P) ys (operand.members (cmp.on key) members) := by
  cases operand with
  | self => exact ⟨xs, rfl, self⟩
  | sorted items => exact ⟨items, rfl, .of_increasing inside⟩
  | unsorted items =>
    obtain ⟨ys, done, kept, stays⟩ := sortDedup_stays ordered .standard inside
    exact ⟨ys, done, kept, fun x => (stays x).trans (Keep.stays_same (ordered.on key) inside)⟩
  | refused cause => exact inside.elim

theorem Operand.resolve_enumerates (ordered : cmp.OrderedOn P) {operand : Operand ε α}
    (inside : operand.Inside cmp P) (self : Enumerates cmp P xs members) :
    ∃ ys, operand.resolve cmp .ok xs = .ok ys ∧ Enumerates cmp P ys (operand.members cmp members) := by
  have same : P = Comparison.KeyIn (ε := ε) .ok P := funext fun _ => propext keyIn_self.symm
  rw [same] at inside self ⊢
  exact resolve_keyed ordered inside self

namespace SortedSet

variable {s : SortedSet α}

theorem merged_enumerates (ordered : cmp.OrderedOn P) (rule : SetRule)
    (operands : List (Operand ε α)) (inside : ∀ operand ∈ operands, operand.Inside cmp P)
    (list : Enumerates cmp P s.items members) :
    ∃ t, s.merged cmp rule operands = .ok t ∧ Enumerates cmp P t.items
      (operands.foldl (fun left operand => rule.combine cmp left (operand.members cmp members)) members)
    := by
  -- What has been merged so far is the left side, while the operands are read by the set as it was.
  have go (xs : List α) (left : Set α) (sofar : Enumerates cmp P xs left) :
      ∃ zs, operands.foldlM (fun items operand => do
          merge cmp rule.operation items (← operand.resolve cmp .ok s.items)) xs = .ok zs ∧
        Enumerates cmp P zs
          (operands.foldl (fun left operand => rule.combine cmp left (operand.members cmp members))
            left) := by
    induction operands generalizing xs left with
    | nil => exact ⟨xs, rfl, sofar⟩
    | cons operand operands ih =>
      obtain ⟨insideFirst, insideRest⟩ := List.forall_mem_cons.mp inside
      obtain ⟨ys, resolved, right⟩ := Operand.resolve_enumerates ordered insideFirst list
      obtain ⟨zs, merged, sofar⟩ := merge_enumerates ordered rule sofar right
      obtain ⟨ws, done, whole⟩ := ih insideRest zs _ sofar
      refine ⟨ws, ?_, whole⟩
      rw [List.foldlM_cons, resolved]
      show (merge cmp rule.operation xs ys >>= _) = _
      rw [merged]
      exact done
  obtain ⟨zs, done, whole⟩ := go s.items members list
  exact ⟨⟨zs⟩, by rw [merged, done]; rfl, whole⟩

theorem mergedInto_enumerates (ordered : cmp.OrderedOn P) (rule : SetRule) {operand : Operand ε α}
    (inside : operand.Inside cmp P) (list : Enumerates cmp P s.items members) :
    ∃ t, s.mergedInto cmp rule operand = .ok t ∧
      Enumerates cmp P t.items (rule.combine cmp (operand.members cmp members) members) := by
  obtain ⟨ys, resolved, left⟩ := Operand.resolve_enumerates ordered inside list
  obtain ⟨zs, merged, whole⟩ := merge_enumerates ordered rule left list
  refine ⟨⟨zs⟩, ?_, whole⟩
  rw [mergedInto, resolved]
  show (merge cmp rule.operation ys s.items >>= _) = _
  rw [merged]
  rfl

variable [Inhabited α]

theorem assign_enumerates (ordered : cmp.OrderedOn P) (rule : SetRule) {operand : Operand ε α}
    (inside : operand.Inside cmp P) (list : Enumerates cmp P s.items members) :
    ∃ t, assign cmp rule operand s = .ok () t ∧
      Enumerates cmp P t.items (rule.combine cmp members (operand.members cmp members)) := by
  obtain ⟨t, merged, whole⟩ := merged_enumerates ordered rule [operand]
    (List.forall_mem_singleton.mpr inside) list
  exact ⟨t, by rw [assign_eq ordered rule operand list.kept, merged]; rfl, whole⟩

/-- Several operands are merged in one after the other, the set itself as it is when its turn comes. -/
theorem update_enumerates (ordered : cmp.OrderedOn P) (rule : SetRule)
    (operands : List (Operand ε α)) (inside : ∀ operand ∈ operands, operand.Inside cmp P)
    (list : Enumerates cmp P s.items members) :
    ∃ t, update cmp rule operands s = .ok () t ∧ Enumerates cmp P t.items
      (operands.foldl (fun left operand => rule.combine cmp left (operand.members cmp left)) members)
    := by
  induction operands generalizing s members with
  | nil => exact ⟨s, rfl, list⟩
  | cons operand operands ih =>
    obtain ⟨insideFirst, insideRest⟩ := List.forall_mem_cons.mp inside
    obtain ⟨t, merged, once⟩ := merged_enumerates ordered rule [operand]
      (List.forall_mem_singleton.mpr insideFirst) list
    obtain ⟨u, done, whole⟩ := ih insideRest once
    refine ⟨u, ?_, whole⟩
    rw [update_cons, bind_run, updateOne_eq, merged]
    exact done

end SortedSet

end SortedCollections
