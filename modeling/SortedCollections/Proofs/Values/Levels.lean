import SortedCollections.Proofs.Sets.Members
import SortedCollections.Proofs.Values.Content

/-!
# Values that can be keys, compared at any level

Containers compare their items with as many levels as the containers themselves need, which are more
than two items may need. What can be a key of an unordered set is nothing, a number, a text or a tuple
of such values, and two of these compare in the same way at every level that is deep enough. So they are
ordered inside containers as they are outside.
-/
namespace SortedCollections

namespace Value

variable {parts parts' : Parts} {relation : Relation} {x y : Value} {xs ys : List Value} {m n : Nat}

/-- How the items of two containers are compared. -/
def partsInside (a b : Value) : Parts := partsBelow (max a.depth b.depth)

/-- Can the value be a key of an unordered set or a dictionary? -/
def IsHashable (x : Value) : Prop := x.unhashablePart = Option.none

theorem hashable_items (hashable : unhashableItem xs = Option.none) : ∀ x ∈ xs, x.IsHashable := by
  induction xs with
  | nil => simp
  | cons x xs ih =>
    rw [unhashableItem] at hashable
    cases first : x.unhashablePart with
    | some kind =>
      rw [first] at hashable
      cases hashable
    | none =>
      rw [first] at hashable
      exact List.forall_mem_cons.mpr ⟨first, ih hashable⟩

theorem IsHashable.known (hashable : x.IsHashable) : x.content ≠ .other := by
  cases x <;> first | cases hashable; done | exact fun content => by cases content

theorem firstDifference_congr
    (agree : ∀ x ∈ xs, ∀ y ∈ ys, parts.alike x y = parts'.alike x y) :
    parts.firstDifference xs ys = parts'.firstDifference xs ys := by
  induction xs generalizing ys with
  | nil => rfl
  | cons x xs ih =>
    cases ys with
    | nil => rfl
    | cons y ys =>
      rw [Parts.firstDifference, Parts.firstDifference, agree x (by simp) y (by simp),
        ih fun x memX y memY => agree x (.tail _ memX) y (.tail _ memY)]

/-- The items at which two lists differ are items of the lists. -/
theorem mem_of_firstDifference (found : parts.firstDifference xs ys = .ok (some (x, y))) :
    x ∈ xs ∧ y ∈ ys := by
  induction xs generalizing ys with
  | nil => cases found
  | cons v xs ih =>
    cases ys with
    | nil => cases found
    | cons w ys =>
      rw [Parts.firstDifference] at found
      obtain ⟨same, _, found⟩ := bind_eq_ok.mp found
      cases same with
      | true =>
        obtain ⟨memX, memY⟩ := ih found
        exact ⟨.tail _ memX, .tail _ memY⟩
      | false =>
        cases found
        exact ⟨List.mem_cons_self .., List.mem_cons_self ..⟩

/-- Two parts compare two values in the same way. -/
structure Parts.Agree (parts parts' : Parts) (x y : Value) : Prop where
  relate : ∀ relation, parts.relate relation x y = parts'.relate relation x y
  same : parts.same x y = parts'.same x y

theorem Parts.Agree.alike (agree : parts.Agree parts' x y) : parts.alike x y = parts'.alike x y := by
  rw [Parts.alike, Parts.alike, agree.same]

theorem orderItems_congr (agree : ∀ x ∈ xs, ∀ y ∈ ys, parts.Agree parts' x y) :
    parts.orderItems relation xs ys = parts'.orderItems relation xs ys := by
  have first : parts.firstDifference xs ys = parts'.firstDifference xs ys :=
    firstDifference_congr fun x memX y memY => (agree x memX y memY).alike
  rw [Parts.orderItems, Parts.orderItems, ← first]
  cases found : parts.firstDifference xs ys with
  | error e => rfl
  | ok difference =>
    rcases difference with _ | ⟨x, y⟩
    · rfl
    · obtain ⟨memX, memY⟩ := mem_of_firstDifference found
      exact (agree x memX y memY).relate relation

theorem sameItems_congr (agree : ∀ x ∈ xs, ∀ y ∈ ys, parts.Agree parts' x y) :
    parts.sameItems xs ys = parts'.sameItems xs ys := by
  rw [Parts.sameItems, Parts.sameItems,
    firstDifference_congr fun x memX y memY => (agree x memX y memY).alike]

theorem numbers_agree_above {v w : Number} (hx : x.number? = some v) (hy : y.number? = some w) :
    (partsBelow (m + 1)).Agree (partsBelow (n + 1)) x y where
  relate _ := (order_numbers hx hy).trans (order_numbers hx hy).symm
  same := (equality_numbers hx hy).trans (equality_numbers hx hy).symm

/-- Tuples are compared alike one level above a level where their items are. -/
theorem tuples_agree (agree : ∀ x ∈ xs, ∀ y ∈ ys, (partsBelow m).Agree (partsBelow n) x y) :
    (partsBelow (m + 1)).Agree (partsBelow (n + 1)) (.tuple xs) (.tuple ys) where
  relate _ := orderItems_congr agree
  same := sameItems_congr agree

theorem foreign_agree (foreign : Foreign (partsBelow m) x y) (foreign' : Foreign (partsBelow n) x y) :
    (partsBelow (m + 1)).Agree (partsBelow (n + 1)) x y where
  relate relation := (foreign.unordered relation).1.trans (foreign'.unordered relation).1.symm
  same := foreign.not_equal.1.trans foreign'.not_equal.1.symm

-- The induction is on the levels: the items of tuples are compared one level deeper.

/-- Values that can be keys compare in the same way at all levels that are deep enough. -/
theorem levels_agree (hx : x.IsHashable) (hy : y.IsHashable) (deepX : x.depth < min m n)
    (deepY : y.depth < min m n) : (partsBelow m).Agree (partsBelow n) x y := by
  induction m generalizing n x y with
  | zero => omega
  | succ m ih =>
    obtain ⟨n, rfl⟩ : ∃ k, n = k + 1 := ⟨n - 1, by omega⟩
    have sorted (sort : SameSort x y) : (partsBelow (m + 1)).Agree (partsBelow (n + 1)) x y := by
      cases sort with
      | nothing => exact ⟨fun _ => rfl, rfl⟩
      | missing => exact ⟨fun _ => rfl, rfl⟩
      | numbers numberX numberY => exact numbers_agree_above numberX numberY
      | texts s t => exact ⟨fun _ => rfl, rfl⟩
      | lists xs ys => cases hx
      | tuples xs ys =>
        have deepX : depthOfList xs + 1 < min (m + 1) (n + 1) := deepX
        have deepY : depthOfList ys + 1 < min (m + 1) (n + 1) := deepY
        refine tuples_agree fun x memX y memY => ?_
        have := depth_le_depthOfList memX
        have := depth_le_depthOfList memY
        exact ih (hashable_items hx x memX) (hashable_items hy y memY) (by omega) (by omega)
    rcases sameSort_or_foreign hy.known (partsBelow m) x with same | foreign
    · exact sorted same
    rcases sameSort_or_foreign hy.known (partsBelow n) x with same | foreign'
    · exact sorted same
    · exact foreign_agree foreign foreign'

theorem depth_lt_of_mem {levels : Nat} (deep : depthOfList xs < levels) : ∀ x ∈ xs, x.depth < levels :=
  fun _ mem => (depth_le_depthOfList mem).trans_lt deep

section Inside

variable {P : Value → Prop} {levels : Nat}

/-- Values that can be keys compare inside containers as they do outside. -/
theorem comparison_inside (hx : x.IsHashable) (hy : y.IsHashable) (deepX : x.depth < levels)
    (deepY : y.depth < levels) :
    (partsBelow levels).comparison.lt x y = order.lt x y ∧
      (partsBelow levels).comparison.eq x y = order.eq x y := by
  have agree : (partsBelow levels).Agree (partsBelow (max x.depth y.depth + 1)) x y :=
    levels_agree hx hy (by omega) (by omega)
  exact ⟨agree.relate .lt, agree.alike⟩

variable (hashable : ∀ x, P x → x.IsHashable)
include hashable

theorem ordered_inside (ordered : order.OrderedOn P) (levels : Nat) :
    (partsBelow levels).comparison.OrderedOn fun x => P x ∧ x.depth < levels :=
  ordered.congr (fun _ => And.left) fun x y hx hy =>
    comparison_inside (hashable x hx.1) (hashable y hy.1) hx.2 hy.2

theorem less_inside (hx : P x ∧ x.depth < levels) (hy : P y ∧ y.depth < levels) :
    (partsBelow levels).comparison.less x y = order.less x y := by
  obtain ⟨related, _⟩ := comparison_inside (hashable x hx.1) (hashable y hy.1) hx.2 hy.2
  rw [Comparison.less, Comparison.less, related]

theorem increasing_inside (kept : IncreasingOn order.less P xs) (deep : ∀ x ∈ xs, x.depth < levels) :
    IncreasingOn (partsBelow levels).comparison.less (fun x => P x ∧ x.depth < levels) xs :=
  kept.congr (fun x mem => ⟨kept.inside x mem, deep x mem⟩) fun _ _ => less_inside hashable

theorem hasTie_inside (inside : ∀ x ∈ xs, P x ∧ x.depth < levels) (hy : P y ∧ y.depth < levels) :
    hasTie (partsBelow levels).comparison.less xs y = hasTie order.less xs y := by
  refine Bool.eq_iff_iff.mpr ?_
  rw [hasTie_eq_true, hasTie_eq_true]
  refine exists_congr fun x => and_congr_right fun mem => ?_
  rw [tied, tied, less_inside hashable hy (inside x mem), less_inside hashable (inside x mem) hy]

end Inside

end Value

end SortedCollections
