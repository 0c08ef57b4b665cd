import SortedCollections.Proofs.Maps.Canonical
import SortedCollections.Proofs.Values.Content
import SortedCollections.Value.Operators

/-!
# Values that are whole numbers

Whole numbers, truth values among them, are compared by what they stand for, however deep the values
are nested in which they are met. They are an ordered domain without end, and changing a sign twice
gives an equal value.
-/
namespace SortedCollections

theorem Dyadic.order_ofInt (a b : Int) : (Dyadic.ofInt a).order (.ofInt b) = compare a b := by
  show compare (a * 1) (b * 1) = _
  rw [Int.mul_one, Int.mul_one]

theorem Number.order_int (a b : Int) : (Number.int a).order (.int b) = some (compare a b) :=
  congrArg some (Dyadic.order_ofInt a b)

namespace Value

variable {v w : Value} {a b : Int}

/-- The value is a whole number; truth values count as one and zero. -/
def IsInteger (v : Value) : Prop := ∃ n, v.int? = some n

theorem number?_of_int? (hv : v.int? = some a) : v.number? = some (.int a) := by
  cases v with
  | bool b => cases hv; rfl
  | int n => cases hv; rfl
  | _ => cases hv

theorem partsBelow_relate (levels : Nat) (relation : Relation) (hv : v.int? = some a)
    (hw : w.int? = some b) :
    (partsBelow (levels + 1)).relate relation v w = .ok (relation.holds (compare a b)) := by
  show (partsBelow levels).order relation v w = _
  rw [order_numbers (number?_of_int? hv) (number?_of_int? hw), Number.order_int]
  rfl

theorem partsBelow_same (levels : Nat) (hv : v.int? = some a) (hw : w.int? = some b) :
    (partsBelow (levels + 1)).same v w = .ok (decide (a = b)) := by
  show (partsBelow levels).equality v w = _
  rw [equality_numbers (number?_of_int? hv) (number?_of_int? hw), Number.order_int,
    Except.ok.injEq, Option.some_beq_some, Bool.eq_iff_iff, beq_iff_eq, compare_eq_iff_eq,
    decide_eq_true_iff]

theorem same_int (hv : v.int? = some a) (hw : w.int? = some b) : same v w = .ok (decide (a = b)) :=
  partsBelow_same _ hv hw

theorem order_lt (hv : v.int? = some a) (hw : w.int? = some b) :
    order.lt v w = .ok (decide (a < b)) := by
  have asked : order.lt v w = .ok (Relation.lt.holds (compare a b)) :=
    partsBelow_relate (max v.depth w.depth) .lt hv hw
  rw [asked, Relation.holds, Except.ok.injEq, Bool.eq_iff_iff, beq_iff_eq, compare_lt_iff_lt,
    decide_eq_true_iff]

theorem order_eq (hv : v.int? = some a) (hw : w.int? = some b) :
    order.eq v w = .ok (decide (a = b)) := by
  have asked : order.eq v w = if isMarkedAlike v w then .ok true else same v w := rfl
  have proper : v.content.isProper = true := by
    rw [content_of_number? (number?_of_int? hv)]
    rfl
  rw [asked, (isMarkedAlike_of_proper proper w).2]
  exact same_int hv hw

/-- Whole numbers are an ordered domain. -/
theorem integers_ordered : order.OrderedOn IsInteger := by
  refine Comparison.orderedOn_of_rank (fun v => v.int?.getD 0) ?_ ?_
  · rintro v w ⟨a, hv⟩ ⟨b, hw⟩
    rw [order_lt hv hw, hv, hw]
    rfl
  · rintro v w ⟨a, hv⟩ ⟨b, hw⟩
    rw [order_eq hv hw, hv, hw]
    rfl

/-- There are more whole numbers than any list holds. -/
theorem integers_endless : order.Endless IsInteger := by
  intro items inside
  obtain ⟨a, fresh⟩ := Infinite.exists_notMem_finset (items.filterMap int?).toFinset
  refine ⟨.int a, ⟨a, rfl⟩, ?_⟩
  rw [Comparison.among, List.any_eq_false]
  intro v mem same
  obtain ⟨b, hv⟩ := inside v mem
  have equal : a = b := by
    rw [Comparison.same, order_eq rfl hv] at same
    simpa using same
  rw [List.mem_toFinset, List.mem_filterMap] at fresh
  exact fresh ⟨v, mem, equal ▸ hv⟩

/-- Equality of whole numbers is an equivalence. -/
theorem integers_equivalence : EquivalenceOn same IsInteger where
  answers := by
    rintro v w ⟨a, hv⟩ ⟨b, hw⟩
    exact ⟨_, same_int hv hw⟩
  refl := by
    rintro v ⟨a, hv⟩
    rw [same_int hv hv, decide_eq_true rfl]
  symm := by
    rintro v w ⟨a, hv⟩ ⟨b, hw⟩ equal
    rw [same_int hv hw, Except.ok.injEq, decide_eq_true_iff] at equal
    rw [same_int hw hv, decide_eq_true equal.symm]
  trans := by
    rintro v w x ⟨a, hv⟩ ⟨b, hw⟩ ⟨c, hx⟩ first second
    rw [same_int hv hw, Except.ok.injEq, decide_eq_true_iff] at first
    rw [same_int hw hx, Except.ok.injEq, decide_eq_true_iff] at second
    rw [same_int hv hx, decide_eq_true (first.trans second)]

theorem negateBelow_int (levels : Nat) (hv : v.int? = some a) :
    negateBelow (levels + 1) v = .ok (.int (-a)) := by
  cases v with
  | bool b => cases hv; rfl
  | int n => cases hv; rfl
  | _ => cases hv

end Value

end SortedCollections
