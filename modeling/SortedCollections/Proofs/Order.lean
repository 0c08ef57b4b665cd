import SortedCollections.Comparison
import Mathlib.Data.List.Basic
import Mathlib.Data.Nat.Basic
import Mathlib.Order.Lattice

/-!
# Orders in which keys may tie

A comparison that is ordered on a domain decides there a strict weak order: `less` is asymmetric,
and if one item is less than another, every third item lies above the first or below the second.
Items of which neither is less tie. A list is sorted if no item is less than one before it, and two
lists have the same ties if for each item the same items tie with it, in the same order.
-/
namespace SortedCollections

variable {ε α κ : Type}

/-- A comparison answered by a strict weak order on the domain `P`. -/
structure Decides (lt : α → α → Except ε Bool) (less : α → α → Bool) (P : α → Prop) : Prop where
  answers : ∀ {a b}, P a → P b → lt a b = .ok (less a b)
  asymm : ∀ {a b}, P a → P b → less a b = true → less b a = false
  between : ∀ {a b c}, P a → P b → P c → less a c = true → less a b = true ∨ less b c = true

/-- Neither of two items is less than the other. -/
def tied (less : α → α → Bool) (a b : α) : Bool := !less a b && !less b a

/-- No item is less than one before it. -/
def Sorted (less : α → α → Bool) (xs : List α) : Prop := xs.Pairwise fun a b => less b a = false

/-- Every item is less than those behind it. -/
def Increasing (less : α → α → Bool) (xs : List α) : Prop := xs.Pairwise fun a b => less a b = true

instance (less : α → α → Bool) (xs : List α) : Decidable (Increasing less xs) :=
  inferInstanceAs (Decidable (List.Pairwise _ _))

/-- For each item of the domain, both lists have the same items that tie with it, in the same
order. -/
def SameTies (less : α → α → Bool) (P : α → Prop) (xs ys : List α) : Prop :=
  ∀ c, P c → xs.filter (tied less c) = ys.filter (tied less c)

theorem Sorted.append {less : α → α → Bool} {xs ys : List α} (hx : Sorted less xs)
    (hy : Sorted less ys) (h : ∀ x ∈ xs, ∀ y ∈ ys, less y x = false) : Sorted less (xs ++ ys) :=
  List.pairwise_append.mpr ⟨hx, hy, h⟩

namespace Decides

variable {lt : α → α → Except ε Bool} {less : α → α → Bool} {P : α → Prop}

theorem irrefl (order : Decides lt less P) {a : α} (ha : P a) : less a a = false := by
  by_contra h
  have less_self : less a a = true := by simpa using h
  exact h (order.asymm ha ha less_self)

theorem trans (order : Decides lt less P) {a b c : α} (ha : P a) (hb : P b) (hc : P c)
    (hab : less a b = true) (hbc : less b c = true) : less a c = true := by
  rcases order.between ha hc hb hab with hac | hcb
  · exact hac
  · rw [order.asymm hb hc hbc] at hcb
    cases hcb

/-- What is not above the middle item is not above what is not below the middle item. -/
theorem not_less_trans (order : Decides lt less P) {a b c : α} (ha : P a) (hb : P b) (hc : P c)
    (hba : less b a = false) (hcb : less c b = false) : less c a = false := by
  by_contra h
  rcases order.between hc hb ha (by simpa using h) with h | h
  · rw [hcb] at h; cases h
  · rw [hba] at h; cases h

theorem less_of_less_of_not_less (order : Decides lt less P) {a b c : α} (ha : P a) (hb : P b)
    (hc : P c) (hab : less a b = true) (hcb : less c b = false) : less a c = true := by
  rcases order.between ha hc hb hab with h | h
  · exact h
  · rw [hcb] at h; cases h

theorem less_of_not_less_of_less (order : Decides lt less P) {a b c : α} (ha : P a) (hb : P b)
    (hc : P c) (hba : less b a = false) (hbc : less b c = true) : less a c = true := by
  rcases order.between hb ha hc hbc with h | h
  · rw [hba] at h; cases h
  · exact h

/-- The same order, read from above. -/
theorem flip (order : Decides lt less P) :
    Decides (fun a b => lt b a) (fun a b => less b a) P where
  answers ha hb := order.answers hb ha
  asymm ha hb h := order.asymm hb ha h
  between ha hb hc h := (order.between hc hb ha h).symm

theorem tied_self (order : Decides lt less P) {a : α} (ha : P a) : tied less a a = true := by
  simp [tied, order.irrefl ha]

/-- Nothing ties with both of two items of which one is less. -/
theorem not_tied_of_less (order : Decides lt less P) {a b c : α} (ha : P a) (hb : P b) (hc : P c)
    (hab : less a b = true) (hca : tied less c a = true) : tied less c b = false := by
  simp only [tied, Bool.and_eq_true, Bool.not_eq_true'] at hca
  rcases order.between ha hc hb hab with h | h
  · rw [hca.2] at h; cases h
  · simp [tied, h]

end Decides

theorem tied_comm (less : α → α → Bool) (a b : α) : tied less a b = tied less b a := by
  simp only [tied, Bool.and_comm]

namespace SameTies

variable {less : α → α → Bool} {P : α → Prop} {xs ys zs : List α}

theorem refl (xs : List α) : SameTies less P xs xs := fun _ _ => rfl

theorem trans (h : SameTies less P xs ys) (h' : SameTies less P ys zs) : SameTies less P xs zs :=
  fun c hc => (h c hc).trans (h' c hc)

theorem append {xs' ys' : List α} (h : SameTies less P xs ys) (h' : SameTies less P xs' ys') :
    SameTies less P (xs ++ xs') (ys ++ ys') := by
  intro c hc
  rw [List.filter_append, List.filter_append, h c hc, h' c hc]

theorem reverse (h : SameTies less P xs ys) : SameTies less P xs.reverse ys.reverse := by
  intro c hc
  rw [List.filter_reverse, List.filter_reverse, h c hc]

theorem flip (h : SameTies (fun a b => less b a) P xs ys) : SameTies less P xs ys := by
  intro c hc
  have same : tied less c = tied (fun a b => less b a) c := by
    funext x
    exact Bool.and_comm ..
  rw [same]
  exact h c hc

/-- Two stretches may change places if every item of one is less than every item of the other. -/
theorem append_comm {lt : α → α → Except ε Bool} (order : Decides lt less P)
    (hx : ∀ x ∈ xs, P x) (hy : ∀ y ∈ ys, P y) (h : ∀ x ∈ xs, ∀ y ∈ ys, less x y = true) :
    SameTies less P (xs ++ ys) (ys ++ xs) := by
  intro c hc
  rw [List.filter_append, List.filter_append]
  by_cases none : xs.filter (tied less c) = []
  · rw [none, List.nil_append, List.append_nil]
  · obtain ⟨x, mem⟩ := List.exists_mem_of_ne_nil _ none
    rw [List.mem_filter] at mem
    have empty : ys.filter (tied less c) = [] := by
      rw [List.filter_eq_nil_iff]
      intro y hy'
      rw [order.not_tied_of_less (hx x mem.1) (hy y hy') hc (h x mem.1 y hy') mem.2]
      exact Bool.false_ne_true
    rw [empty, List.nil_append, List.append_nil]

end SameTies

/-- `ys` holds the items of `xs` in sorted order, and those that tie in the order of `xs`. -/
structure IsSortOf (less : α → α → Bool) (P : α → Prop) (ys xs : List α) : Prop where
  sorted : Sorted less ys
  ties : SameTies less P ys xs
  inside : ∀ y ∈ ys, P y

namespace IsSortOf

variable {lt : α → α → Except ε Bool} {less : α → α → Bool} {P : α → Prop}

/-- A sorted stretch may be put between two others that it lies between. -/
theorem between {front merged middle back : List α} (sort : IsSortOf less P merged middle)
    (sortedFront : Sorted less front) (sortedBack : Sorted less back)
    (insideFront : ∀ a ∈ front, P a) (insideBack : ∀ a ∈ back, P a)
    (below : ∀ a ∈ front, ∀ b ∈ merged ++ back, less b a = false)
    (above : ∀ a ∈ merged, ∀ b ∈ back, less b a = false) :
    IsSortOf less P (front ++ merged ++ back) (front ++ middle ++ back) where
  sorted := by
    rw [List.append_assoc]
    exact Sorted.append sortedFront (Sorted.append sort.sorted sortedBack above) below
  ties := ((SameTies.refl front).append sort.ties).append (SameTies.refl back)
  inside := by
    intro a mem
    rcases List.mem_append.mp mem with mem | mem
    · rcases List.mem_append.mp mem with mem | mem
      · exact insideFront a mem
      · exact sort.inside a mem
    · exact insideBack a mem

theorem mem {ys xs : List α} (order : Decides lt less P) (sort : IsSortOf less P ys xs)
    {y : α} (mem : y ∈ ys) : y ∈ xs := by
  have hy := sort.inside y mem
  have kept : y ∈ ys.filter (tied less y) := List.mem_filter.mpr ⟨mem, order.tied_self hy⟩
  rw [sort.ties y hy] at kept
  exact (List.mem_filter.mp kept).1

end IsSortOf

namespace Comparison

/-- Is one key found to be less than another? -/
def less (cmp : Comparison ε κ) (a b : κ) : Bool :=
  match cmp.lt a b with
  | .ok answer => answer
  | .error _ => false

/-- Are two keys found to be equal? -/
def same (cmp : Comparison ε κ) (a b : κ) : Bool :=
  match cmp.eq a b with
  | .ok answer => answer
  | .error _ => false

/-- The comparison of items by their keys. -/
def on (cmp : Comparison ε κ) (key : α → Except ε κ) : Comparison ε α where
  lt x y := do cmp.lt (← key x) (← key y)
  eq x y := do cmp.eq (← key x) (← key y)

/-- An item has a key, and the key lies in the domain `P`. -/
def KeyIn (key : α → Except ε κ) (P : κ → Prop) (x : α) : Prop := ∃ k, key x = .ok k ∧ P k

namespace OrderedOn

variable {cmp : Comparison ε κ} {P : κ → Prop}

theorem lt_eq (ordered : cmp.OrderedOn P) {a b : κ} (ha : P a) (hb : P b) :
    cmp.lt a b = .ok (cmp.less a b) := by
  obtain ⟨r, hr⟩ := ordered.lt_answers a b ha hb
  rw [less, hr]

theorem eq_eq (ordered : cmp.OrderedOn P) {a b : κ} (ha : P a) (hb : P b) :
    cmp.eq a b = .ok (cmp.same a b) := by
  obtain ⟨r, hr⟩ := ordered.eq_answers a b ha hb
  rw [same, hr]

theorem less_trans (ordered : cmp.OrderedOn P) {a b c : κ} (ha : P a) (hb : P b) (hc : P c)
    (hab : cmp.less a b = true) (hbc : cmp.less b c = true) : cmp.less a c = true := by
  have hac := ordered.lt_trans a b c ha hb hc (by rw [ordered.lt_eq ha hb, hab])
    (by rw [ordered.lt_eq hb hc, hbc])
  rw [less, hac]

/-- Equal keys are those of which neither is less. -/
theorem same_eq (ordered : cmp.OrderedOn P) {a b : κ} (ha : P a) (hb : P b) :
    cmp.same a b = tied cmp.less a b := by
  have iff := ordered.tie_iff a b ha hb
  rw [ordered.eq_eq ha hb, ordered.lt_eq ha hb, ordered.lt_eq hb ha] at iff
  simp only [Except.ok.injEq] at iff
  rw [Bool.eq_iff_iff, iff, tied]
  simp

theorem less_asymm (ordered : cmp.OrderedOn P) {a b : κ} (ha : P a) (hb : P b)
    (hab : cmp.less a b = true) : cmp.less b a = false := by
  by_contra h
  have less_self := ordered.less_trans ha hb ha hab (by simpa using h)
  have irrefl := ordered.lt_irrefl a ha
  rw [ordered.lt_eq ha ha, less_self] at irrefl
  cases irrefl

/-- An ordered comparison decides a strict weak order. -/
theorem decides (ordered : cmp.OrderedOn P) : Decides cmp.lt cmp.less P where
  answers := ordered.lt_eq
  asymm := ordered.less_asymm
  between {a b c} ha hb hc hac := by
    by_contra h
    simp only [not_or, Bool.not_eq_true] at h
    -- The middle item would tie with both, or lie outside the two.
    cases hba : cmp.less b a with
    | true =>
      have hbc := ordered.less_trans hb ha hc hba hac
      rw [h.2] at hbc
      cases hbc
    | false =>
      cases hcb : cmp.less c b with
      | true =>
        have hab := ordered.less_trans ha hc hb hac hcb
        rw [h.1] at hab
        cases hab
      | false =>
        have eq_ab : cmp.eq a b = .ok true := by
          rw [ordered.eq_eq ha hb, ordered.same_eq ha hb, tied, h.1, hba]; rfl
        have eq_bc : cmp.eq b c = .ok true := by
          rw [ordered.eq_eq hb hc, ordered.same_eq hb hc, tied, h.2, hcb]; rfl
        have eq_ac := ordered.tie_trans a b c ha hb hc eq_ab eq_bc
        rw [ordered.eq_eq ha hc, ordered.same_eq ha hc, tied, hac] at eq_ac
        cases eq_ac

/-- A comparison with the same answers on a part of the domain. -/
theorem congr (ordered : cmp.OrderedOn P) {cmp' : Comparison ε κ} {Q : κ → Prop}
    (sub : ∀ a, Q a → P a)
    (agree : ∀ a b, Q a → Q b → cmp'.lt a b = cmp.lt a b ∧ cmp'.eq a b = cmp.eq a b) :
    cmp'.OrderedOn Q where
  lt_answers a b ha hb := by
    rw [(agree a b ha hb).1]
    exact ordered.lt_answers a b (sub a ha) (sub b hb)
  eq_answers a b ha hb := by
    rw [(agree a b ha hb).2]
    exact ordered.eq_answers a b (sub a ha) (sub b hb)
  lt_irrefl a ha := by
    rw [(agree a a ha ha).1]
    exact ordered.lt_irrefl a (sub a ha)
  lt_trans a b c ha hb hc := by
    rw [(agree a b ha hb).1, (agree b c hb hc).1, (agree a c ha hc).1]
    exact ordered.lt_trans a b c (sub a ha) (sub b hb) (sub c hc)
  tie_iff a b ha hb := by
    rw [(agree a b ha hb).1, (agree b a hb ha).1, (agree a b ha hb).2]
    exact ordered.tie_iff a b (sub a ha) (sub b hb)
  tie_trans a b c ha hb hc := by
    rw [(agree a b ha hb).2, (agree b c hb hc).2, (agree a c ha hc).2]
    exact ordered.tie_trans a b c (sub a ha) (sub b hb) (sub c hc)

/-- Items are ordered as their keys are. -/
theorem on (ordered : cmp.OrderedOn P) (key : α → Except ε κ) :
    (cmp.on key).OrderedOn (KeyIn key P) where
  lt_answers := by
    rintro x y ⟨k, hx, hk⟩ ⟨l, hy, hl⟩
    simp only [Comparison.on, hx, hy]
    exact ordered.lt_answers k l hk hl
  eq_answers := by
    rintro x y ⟨k, hx, hk⟩ ⟨l, hy, hl⟩
    simp only [Comparison.on, hx, hy]
    exact ordered.eq_answers k l hk hl
  lt_irrefl := by
    rintro x ⟨k, hx, hk⟩
    simp only [Comparison.on, hx]
    exact ordered.lt_irrefl k hk
  lt_trans := by
    rintro x y z ⟨k, hx, hk⟩ ⟨l, hy, hl⟩ ⟨m, hz, hm⟩
    simp only [Comparison.on, hx, hy, hz]
    exact ordered.lt_trans k l m hk hl hm
  tie_iff := by
    rintro x y ⟨k, hx, hk⟩ ⟨l, hy, hl⟩
    simp only [Comparison.on, hx, hy]
    exact ordered.tie_iff k l hk hl
  tie_trans := by
    rintro x y z ⟨k, hx, hk⟩ ⟨l, hy, hl⟩ ⟨m, hz, hm⟩
    simp only [Comparison.on, hx, hy, hz]
    exact ordered.tie_trans k l m hk hl hm

end OrderedOn

/-- Keys are ordered that are compared by their ranks in a linear order. -/
theorem orderedOn_of_rank {cmp : Comparison ε κ} {P : κ → Prop} {ι : Type} [LinearOrder ι]
    (rank : κ → ι)
    (lt : ∀ a b, P a → P b → cmp.lt a b = .ok (decide (rank a < rank b)))
    (eq : ∀ a b, P a → P b → cmp.eq a b = .ok (decide (rank a = rank b))) : cmp.OrderedOn P where
  lt_answers a b ha hb := ⟨_, lt a b ha hb⟩
  eq_answers a b ha hb := ⟨_, eq a b ha hb⟩
  lt_irrefl a ha := by rw [lt a a ha ha, decide_eq_false (lt_irrefl (rank a))]
  lt_trans a b c ha hb hc first second := by
    rw [lt a b ha hb, Except.ok.injEq, decide_eq_true_iff] at first
    rw [lt b c hb hc, Except.ok.injEq, decide_eq_true_iff] at second
    rw [lt a c ha hc, decide_eq_true (lt_trans first second)]
  tie_iff a b ha hb := by
    rw [eq a b ha hb, lt a b ha hb, lt b a hb ha]
    simp only [Except.ok.injEq, decide_eq_true_iff, decide_eq_false_iff_not, not_lt]
    rw [and_comm]
    exact le_antisymm_iff
  tie_trans a b c ha hb hc first second := by
    rw [eq a b ha hb, Except.ok.injEq, decide_eq_true_iff] at first
    rw [eq b c hb hc, Except.ok.injEq, decide_eq_true_iff] at second
    rw [eq a c ha hc, decide_eq_true (first.trans second)]

/-- The natural numbers in their order. -/
def natural : Comparison ε Nat := .ofDecision (fun a b => decide (a < b)) (fun a b => decide (a = b))

theorem natural_ordered : (natural : Comparison ε Nat).Ordered :=
  orderedOn_of_rank id (fun _ _ _ _ => rfl) fun _ _ _ _ => rfl

end Comparison

end SortedCollections
