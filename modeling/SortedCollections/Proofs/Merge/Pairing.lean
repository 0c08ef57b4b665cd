import SortedCollections.Proofs.Merge.Library
import SortedCollections.Proofs.Merge.Linear
import SortedCollections.Proofs.Sets.Members
import SortedCollections.Proofs.Traversal

/-!
# What a merge finds, item by item

The runs that a merge hands over pair the items of both lists up: each item stands alone or ties with
one of the other list. Most policies answer a run by answering its items one after the other, so it
does not matter how the items were cut into runs. Such a merge makes of two increasing lists what its
rule makes of their pairings along the linear walk.
-/
namespace SortedCollections

variable {ε α β γ κ ν : Type}

/-- An item that only one list has, or one of either list that tie. -/
inductive Pairing (α : Type) where
  | left (x : α)
  | right (y : α)
  | tie (x y : α)

namespace Pairing

/-- The item of a pairing that stands for it: the left one of a tie. -/
def item : Pairing α → α
  | .left x | .right x | .tie x _ => x

@[simp] theorem item_left (x : α) : (left x).item = x := rfl

@[simp] theorem item_right (y : α) : (right y).item = y := rfl

@[simp] theorem item_tie (x y : α) : (tie x y).item = x := rfl

def left? : Pairing α → Option α
  | .left x | .tie x _ => some x
  | .right _ => none

def right? : Pairing α → Option α
  | .left _ => none
  | .right y | .tie _ y => some y

@[simp] theorem left?_left (x : α) : (left x).left? = some x := rfl

@[simp] theorem left?_right (y : α) : (right y).left? = none := rfl

@[simp] theorem left?_tie (x y : α) : (tie x y).left? = some x := rfl

@[simp] theorem right?_left (x : α) : (left x).right? = none := rfl

@[simp] theorem right?_right (y : α) : (right y).right? = some y := rfl

@[simp] theorem right?_tie (x y : α) : (tie x y).right? = some y := rfl

/-- The pairing of what either side has. -/
def of? : Option α → Option α → Option (Pairing α)
  | none, none => none
  | some x, none => some (.left x)
  | none, some y => some (.right y)
  | some x, some y => some (.tie x y)

variable {a b : Option α} {x y : α}

theorem of?_eq_left : of? a b = some (.left x) ↔ a = some x ∧ b = none := by
  cases a <;> cases b <;> simp [of?]

theorem of?_eq_right : of? a b = some (.right x) ↔ a = none ∧ b = some x := by
  cases a <;> cases b <;> simp [of?]

theorem of?_eq_tie : of? a b = some (.tie x y) ↔ a = some x ∧ b = some y := by
  cases a <;> cases b <;> simp [of?]

end Pairing

/-- The pairings of two increasing lists. -/
def pairings (less : α → α → Bool) : List α → List α → List (Pairing α)
  | [], [] => []
  | x :: xs, [] => .left x :: pairings less xs []
  | [], y :: ys => .right y :: pairings less [] ys
  | x :: xs, y :: ys =>
    if less x y then
      .left x :: pairings less xs (y :: ys)
    else if less y x then
      .right y :: pairings less (x :: xs) ys
    else
      .tie x y :: pairings less xs ys
termination_by xs ys => xs.length + ys.length

/-- The pairings that a call hands over. -/
def Call.paired : Call → List α → List α → List (Pairing α)
  | .left n, xs, _ => (xs.take n).map .left
  | .right n, _, ys => (ys.take n).map .right
  | .tie, xs, ys => List.zipWith .tie (xs.take 1) (ys.take 1)

/-- The pairings that calls hand over, made one after the other on two lists. -/
def paired : List Call → List α → List α → List (Pairing α)
  | [], _, _ => []
  | call :: calls, xs, ys =>
    call.paired xs ys ++ paired calls (xs.drop call.onLeft) (ys.drop call.onRight)

theorem paired_append (calls later : List Call) (xs ys : List α) :
    paired (calls ++ later) xs ys =
      paired calls xs ys ++ paired later (xs.drop (leftTotal calls)) (ys.drop (rightTotal calls)) := by
  induction calls generalizing xs ys with
  | nil => rfl
  | cons call calls ih =>
    simp only [List.cons_append, paired, ih, List.append_assoc, leftTotal_cons, rightTotal_cons,
      List.drop_drop]

theorem paired_lefts (n : Nat) (xs ys : List α) :
    paired (List.replicate n (.left 1)) xs ys = (Call.left n).paired xs ys := by
  induction n generalizing xs with
  | zero => rfl
  | succ n ih =>
    rw [List.replicate_succ, paired, Call.onRight, List.drop_zero, ih]
    cases xs <;> simp [Call.paired, Call.onLeft]

theorem paired_rights (n : Nat) (xs ys : List α) :
    paired (List.replicate n (.right 1)) xs ys = (Call.right n).paired xs ys := by
  induction n generalizing ys with
  | zero => rfl
  | succ n ih =>
    rw [List.replicate_succ, paired, Call.onLeft, List.drop_zero, ih]
    cases ys <;> simp [Call.paired, Call.onRight]

/-- A call hands over what its single steps hand over. -/
theorem paired_steps (i j : Nat) (call : Call) (xs ys : List α) :
    paired ((call.steps i j).map TracedCall.call) xs ys = call.paired xs ys := by
  cases call with
  | left n =>
    have steps : ((Call.left n).steps i j).map TracedCall.call = List.replicate n (.left 1) := by
      simp only [Call.steps, List.map_map, Function.comp_def, List.map_const', List.length_range]
    rw [steps, paired_lefts]
  | right n =>
    have steps : ((Call.right n).steps i j).map TracedCall.call = List.replicate n (.right 1) := by
      simp only [Call.steps, List.map_map, Function.comp_def, List.map_const', List.length_range]
    rw [steps, paired_rights]
  | tie => exact List.append_nil _

theorem totals_steps (i j : Nat) (call : Call) :
    leftTotal ((call.steps i j).map TracedCall.call) = call.onLeft ∧
      rightTotal ((call.steps i j).map TracedCall.call) = call.onRight := by
  have lefts (n : Nat) : leftTotal (List.replicate n (.left 1)) = n ∧
      rightTotal (List.replicate n (.left 1)) = 0 := by
    induction n with
    | zero => exact ⟨rfl, rfl⟩
    | succ n ih => simp [List.replicate_succ, ih, Call.onLeft, Call.onRight, Nat.add_comm]
  have rights (n : Nat) : leftTotal (List.replicate n (.right 1)) = 0 ∧
      rightTotal (List.replicate n (.right 1)) = n := by
    induction n with
    | zero => exact ⟨rfl, rfl⟩
    | succ n ih => simp [List.replicate_succ, ih, Call.onLeft, Call.onRight, Nat.add_comm]
  cases call with
  | left n =>
    simp only [Call.steps, List.map_map, Function.comp_def, List.map_const', List.length_range]
    exact lefts n
  | right n =>
    simp only [Call.steps, List.map_map, Function.comp_def, List.map_const', List.length_range]
    exact rights n
  | tie => exact ⟨rfl, rfl⟩

theorem paired_unroll (i j : Nat) (calls : List Call) (xs ys : List α) :
    paired ((unroll i j calls).map TracedCall.call) xs ys = paired calls xs ys := by
  induction calls generalizing i j xs ys with
  | nil => rfl
  | cons call calls ih =>
    obtain ⟨left, right⟩ := totals_steps i j call
    rw [unroll, List.map_append, paired_append, paired_steps, left, right, ih, paired]

theorem paired_linear (less : α → α → Bool) (i j : Nat) (xs ys : List α) :
    paired ((linear less i j xs ys).map TracedCall.call) xs ys = pairings less xs ys := by
  fun_induction linear less i j xs ys with
  | case1 i j => rw [pairings]; rfl
  | case2 i j x xs ih => rw [pairings, ← ih]; rfl
  | case3 i j y ys ih => rw [pairings, ← ih]; rfl
  | case4 i j x xs y ys less_xy ih => rw [pairings, if_pos less_xy, ← ih]; rfl
  | case5 i j x xs y ys not_less less_yx ih =>
    rw [pairings, if_neg not_less, if_pos less_yx, ← ih]; rfl
  | case6 i j x xs y ys not_less not_less' ih =>
    rw [pairings, if_neg not_less, if_neg not_less', ← ih]; rfl

/-- A merge of two increasing lists finds their pairings, and no comparison fails. -/
theorem schedule_pairings {cmp : Comparison ε κ} {key : α → Except ε κ} {P : κ → Prop}
    (ordered : cmp.OrderedOn P) {a b : List α}
    (ha : IncreasingOn (cmp.on key).less (Comparison.KeyIn key P) a)
    (hb : IncreasingOn (cmp.on key).less (Comparison.KeyIn key P) b) :
    (schedule cmp key a b).fault = none ∧
      paired (schedule cmp key a b).calls a b = pairings (cmp.on key).less a b := by
  obtain ⟨faultless, unrolled⟩ :=
    schedule_linear ordered 0 0 ha.inside hb.inside ha.increasing hb.increasing
  exact ⟨faultless, by rw [← paired_linear _ 0 0, ← unrolled, paired_unroll]⟩

theorem filterMap_left_pairings (less : α → α → Bool) (xs ys : List α) :
    (pairings less xs ys).filterMap Pairing.left? = xs := by
  fun_induction pairings less xs ys with
  | case1 => rfl
  | case2 x xs ih => simp only [List.filterMap_cons, Pairing.left?_left, ih]
  | case3 y ys ih => simp only [List.filterMap_cons, Pairing.left?_right, ih]
  | case4 x xs y ys less_xy ih => simp only [List.filterMap_cons, Pairing.left?_left, ih]
  | case5 x xs y ys not_less less_yx ih => simp only [List.filterMap_cons, Pairing.left?_right, ih]
  | case6 x xs y ys not_less not_less' ih => simp only [List.filterMap_cons, Pairing.left?_tie, ih]

theorem filterMap_right_pairings (less : α → α → Bool) (xs ys : List α) :
    (pairings less xs ys).filterMap Pairing.right? = ys := by
  fun_induction pairings less xs ys with
  | case1 => rfl
  | case2 x xs ih => simp only [List.filterMap_cons, Pairing.right?_left, ih]
  | case3 y ys ih => simp only [List.filterMap_cons, Pairing.right?_right, ih]
  | case4 x xs y ys less_xy ih => simp only [List.filterMap_cons, Pairing.right?_left, ih]
  | case5 x xs y ys not_less less_yx ih => simp only [List.filterMap_cons, Pairing.right?_right, ih]
  | case6 x xs y ys not_less not_less' ih => simp only [List.filterMap_cons, Pairing.right?_tie, ih]

theorem mem_of_left? {less : α → α → Bool} {xs ys : List α} {p : Pairing α} {x : α}
    (mem : p ∈ pairings less xs ys) (left : p.left? = some x) : x ∈ xs := by
  rw [← filterMap_left_pairings less xs ys]
  exact List.mem_filterMap.mpr ⟨p, mem, left⟩

theorem mem_of_right? {less : α → α → Bool} {xs ys : List α} {p : Pairing α} {y : α}
    (mem : p ∈ pairings less xs ys) (right : p.right? = some y) : y ∈ ys := by
  rw [← filterMap_right_pairings less xs ys]
  exact List.mem_filterMap.mpr ⟨p, mem, right⟩

theorem Call.filterMap_left_paired (call : Call) {xs ys : List α} (left : call.onLeft ≤ xs.length)
    (right : call.onRight ≤ ys.length) :
    (call.paired xs ys).filterMap Pairing.left? = xs.take call.onLeft := by
  cases call with
  | left n =>
    rw [paired, List.filterMap_map]
    exact List.filterMap_some
  | right n =>
    rw [paired, List.filterMap_map]
    exact List.filterMap_eq_nil_iff.mpr fun _ _ => rfl
  | tie =>
    obtain ⟨x, xs, rfl⟩ := List.exists_cons_of_length_pos left
    obtain ⟨y, ys, rfl⟩ := List.exists_cons_of_length_pos right
    rfl

theorem Call.filterMap_right_paired (call : Call) {xs ys : List α} (left : call.onLeft ≤ xs.length)
    (right : call.onRight ≤ ys.length) :
    (call.paired xs ys).filterMap Pairing.right? = ys.take call.onRight := by
  cases call with
  | left n =>
    rw [paired, List.filterMap_map]
    exact List.filterMap_eq_nil_iff.mpr fun _ _ => rfl
  | right n =>
    rw [paired, List.filterMap_map]
    exact List.filterMap_some
  | tie =>
    obtain ⟨x, xs, rfl⟩ := List.exists_cons_of_length_pos left
    obtain ⟨y, ys, rfl⟩ := List.exists_cons_of_length_pos right
    rfl

/-- What calls hand over, made one after the other, is the beginning of either list. -/
theorem filterMap_paired (calls : List Call) {xs ys : List α} (left : leftTotal calls ≤ xs.length)
    (right : rightTotal calls ≤ ys.length) :
    (paired calls xs ys).filterMap Pairing.left? = xs.take (leftTotal calls) ∧
      (paired calls xs ys).filterMap Pairing.right? = ys.take (rightTotal calls) := by
  induction calls generalizing xs ys with
  | nil => exact ⟨rfl, rfl⟩
  | cons call calls ih =>
    rw [leftTotal_cons] at left ⊢
    rw [rightTotal_cons] at right ⊢
    obtain ⟨restLeft, restRight⟩ :
        (paired calls (xs.drop call.onLeft) (ys.drop call.onRight)).filterMap Pairing.left? = _ ∧
          (paired calls (xs.drop call.onLeft) (ys.drop call.onRight)).filterMap Pairing.right? = _ :=
      ih (by rw [List.length_drop]; omega) (by rw [List.length_drop]; omega)
    rw [paired, List.filterMap_append, List.filterMap_append, restLeft, restRight, List.take_add,
      List.take_add, call.filterMap_left_paired (by omega) (by omega),
      call.filterMap_right_paired (by omega) (by omega)]
    exact ⟨rfl, rfl⟩

section Order

variable {lt : α → α → Except ε Bool} {less : α → α → Bool} {P : α → Prop} {xs ys : List α}

theorem mem_pairings {p : Pairing α} (mem : p ∈ pairings less xs ys) : p.item ∈ xs ∨ p.item ∈ ys := by
  fun_induction pairings less xs ys with
  | case1 => cases mem
  | case2 x xs ih =>
    rcases List.mem_cons.mp mem with rfl | mem
    · exact .inl (List.mem_cons_self ..)
    · exact (ih mem).imp (.tail _) id
  | case3 y ys ih =>
    rcases List.mem_cons.mp mem with rfl | mem
    · exact .inr (List.mem_cons_self ..)
    · exact (ih mem).imp id (.tail _)
  | case4 x xs y ys less_xy ih =>
    rcases List.mem_cons.mp mem with rfl | mem
    · exact .inl (List.mem_cons_self ..)
    · exact (ih mem).imp (.tail _) id
  | case5 x xs y ys not_less less_yx ih =>
    rcases List.mem_cons.mp mem with rfl | mem
    · exact .inr (List.mem_cons_self ..)
    · exact (ih mem).imp id (.tail _)
  | case6 x xs y ys not_less not_less' ih =>
    rcases List.mem_cons.mp mem with rfl | mem
    · exact .inl (List.mem_cons_self ..)
    · exact (ih mem).imp (.tail _) (.tail _)

/-- If the first item of one list is less than that of the other, it is less than all of the other. -/
theorem below_all (order : Decides lt less P) {x y : α} (hx : P x) (kept : IncreasingOn less P (y :: ys))
    (less_xy : less x y = true) : ∀ z ∈ y :: ys, less x z = true := by
  obtain ⟨hy, above, rest⟩ := kept.of_cons
  intro z mem
  rcases List.mem_cons.mp mem with rfl | mem
  · exact less_xy
  · exact order.trans hx hy (rest.inside z mem) less_xy (above z mem)

/-- One more pairing in front of greater ones. -/
theorem increasing_cons_pairing {p : Pairing α} (hp : P p.item)
    (aboveXs : ∀ z ∈ xs, less p.item z = true) (aboveYs : ∀ z ∈ ys, less p.item z = true)
    (rest : IncreasingOn (fun p q => less p.item q.item) (fun p : Pairing α => P p.item)
      (pairings less xs ys)) :
    IncreasingOn (fun p q => less p.item q.item) (fun p : Pairing α => P p.item)
      (p :: pairings less xs ys) := by
  refine ⟨List.pairwise_cons.mpr ⟨fun q mem => ?_, rest.increasing⟩, fun q mem => ?_⟩
  · exact (mem_pairings mem).elim (aboveXs q.item) (aboveYs q.item)
  · rcases List.mem_cons.mp mem with rfl | mem
    · exact hp
    · exact rest.inside q mem

/-- The pairings of two increasing lists increase. -/
theorem pairings_increasing (order : Decides lt less P) (hx : IncreasingOn less P xs)
    (hy : IncreasingOn less P ys) :
    IncreasingOn (fun p q => less p.item q.item) (fun p : Pairing α => P p.item)
      (pairings less xs ys) := by
  fun_induction pairings less xs ys with
  | case1 => exact ⟨List.Pairwise.nil, by simp⟩
  | case2 x xs ih =>
    obtain ⟨inside, above, restX⟩ := hx.of_cons
    exact increasing_cons_pairing inside above (by simp) (ih restX hy)
  | case3 y ys ih =>
    obtain ⟨inside, above, restY⟩ := hy.of_cons
    exact increasing_cons_pairing inside (by simp) above (ih hx restY)
  | case4 x xs y ys less_xy ih =>
    obtain ⟨inside, above, restX⟩ := hx.of_cons
    exact increasing_cons_pairing inside above (below_all order inside hy less_xy) (ih restX hy)
  | case5 x xs y ys not_less less_yx ih =>
    obtain ⟨inside, above, restY⟩ := hy.of_cons
    exact increasing_cons_pairing inside (below_all order inside hx less_yx) above (ih hx restY)
  | case6 x xs y ys not_less not_less' ih =>
    obtain ⟨insideX, aboveX, restX⟩ := hx.of_cons
    obtain ⟨insideY, aboveY, restY⟩ := hy.of_cons
    have same : tied less x y = true := by simp [tied, not_less, not_less']
    have aboveYs : ∀ z ∈ ys, less x z = true := fun z mem => by
      rw [order.less_of_tied insideX insideY (restY.inside z mem) same]
      exact aboveY z mem
    exact increasing_cons_pairing insideX aboveX aboveYs (ih restX restY)

/-- A pairing in front that does not pass is passed over. -/
theorem find?_pairing_skip {test : α → Bool} {p : Pairing α} {ps : List (Pairing α)}
    (miss : test p.item = false) :
    (p :: ps).find? (fun p => test p.item) = ps.find? fun p => test p.item :=
  List.find?_cons_of_neg (by simp [miss])

/-- The pairing that passes a test consists of what either list has that passes. -/
theorem find?_pairings (order : Decides lt less P) {test : α → Bool} (picks : PicksOne less P test)
    (hx : IncreasingOn less P xs) (hy : IncreasingOn less P ys) :
    (pairings less xs ys).find? (fun p => test p.item) =
      Pairing.of? (xs.find? test) (ys.find? test) := by
  fun_induction pairings less xs ys with
  | case1 => rfl
  | case2 x xs ih =>
    obtain ⟨inside, above, restX⟩ := hx.of_cons
    cases hit : test x with
    | true => simp [hit, Pairing.of?]
    | false =>
      rw [find?_pairing_skip hit, ih restX hy, List.find?_cons_of_neg (by simp [hit])]
  | case3 y ys ih =>
    obtain ⟨inside, above, restY⟩ := hy.of_cons
    cases hit : test y with
    | true => simp [hit, Pairing.of?]
    | false =>
      rw [find?_pairing_skip hit, ih hx restY]
      exact congrArg _ (List.find?_cons_of_neg (by simp [hit])).symm
  | case4 x xs y ys less_xy ih =>
    obtain ⟨inside, above, restX⟩ := hx.of_cons
    cases hit : test x with
    | true =>
      rw [picks.find?_of_above inside hy.inside (below_all order inside hy less_xy) hit]
      simp [hit, Pairing.of?]
    | false =>
      have skip : (x :: xs).find? test = xs.find? test := List.find?_cons_of_neg (by simp [hit])
      rw [find?_pairing_skip hit, ih restX hy, skip]
  | case5 x xs y ys not_less less_yx ih =>
    obtain ⟨inside, above, restY⟩ := hy.of_cons
    cases hit : test y with
    | true =>
      rw [picks.find?_of_above inside hx.inside (below_all order inside hx less_yx) hit]
      simp [hit, Pairing.of?]
    | false =>
      have skip : (y :: ys).find? test = ys.find? test := List.find?_cons_of_neg (by simp [hit])
      rw [find?_pairing_skip hit, ih hx restY, skip]
  | case6 x xs y ys not_less not_less' ih =>
    obtain ⟨insideX, aboveX, restX⟩ := hx.of_cons
    obtain ⟨insideY, aboveY, restY⟩ := hy.of_cons
    have same : tied less x y = true := by simp [tied, not_less, not_less']
    have both : test x = test y := picks.together insideX insideY same
    cases hit : test x with
    | true => simp [hit, ← both, Pairing.of?]
    | false =>
      rw [find?_pairing_skip hit, ih restX restY, List.find?_cons_of_neg (by simp [hit]),
        List.find?_cons_of_neg (by simp [← both, hit])]

/-- The items that tie with one of an increasing list are that one. -/
theorem find?_tied_eq_some (order : Decides lt less P) (kept : IncreasingOn less P xs) {x y : α}
    (hx : P x) :
    xs.find? (tied less x) = some y ↔ y ∈ xs ∧ tied less x y = true := by
  constructor
  · exact fun found => ⟨List.mem_of_find?_eq_some found, List.find?_some found⟩
  · exact fun hit => (order.picksOne hx).find?_of_mem kept hit.1 hit.2

/-- The pairings of two increasing lists are those of what either list has. -/
theorem mem_pairings_iff (order : Decides lt less P) (hx : IncreasingOn less P xs)
    (hy : IncreasingOn less P ys) {p : Pairing α} (hp : P p.item) :
    p ∈ pairings less xs ys ↔
      Pairing.of? (xs.find? (tied less p.item)) (ys.find? (tied less p.item)) = some p := by
  have picks := order.picksOne hp
  rw [← find?_pairings order picks hx hy]
  constructor
  · intro mem
    exact (picks.comap Pairing.item).find?_of_mem (pairings_increasing order hx hy) mem
      (order.tied_self hp)
  · exact List.mem_of_find?_eq_some

section Members

variable (order : Decides lt less P) (hx : IncreasingOn less P xs) (hy : IncreasingOn less P ys)
  {x y : α}
include order hx hy

theorem left_mem_pairings : .left x ∈ pairings less xs ys ↔ x ∈ xs ∧ hasTie less ys x = false := by
  have none_iff : ys.find? (tied less x) = none ↔ hasTie less ys x = false := by
    rw [List.find?_eq_none, hasTie_eq_false]
    simp
  constructor
  · intro mem
    have inside := (pairings_increasing order hx hy).inside _ mem
    rw [mem_pairings_iff order hx hy (p := .left x) inside, Pairing.of?_eq_left] at mem
    exact ⟨List.mem_of_find?_eq_some mem.1, none_iff.mp mem.2⟩
  · rintro ⟨mem, apart⟩
    have inside := hx.inside x mem
    rw [mem_pairings_iff order hx hy (p := .left x) inside, Pairing.of?_eq_left]
    exact ⟨(find?_tied_eq_some order hx inside).mpr ⟨mem, order.tied_self inside⟩, none_iff.mpr apart⟩

theorem right_mem_pairings : .right y ∈ pairings less xs ys ↔ y ∈ ys ∧ hasTie less xs y = false := by
  have none_iff : xs.find? (tied less y) = none ↔ hasTie less xs y = false := by
    rw [List.find?_eq_none, hasTie_eq_false]
    simp
  constructor
  · intro mem
    have inside := (pairings_increasing order hx hy).inside _ mem
    rw [mem_pairings_iff order hx hy (p := .right y) inside, Pairing.of?_eq_right] at mem
    exact ⟨List.mem_of_find?_eq_some mem.2, none_iff.mp mem.1⟩
  · rintro ⟨mem, apart⟩
    have inside := hy.inside y mem
    rw [mem_pairings_iff order hx hy (p := .right y) inside, Pairing.of?_eq_right]
    exact ⟨none_iff.mpr apart, (find?_tied_eq_some order hy inside).mpr ⟨mem, order.tied_self inside⟩⟩

theorem tie_mem_pairings :
    .tie x y ∈ pairings less xs ys ↔ x ∈ xs ∧ y ∈ ys ∧ tied less x y = true := by
  constructor
  · intro mem
    have inside := (pairings_increasing order hx hy).inside _ mem
    rw [mem_pairings_iff order hx hy (p := .tie x y) inside, Pairing.of?_eq_tie] at mem
    exact ⟨List.mem_of_find?_eq_some mem.1, (find?_tied_eq_some order hy inside).mp mem.2⟩
  · rintro ⟨memX, memY, twins⟩
    have inside := hx.inside x memX
    rw [mem_pairings_iff order hx hy (p := .tie x y) inside, Pairing.of?_eq_tie]
    exact ⟨(find?_tied_eq_some order hx inside).mpr ⟨memX, order.tied_self inside⟩,
      (find?_tied_eq_some order hy inside).mpr ⟨memY, twins⟩⟩

end Members

end Order

/-- A step of a merge into a new list gives this result, moves the cursors to `now` and adds these items
to the output, or it fails for this cause. -/
def Adds (value : β) (now : Inputs α) (result : List α)
    (answer : EStateM.Result (Fault ε) (ListMerge α) β) : Except ε (List α) → Prop
  | .ok items => answer = .ok value ⟨now, result ++ items⟩
  | .error cause => ∃ s, answer = .error (.raised cause) s

/-- One step after another. -/
theorem Adds.bind {value : β} {value' : γ} {now later : Inputs α} {result : List α} {s : ListMerge α}
    {first : EStateM (Fault ε) (ListMerge α) β} {second : β → EStateM (Fault ε) (ListMerge α) γ}
    {made made' : Except ε (List α)} (adds : Adds value now result (first s) made)
    (rest : ∀ items, made = .ok items →
      Adds value' later (result ++ items) (second value ⟨now, result ++ items⟩) made') :
    Adds value' later result ((first >>= second) s) (do return (← made) ++ (← made')) := by
  rw [bind_run]
  cases made with
  | error cause =>
    obtain ⟨t, failed⟩ := adds
    exact ⟨t, by rw [failed]⟩
  | ok items =>
    have done : first s = .ok value ⟨now, result ++ items⟩ := adds
    have next := rest items rfl
    rw [done]
    cases made' with
    | error cause => exact next
    | ok items' =>
      have done' : second value ⟨now, result ++ items⟩ =
          .ok value' ⟨later, result ++ items ++ items'⟩ := next
      exact done'.trans (by rw [List.append_assoc])

theorem Policy.run_andThen {σ : Type} (sink : Sink ε α σ) (first second : Script ε α Bool) :
    (andThen first second).run sink =
      (do if ← first.run sink then second.run sink else return false) := by
  show (first.bind fun more => if more then second else pure false).run sink = _
  rw [Script.run_bind]
  refine bind_congr fun more => ?_
  cases more <;> rfl

theorem Policy.andThen_adds {now later : Inputs α} {result : List α} {s : ListMerge α}
    {first second : Script ε α Bool} {made made' : Except ε (List α)}
    (adds : Adds true now result (first.run ListMerge.sink s) made)
    (rest : ∀ items, made = .ok items →
      Adds true later (result ++ items) (second.run ListMerge.sink ⟨now, result ++ items⟩) made') :
    Adds true later result ((andThen first second).run ListMerge.sink s)
      (do return (← made) ++ (← made')) := by
  rw [run_andThen]
  exact adds.bind rest

/-- An item that is still to come. -/
theorem exists_take_one {xs : List α} {p : Nat} (room : p + 1 ≤ xs.length) :
    ∃ x, (xs.drop p).take 1 = [x] := by
  rw [List.drop_eq_getElem_cons room]
  exact ⟨xs[p], rfl⟩

/-- A call that hands over something pairs something. -/
theorem Call.exists_paired {call : Call} {a b : List α} {p q : Nat} (positive : 0 < call.count)
    (left : p + call.onLeft ≤ a.length) (right : q + call.onRight ≤ b.length) :
    ∃ first rest, call.paired (a.drop p) (b.drop q) = first :: rest := by
  refine List.exists_cons_of_length_pos ?_
  cases call with
  | left n =>
    rw [paired, List.length_map]
    exact Nat.lt_of_lt_of_eq positive (length_take_drop left).symm
  | right n =>
    rw [paired, List.length_map]
    exact Nat.lt_of_lt_of_eq positive (length_take_drop right).symm
  | tie =>
    obtain ⟨x, headA⟩ := exists_take_one left
    obtain ⟨y, headB⟩ := exists_take_one right
    rw [paired, headA, headB]
    exact Nat.one_pos

/-- A handler walks through both lists if its calls move the cursors past what they hand over. -/
theorem walk_of_moves {σ : Type} {view : σ → Inputs α} {handler : Handler ε σ} {a b : List α}
    (moves : ∀ {s s' : σ} {p q : Nat} (call : Call), view s = ⟨a, b, p, q⟩ →
      p + call.onLeft ≤ a.length → q + call.onRight ≤ b.length → handler call s = .ok true s' →
      view s' = ⟨a, b, p + call.onLeft, q + call.onRight⟩) :
    Walk view handler a b fun s => (view s).At a b where
  within place := ⟨place.left, place.right⟩
  sees := Inputs.At.shows
  moves {s s' p q call} place fits answer := by
    have fitsLeft := fits.left
    have fitsRight := fits.right
    have left : p + call.onLeft ≤ a.length := by have := place.left; omega
    have right : q + call.onRight ≤ b.length := by have := place.right; omega
    exact ⟨moves call place.shown left right answer, left, right⟩

/-- What a policy does with a run it does with the items of the run, one after the other. -/
structure Policy.Itemwise (policy : Policy ε α) (rule : Pairing α → Except ε (Option α)) : Prop where
  adds : ∀ {a b result : List α} {p q : Nat} (call : Call), p + call.onLeft ≤ a.length →
    q + call.onRight ≤ b.length →
    Adds true ⟨a, b, p + call.onLeft, q + call.onRight⟩ result
      (policy.handler ListMerge.sink call ⟨⟨a, b, p, q⟩, result⟩)
      ((call.paired (a.drop p) (b.drop q)).filterMapM rule)

namespace Policy.Itemwise

variable {policy : Policy ε α} {rule : Pairing α → Except ε (Option α)} {a b result : List α}
  {p q : Nat}

theorem performAll (itemwise : policy.Itemwise rule) {calls : List Call}
    (left : p + leftTotal calls ≤ a.length) (right : q + rightTotal calls ≤ b.length) :
    Adds true ⟨a, b, p + leftTotal calls, q + rightTotal calls⟩ result
      (SortedCollections.performAll (policy.handler ListMerge.sink) calls ⟨⟨a, b, p, q⟩, result⟩)
      ((paired calls (a.drop p) (b.drop q)).filterMapM rule) := by
  induction calls generalizing p q result with
  | nil =>
    rw [paired, List.filterMapM_nil]
    show _ = _
    rw [List.append_nil]
    rfl
  | cons call calls ih =>
    rw [leftTotal_cons] at left ⊢
    rw [rightTotal_cons] at right ⊢
    rw [SortedCollections.performAll, paired, filterMapM_append, List.drop_drop, List.drop_drop,
      ← Nat.add_assoc, ← Nat.add_assoc]
    exact (itemwise.adds call (by omega) (by omega)).bind fun items _ => ih (by omega) (by omega)

/-- Such a policy walks through both lists. -/
theorem walk (itemwise : policy.Itemwise rule) (a b : List α) :
    Walk ListMerge.toInputs (policy.handler ListMerge.sink) a b fun s => s.toInputs.At a b := by
  refine walk_of_moves fun {s s' p q} call shown left right answer => ?_
  obtain ⟨now, result⟩ := s
  cases shown
  have adds : Adds true _ result _ _ := itemwise.adds call left right
  rw [answer] at adds
  cases made : (call.paired (a.drop p) (b.drop q)).filterMapM rule with
  | error cause =>
    rw [made] at adds
    obtain ⟨_, failed⟩ := adds
    cases failed
  | ok items =>
    rw [made] at adds
    cases adds
    rfl

/-- A merge makes what the rule makes of what it finds, unless it ends in a fault then. -/
theorem merge_schedule (itemwise : policy.Itemwise rule) (cmp : Comparison ε κ)
    (key : α → Except ε κ) :
    merge cmp ⟨key, policy⟩ a b =
      (do
        let items ← Fault.lift ((paired (schedule cmp key a b).calls a b).filterMapM rule)
        (schedule cmp key a b).fault.elim (.ok items) .error) := by
  have covers := schedule_covers cmp key a b
  have left : 0 + leftTotal (schedule cmp key a b).calls ≤ a.length := by
    have := covers.left
    omega
  have right : 0 + rightTotal (schedule cmp key a b).calls ≤ b.length := by
    have := covers.right
    omega
  have run : Operation.run ⟨key, policy⟩ cmp ListMerge.sink (.start a b) =
      (do let _ ← (schedule cmp key a b).perform (policy.handler ListMerge.sink)) (.start a b) :=
    (itemwise.walk a b).remainder_eq cmp key ⟨rfl, Nat.zero_le _, Nat.zero_le _⟩
  have adds : Adds true _ [] _ _ := itemwise.performAll left right
  rw [List.drop_zero, List.drop_zero] at adds
  rw [merge, run, bind_run, Schedule.perform, bind_run, ListMerge.start]
  generalize (paired (schedule cmp key a b).calls a b).filterMapM rule = made at adds
  cases made with
  | error cause =>
    obtain ⟨s, failed⟩ := adds
    rw [failed]
    rfl
  | ok items =>
    have done : _ = EStateM.Result.ok true _ := adds
    rw [done]
    dsimp only
    rw [if_pos rfl]
    cases (schedule cmp key a b).fault <;> rfl

/-- A merge that meets no comparison that fails makes what the rule makes of what it finds. -/
theorem merge_eq (itemwise : policy.Itemwise rule) (cmp : Comparison ε κ) (key : α → Except ε κ)
    (faultless : (schedule cmp key a b).fault = none) :
    merge cmp ⟨key, policy⟩ a b =
      Fault.lift ((paired (schedule cmp key a b).calls a b).filterMapM rule) := by
  rw [itemwise.merge_schedule, faultless]
  exact bind_pure _

/-- A merge of two increasing lists makes what the rule makes of their pairings. -/
theorem merge_pairings (itemwise : policy.Itemwise rule) {cmp : Comparison ε κ}
    {key : α → Except ε κ} {P : κ → Prop} (ordered : cmp.OrderedOn P)
    (ha : IncreasingOn (cmp.on key).less (Comparison.KeyIn key P) a)
    (hb : IncreasingOn (cmp.on key).less (Comparison.KeyIn key P) b) :
    merge cmp ⟨key, policy⟩ a b =
      Fault.lift ((pairings (cmp.on key).less a b).filterMapM rule) := by
  obtain ⟨faultless, whole⟩ := schedule_pairings ordered ha hb
  rw [itemwise.merge_eq cmp key faultless, whole]

end Policy.Itemwise

end SortedCollections
