import SortedCollections.Proofs.Merge.Record

/-!
# The walk with two cursors

The plain way to merge two strictly increasing lists is to compare the two heads, hand over the
smaller one, report a tie, and drain one list when the other is at its end. If every run of a
schedule is taken apart into single steps, the schedule of two such lists is this walk: the middle
item of the left list and its place on the right cut the walk in two.
-/
namespace SortedCollections

variable {ε α κ : Type}

/-- The steps of the walk from the cursors `i` and `j` on. -/
def linear (less : α → α → Bool) (i j : Nat) : List α → List α → List TracedCall
  | [], [] => []
  | _ :: xs, [] => ⟨.left 1, i, j⟩ :: linear less (i + 1) j xs []
  | [], _ :: ys => ⟨.right 1, i, j⟩ :: linear less i (j + 1) [] ys
  | x :: xs, y :: ys =>
    if less x y then
      ⟨.left 1, i, j⟩ :: linear less (i + 1) j xs (y :: ys)
    else if less y x then
      ⟨.right 1, i, j⟩ :: linear less i (j + 1) (x :: xs) ys
    else
      ⟨.tie, i, j⟩ :: linear less (i + 1) (j + 1) xs ys
termination_by xs ys => xs.length + ys.length

/-- The single steps of a call, at consecutive positions. -/
def Call.steps (i j : Nat) : Call → List TracedCall
  | .left n => (List.range n).map fun k => ⟨.left 1, i + k, j⟩
  | .right n => (List.range n).map fun k => ⟨.right 1, i, j + k⟩
  | .tie => [⟨.tie, i, j⟩]

/-- The single steps of calls that begin at the positions `i` and `j`. -/
def unroll (i j : Nat) : List Call → List TracedCall
  | [] => []
  | call :: calls => call.steps i j ++ unroll (i + call.onLeft) (j + call.onRight) calls

theorem unroll_append (i j : Nat) (calls later : List Call) :
    unroll i j (calls ++ later) =
      unroll i j calls ++ unroll (i + leftTotal calls) (j + rightTotal calls) later := by
  induction calls generalizing i j with
  | nil => rfl
  | cons call calls ih =>
    simp only [List.cons_append, unroll, ih, List.append_assoc, leftTotal_cons, rightTotal_cons,
      Nat.add_assoc]

theorem unroll_beginning {calls later : List Call} (i j : Nat) (made : calls <+: later) :
    unroll i j calls <+: unroll i j later := by
  obtain ⟨rest, rfl⟩ := made
  rw [unroll_append]
  exact List.prefix_append ..

variable {less : α → α → Bool}

theorem linear_nil_right (i j : Nat) (xs : List α) :
    linear less i j xs [] = (Call.left xs.length).steps i j := by
  induction xs generalizing i with
  | nil => simp [linear, Call.steps]
  | cons x xs ih =>
    have later (k : Nat) : i + 1 + k = i + (k + 1) := by omega
    rw [linear, ih]
    simp only [Call.steps, List.length_cons, List.range_succ_eq_map, List.map_cons, List.map_map,
      Function.comp_def, Nat.add_zero, Nat.succ_eq_add_one, later]

theorem linear_nil_left (i j : Nat) (ys : List α) :
    linear less i j [] ys = (Call.right ys.length).steps i j := by
  induction ys generalizing j with
  | nil => simp [linear, Call.steps]
  | cons y ys ih =>
    have later (k : Nat) : j + 1 + k = j + (k + 1) := by omega
    rw [linear, ih]
    simp only [Call.steps, List.length_cons, List.range_succ_eq_map, List.map_cons, List.map_map,
      Function.comp_def, Nat.add_zero, Nat.succ_eq_add_one, later]

/-- A walk may be cut where the items in front are less than those behind, on either side. -/
theorem linear_append {xs ys zs ws : List α} (i j : Nat)
    (left : ∀ x ∈ xs, ∀ w ∈ ws, less x w = true)
    (right : ∀ y ∈ ys, ∀ z ∈ zs, less y z = true ∧ less z y = false) :
    linear less i j (xs ++ zs) (ys ++ ws) =
      linear less i j xs ys ++ linear less (i + xs.length) (j + ys.length) zs ws := by
  fun_induction linear less i j xs ys with
  | case1 i j => rfl
  | case2 i j x xs ih =>
    have rest := ih (fun a mem => left a (by simp [mem])) right
    have count : i + 1 + xs.length = i + (x :: xs).length := by simp; omega
    rw [List.cons_append, ← count, List.cons_append, ← rest]
    cases ws with
    | nil => rw [List.nil_append, linear]
    | cons w ws =>
      have first : less x w = true := left x (by simp) w (by simp)
      rw [List.nil_append, linear, if_pos first]
  | case3 i j y ys ih =>
    have rest := ih left (fun a mem => right a (by simp [mem]))
    have count : j + 1 + ys.length = j + (y :: ys).length := by simp; omega
    rw [List.cons_append, ← count, List.cons_append, ← rest]
    cases zs with
    | nil => rw [List.nil_append, linear]
    | cons z zs =>
      obtain ⟨first, notLess⟩ := right y (by simp) z (by simp)
      rw [List.nil_append, linear, if_neg (by simp [notLess]), if_pos first]
  | case4 i j x xs y ys less_xy ih =>
    have rest := ih (fun a mem => left a (by simp [mem])) right
    have count : i + 1 + xs.length = i + (x :: xs).length := by simp; omega
    rw [List.cons_append, List.cons_append, linear, if_pos less_xy, ← count, List.cons_append,
      ← rest]
    rfl
  | case5 i j x xs y ys not_less less_yx ih =>
    have rest := ih left (fun a mem => right a (by simp [mem]))
    have count : j + 1 + ys.length = j + (y :: ys).length := by simp; omega
    rw [List.cons_append, List.cons_append, linear, if_neg not_less, if_pos less_yx, ← count,
      List.cons_append, ← rest]
    rfl
  | case6 i j x xs y ys not_less not_less' ih =>
    have rest := ih (fun a mem => left a (by simp [mem])) (fun a mem => right a (by simp [mem]))
    have count : i + 1 + xs.length = i + (x :: xs).length := by simp; omega
    have count' : j + 1 + ys.length = j + (y :: ys).length := by simp; omega
    rw [List.cons_append, List.cons_append, linear, if_neg not_less, if_neg not_less', ← count,
      ← count', List.cons_append, ← rest]

/-- Around an item of the left list: what is less on the right comes before it, and a tie is the
first item that is not. -/
theorem linear_pivot {xs zs lows highs : List α} {x : α} (i j : Nat)
    (left : ∀ a ∈ xs, ∀ b ∈ highs, less a b = true)
    (right : ∀ a ∈ lows, ∀ b ∈ x :: zs, less a b = true ∧ less b a = false)
    (above : ∀ b ∈ highs, less b x = false) (found : Bool)
    (hit : found = highs.head?.any (tied less x)) :
    linear less i j (xs ++ x :: zs) (lows ++ highs) =
      linear less i j xs lows ++
        (if found then Call.tie else .left 1).steps (i + xs.length) (j + lows.length) ++
        linear less (i + xs.length + 1) (j + lows.length + found.toNat) zs
          (highs.drop found.toNat) := by
  rw [linear_append i j left right, List.append_assoc]
  congr 1
  cases highs with
  | nil =>
    have miss : found = false := hit
    rw [miss, linear]
    rfl
  | cons y highs =>
    have notLess : less y x = false := above y (by simp)
    have tie : found = !less x y := by simpa [tied, notLess] using hit
    cases less_xy : less x y with
    | true =>
      have miss : found = false := by rw [tie, less_xy]; rfl
      rw [miss, linear, if_pos less_xy]
      rfl
    | false =>
      have found : found = true := by rw [tie, less_xy]; rfl
      rw [found, linear, if_neg (by simp [less_xy]), if_neg (by simp [notLess])]
      rfl

/-- What stands in front of an item is less than what a cut at the item leaves behind on the other
side, and the other way round. -/
theorem less_across {lt : α → α → Except ε Bool} {P : α → Prop} (order : Decides lt less P)
    {front back lows highs : List α} {x : α} (increasing : Increasing less (front ++ x :: back))
    (insideLeft : ∀ a ∈ front ++ x :: back, P a) (insideRight : ∀ b ∈ lows ++ highs, P b)
    (below : ∀ b ∈ lows, less b x = true) (above : ∀ b ∈ highs, less b x = false) :
    (∀ a ∈ front, ∀ b ∈ highs, less a b = true) ∧
      ∀ b ∈ lows, ∀ a ∈ x :: back, less b a = true ∧ less a b = false := by
  obtain ⟨_, rest, across⟩ := List.pairwise_append.mp increasing
  have behind := (List.pairwise_cons.mp rest).1
  have hx := insideLeft x (by simp)
  constructor
  · intro a memA b memB
    exact order.less_of_less_of_not_less (insideLeft a (by simp [memA])) hx
      (insideRight b (by simp [memB])) (across a memA x (by simp)) (above b memB)
  · intro b memB a memA
    have hb := insideRight b (by simp [memB])
    have ha := insideLeft a (List.mem_append_right _ memA)
    have less : less b a = true := by
      rcases List.mem_cons.mp memA with rfl | memA
      · exact below b memB
      · exact order.trans hb hx ha (below b memB) (behind a memA)
    exact ⟨less, order.asymm hb ha less⟩

variable {cmp : Comparison ε κ} {key : α → Except ε κ} {P : κ → Prop}

theorem locate_increasing (ordered : cmp.OrderedOn P) {xs ys : List α} {half : Nat}
    (inside : half < xs.length) (insideX : Comparison.KeyIn key P xs[half])
    (insideYs : ∀ y ∈ ys, Comparison.KeyIn key P y) (increasing : Increasing (cmp.on key).less ys) :
    ∃ lows highs, ys = lows ++ highs ∧ (∀ y ∈ lows, (cmp.on key).less y xs[half] = true) ∧
      (∀ y ∈ highs, (cmp.on key).less y xs[half] = false) ∧
      Engine.locate cmp key ⟨xs, ys, 0, 0⟩ half ys.length =
        .ok (lows.length, highs.head?.any (tied (cmp.on key).less xs[half])) := by
  obtain ⟨lows, highs, rfl, below, above⟩ :=
    exists_cut_increasing (ordered.on key).decides increasing insideYs insideX
  obtain ⟨value, hx, hv⟩ := insideX
  have searched := findIn_increasing ordered hx hv insideYs below above
  refine ⟨lows, highs, rfl, below, above, ?_⟩
  rw [Engine.locate, Nat.zero_add, itemAt_of_lt inside]
  show (Fault.lift (key xs[half]) >>= _) = _
  rw [hx, Nat.zero_add]
  show (findIn cmp key (lows ++ highs) value 0 (lows ++ highs).length >>= _) = _
  rw [searched]
  rfl

/-- The schedule of two increasing lists has no fault and takes the steps of the walk. -/
theorem schedule_linear (ordered : cmp.OrderedOn P) {xs ys : List α} (i j : Nat)
    (insideXs : ∀ x ∈ xs, Comparison.KeyIn key P x) (insideYs : ∀ y ∈ ys, Comparison.KeyIn key P y)
    (increasingXs : Increasing (cmp.on key).less xs)
    (increasingYs : Increasing (cmp.on key).less ys) :
    (schedule cmp key xs ys).fault = none ∧
      unroll i j (schedule cmp key xs ys).calls = linear (cmp.on key).less i j xs ys := by
  have order := (ordered.on key).decides
  fun_induction schedule cmp key xs ys generalizing i j with
  | case1 xs ys noLeft noRight =>
    rw [List.eq_nil_of_length_eq_zero noLeft, List.eq_nil_of_length_eq_zero noRight, linear]
    exact ⟨rfl, rfl⟩
  | case2 xs ys noLeft someRight =>
    rw [List.eq_nil_of_length_eq_zero noLeft, linear_nil_left]
    exact ⟨rfl, List.append_nil _⟩
  | case3 xs ys someLeft noRight =>
    rw [List.eq_nil_of_length_eq_zero noRight, linear_nil_right]
    exact ⟨rfl, List.append_nil _⟩
  | case4 xs ys someLeft someRight e located =>
    have inside : xs.length / 2 < xs.length := by omega
    obtain ⟨_, _, _, _, _, answer⟩ := locate_increasing ordered inside
      (insideXs _ (List.getElem_mem inside)) insideYs increasingYs
    rw [located] at answer
    cases answer
  | case5 xs ys someLeft someRight place found located first second =>
    have inside : xs.length / 2 < xs.length := by omega
    obtain ⟨lows, highs, rfl, below, above, answer⟩ := locate_increasing ordered inside
      (insideXs _ (List.getElem_mem inside)) insideYs increasingYs
    rw [located] at answer
    simp only [Except.ok.injEq, Prod.mk.injEq] at answer
    obtain ⟨rfl, hit⟩ := answer
    have parts := List.take_append_drop (xs.length / 2) xs
    rw [List.drop_eq_getElem_cons inside] at parts
    have takeLows : (lows ++ highs).take lows.length = lows := List.take_left
    have dropLows : (lows ++ highs).drop (lows.length + found.toNat) = highs.drop found.toNat :=
      List.drop_length_add_append ..
    rw [takeLows] at first ⊢
    rw [dropLows] at second ⊢
    have frontLength : (xs.take (xs.length / 2)).length = xs.length / 2 :=
      List.length_take_of_le (by omega)
    generalize xs[xs.length / 2] = x at *
    generalize xs.take (xs.length / 2) = front at *
    generalize xs.drop (xs.length / 2 + 1) = back at *
    subst parts
    obtain ⟨increasingFront, increasingRest, _⟩ := List.pairwise_append.mp increasingXs
    obtain ⟨increasingLows, increasingHighs, _⟩ := List.pairwise_append.mp increasingYs
    obtain ⟨faultless, steps⟩ := first i j (fun a mem => insideXs a (by simp [mem]))
      (fun b mem => insideYs b (by simp [mem])) increasingFront increasingLows
    obtain ⟨faultless', steps'⟩ := second (i + front.length + 1) (j + lows.length + found.toNat)
      (fun a mem => insideXs a (by simp [mem]))
      (fun b mem => insideYs b (List.mem_append_right _ (List.mem_of_mem_drop mem)))
      increasingRest.tail (List.Pairwise.drop increasingHighs)
    have totals := (schedule_covers cmp key front lows).whole faultless
    obtain ⟨left, right⟩ := less_across order increasingXs insideXs insideYs below above
    rw [Schedule.andThen_of_none faultless, Schedule.andThen_of_none rfl,
      linear_pivot i j left right above found hit]
    refine ⟨faultless', ?_⟩
    simp only [unroll_append, Schedule.ofCall, unroll, leftTotal_append, rightTotal_append,
      leftTotal_cons, rightTotal_cons, leftTotal_nil, rightTotal_nil, totals.1, totals.2,
      Call.onLeft_middle, Call.onRight_middle, Nat.add_zero, List.append_nil, ← Nat.add_assoc, steps, steps']

end SortedCollections
