import SortedCollections.Proofs.Lookups
import SortedCollections.Proofs.Merge.Probe

/-!
# Merges of nothing but ties

A merge that hands over nothing but ties has taken each item of the left list for the item at the same
place on the right. If the items on the left are told from those on the right, a merge does so whenever
the two lists are equal place by place. Neither list need be ordered among the items of the other one.
-/
namespace SortedCollections

variable {ε α κ : Type} {cmp : Comparison ε κ} {key : α → Except ε κ} {xs ys : List α}

/-- A merge comes to its end and makes no calls but ties. -/
def Schedule.OnlyTies (plan : Schedule ε) : Prop :=
  plan.fault = none ∧ ∀ call ∈ plan.calls, call = .tie

theorem Schedule.onlyTies_andThen {first second : Schedule ε} :
    (first.andThen second).OnlyTies ↔ first.OnlyTies ∧ second.OnlyTies := by
  obtain ⟨calls, fault⟩ := first
  cases fault with
  | some e => simp [andThen, OnlyTies]
  | none => simp [andThen, OnlyTies, or_imp, forall_and, and_left_comm]

/-- Around an item and the place where it was found, the lists fall into parts. -/
theorem split_at {xs : List α} {i : Nat} {x : α} (here : xs[i]? = some x) :
    xs.take i ++ x :: xs.drop (i + 1) = xs := by
  obtain ⟨inside, rfl⟩ := List.getElem?_eq_some_iff.mp here
  rw [List.cons_getElem_drop_succ, List.take_append_drop]

/-- What is found by looking for the middle item was taken for it. -/
theorem Engine.taken_of_locate {half place : Nat}
    (located : locate cmp key ⟨xs, ys, 0, 0⟩ half ys.length = .ok (place, true)) :
    ∃ x value y, xs[half]? = some x ∧ key x = .ok value ∧ ys[place]? = some y ∧
      TakenFor cmp key value y := by
  obtain ⟨x, read, located⟩ := bind_eq_ok.mp located
  obtain ⟨value, keyed, located⟩ := bind_eq_ok.mp located
  obtain ⟨⟨i, hit⟩, search, located⟩ := bind_eq_ok.mp located
  cases located
  obtain ⟨y, here, taken⟩ := findIn_hit (Nat.le_add_right _ _) search
  refine ⟨x, value, y, ?_, Fault.lift_eq_ok.mp keyed, here, taken⟩
  rw [← itemAt_eq_ok.mp read, Nat.zero_add]

/-- Each item was taken for the one at the same place. -/
theorem taken_of_onlyTies (ties : (schedule cmp key xs ys).OnlyTies) :
    List.Forall₂ (fun x y => ∃ value, key x = .ok value ∧ TakenFor cmp key value y) xs ys := by
  fun_induction schedule cmp key xs ys with
  | case1 xs ys noLeft noRight =>
    rw [List.length_eq_zero_iff.mp noLeft, List.length_eq_zero_iff.mp noRight]
    exact .nil
  | case2 xs ys noLeft someRight => cases ties.2 (.right ys.length) (List.mem_singleton_self _)
  | case3 xs ys someLeft noRight => cases ties.2 (.left xs.length) (List.mem_singleton_self _)
  | case4 xs ys someLeft someRight e located => cases ties.1
  | case5 xs ys someLeft someRight place found located first second =>
    obtain ⟨⟨before, middle⟩, behind⟩ :=
      (Schedule.onlyTies_andThen.trans (and_congr_left' Schedule.onlyTies_andThen)).mp ties
    cases found with
    | false => cases middle.2 (.left 1) (List.mem_singleton_self _)
    | true =>
      obtain ⟨x, value, y, hereX, keyed, hereY, taken⟩ := Engine.taken_of_locate located
      have all := List.rel_append (first before) (.cons ⟨value, keyed, taken⟩ (second behind))
      dsimp only at all
      rwa [split_at hereX, Bool.toNat_true, split_at hereY] at all

theorem Told.mono {eq : κ → κ → Except ε Bool} {value : κ} {keys keys' : List κ}
    (told : Told cmp eq value keys) (sub : ∀ k ∈ keys', k ∈ keys) : Told cmp eq value keys' where
  apart k mem := told.apart k (sub k mem)
  sameSide k mem equal l memL := told.sameSide k (sub k mem) equal l (sub l memL)
  notLess k mem := told.notLess k (sub k mem)

section Equal

variable {eq : α → α → Except ε Bool} {cmp : Comparison ε α} {P : α → Prop}

/-- An item is found at its own place. -/
theorem Engine.locate_equal (ordered : cmp.OrderedOn P) (kept : IncreasingOn cmp.less P ys)
    (told : ∀ x ∈ xs, Told cmp eq x ys)
    (equal : List.Forall₂ (fun x y => eq y x = .ok true) xs ys) {half : Nat}
    (inside : half < xs.length) :
    Engine.locate cmp .ok ⟨xs, ys, 0, 0⟩ half ys.length = .ok (half, true) := by
  obtain ⟨length, same⟩ := List.forall₂_iff_get.mp equal
  have insideY : half < ys.length := length ▸ inside
  have found : find cmp .ok ys xs[half] = .ok (half, true) := by
    have whole := split_at (List.getElem?_eq_getElem insideY)
    have told := told xs[half] (List.getElem_mem inside)
    rw [← whole] at kept told ⊢
    have keyed (x : α) : Except.ok x = (Except.ok x : Except ε α) := rfl
    have found := find_equal keyed ordered (by rwa [List.map_id']) (by rwa [List.map_id'])
      (same half inside insideY)
    rwa [List.length_take_of_le insideY.le] at found
  rw [Engine.locate, Nat.zero_add, itemAt_of_lt inside, Nat.zero_add]
  show (find cmp .ok ys xs[half] >>= _) = _
  rw [found]
  rfl

/-- A merge of lists that are equal place by place makes ties of them. -/
theorem onlyTies_of_equal (ordered : cmp.OrderedOn P) (kept : IncreasingOn cmp.less P ys)
    (told : ∀ x ∈ xs, Told cmp eq x ys)
    (equal : List.Forall₂ (fun x y => eq y x = .ok true) xs ys) :
    (schedule cmp .ok xs ys).OnlyTies := by
  fun_induction schedule cmp .ok xs ys with
  | case1 xs ys noLeft noRight => exact ⟨rfl, by simp [Schedule.idle]⟩
  | case2 xs ys noLeft someRight => exact absurd (equal.length_eq.symm.trans noLeft) someRight
  | case3 xs ys someLeft noRight => exact absurd (equal.length_eq.trans noRight) someLeft
  | case4 xs ys someLeft someRight e located =>
    rw [Engine.locate_equal ordered kept told equal (by omega)] at located
    cases located
  | case5 xs ys someLeft someRight place found located first second =>
    rw [Engine.locate_equal ordered kept told equal (by omega)] at located
    cases located
    have part {xs' ys' : List α} (subX : xs'.Sublist xs) (subY : ys'.Sublist ys) :
        IncreasingOn cmp.less P ys' ∧ ∀ x ∈ xs', Told cmp eq x ys' :=
      ⟨⟨kept.increasing.sublist subY, fun y mem => kept.inside y (subY.subset mem)⟩,
        fun x mem => (told x (subX.subset mem)).mono fun y memY => subY.subset memY⟩
    obtain ⟨keptBefore, toldBefore⟩ :=
      part (List.take_sublist (xs.length / 2) xs) (List.take_sublist (xs.length / 2) ys)
    obtain ⟨keptBehind, toldBehind⟩ :=
      part (List.drop_sublist (xs.length / 2 + 1) xs) (List.drop_sublist (xs.length / 2 + 1) ys)
    refine Schedule.onlyTies_andThen.mpr ⟨Schedule.onlyTies_andThen.mpr ⟨?_, rfl, ?_⟩, ?_⟩
    · exact first keptBefore toldBefore (List.forall₂_take _ equal)
    · exact fun call mem => List.mem_singleton.mp mem
    · exact second keptBehind toldBehind (List.forall₂_drop _ equal)

end Equal

section Equality

variable {eq : α → α → Except ε Bool} {cmp : Comparison ε α} {P : α → Prop}

theorem keepsCall_symmetricDifference {call : Call} :
    SetRule.symmetricDifference.keepsCall call = false ↔ call = .tie := by
  cases call <;> simp [SetRule.keepsCall, SetRule.keepsLeft, SetRule.keepsRight, SetRule.keepsTie]

/-- Two lists are found equal exactly if a merge makes ties of them. -/
theorem isEqual_eq_true : isEqual cmp xs ys = .ok true ↔ (schedule cmp .ok xs ys).OnlyTies := by
  rw [isEqual]
  by_cases length : xs.length = ys.length
  · have ends := SetRule.symmetricDifference.run_probe_ends cmp .ok xs ys
    rw [if_pos length, anyOutput, SetRule.operation]
    generalize Operation.run ⟨.ok, .ofRule .symmetricDifference⟩ cmp Probe.sink (.start xs ys) = answer
      at ends
    cases ends with
    | @stops front back call calls drops keeps =>
      refine iff_of_false (by rintro ⟨⟩) fun ties => ?_
      have tie := keepsCall_symmetricDifference.mpr (ties.2 call (by simp [calls]))
      cases keeps.symm.trans tie
    | passes drops faultless =>
      exact iff_of_true rfl
        ⟨faultless, fun call mem => keepsCall_symmetricDifference.mp (drops call mem)⟩
    | fails drops fault =>
      refine iff_of_false (by rintro ⟨⟩) fun ties => ?_
      cases fault.symm.trans ties.1
  · rw [if_neg length]
    exact iff_of_false (by rintro ⟨⟩) fun ties => length (taken_of_onlyTies ties).length_eq

theorem isEqual_eq_error {e : Fault ε} (failed : isEqual cmp xs ys = .error e) :
    xs.length = ys.length ∧ (schedule cmp .ok xs ys).fault = some e := by
  rw [isEqual] at failed
  by_cases length : xs.length = ys.length
  · have ends := SetRule.symmetricDifference.run_probe_ends cmp .ok xs ys
    rw [if_pos length, anyOutput, SetRule.operation] at failed
    generalize Operation.run ⟨.ok, .ofRule .symmetricDifference⟩ cmp Probe.sink (.start xs ys) = answer
      at ends failed
    cases ends with
    | stops calls drops keeps => cases failed
    | passes drops faultless => cases failed
    | fails drops fault =>
      cases failed
      exact ⟨length, fault⟩
  · rw [if_neg length] at failed
    cases failed

/-- Two lists are found equal exactly if they are equal place by place, if the items of the one are told
from those of the other. -/
theorem isEqual_told (ordered : cmp.OrderedOn P) (kept : IncreasingOn cmp.less P ys)
    (told : ∀ x ∈ xs, Told cmp eq x ys) :
    isEqual cmp xs ys = .ok true ↔ List.Forall₂ (fun x y => eq y x = .ok true) xs ys := by
  rw [isEqual_eq_true]
  refine ⟨fun ties => ?_, onlyTies_of_equal ordered kept told⟩
  obtain ⟨length, taken⟩ := List.forall₂_iff_zip.mp (taken_of_onlyTies ties)
  refine List.forall₂_iff_zip.mpr ⟨length, fun {x y} mem => ?_⟩
  obtain ⟨memX, memY⟩ := List.of_mem_zip mem
  obtain ⟨_, keyed, taken⟩ := taken mem
  cases keyed
  exact (told x memX).apart y memY taken

/-- Asking whether two lists are equal fails only if they have the same length, and as asking for the order
of an item of the one and an item of the other does. -/
theorem isEqual_fails {e : Fault ε} (failed : isEqual cmp xs ys = .error e) :
    xs.length = ys.length ∧ ∃ x ∈ xs, ∃ y ∈ ys, ∃ cause, e = .raised cause ∧
      (cmp.lt y x = .error cause ∨ cmp.lt x y = .error cause) := by
  obtain ⟨length, fault⟩ := isEqual_eq_error failed
  have fails : FailsOnly (fun cause => ∃ x ∈ xs, ∃ y ∈ ys,
      cmp.lt y x = .error cause ∨ cmp.lt x y = .error cause) cmp .ok xs ys := by
    refine ⟨fun x _ cause keyed => by (cases keyed), fun x memX value keyed y memY cause asked => ?_⟩
    cases keyed
    exact ⟨x, memX, y, memY, asked⟩
  obtain ⟨cause, raised, x, memX, y, memY, asked⟩ := schedule_onlyRaises fails e fault
  exact ⟨length, x, memX, y, memY, cause, raised, asked⟩

end Equality

end SortedCollections
