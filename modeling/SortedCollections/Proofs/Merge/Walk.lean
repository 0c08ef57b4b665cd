import SortedCollections.Proofs.Merge.Schedule

/-!
# Merges keep to their schedules

A merge of `a` and `b` is seen through its state as two positions: how much of either list has been
handed over. A state may show more than that, and its cursors may be moved for reasons of its own;
what counts is that the items still to come are the rest of `a` and the rest of `b`, and that a
call answered with yes has moved the positions past its run.
-/
namespace SortedCollections

variable {ε α κ σ : Type}

/-- The items of the left input still to come. -/
def Inputs.unreadLeft (inputs : Inputs α) : List α := inputs.left.drop inputs.i

/-- The items of the right input still to come. -/
def Inputs.unreadRight (inputs : Inputs α) : List α := inputs.right.drop inputs.j

/-- What is still to come are the items of `a` from `p` on and those of `b` from `q` on. -/
def Inputs.Shows (a b : List α) (now : Inputs α) (p q : Nat) : Prop :=
  now.unreadLeft = a.drop p ∧ now.unreadRight = b.drop q

namespace Engine

/-- A search from the cursors of a state is a search of the windows still to come. -/
theorem locate_eq {cmp : Comparison ε κ} {key : α → Except ε κ} {now : Inputs α} {xs ys : List α}
    {half m n : Nat} (left : now.unreadLeft = xs) (right : now.unreadRight = ys) (inside : half < m) :
    locate cmp key now half n =
      locate cmp key ⟨xs.take m, ys.take n, 0, 0⟩ half n := by
  have item : (itemAt now.left (now.i + half) : Except (Fault ε) α) = itemAt (xs.take m) half := by
    rw [itemAt_take xs inside, ← left, Inputs.unreadLeft, itemAt_drop]
  have same (i : Nat) (hi : i < n) :
      (itemAt now.right (now.j + i) : Except (Fault ε) α) = itemAt (ys.take n) i := by
    rw [itemAt_take ys hi, ← right, Inputs.unreadRight, itemAt_drop]
  simp only [locate, item, findIn_shift same, Nat.zero_add]
  refine bind_congr fun x => bind_congr fun value => ?_
  rw [← bind_pure_comp, bind_assoc]
  refine bind_congr fun found => ?_
  simp

/-- One round of the recursion, where there are items on both sides. -/
theorem window_of_pos (cmp : Comparison ε κ) (key : α → Except ε κ)
    (view : σ → Inputs α) (handler : Handler ε σ) {m n : Nat} (someLeft : m ≠ 0)
    (someRight : n ≠ 0) (s : σ) :
    window cmp key (.ok <| view ·) handler m n s =
      match locate cmp key (view s) (m / 2) n with
      | .error e => .error e s
      | .ok (place, found) =>
        (do
          if ← (do
            if ← window cmp key (.ok <| view ·) handler (m / 2) place then
              handler (if found then .tie else .left 1)
            else
              return false) then
            window cmp key (.ok <| view ·) handler (m - m / 2 - 1)
              (if found then n - place - 1 else n - place)
          else
            return false) s := by
  rw [window, if_neg someLeft, if_neg someRight]
  rw [get_bind_run, lift_bind_run]
  dsimp only
  rw [lift_bind_run]
  cases locate cmp key (view s) (m / 2) n with
  | error e => rfl
  | ok result =>
    dsimp only
    rw [bind_assoc, bind_run, bind_run]
    cases window cmp key (.ok <| view ·) handler (m / 2) result.1 s with
    | error e t => rfl
    | ok more t =>
      cases more with
      | true => rfl
      | false => rfl

end Engine

/-- The handler of a merge of `a` and `b` moves on run by run. `At s p q` says that in the state
`s` the first `p` items of `a` and the first `q` items of `b` have been handed over. -/
structure Walk (view : σ → Inputs α) (handler : Handler ε σ) (a b : List α)
    (At : σ → Nat → Nat → Prop) : Prop where
  within : ∀ {s p q}, At s p q → p ≤ a.length ∧ q ≤ b.length
  sees : ∀ {s p q}, At s p q → (view s).Shows a b p q
  moves : ∀ {s s' p q call}, At s p q → call.Fits (a.length - p) (b.length - q) →
    handler call s = .ok true s' → At s' (p + call.onLeft) (q + call.onRight)

theorem length_take_drop {xs : List α} {p n : Nat} (room : p + n ≤ xs.length) :
    ((xs.drop p).take n).length = n := by
  rw [List.length_take, List.length_drop]
  omega

namespace Walk

variable {view : σ → Inputs α} {handler : Handler ε σ} {a b : List α}
  {At : σ → Nat → Nat → Prop}

theorem moves_all (walk : Walk view handler a b At) {calls : List Call} {s s' : σ} {p q : Nat}
    (start : At s p q) (positive : ∀ call ∈ calls, 0 < call.count)
    (left : p + leftTotal calls ≤ a.length) (right : q + rightTotal calls ≤ b.length)
    (performed : performAll handler calls s = .ok true s') :
    At s' (p + leftTotal calls) (q + rightTotal calls) := by
  induction calls generalizing s p q with
  | nil =>
    cases performed
    exact start
  | cons call calls ih =>
    rw [leftTotal_cons] at left ⊢
    rw [rightTotal_cons] at right ⊢
    obtain ⟨t, first, rest⟩ := both_run_eq_ok.mp performed
    have fits : call.Fits (a.length - p) (b.length - q) :=
      ⟨positive call (by simp), by omega, by omega⟩
    have next := ih (walk.moves start fits first) (fun c mem => positive c (by simp [mem]))
      (by omega) (by omega) rest
    rw [← Nat.add_assoc, ← Nat.add_assoc]
    exact next

/-- A schedule performed to its end has handed over all of its items. -/
theorem moves_schedule (walk : Walk view handler a b At) {plan : Schedule ε} {s s' : σ}
    {p q m n : Nat} (start : At s p q) (covers : plan.Covers m n) (left : p + m ≤ a.length)
    (right : q + n ≤ b.length) (performed : plan.perform handler s = .ok true s') :
    At s' (p + m) (q + n) := by
  obtain ⟨t, calls, rest⟩ := both_run_eq_ok.mp performed
  cases fault : plan.fault with
  | some e =>
    rw [fault] at rest
    cases rest
  | none =>
    rw [fault] at rest
    cases rest
    have whole := covers.whole fault
    have next := walk.moves_all start covers.positive (by omega) (by omega) calls
    rw [whole.1, whole.2] at next
    exact next

/-- A merge of the next `m` and `n` items performs the schedule of these items. -/
theorem window_eq (walk : Walk view handler a b At) (cmp : Comparison ε κ)
    (key : α → Except ε κ) {s : σ} {p q m n : Nat} (start : At s p q) (left : p + m ≤ a.length)
    (right : q + n ≤ b.length) :
    Engine.window cmp key (.ok <| view ·) handler m n s =
      (schedule cmp key ((a.drop p).take m) ((b.drop q).take n)).perform handler s := by
  induction m using Nat.strongRecOn generalizing s p q n with
  | ind m ih =>
    rw [schedule, length_take_drop left, length_take_drop right]
    by_cases noLeft : m = 0
    · rw [Engine.window, if_pos noLeft, if_pos noLeft]
      by_cases noRight : n = 0
      · rw [if_pos noRight, if_pos noRight, Schedule.perform_idle]
      · rw [if_neg noRight, if_neg noRight, Schedule.perform_ofCall]
    rw [if_neg noLeft]
    by_cases noRight : n = 0
    · rw [Engine.window, if_neg noLeft, if_pos noRight, if_pos noRight, Schedule.perform_ofCall]
    rw [if_neg noRight]
    have inside : m / 2 < m := by omega
    obtain ⟨unreadLeft, unreadRight⟩ := walk.sees start
    rw [Engine.window_of_pos cmp key view handler noLeft noRight,
      Engine.locate_eq unreadLeft unreadRight inside]
    cases located : Engine.locate cmp key ⟨(a.drop p).take m, (b.drop q).take n, 0, 0⟩ (m / 2) n with
    | error e => rfl
    | ok result =>
      obtain ⟨place, found⟩ := result
      have bounds := Engine.locate_bounds located
      have rest : (if found then n - place - 1 else n - place) = n - (place + found.toNat) := by
        cases found with
        | true => exact Nat.sub_sub n place 1
        | false => rfl
      have fits : (if found then Call.tie else .left 1).Fits (a.length - (p + m / 2))
          (b.length - (q + place)) :=
        ⟨Call.count_middle found, by rw [Call.onLeft_middle]; omega,
          by rw [Call.onRight_middle]; omega⟩
      have before := ih (m / 2) inside start (n := place) (by omega) (by omega)
      have covers := schedule_covers cmp key ((a.drop p).take (m / 2)) ((b.drop q).take place)
      dsimp only
      rw [List.take_take, Nat.min_eq_left (by omega), List.take_take, Nat.min_eq_left (by omega),
        List.drop_take, List.drop_take, List.drop_drop, List.drop_drop]
      rw [Schedule.perform_andThen, Schedule.perform_andThen, Schedule.perform_ofCall, rest]
      refine both_run_congr (both_run_congr before fun t _ => rfl) fun t performed => ?_
      obtain ⟨u, first, middle⟩ := both_run_eq_ok.mp performed
      rw [length_take_drop (by omega), length_take_drop (by omega)] at covers
      have reached := walk.moves_schedule start covers (by omega) (by omega) first
      have passed := walk.moves reached fits middle
      rw [Call.onLeft_middle, Call.onRight_middle, Nat.add_assoc, Nat.add_assoc] at passed
      rw [Nat.sub_sub]
      exact ih (m - (m / 2 + 1)) (by omega) passed (by omega) (by omega)

/-- A merge from a state on performs the schedule of all that is still to come. -/
theorem remainder_eq (walk : Walk view handler a b At) (cmp : Comparison ε κ)
    (key : α → Except ε κ) {s : σ} {p q : Nat} (start : At s p q) :
    Engine.remainder cmp key (.ok <| view ·) handler s =
      (do let _ ← (schedule cmp key (a.drop p) (b.drop q)).perform handler) s := by
  obtain ⟨unreadLeft, unreadRight⟩ := walk.sees start
  have within := walk.within start
  have leftLength : (view s).left.length - (view s).i = (a.drop p).length := by
    rw [← unreadLeft, Inputs.unreadLeft, List.length_drop]
  have rightLength : (view s).right.length - (view s).j = (b.drop q).length := by
    rw [← unreadRight, Inputs.unreadRight, List.length_drop]
  rw [Engine.remainder, get_bind_run, lift_bind_run]
  dsimp only
  rw [bind_run, bind_run, leftLength, rightLength,
    walk.window_eq cmp key start (by rw [List.length_drop]; omega)
      (by rw [List.length_drop]; omega), List.take_length, List.take_length]

end Walk

end SortedCollections
