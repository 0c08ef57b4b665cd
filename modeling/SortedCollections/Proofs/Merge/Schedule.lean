import SortedCollections.Merge.Trace
import SortedCollections.Proofs.Window

/-!
# What a merge is going to ask

The calls that a merge makes depend on its inputs alone, as long as every run that is handed over
is taken from the inputs before the call is answered with yes. They form a schedule, which may end
in a fault of a comparison. Running a merge is performing its schedule up to the first answer of no
and the first fault.

Nothing here assumes that the inputs are sorted or that comparisons make sense: a search ends inside
its window whatever it is told.
-/
namespace SortedCollections

variable {ε α κ σ : Type}

theorem get_bind_run {τ γ : Type} (second : σ → EStateM τ σ γ) (s : σ) :
    ((get : EStateM τ σ σ) >>= second) s = second s s := by
  rw [bind_run]
  rfl

theorem lift_bind_run {β γ : Type} (answer : Except (Fault ε) β)
    (second : β → EStateM (Fault ε) σ γ) (s : σ) :
    (Engine.lift answer >>= second) s =
      match answer with
      | .ok b => second b s
      | .error e => .error e s := by
  cases answer <;> rw [bind_run] <;> rfl

/-- Two steps succeed together exactly if both succeed. -/
theorem bind_run_eq_ok {τ β γ : Type} {first : EStateM τ σ β} {second : β → EStateM τ σ γ}
    {s s' : σ} {c : γ} :
    (first >>= second) s = .ok c s' ↔ ∃ b t, first s = .ok b t ∧ second b t = .ok c s' := by
  rw [bind_run]
  cases first s with
  | error e t =>
    constructor
    · intro h
      cases h
    · rintro ⟨_, _, h, _⟩
      cases h
  | ok b t =>
    constructor
    · exact fun h => ⟨b, t, rfl, h⟩
    · rintro ⟨_, _, same, h⟩
      cases same
      exact h

/-- One step and then another, if the first one answers yes, answer yes exactly if both do. -/
theorem both_run_eq_ok {τ : Type} {first second : EStateM τ σ Bool} {s s' : σ} :
    (do if ← first then second else return false) s = .ok true s' ↔
      ∃ t, first s = .ok true t ∧ second t = .ok true s' := by
  rw [bind_run_eq_ok]
  constructor
  · rintro ⟨more, t, h, h'⟩
    cases more with
    | true => exact ⟨t, h, h'⟩
    | false => cases h'
  · rintro ⟨t, h, h'⟩
    exact ⟨true, t, h, h'⟩

/-- Only the states that the first step leaves with an answer of yes matter to the second. -/
theorem both_run_congr {τ : Type} {first first' second second' : EStateM τ σ Bool} {s : σ}
    (same : first s = first' s) (rest : ∀ t, first' s = .ok true t → second t = second' t) :
    (do if ← first then second else return false) s =
      (do if ← first' then second' else return false) s := by
  rw [bind_run, bind_run, same]
  cases answer : first' s with
  | error e t => rfl
  | ok more t =>
    cases more with
    | true => exact rest t answer
    | false => rfl

namespace Call

/-- How many items of the left input a call hands over. -/
def onLeft : Call → Nat
  | .left n => n
  | .right _ => 0
  | .tie => 1

/-- How many items of the right input a call hands over. -/
def onRight : Call → Nat
  | .left _ => 0
  | .right n => n
  | .tie => 1

def isRight : Call → Bool
  | .right _ => true
  | _ => false

/-! The call for the middle item of a window hands over that item, and its twin if there is one. -/

theorem onLeft_middle (found : Bool) : (if found then tie else left 1).onLeft = 1 := by
  cases found <;> rfl

theorem onRight_middle (found : Bool) : (if found then tie else left 1).onRight = found.toNat := by
  cases found <;> rfl

theorem count_middle (found : Bool) : 0 < (if found then tie else left 1).count := by
  cases found <;> exact Nat.one_pos

/-- A call hands over something, and no more than `m` and `n` items. -/
structure Fits (call : Call) (m n : Nat) : Prop where
  positive : 0 < call.count
  left : call.onLeft ≤ m
  right : call.onRight ≤ n

end Call

/-- How many items of the left input the calls hand over together. -/
def leftTotal : List Call → Nat
  | [] => 0
  | call :: calls => call.onLeft + leftTotal calls

/-- How many items of the right input the calls hand over together. -/
def rightTotal : List Call → Nat
  | [] => 0
  | call :: calls => call.onRight + rightTotal calls

@[simp] theorem leftTotal_nil : leftTotal [] = 0 := rfl

@[simp] theorem rightTotal_nil : rightTotal [] = 0 := rfl

@[simp] theorem leftTotal_cons (call : Call) (calls : List Call) :
    leftTotal (call :: calls) = call.onLeft + leftTotal calls := rfl

@[simp] theorem rightTotal_cons (call : Call) (calls : List Call) :
    rightTotal (call :: calls) = call.onRight + rightTotal calls := rfl

@[simp] theorem leftTotal_append (calls later : List Call) :
    leftTotal (calls ++ later) = leftTotal calls + leftTotal later := by
  induction calls with
  | nil => simp
  | cons call calls ih => simp [ih, Nat.add_assoc]

@[simp] theorem rightTotal_append (calls later : List Call) :
    rightTotal (calls ++ later) = rightTotal calls + rightTotal later := by
  induction calls with
  | nil => simp
  | cons call calls ih => simp [ih, Nat.add_assoc]

/-- Makes calls one after the other, up to the first answer of no. -/
def performAll (handler : Handler ε σ) : List Call → EStateM (Fault ε) σ Bool
  | [] => pure true
  | call :: calls => do if ← handler call then performAll handler calls else return false

theorem performAll_append (handler : Handler ε σ) (calls later : List Call) :
    performAll handler (calls ++ later) =
      (do if ← performAll handler calls then performAll handler later else return false) := by
  induction calls with
  | nil => simp [performAll]
  | cons call calls ih =>
    simp only [List.cons_append, performAll, ih, bind_assoc]
    refine bind_congr fun more => ?_
    cases more <;> simp

/-- The calls of a merge, and the fault that comes behind them, if one does. -/
structure Schedule (ε : Type) where
  calls : List Call
  fault : Option (Fault ε)

namespace Schedule

def idle : Schedule ε := ⟨[], none⟩

def ofCall (call : Call) : Schedule ε := ⟨[call], none⟩

/-- What comes behind a fault is never reached. -/
def andThen (first second : Schedule ε) : Schedule ε :=
  match first.fault with
  | some _ => first
  | none => ⟨first.calls ++ second.calls, second.fault⟩

/-- Makes the calls of a schedule and then ends in its fault. -/
def perform (handler : Handler ε σ) (schedule : Schedule ε) : EStateM (Fault ε) σ Bool := do
  if ← performAll handler schedule.calls then
    match schedule.fault with
    | some e => throw e
    | none => return true
  else
    return false

theorem andThen_of_none {first : Schedule ε} (faultless : first.fault = none) (second : Schedule ε) :
    first.andThen second = ⟨first.calls ++ second.calls, second.fault⟩ := by
  rw [andThen, faultless]

theorem perform_idle (handler : Handler ε σ) : (idle : Schedule ε).perform handler = pure true := by
  simp [perform, idle, performAll]

theorem perform_ofCall (handler : Handler ε σ) (call : Call) :
    (ofCall call).perform handler = handler call := by
  conv => rhs; rw [← bind_pure (handler call)]
  simp only [perform, ofCall, performAll, bind_assoc]
  refine bind_congr fun more => ?_
  cases more <;> simp

theorem perform_andThen (handler : Handler ε σ) (first second : Schedule ε) :
    (first.andThen second).perform handler =
      (do if ← first.perform handler then second.perform handler else return false) := by
  obtain ⟨calls, fault⟩ := first
  cases fault with
  | some e =>
    simp only [andThen, perform, bind_assoc]
    refine bind_congr fun more => ?_
    cases more with
    | true => rfl
    | false => simp
  | none =>
    simp only [andThen, perform, performAll_append, bind_assoc]
    refine bind_congr fun more => ?_
    cases more <;> simp

end Schedule

/-- What a merge of two lists is going to ask. -/
def schedule (cmp : Comparison ε κ) (key : α → Except ε κ) (xs ys : List α) : Schedule ε :=
  if xs.length = 0 then
    if ys.length = 0 then .idle else .ofCall (.right ys.length)
  else if ys.length = 0 then
    .ofCall (.left xs.length)
  else
    match Engine.locate cmp key ⟨xs, ys, 0, 0⟩ (xs.length / 2) ys.length with
    | .error e => ⟨[], some e⟩
    | .ok (place, found) =>
      ((schedule cmp key (xs.take (xs.length / 2)) (ys.take place)).andThen
        (.ofCall (if found then .tie else .left 1))).andThen
        (schedule cmp key (xs.drop (xs.length / 2 + 1)) (ys.drop (place + found.toNat)))
termination_by xs.length
decreasing_by
  · rw [List.length_take]; omega
  · rw [List.length_drop]; omega

namespace Engine

theorem locate_bounds {cmp : Comparison ε κ} {key : α → Except ε κ} {inputs : Inputs α}
    {half n place : Nat} {found : Bool}
    (located : locate cmp key inputs half n = .ok (place, found)) :
    place + found.toNat ≤ n := by
  obtain ⟨x, _, located⟩ := bind_eq_ok.mp located
  obtain ⟨value, _, located⟩ := bind_eq_ok.mp located
  obtain ⟨⟨i, hit⟩, search, located⟩ := bind_eq_ok.mp located
  obtain ⟨j, searched, search⟩ := bind_eq_ok.mp search
  have bounds := bisect_bounds (Nat.le_add_right _ _) searched
  cases located
  split at search
  · cases search
    simp only [Bool.toNat_false]
    omega
  · obtain ⟨_, _, search⟩ := bind_eq_ok.mp search
    cases search
    have atMost := Bool.toNat_le found
    omega

end Engine

/-- A schedule hands over no more than there is, something with each call, and everything unless
it ends in a fault. -/
structure Schedule.Covers (schedule : Schedule ε) (m n : Nat) : Prop where
  positive : ∀ call ∈ schedule.calls, 0 < call.count
  left : leftTotal schedule.calls ≤ m
  right : rightTotal schedule.calls ≤ n
  whole : schedule.fault = none → leftTotal schedule.calls = m ∧ rightTotal schedule.calls = n

/-- A call among others hands over something, and no more than the others leave. -/
theorem Schedule.Covers.around {plan : Schedule ε} {m n : Nat} (covers : plan.Covers m n)
    {front back : List Call} {call : Call} (calls : plan.calls = front ++ call :: back) :
    0 < call.count ∧ leftTotal front + call.onLeft ≤ m ∧ rightTotal front + call.onRight ≤ n := by
  have left := covers.left
  have right := covers.right
  rw [calls, leftTotal_append, leftTotal_cons] at left
  rw [calls, rightTotal_append, rightTotal_cons] at right
  exact ⟨covers.positive call (by simp [calls]), by omega, by omega⟩

theorem Schedule.Covers.andThen {first second : Schedule ε} {m n m' n' : Nat}
    (h : first.Covers m n) (h' : second.Covers m' n') :
    (first.andThen second).Covers (m + m') (n + n') := by
  obtain ⟨calls, fault⟩ := first
  cases fault with
  | some e =>
    exact ⟨h.positive, Nat.le_add_right_of_le h.left, Nat.le_add_right_of_le h.right,
      fun none => by cases none⟩
  | none =>
    refine ⟨?_, ?_, ?_, ?_⟩
    · intro call mem
      rcases List.mem_append.mp mem with mem | mem
      · exact h.positive call mem
      · exact h'.positive call mem
    · simp only [Schedule.andThen, leftTotal_append]
      exact Nat.add_le_add h.left h'.left
    · simp only [Schedule.andThen, rightTotal_append]
      exact Nat.add_le_add h.right h'.right
    · intro none
      simp only [Schedule.andThen, leftTotal_append, rightTotal_append] at none ⊢
      have all : leftTotal calls = m ∧ rightTotal calls = n := h.whole rfl
      have rest := h'.whole none
      omega

theorem Schedule.covers_ofCall {call : Call} (positive : 0 < call.count) :
    (Schedule.ofCall call : Schedule ε).Covers call.onLeft call.onRight :=
  ⟨by simpa [ofCall] using positive, by simp [ofCall], by simp [ofCall], by simp [ofCall]⟩

theorem schedule_covers (cmp : Comparison ε κ) (key : α → Except ε κ) (xs ys : List α) :
    (schedule cmp key xs ys).Covers xs.length ys.length := by
  fun_induction schedule cmp key xs ys with
  | case1 xs ys noLeft noRight => exact ⟨by simp [Schedule.idle], by simp [Schedule.idle],
      by simp [Schedule.idle], by simp [Schedule.idle, noLeft, noRight]⟩
  | case2 xs ys noLeft someRight =>
    rw [noLeft]
    have positive : 0 < (Call.right ys.length).count := Nat.pos_of_ne_zero someRight
    exact Schedule.covers_ofCall positive
  | case3 xs ys someLeft noRight =>
    rw [noRight]
    have positive : 0 < (Call.left xs.length).count := Nat.pos_of_ne_zero someLeft
    exact Schedule.covers_ofCall positive
  | case4 xs ys someLeft someRight e located =>
    exact ⟨by simp, Nat.zero_le _, Nat.zero_le _, by simp⟩
  | case5 xs ys someLeft someRight place found located first second =>
    have bounds := Engine.locate_bounds located
    have covers := (first.andThen (Schedule.covers_ofCall (Call.count_middle found))).andThen second
    rw [Call.onLeft_middle, Call.onRight_middle] at covers
    have left : (xs.take (xs.length / 2)).length + 1 + (xs.drop (xs.length / 2 + 1)).length =
        xs.length := by
      rw [List.length_take, List.length_drop]
      omega
    have right : (ys.take place).length + found.toNat +
        (ys.drop (place + found.toNat)).length = ys.length := by
      rw [List.length_take, List.length_drop]
      omega
    rw [left, right] at covers
    exact covers

/-- What the items of two lists fail with if they are searched for each other. -/
structure FailsOnly (causes : ε → Prop) (cmp : Comparison ε κ) (key : α → Except ε κ)
    (xs ys : List α) : Prop where
  keys : ∀ x ∈ xs, ∀ cause, key x = .error cause → causes cause
  asked : ∀ x ∈ xs, ∀ value, key x = .ok value → ∀ y ∈ ys, ∀ cause,
    keyBelow cmp key value y = .error cause ∨ keyAbove cmp key value y = .error cause → causes cause

section Faults

variable {causes : ε → Prop} {cmp : Comparison ε κ} {key : α → Except ε κ} {xs ys : List α}

theorem FailsOnly.sublist (fails : FailsOnly causes cmp key xs ys) {xs' ys' : List α}
    (subX : xs'.Sublist xs) (subY : ys'.Sublist ys) : FailsOnly causes cmp key xs' ys' where
  keys x mem := fails.keys x (subX.subset mem)
  asked x mem value keyed y memY := fails.asked x (subX.subset mem) value keyed y (subY.subset memY)

theorem Engine.locate_onlyRaises (fails : FailsOnly causes cmp key xs ys) {half : Nat}
    (inside : half < xs.length) :
    OnlyRaises causes (Engine.locate cmp key ⟨xs, ys, 0, 0⟩ half ys.length) := by
  have item : 0 + half < xs.length := by omega
  have window : 0 ≤ 0 + ys.length := Nat.zero_le _
  have whole : 0 + ys.length ≤ ys.length := by omega
  refine (OnlyRaises.itemAt item).bind fun x read => ?_
  have mem : x ∈ xs := List.mem_of_getElem? (itemAt_eq_ok.mp read)
  refine (OnlyRaises.lift fun cause => fails.keys x mem cause).bind fun value keyed => ?_
  refine (OnlyRaises.findIn window whole ?_).bind fun found _ => OnlyRaises.ok _
  exact fails.asked x mem value (Fault.lift_eq_ok.mp keyed)

/-- A schedule ends in a fault only if a key or a comparison fails. -/
theorem schedule_onlyRaises (fails : FailsOnly causes cmp key xs ys) :
    ∀ e, (schedule cmp key xs ys).fault = some e → ∃ cause, e = .raised cause ∧ causes cause := by
  fun_induction schedule cmp key xs ys with
  | case1 xs ys noLeft noRight => exact fun e fault => by cases fault
  | case2 xs ys noLeft someRight => exact fun e fault => by cases fault
  | case3 xs ys someLeft noRight => exact fun e fault => by cases fault
  | case4 xs ys someLeft someRight e located =>
    intro e' fault
    cases fault
    exact Engine.locate_onlyRaises fails (by omega) e located
  | case5 xs ys someLeft someRight place found located first second =>
    intro e fault
    cases faultless : (schedule cmp key (xs.take (xs.length / 2)) (ys.take place)).fault with
    | some e' =>
      simp only [Schedule.andThen, faultless] at fault
      exact first (fails.sublist (List.take_sublist ..) (List.take_sublist ..)) e
        (by rw [faultless, fault])
    | none =>
      rw [Schedule.andThen_of_none faultless, Schedule.andThen_of_none rfl] at fault
      exact second (fails.sublist (List.drop_sublist ..) (List.drop_sublist ..)) e fault

theorem schedule_raised (cmp : Comparison ε κ) (key : α → Except ε κ) (xs ys : List α) :
    ∀ e, (schedule cmp key xs ys).fault = some e → e.Raised := by
  intro e fault
  have fails : FailsOnly (fun _ => True) cmp key xs ys :=
    ⟨fun _ _ _ _ => trivial, fun _ _ _ _ _ _ _ _ => trivial⟩
  obtain ⟨cause, raised, _⟩ := schedule_onlyRaises fails e fault
  exact ⟨cause, raised⟩

end Faults

end SortedCollections
