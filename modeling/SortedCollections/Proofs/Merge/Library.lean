import SortedCollections.Proofs.Merge.InPlace
import SortedCollections.Proofs.Merge.Record

/-!
# The policies of this library consume what they are given

A target serves a merge if each step that asks for no more than there is moves its cursor by as much
and hands out the items it stands before. Against such a target a policy of this library either
consumes exactly the run that it is given, stops the merge, or ends in a fault that a client has
raised.
-/
namespace SortedCollections

variable {ε α κ ν σ τ β γ : Type}

/-- A step ends in a result and a state for which `Q` holds, or in a fault that a client has
raised. -/
def Holds (Q : β → σ → Prop) : EStateM.Result (Fault ε) σ β → Prop
  | .ok result s => Q result s
  | .error e _ => e.Raised

namespace Holds

theorem imp {Q Q' : β → σ → Prop} {answer : EStateM.Result (Fault ε) σ β} (holds : Holds Q answer)
    (weaker : ∀ result s, Q result s → Q' result s) : Holds Q' answer := by
  cases answer with
  | ok result s => exact weaker result s holds
  | error e s => exact holds

theorem bind {Q : β → σ → Prop} {Q' : γ → σ → Prop} {first : EStateM (Fault ε) σ β}
    {second : β → EStateM (Fault ε) σ γ} {s : σ} (holds : Holds Q (first s))
    (rest : ∀ result s, Q result s → Holds Q' (second result s)) :
    Holds Q' ((first >>= second) s) := by
  rw [bind_run]
  cases answer : first s with
  | ok result t =>
    rw [answer] at holds
    exact rest result t holds
  | error e t =>
    rw [answer] at holds
    exact holds

end Holds

/-- Moving past items moves the cursors, unless the target stops the merge. -/
structure Sink.Advances (sink : Sink ε α σ) (a b : List α) (At : σ → Nat → Nat → Prop) : Prop where
  within : ∀ {s p q}, At s p q → p ≤ a.length ∧ q ≤ b.length
  advanceLeft : ∀ {s p q n} take, At s p q → p + n ≤ a.length →
    Holds (fun more s' => more = true → At s' (p + n) q) (sink.advanceLeft n take s)
  advanceRight : ∀ {s p q n} take, At s p q → q + n ≤ b.length →
    Holds (fun more s' => more = true → At s' p (q + n)) (sink.advanceRight n take s)

/-- Besides, items are handed out, and new ones taken. -/
structure Sink.Serves (sink : Sink ε α σ) (a b : List α) (At : σ → Nat → Nat → Prop) : Prop
    extends sink.Advances a b At where
  takeLeft : ∀ {s p q n}, At s p q → p + n ≤ a.length →
    Holds (fun items s' => items = (a.drop p).take n ∧ At s' (p + n) q) (sink.takeLeft n s)
  takeRight : ∀ {s p q n}, At s p q → q + n ≤ b.length →
    Holds (fun items s' => items = (b.drop q).take n ∧ At s' p (q + n)) (sink.takeRight n s)
  push : ∀ {s p q} item, At s p q → Holds (fun _ s' => At s' p q) (sink.push item s)

/-- The cursors stand at `p` and `q`. -/
structure Inputs.At (a b : List α) (now : Inputs α) (p q : Nat) : Prop where
  shown : now = ⟨a, b, p, q⟩
  left : p ≤ a.length
  right : q ≤ b.length

theorem Inputs.At.shows {a b : List α} {now : Inputs α} {p q : Nat} (place : now.At a b p q) :
    now.Shows a b p q := by
  rw [place.shown]
  exact ⟨rfl, rfl⟩

theorem stretch_of_le {items : List α} {cursor n : Nat} (room : cursor + n ≤ items.length) :
    (stretch items cursor n : Except (Fault ε) (List α)) = .ok ((items.drop cursor).take n) := by
  rw [stretch, if_pos room]

theorem ListMerge.serves (a b : List α) :
    (ListMerge.sink : Sink ε α (ListMerge α)).Serves a b fun s => s.toInputs.At a b where
  within place := ⟨place.left, place.right⟩
  advanceLeft {s p q n} take place room := by
    obtain ⟨⟨left, right, i, j⟩, result⟩ := s
    cases place.shown
    simp only [ListMerge.sink, ListMerge.advanceLeft, stretch_of_le room]
    exact fun _ => ⟨rfl, room, place.right⟩
  advanceRight {s p q n} take place room := by
    obtain ⟨⟨left, right, i, j⟩, result⟩ := s
    cases place.shown
    simp only [ListMerge.sink, ListMerge.advanceRight, stretch_of_le room]
    exact fun _ => ⟨rfl, place.left, room⟩
  takeLeft {s p q n} place room := by
    obtain ⟨⟨left, right, i, j⟩, result⟩ := s
    cases place.shown
    simp only [ListMerge.sink, ListMerge.takeLeft, stretch_of_le room]
    exact ⟨rfl, rfl, room, place.right⟩
  takeRight {s p q n} place room := by
    obtain ⟨⟨left, right, i, j⟩, result⟩ := s
    cases place.shown
    simp only [ListMerge.sink, ListMerge.takeRight, stretch_of_le room]
    exact ⟨rfl, rfl, place.left, room⟩
  push item place := place

theorem Probe.advances (a b : List α) :
    (Probe.sink : Sink ε α (Probe α)).Advances a b fun s => s.toInputs.At a b where
  within place := ⟨place.left, place.right⟩
  advanceLeft {s p q n} take place room := by
    obtain ⟨⟨left, right, i, j⟩, result⟩ := s
    cases place.shown
    cases take with
    | true => exact fun more => by cases more
    | false =>
      simp only [Probe.sink, Probe.advanceLeft, if_pos room]
      exact fun _ => ⟨rfl, room, place.right⟩
  advanceRight {s p q n} take place room := by
    obtain ⟨⟨left, right, i, j⟩, result⟩ := s
    cases place.shown
    cases take with
    | true => exact fun more => by cases more
    | false =>
      simp only [Probe.sink, Probe.advanceRight, if_pos room]
      exact fun _ => ⟨rfl, place.left, room⟩

/-- What holds of a step holds of one that agrees with it. -/
theorem Holds.agree {R : σ → τ → Prop} {Q : β → σ → Prop} {answer : EStateM.Result (Fault ε) σ β}
    {answer' : EStateM.Result (Fault ε) τ β} (holds : Holds Q answer) (agree : Agree R answer answer') :
    Holds (fun result t => ∃ s, R s t ∧ Q result s) answer' := by
  cases agree with
  | ok related => exact ⟨_, related, holds⟩
  | error related => exact holds

/-- A target that takes every step as one that serves does serves, too. -/
theorem Sink.Serves.transfer {R : σ → τ → Prop} {sink : Sink ε α σ} {sink' : Sink ε α τ} {a b : List α}
    {At : σ → Nat → Nat → Prop} (serves : sink.Serves a b At) (agrees : sink.Agrees R sink') :
    sink'.Serves a b fun t p q => ∃ s, R s t ∧ At s p q where
  within := by
    rintro t p q ⟨_, _, place⟩
    exact serves.within place
  advanceLeft := by
    rintro t p q n take ⟨s, related, place⟩ room
    refine ((serves.advanceLeft take place room).agree (agrees.advanceLeft n take related)).imp ?_
    rintro more t ⟨s, related, moved⟩ yes
    exact ⟨s, related, moved yes⟩
  advanceRight := by
    rintro t p q n take ⟨s, related, place⟩ room
    refine ((serves.advanceRight take place room).agree (agrees.advanceRight n take related)).imp ?_
    rintro more t ⟨s, related, moved⟩ yes
    exact ⟨s, related, moved yes⟩
  takeLeft := by
    rintro t p q n ⟨s, related, place⟩ room
    refine ((serves.takeLeft place room).agree (agrees.takeLeft n related)).imp ?_
    rintro items t ⟨s, related, same, moved⟩
    exact ⟨same, s, related, moved⟩
  takeRight := by
    rintro t p q n ⟨s, related, place⟩ room
    refine ((serves.takeRight place room).agree (agrees.takeRight n related)).imp ?_
    rintro items t ⟨s, related, same, moved⟩
    exact ⟨same, s, related, moved⟩
  push := by
    rintro t p q item ⟨s, related, place⟩
    exact (serves.push item place).agree (agrees.push item related)

/-- A merge in place stands where the merge into a new list that it mirrors stands. -/
def InPlaceMerge.At (a b : List α) (t : InPlaceMerge α) (p q : Nat) : Prop :=
  ∃ s, Mirrors a s t ∧ s.toInputs.At a b p q

theorem InPlaceMerge.serves [Inhabited α] (a b : List α) :
    (InPlaceMerge.sink : Sink ε α (InPlaceMerge α)).Serves a b (InPlaceMerge.At a b) :=
  (ListMerge.serves a b).transfer (Mirrors.agrees a)

namespace Script

variable (sink : Sink ε α σ)

theorem run_ofAnswer (step : EStateM (Fault ε) σ β) :
    (do let answer ← attempt step; (ofAnswer answer : Script ε α β).run sink) = step := by
  funext s
  rw [bind_run, attempt]
  cases step s <;> rfl

theorem run_left (n : Nat) (take : Bool) : (left n take).run sink = sink.advanceLeft n take :=
  run_ofAnswer sink _

theorem run_right (n : Nat) (take : Bool) : (right n take).run sink = sink.advanceRight n take :=
  run_ofAnswer sink _

theorem run_leftItems (n : Nat) : (leftItems n).run sink = sink.takeLeft n := run_ofAnswer sink _

theorem run_rightItems (n : Nat) : (rightItems n).run sink = sink.takeRight n := run_ofAnswer sink _

theorem run_emit (item : α) : (emit item).run sink = sink.push item := run_ofAnswer sink _

variable {sink}

/-- One script after another. -/
theorem bind_holds {Q : β → σ → Prop} {Q' : γ → σ → Prop} {first : Script ε α β}
    {second : β → Script ε α γ} {s : σ} (holds : Holds Q (first.run sink s))
    (rest : ∀ result s, Q result s → Holds Q' ((second result).run sink s)) :
    Holds Q' ((first >>= second).run sink s) := by
  show Holds Q' ((first.bind second).run sink s)
  rw [run_bind]
  exact holds.bind rest

/-- Asking a client changes nothing. -/
theorem ask_bind_holds {Q : γ → σ → Prop} (answer : Except ε β) {second : β → Script ε α γ} {s : σ}
    (rest : ∀ result, Holds Q ((second result).run sink s)) :
    Holds Q ((ask answer >>= second).run sink s) := by
  cases answer with
  | ok result => exact rest result
  | error cause => exact ⟨cause, rfl⟩

/-- What each round keeps holds at the end. -/
theorem each_holds {Q : σ → Prop} {body : β → Script ε α Unit} {items : List β} {s : σ} (start : Q s)
    (round : ∀ item s, Q s → Holds (fun _ t => Q t) ((body item).run sink s)) :
    Holds (fun _ t => Q t) ((each items body).run sink s) := by
  induction items generalizing s with
  | nil => exact start
  | cons item items ih => exact bind_holds (round item s start) fun _ t kept => ih kept

end Script

namespace Policy

variable {sink : Sink ε α σ} {a b : List α} {At : σ → Nat → Nat → Prop} {s : σ} {p q : Nat}

theorem andThen_holds {Q Q' : σ → Prop} {first second : Script ε α Bool}
    (holds : Holds (fun more s => more = true → Q s) (first.run sink s))
    (rest : ∀ s, Q s → Holds (fun more s => more = true → Q' s) (second.run sink s)) :
    Holds (fun more s => more = true → Q' s) ((andThen first second).run sink s) := by
  refine Script.bind_holds holds fun more t moved => ?_
  cases more with
  | true => exact rest t (moved rfl)
  | false => exact fun more => by cases more

/-- The items that a target hands out for a tie are a single one. -/
theorem single_stretch {items : List α} {cursor : Nat} (room : cursor + 1 ≤ items.length) :
    ∃ item, (single ((items.drop cursor).take 1) : Script ε α α) = .done item := by
  have inside : cursor < items.length := room
  rw [List.drop_eq_getElem_cons inside]
  exact ⟨items[cursor], rfl⟩

theorem tiedPairs_holds (serves : sink.Serves a b At) (view : PairView ε α κ ν) (start : At s p q)
    (left : p + 1 ≤ a.length) (right : q + 1 ≤ b.length) :
    Holds (fun _ t => At t (p + 1) (q + 1)) ((tiedPairs view).run sink s) := by
  rw [tiedPairs]
  refine Script.bind_holds (Script.run_leftItems sink 1 ▸ serves.takeLeft start left) ?_
  rintro _ t ⟨rfl, moved⟩
  obtain ⟨item, one⟩ := single_stretch (ε := ε) left
  rw [one]
  refine Script.ask_bind_holds (view.read item) fun leftPair => ?_
  refine Script.bind_holds (Script.run_rightItems sink 1 ▸ serves.takeRight moved right) ?_
  rintro _ t ⟨rfl, moved⟩
  obtain ⟨item, one⟩ := single_stretch (ε := ε) right
  rw [one]
  exact Script.ask_bind_holds (view.read item) fun rightPair => moved

theorem combineTie_holds (serves : sink.Serves a b At) (view : PairView ε α κ ν)
    (combine : ν → ν → Except ε ν) (start : At s p q) (left : p + 1 ≤ a.length)
    (right : q + 1 ≤ b.length) :
    Holds (fun _ t => At t (p + 1) (q + 1)) ((combineTie view combine).run sink s) := by
  refine Script.bind_holds (tiedPairs_holds serves view start left right) ?_
  rintro ⟨⟨key, value⟩, _, value'⟩ t moved
  refine Script.ask_bind_holds (combine value value') fun result => ?_
  refine Script.bind_holds (Script.run_emit sink _ ▸ serves.push (view.write key result) moved) ?_
  exact fun _ _ moved => moved

theorem emitIfAny_holds (serves : sink.Serves a b At) (view : PairView ε α κ ν) (key : κ)
    (value : Option ν) (start : At s p q) :
    Holds (fun _ t => At t p q) ((emitIfAny view key value).run sink s) := by
  cases value with
  | none => exact start
  | some value => exact Script.run_emit sink _ ▸ serves.push (view.write key value) start

theorem joinTie_holds (serves : sink.Serves a b At) (view : PairView ε α κ ν)
    (f : JoinFunction ε κ ν) (start : At s p q) (left : p + 1 ≤ a.length)
    (right : q + 1 ≤ b.length) :
    Holds (fun _ t => At t (p + 1) (q + 1)) ((joinTie view f).run sink s) := by
  refine Script.bind_holds (tiedPairs_holds serves view start left right) ?_
  rintro ⟨⟨key, value⟩, _, value'⟩ t moved
  refine Script.ask_bind_holds (f key (some value) (some value')) fun result => ?_
  exact Script.bind_holds (emitIfAny_holds serves view key result moved) fun _ _ moved => moved

/-- A run of which every item is joined on its own. -/
theorem joinEach_holds (serves : sink.Serves a b At) (view : PairView ε α κ ν)
    (f : κ → ν → Except ε (Option ν)) (items : List α) (start : At s p q) :
    Holds (fun _ t => At t p q)
      ((Script.each items fun item => do
        let (key, value) ← Script.ask (view.read item)
        emitIfAny view key (← Script.ask (f key value))).run sink s) := by
  refine Script.each_holds start fun item s start => ?_
  refine Script.ask_bind_holds (view.read item) ?_
  rintro ⟨key, value⟩
  refine Script.ask_bind_holds (f key value) fun result => ?_
  exact emitIfAny_holds serves view key result start

theorem joinLeft_holds (serves : sink.Serves a b At) (view : PairView ε α κ ν)
    (f : JoinFunction ε κ ν) {n : Nat} (start : At s p q) (left : p + n ≤ a.length) :
    Holds (fun _ t => At t (p + n) q) ((joinLeft view f n).run sink s) := by
  refine Script.bind_holds (Script.run_leftItems sink n ▸ serves.takeLeft start left) ?_
  rintro items t ⟨_, moved⟩
  have joined := joinEach_holds serves view (fun key value => f key (some value) none) items moved
  exact Script.bind_holds joined fun _ _ moved => moved

theorem joinRight_holds (serves : sink.Serves a b At) (view : PairView ε α κ ν)
    (f : JoinFunction ε κ ν) {n : Nat} (start : At s p q) (right : q + n ≤ b.length) :
    Holds (fun _ t => At t p (q + n)) ((joinRight view f n).run sink s) := by
  refine Script.bind_holds (Script.run_rightItems sink n ▸ serves.takeRight start right) ?_
  rintro items t ⟨_, moved⟩
  have joined := joinEach_holds serves view (fun key value => f key none (some value)) items moved
  exact Script.bind_holds joined fun _ _ moved => moved

/-- The policies that this library offers. -/
inductive Library : Policy ε α → Prop where
  | rule (rule : SetRule) : Library (.ofRule rule)
  | combineUnion {κ ν : Type} (view : PairView ε α κ ν) (combine : ν → ν → Except ε ν) :
      Library (.combineUnion view combine)
  | combineIntersection {κ ν : Type} (view : PairView ε α κ ν) (combine : ν → ν → Except ε ν) :
      Library (.combineIntersection view combine)
  | join {κ ν : Type} (kind : Join) (view : PairView ε α κ ν) (f : JoinFunction ε κ ν) :
      Library (.join kind view f)
  | pointwise {κ ν : Type} (view : PairView ε α κ ν) (p : Pointwise ε ν) :
      Library (.pointwise view p)

/-- Each call is answered by consuming exactly what it asks for, or by stopping the merge, or with a
fault that a client has raised. -/
structure Consumes (policy : Policy ε α) (sink : Sink ε α σ) (a b : List α)
    (At : σ → Nat → Nat → Prop) : Prop where
  onLeft : ∀ {s p q n}, At s p q → p + n ≤ a.length →
    Holds (fun more t => more = true → At t (p + n) q) ((policy.onLeft n).run sink s)
  onRight : ∀ {s p q n}, At s p q → q + n ≤ b.length →
    Holds (fun more t => more = true → At t p (q + n)) ((policy.onRight n).run sink s)
  onTie : ∀ {s p q}, At s p q → p + 1 ≤ a.length → q + 1 ≤ b.length →
    Holds (fun more t => more = true → At t (p + 1) (q + 1)) (policy.onTie.run sink s)

theorem Consumes.handler {policy : Policy ε α} (consumes : policy.Consumes sink a b At) {call : Call}
    (start : At s p q) (within : p ≤ a.length ∧ q ≤ b.length)
    (fits : call.Fits (a.length - p) (b.length - q)) :
    Holds (fun more t => more = true → At t (p + call.onLeft) (q + call.onRight))
      (policy.handler sink call s) := by
  cases call with
  | left n =>
    have asked : n ≤ a.length - p := fits.left
    have room : p + n ≤ a.length := by omega
    exact consumes.onLeft start room
  | right n =>
    have asked : n ≤ b.length - q := fits.right
    have room : q + n ≤ b.length := by omega
    exact consumes.onRight start room
  | tie =>
    have asked : 1 ≤ a.length - p ∧ 1 ≤ b.length - q := ⟨fits.left, fits.right⟩
    exact consumes.onTie start (by omega) (by omega)

theorem left_holds (advances : sink.Advances a b At) (take : Bool) {n : Nat} (start : At s p q)
    (room : p + n ≤ a.length) :
    Holds (fun more t => more = true → At t (p + n) q) ((Script.left n take).run sink s) := by
  rw [Script.run_left]
  exact advances.advanceLeft take start room

theorem right_holds (advances : sink.Advances a b At) (take : Bool) {n : Nat} (start : At s p q)
    (room : q + n ≤ b.length) :
    Holds (fun more t => more = true → At t p (q + n)) ((Script.right n take).run sink s) := by
  rw [Script.run_right]
  exact advances.advanceRight take start room

theorem ofRule_consumes (rule : SetRule) (advances : sink.Advances a b At) :
    (ofRule rule).Consumes sink a b At where
  onLeft start room := left_holds advances _ start room
  onRight start room := right_holds advances _ start room
  onTie {_ p q} start left right :=
    andThen_holds (Q := fun t => At t (p + 1) q) (left_holds advances _ start left) fun _ moved =>
      right_holds advances _ moved right

theorem join_consumes (serves : sink.Serves a b At) (kind : Join) (view : PairView ε α κ ν)
    (f : JoinFunction ε κ ν) : (join kind view f).Consumes sink a b At where
  onLeft {s p q n} start room := by
    cases covers : kind.coversLeft with
    | true =>
      simp only [join, covers, if_true]
      exact (joinLeft_holds serves view f start room).imp fun _ _ moved _ => moved
    | false =>
      simp only [join, covers, Bool.false_eq_true, if_false]
      exact left_holds serves.toAdvances _ start room
  onRight {s p q n} start room := by
    cases covers : kind.coversRight with
    | true =>
      simp only [join, covers, if_true]
      exact (joinRight_holds serves view f start room).imp fun _ _ moved _ => moved
    | false =>
      simp only [join, covers, Bool.false_eq_true, if_false]
      exact right_holds serves.toAdvances _ start room
  onTie start left right :=
    (joinTie_holds serves view f start left right).imp fun _ _ moved _ => moved

theorem Library.consumes {policy : Policy ε α} (library : policy.Library)
    (serves : sink.Serves a b At) : policy.Consumes sink a b At := by
  cases library with
  | rule rule => exact ofRule_consumes rule serves.toAdvances
  | combineUnion view combine =>
    exact ⟨left_holds serves.toAdvances _, right_holds serves.toAdvances _, fun start left right =>
      (combineTie_holds serves view combine start left right).imp fun _ _ moved _ => moved⟩
  | combineIntersection view combine =>
    exact ⟨left_holds serves.toAdvances _, right_holds serves.toAdvances _, fun start left right =>
      (combineTie_holds serves view combine start left right).imp fun _ _ moved _ => moved⟩
  | join kind view f => exact join_consumes serves kind view f
  | pointwise view p => exact join_consumes serves .outer view _

/-- A policy that consumes what it is given walks through both lists. -/
theorem Consumes.walk {policy : Policy ε α} {view : σ → Inputs α}
    (consumes : policy.Consumes sink a b At)
    (within : ∀ {s p q}, At s p q → p ≤ a.length ∧ q ≤ b.length)
    (sees : ∀ {s p q}, At s p q → (view s).Shows a b p q) :
    Walk view (policy.handler sink) a b At where
  within := within
  sees := sees
  moves {s s' p q call} start fits answer := by
    have holds := consumes.handler start (within start) fits
    rw [answer] at holds
    exact holds rfl

end Policy

end SortedCollections
