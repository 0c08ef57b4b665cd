import Mathlib.Data.List.Chain
import SortedCollections.Proofs.Merge.Linear
import SortedCollections.Proofs.Merge.Safety

/-!
# The bisecting merge refines the walk with two cursors

Whatever is done with the runs, the calls of a merge of two strictly increasing lists are those of
the walk that compares head with head, taken together to runs. The right list comes in few runs,
since something of the left list lies between any two of them.
-/
namespace SortedCollections

variable {ε α κ σ : Type}

/-- Not both calls are runs of the right input. -/
def Call.Apart (call later : Call) : Prop := call.isRight = true → later.isRight = false

theorem isRight_middle (found : Bool) : (if found then Call.tie else .left 1).isRight = false := by
  cases found <;> rfl

/-- Runs of the right list stay apart if a call for an item of the left list is put between. -/
theorem isChain_through {calls later : List Call} {middle : Call} (front : calls.IsChain Call.Apart)
    (back : later.IsChain Call.Apart) (left : middle.isRight = false) :
    (calls ++ [middle] ++ later).IsChain Call.Apart := by
  have joined : (calls ++ [middle]).IsChain Call.Apart := by
    refine front.append (List.isChain_singleton middle) ?_
    intro call _ next mem
    cases mem
    exact fun _ => left
  refine joined.append back ?_
  intro call mem next _ right
  rw [List.getLast?_concat] at mem
  cases mem
  rw [left] at right
  cases right

/-- The calls of a schedule around a middle one. -/
theorem Schedule.calls_around (first second : Schedule ε) (middle : Call) :
    ((first.andThen (.ofCall middle)).andThen second).calls = first.calls ∨
      ((first.andThen (.ofCall middle)).andThen second).calls =
        first.calls ++ [middle] ++ second.calls := by
  cases faultless : first.fault with
  | some e => exact .inl (by simp only [andThen, faultless])
  | none =>
    rw [andThen_of_none faultless, andThen_of_none rfl]
    exact .inr rfl

theorem schedule_apart (cmp : Comparison ε κ) (key : α → Except ε κ) (xs ys : List α) :
    (schedule cmp key xs ys).calls.IsChain Call.Apart := by
  fun_induction schedule cmp key xs ys with
  | case1 xs ys noLeft noRight => exact List.isChain_nil
  | case2 xs ys noLeft someRight => exact List.isChain_singleton _
  | case3 xs ys someLeft noRight => exact List.isChain_singleton _
  | case4 xs ys someLeft someRight e located => exact List.isChain_nil
  | case5 xs ys someLeft someRight place found located first second =>
    rcases Schedule.calls_around (schedule cmp key (xs.take (xs.length / 2)) (ys.take place))
      (schedule cmp key (xs.drop (xs.length / 2 + 1)) (ys.drop (place + found.toNat)))
      (if found then .tie else .left 1) with calls | calls
    · rw [calls]
      exact first
    · rw [calls]
      exact isChain_through first second (isRight_middle found)

/-- Between two runs of the right list there is an item of the left one. -/
theorem schedule_rightRuns (cmp : Comparison ε κ) (key : α → Except ε κ) (xs ys : List α) :
    (schedule cmp key xs ys).calls.countP Call.isRight ≤
      leftTotal (schedule cmp key xs ys).calls + 1 := by
  fun_induction schedule cmp key xs ys with
  | case1 xs ys noLeft noRight => exact Nat.zero_le _
  | case2 xs ys noLeft someRight => exact Nat.le_refl 1
  | case3 xs ys someLeft noRight => exact Nat.zero_le _
  | case4 xs ys someLeft someRight e located => exact Nat.zero_le _
  | case5 xs ys someLeft someRight place found located first second =>
    rcases Schedule.calls_around (schedule cmp key (xs.take (xs.length / 2)) (ys.take place))
      (schedule cmp key (xs.drop (xs.length / 2 + 1)) (ys.drop (place + found.toNat)))
      (if found then .tie else .left 1) with calls | calls
    · rw [calls]
      exact first
    · rw [calls]
      simp only [List.countP_append, List.countP_singleton, isRight_middle, leftTotal_append,
        leftTotal_cons, leftTotal_nil, Call.onLeft_middle]
      simp only [Bool.false_eq_true, if_false]
      omega

/-- The single steps of a call as it was made, with positions read off the inputs before it. -/
def Exchange.steps (place : Inputs α → Nat × Nat) (exchange : Exchange α) : List TracedCall :=
  exchange.call.steps (place exchange.seen).1 (place exchange.seen).2

theorem Transcript.steps_eq {shown : Inputs α → Nat → Nat → Prop} {place : Inputs α → Nat × Nat}
    {p q : Nat} {calls : List Call} {log : List (Exchange α)}
    (record : Transcript shown p q calls log)
    (places : ∀ {seen p q}, shown seen p q → place seen = (p, q)) :
    log.flatMap (Exchange.steps place) = unroll p q (log.map Exchange.call) := by
  induction record with
  | done => rfl
  | last now stop =>
    rw [List.flatMap_cons, Exchange.steps, places now]
    rfl
  | next now rest ih =>
    rw [List.flatMap_cons, Exchange.steps, places now, ih]
    rfl

/-- A merge whose calls, taken apart, are the steps of a walk, with its record. -/
structure RefinesWalk (place : Inputs α → Nat × Nat) (walk : List TracedCall) (a : List α)
    (merged : EStateM.Result (Fault ε) σ Unit)
    (run : EStateM.Result (Fault ε) (Recorded σ α) Unit) : Prop where
  /-- The record is one of this merge. -/
  faithful : Agree (fun recorded s => recorded.state = s) run merged
  /-- The merge returns, unless one of its calls has failed. -/
  returns : (∀ exchange ∈ (stateAfter run).log, exchange.answer ≠ none) →
    ∃ final, run = .ok () final
  /-- The single steps are the first ones of the walk. -/
  steps : (stateAfter run).log.flatMap (Exchange.steps place) <+: walk
  /-- They are all of them, unless a call was answered with no or has failed. -/
  whole : (∀ exchange ∈ (stateAfter run).log, exchange.answer = some true) →
    (stateAfter run).log.flatMap (Exchange.steps place) = walk
  /-- Such a call is the last one. -/
  answered : ∀ exchange ∈ (stateAfter run).log.dropLast, exchange.answer = some true
  positive : ∀ exchange ∈ (stateAfter run).log, 1 ≤ exchange.call.count
  apart : (stateAfter run).log.IsChain fun exchange later => exchange.call.Apart later.call
  rightRuns : (stateAfter run).log.countP (fun exchange => exchange.call.isRight) ≤ a.length + 1

variable {cmp : Comparison ε κ} {key : α → Except ε κ} {P : κ → Prop} {a b : List α}

theorem Walk.refines {view : σ → Inputs α} {handler : Handler ε σ} {At : σ → Nat → Nat → Prop}
    {shown : Inputs α → Nat → Nat → Prop} {place : Inputs α → Nat × Nat}
    (walk : Walk view handler a b At) (shows : ∀ {s p q}, At s p q → shown (view s) p q)
    (places : ∀ {seen p q}, shown seen p q → place seen = (p, q)) (ordered : cmp.OrderedOn P)
    (insideA : ∀ x ∈ a, Comparison.KeyIn key P x) (insideB : ∀ y ∈ b, Comparison.KeyIn key P y)
    (increasingA : Increasing (cmp.on key).less a) (increasingB : Increasing (cmp.on key).less b)
    {s : σ} (start : At s 0 0) :
    RefinesWalk place (linear (cmp.on key).less 0 0 a b) a
      (Engine.remainder cmp key (.ok <| view ·) handler s) (recordedRun cmp key view handler s) := by
  obtain ⟨record, returns, -⟩ := walk.recordedRun_transcript cmp key shows start
  rw [List.drop_zero, List.drop_zero] at record returns
  have covers := schedule_covers cmp key a b
  obtain ⟨faultless, unrolled⟩ :=
    schedule_linear ordered 0 0 insideA insideB increasingA increasingB
  have steps := record.steps_eq places
  refine ⟨recordedRun_agree cmp key view handler s, returns faultless, ?_, ?_, record.answered, ?_,
    ?_, ?_⟩
  · rw [steps, ← unrolled]
    exact unroll_beginning 0 0 record.calls_made
  · intro yes
    rw [steps, ← unrolled, record.calls_eq yes]
  · intro exchange mem
    exact covers.positive _ (record.calls_made.subset (List.mem_map_of_mem mem))
  · have apart := List.IsChain.prefix (schedule_apart cmp key a b) record.calls_made
    exact (List.isChain_map Exchange.call).mp apart
  · have few := schedule_rightRuns cmp key a b
    have made : (List.map Exchange.call _).countP Call.isRight ≤ _ :=
      record.calls_made.sublist.countP_le
    have total := covers.left
    rw [List.countP_map] at made
    exact (made.trans few).trans (by omega)

/-- Before it answers a call with yes, a handler has moved the inputs on as `moved` says. This is asked
only of calls for what is there and of states that are `valid`, and such it leaves behind. -/
def KeepsPace (view : σ → Inputs α) (moved : Call → Inputs α → Inputs α → Prop) (valid : σ → Prop)
    (handler : Handler ε σ) : Prop :=
  ∀ {call s s'}, valid s →
    call.Fits (view s).unreadLeft.length (view s).unreadRight.length →
    handler call s = .ok true s' → valid s' ∧ moved call (view s) (view s')

/-- Both cursors have moved past the run, and the lists are what they were. -/
def Call.MovesCursors (call : Call) (now later : Inputs α) : Prop :=
  later = { now with i := now.i + call.onLeft, j := now.j + call.onRight }

/-- The run is no longer among the items to come on the left, and on the right the cursor has moved
past it. -/
def Call.MovesItems (call : Call) (now later : Inputs α) : Prop :=
  later.unreadLeft = now.unreadLeft.drop call.onLeft ∧ later.right = now.right ∧
    later.j = now.j + call.onRight

/-- The items to come are those from `p` and `q` on, and the right cursor stands at `q`. -/
structure Inputs.ShowsFrom (a b : List α) (now : Inputs α) (p q : Nat) : Prop where
  unread : now.unreadLeft = a.drop p
  right : now.right = b
  cursor : now.j = q
  within : p ≤ a.length ∧ q ≤ b.length

theorem Inputs.ShowsFrom.shows {now : Inputs α} {p q : Nat} (from' : now.ShowsFrom a b p q) :
    now.Shows a b p q := by
  refine ⟨from'.unread, ?_⟩
  rw [Inputs.unreadRight, from'.right, from'.cursor]

theorem KeepsPace.walk_cursors {view : σ → Inputs α} {valid : σ → Prop} {handler : Handler ε σ}
    (keeps : KeepsPace view Call.MovesCursors valid handler) :
    Walk view handler a b fun s p q => valid s ∧ (view s).At a b p q where
  within start := ⟨start.2.left, start.2.right⟩
  sees start := start.2.shows
  moves {s s' p q call} start fits answer := by
    obtain ⟨isValid, place⟩ := start
    have shows := place.shows
    have same : call.Fits (view s).unreadLeft.length (view s).unreadRight.length := by
      rw [shows.1, shows.2, List.length_drop, List.length_drop]
      exact fits
    obtain ⟨isValid', moved⟩ := keeps isValid same answer
    have left := fits.left
    have right := fits.right
    have within := And.intro place.left place.right
    refine ⟨isValid', ?_, by omega, by omega⟩
    rw [moved, place.shown]

theorem KeepsPace.walk_items {view : σ → Inputs α} {valid : σ → Prop} {handler : Handler ε σ}
    (keeps : KeepsPace view Call.MovesItems valid handler) :
    Walk view handler a b fun s p q => valid s ∧ (view s).ShowsFrom a b p q where
  within start := start.2.within
  sees start := start.2.shows
  moves {s s' p q call} start fits answer := by
    obtain ⟨isValid, place⟩ := start
    have shows := place.shows
    have same : call.Fits (view s).unreadLeft.length (view s).unreadRight.length := by
      rw [shows.1, shows.2, List.length_drop, List.length_drop]
      exact fits
    obtain ⟨isValid', unread, right, cursor⟩ := keeps isValid same answer
    have left := fits.left
    have asked := fits.right
    have within := place.within
    refine ⟨isValid', ?_, right.trans place.right, cursor.trans ?_, by omega⟩
    · rw [unread, place.unread, List.drop_drop]
    · rw [place.cursor]

/-! The policies of this library keep pace in every state that a merge of `a` and `b` gets to. -/

theorem Policy.Consumes.keepsPace_cursors {policy : Policy ε α} {sink : Sink ε α σ}
    {view : σ → Inputs α} (consumes : policy.Consumes sink a b fun s => (view s).At a b) :
    KeepsPace view Call.MovesCursors (fun s => ∃ p q, (view s).At a b p q) (policy.handler sink) := by
  rintro call s s' ⟨p, q, place⟩ fits answer
  rw [place.shows.1, place.shows.2, List.length_drop, List.length_drop] at fits
  have holds := consumes.handler place ⟨place.left, place.right⟩ fits
  rw [answer] at holds
  have moved : (view s').At a b (p + call.onLeft) (q + call.onRight) := holds rfl
  refine ⟨⟨_, _, moved⟩, ?_⟩
  rw [Call.MovesCursors, moved.shown, place.shown]

theorem InPlaceMerge.At.showsFrom {t : InPlaceMerge α} {p q : Nat} (place : t.At a b p q) :
    t.inputs.ShowsFrom a b p q := by
  have unread := place.shows.1
  obtain ⟨s, mirrors, place⟩ := place
  have shown := place.shown
  refine ⟨unread, ?_, ?_, place.left, place.right⟩
  · exact mirrors.right.trans (congrArg Inputs.right shown)
  · exact mirrors.cursor.trans (congrArg Inputs.j shown)

theorem Policy.Consumes.keepsPace_items [Inhabited α] {policy : Policy ε α}
    (consumes : policy.Consumes InPlaceMerge.sink a b (InPlaceMerge.At a b)) :
    KeepsPace InPlaceMerge.inputs Call.MovesItems (fun t => ∃ p q, t.At a b p q)
      (policy.handler InPlaceMerge.sink) := by
  rintro call t t' ⟨p, q, place⟩ fits answer
  have now := place.showsFrom
  rw [now.shows.1, now.shows.2, List.length_drop, List.length_drop] at fits
  have holds := consumes.handler place now.within fits
  rw [answer] at holds
  have moved : t'.At a b (p + call.onLeft) (q + call.onRight) := holds rfl
  have later := moved.showsFrom
  refine ⟨⟨_, _, moved⟩, ?_, later.right.trans now.right.symm, ?_⟩
  · rw [later.unread, now.unread, List.drop_drop]
  · rw [later.cursor, now.cursor]

/-- The positions by the cursors of a state. -/
def Inputs.cursors (now : Inputs α) : Nat × Nat := (now.i, now.j)

/-- The positions by what has been handed over of a left list of length `m`, and by the right
cursor. -/
def Inputs.handedOver (m : Nat) (now : Inputs α) : Nat × Nat := (m - now.unreadLeft.length, now.j)

/-- The calls of a merge of two strictly increasing lists are the steps of the linear walk, whatever
the handler does with the runs besides consuming them, for each of the three targets, which may be
part of a larger state. The left cursor of a merge in place skips the gaps that are opened before it;
it is counted by what has been handed over. -/
theorem bisecting_merge_refines_linear [Inhabited α] (ordered : cmp.OrderedOn P)
    (insideA : ∀ x ∈ a, Comparison.KeyIn key P x) (insideB : ∀ y ∈ b, Comparison.KeyIn key P y)
    (increasingA : Increasing (cmp.on key).less a) (increasingB : Increasing (cmp.on key).less b) :
    (∀ (σ : Type) (target : σ → ListMerge α) (valid : σ → Prop) (handler : Handler ε σ) (s : σ),
      KeepsPace (fun s => (target s).toInputs) Call.MovesCursors valid handler → valid s →
      target s = .start a b →
      RefinesWalk Inputs.cursors (linear (cmp.on key).less 0 0 a b) a
        (Engine.remainder cmp key (fun s => ListMerge.sink.inputs (target s)) handler s)
        (recordedRun cmp key (fun s => (target s).toInputs) handler s)) ∧
    (∀ (σ : Type) (target : σ → InPlaceMerge α) (valid : σ → Prop) (handler : Handler ε σ) (s : σ),
      KeepsPace (fun s => (target s).inputs) Call.MovesItems valid handler → valid s →
      target s = .start a b →
      RefinesWalk (Inputs.handedOver a.length) (linear (cmp.on key).less 0 0 a b) a
        (Engine.remainder cmp key (fun s => InPlaceMerge.sink.inputs (target s)) handler s)
        (recordedRun cmp key (fun s => (target s).inputs) handler s)) ∧
    (∀ (σ : Type) (target : σ → Probe α) (valid : σ → Prop) (handler : Handler ε σ) (s : σ),
      KeepsPace (fun s => (target s).toInputs) Call.MovesCursors valid handler → valid s →
      target s = .start a b →
      RefinesWalk Inputs.cursors (linear (cmp.on key).less 0 0 a b) a
        (Engine.remainder cmp key (fun s => Probe.sink.inputs (target s)) handler s)
        (recordedRun cmp key (fun s => (target s).toInputs) handler s)) := by
  have byCursors {now : Inputs α} {p q : Nat} (place : now.At a b p q) : now.cursors = (p, q) := by
    rw [place.shown]
    rfl
  have byItems {now : Inputs α} {p q : Nat} (place : now.ShowsFrom a b p q) :
      now.handedOver a.length = (p, q) := by
    have within := place.within
    rw [Inputs.handedOver, place.unread, place.cursor, List.length_drop, Nat.sub_sub_self within.1]
  refine ⟨?_, ?_, ?_⟩
  · intro σ target valid handler s keeps isValid fresh
    refine keeps.walk_cursors.refines And.right byCursors ordered insideA insideB increasingA
      increasingB ⟨isValid, ?_⟩
    rw [fresh]
    exact Inputs.at_start a b
  · intro σ target valid handler s keeps isValid fresh
    refine keeps.walk_items.refines And.right byItems ordered insideA insideB increasingA
      increasingB ⟨isValid, ?_⟩
    rw [fresh]
    exact ⟨rfl, rfl, rfl, Nat.zero_le _, Nat.zero_le _⟩
  · intro σ target valid handler s keeps isValid fresh
    refine keeps.walk_cursors.refines And.right byCursors ordered insideA insideB increasingA
      increasingB ⟨isValid, ?_⟩
    rw [fresh]
    exact Inputs.at_start a b

theorem union_refines_linear :
    let less := (Comparison.on (Comparison.natural : Comparison Unit Nat) Except.ok).less
    let op : Operation Unit Nat Nat := SetRule.union.operation
    RefinesWalk Inputs.cursors (linear less 0 0 [1, 3] [0, 3, 4]) [1, 3]
        (op.run .natural ListMerge.sink (.start [1, 3] [0, 3, 4]))
        (recordedRun .natural .ok ListMerge.toInputs (op.policy.handler ListMerge.sink)
          (.start [1, 3] [0, 3, 4])) ∧
      RefinesWalk (Inputs.handedOver 2) (linear less 0 0 [1, 3] [0, 3, 4]) [1, 3]
        (op.run .natural InPlaceMerge.sink (.start [1, 3] [0, 3, 4]))
        (recordedRun .natural .ok InPlaceMerge.inputs (op.policy.handler InPlaceMerge.sink)
          (.start [1, 3] [0, 3, 4])) ∧
      RefinesWalk Inputs.cursors (linear less 0 0 [1, 3] [0, 3, 4]) [1, 3]
        (op.run .natural Probe.sink (.start [1, 3] [0, 3, 4]))
        (recordedRun .natural .ok Probe.toInputs (op.policy.handler Probe.sink)
          (.start [1, 3] [0, 3, 4])) := by
  intro less op
  have inside (xs : List Nat) : ∀ x ∈ xs, Comparison.KeyIn (ε := Unit) .ok (fun _ => True) x :=
    fun x _ => ⟨x, rfl, trivial⟩
  obtain ⟨list, inPlace, probe⟩ := bisecting_merge_refines_linear Comparison.natural_ordered
    (inside [1, 3]) (inside [0, 3, 4]) (by decide : Increasing less _) (by decide : Increasing less _)
  refine ⟨?_, ?_, ?_⟩
  · exact list _ id _ _ (.start [1, 3] [0, 3, 4])
      (Policy.ofRule_consumes .union (ListMerge.serves _ _).toAdvances).keepsPace_cursors
      ⟨0, 0, Inputs.at_start _ _⟩ rfl
  · exact inPlace _ id _ _ (.start [1, 3] [0, 3, 4])
      (Policy.ofRule_consumes .union (InPlaceMerge.serves _ _).toAdvances).keepsPace_items
      ⟨0, 0, InPlaceMerge.At.start _ _⟩ rfl
  · exact probe _ id _ _ (.start [1, 3] [0, 3, 4])
      (Policy.ofRule_consumes .union (Probe.advances _ _)).keepsPace_cursors
      ⟨0, 0, Inputs.at_start _ _⟩ rfl

/-- By its own left cursor a merge in place leaves the walk. Before `0` is written in front of `1`, a
gap is opened, and the cursor moves with the unread items. -/
theorem in_place_cursor_leaves_walk :
    ¬ RefinesWalk Inputs.cursors
      (linear (Comparison.on (Comparison.natural : Comparison Unit Nat) Except.ok).less 0 0 [1] [0]) [1]
      ((SetRule.union.operation : Operation Unit Nat Nat).run .natural InPlaceMerge.sink
        (.start [1] [0]))
      (recordedRun .natural .ok InPlaceMerge.inputs
        ((SetRule.union.operation : Operation Unit Nat Nat).policy.handler InPlaceMerge.sink)
        (.start [1] [0])) := by
  intro refines
  have steps := refines.whole (by decide +kernel)
  revert steps
  decide +kernel

end SortedCollections
