import SortedCollections.Proofs.Merge.Library

/-!
# Merges of arbitrary lists

Whatever the two lists are and whatever comparisons answer, a merge under a policy of this library
never leaves its inputs or its buffer: it fails only as a client has failed. Each call asks for
something that is there, and unless the merge is stopped every item of either list is handed over
once, in the order of the list.
-/
namespace SortedCollections

variable {ε α κ σ : Type} {view : σ → Inputs α} {a b : List α} {At : σ → Nat → Nat → Prop}

namespace Walk

variable {handler : Handler ε σ}

theorem performAll_holds (walk : Walk view handler a b At)
    (answers : ∀ {call s p q}, At s p q → call.Fits (a.length - p) (b.length - q) →
      Holds (fun _ _ => True) (handler call s))
    {calls : List Call} {s : σ} {p q : Nat} (start : At s p q)
    (positive : ∀ call ∈ calls, 0 < call.count) (left : p + leftTotal calls ≤ a.length)
    (right : q + rightTotal calls ≤ b.length) :
    Holds (fun _ _ => True) (performAll handler calls s) := by
  induction calls generalizing s p q with
  | nil => trivial
  | cons call calls ih =>
    rw [leftTotal_cons] at left
    rw [rightTotal_cons] at right
    have fits : call.Fits (a.length - p) (b.length - q) :=
      ⟨positive call (by simp), by omega, by omega⟩
    have answer := answers start fits
    rw [performAll, bind_run]
    cases made : handler call s with
    | error e t =>
      rw [made] at answer
      exact answer
    | ok more t =>
      cases more with
      | false => trivial
      | true =>
        have moved := walk.moves start fits made
        exact ih moved (fun c mem => positive c (by simp [mem])) (by omega) (by omega)

/-- A merge fails only as a comparison or a call fails. -/
theorem remainder_holds (walk : Walk view handler a b At)
    (answers : ∀ {call s p q}, At s p q → call.Fits (a.length - p) (b.length - q) →
      Holds (fun _ _ => True) (handler call s))
    (cmp : Comparison ε κ) (key : α → Except ε κ) {s : σ} {p q : Nat} (start : At s p q) :
    Holds (fun _ _ => True) (Engine.remainder cmp key (.ok <| view ·) handler s) := by
  have within := walk.within start
  have covers := schedule_covers cmp key (a.drop p) (b.drop q)
  rw [List.length_drop, List.length_drop] at covers
  have left := covers.left
  have right := covers.right
  have performed := walk.performAll_holds answers start covers.positive (by omega) (by omega)
  rw [walk.remainder_eq cmp key start]
  refine Holds.bind (Q := fun _ _ => True) (performed.bind fun more t _ => ?_) fun _ _ _ => trivial
  cases more with
  | false => trivial
  | true =>
    rw [if_pos rfl]
    cases fault : (schedule cmp key (a.drop p) (b.drop q)).fault with
    | none => trivial
    | some e => exact schedule_raised cmp key _ _ e fault

end Walk

/-- A merge that only clients make fail and that hands over both lists, with its record. -/
structure SafeMerge (a b : List α) (view : σ → Inputs α) (merged : EStateM.Result (Fault ε) σ Unit)
    (run : EStateM.Result (Fault ε) (Recorded σ α) Unit) : Prop where
  /-- The record is one of this merge. -/
  faithful : Agree (fun recorded s => recorded.state = s) run merged
  raised : ∀ e s, merged = .error e s → e.Raised
  /-- Each call asks for at least one item, and for no more than there are. -/
  asks : ∀ exchange ∈ (stateAfter run).log, 1 ≤ exchange.call.count ∧
    exchange.call.onLeft ≤ exchange.seen.left.length - exchange.seen.i ∧
    exchange.call.onRight ≤ exchange.seen.right.length - exchange.seen.j
  /-- What is handed over, one call after the other, is how either list begins. -/
  left : (stateAfter run).log.flatMap (fun exchange =>
    exchange.seen.unreadLeft.take exchange.call.onLeft) <+: a
  right : (stateAfter run).log.flatMap (fun exchange =>
    exchange.seen.unreadRight.take exchange.call.onRight) <+: b
  /-- Unless it was stopped or has failed, it has handed over all. -/
  ends : ∀ final, run = .ok () final →
    (∀ exchange ∈ final.log, exchange.answer = some true) →
    (view final.state).i = (view final.state).left.length ∧
      (view final.state).j = (view final.state).right.length ∧
      final.log.flatMap (fun exchange =>
        exchange.seen.unreadLeft.take exchange.call.onLeft) = a ∧
      final.log.flatMap (fun exchange =>
        exchange.seen.unreadRight.take exchange.call.onRight) = b

theorem Policy.Consumes.safe {policy : Policy ε α} {sink : Sink ε α σ}
    (consumes : policy.Consumes sink a b At)
    (within : ∀ {s p q}, At s p q → p ≤ a.length ∧ q ≤ b.length)
    (sees : ∀ {s p q}, At s p q → (view s).Shows a b p q)
    (atEnds : ∀ {s}, At s a.length b.length →
      (view s).i = (view s).left.length ∧ (view s).j = (view s).right.length)
    (cmp : Comparison ε κ) (key : α → Except ε κ) {s : σ} (start : At s 0 0) :
    SafeMerge a b view (Engine.remainder cmp key (.ok <| view ·) (policy.handler sink) s)
      (recordedRun cmp key view (policy.handler sink) s) := by
  have walk : Walk view (policy.handler sink) a b At := consumes.walk within sees
  have answers {call s p q} (start : At s p q) (fits : call.Fits (a.length - p) (b.length - q)) :
      Holds (fun _ _ => True) (policy.handler sink call s) :=
    (consumes.handler start (within start) fits).imp fun _ _ _ => trivial
  have held := walk.remainder_holds answers cmp key start
  obtain ⟨record, -, reached⟩ := walk.recordedRun_transcript cmp key walk.sees start
  have covers := schedule_covers cmp key (a.drop 0) (b.drop 0)
  rw [List.length_drop, List.length_drop] at covers
  have left := covers.left
  have right := covers.right
  have fits := record.fits (fun shown => shown) covers.positive (by omega) (by omega)
  have handedLeft := record.handed_left fun shown => shown.1
  have handedRight := record.handed_right fun shown => shown.2
  refine ⟨recordedRun_agree cmp key view (policy.handler sink) s, ?_, ?_, ?_, ?_, ?_⟩
  · intro e t failed
    rw [failed] at held
    exact held
  · intro exchange mem
    have ask := fits exchange mem
    have ofLeft := ask.left
    have ofRight := ask.right
    rw [Inputs.unreadLeft, List.length_drop] at ofLeft
    rw [Inputs.unreadRight, List.length_drop] at ofRight
    exact ⟨ask.positive, ofLeft, ofRight⟩
  · rw [handedLeft]
    exact List.take_prefix ..
  · rw [handedRight]
    exact List.take_prefix ..
  · intro final returned yes
    obtain ⟨faultless, atEnd⟩ := reached final returned yes
    have whole := covers.whole faultless
    have ends := atEnds atEnd
    rw [returned] at record handedLeft handedRight
    have all : final.log.map Exchange.call = _ := record.calls_eq yes
    refine ⟨ends.1, ends.2, handedLeft.trans ?_, handedRight.trans ?_⟩
    · show (a.drop 0).take (leftTotal (final.log.map Exchange.call)) = a
      rw [all, whole.1]
      exact List.take_length
    · show (b.drop 0).take (rightTotal (final.log.map Exchange.call)) = b
      rw [all, whole.2]
      exact List.take_length

theorem Inputs.At.ends {now : Inputs α} (place : now.At a b a.length b.length) :
    now.i = now.left.length ∧ now.j = now.right.length := by
  rw [place.shown]
  exact ⟨rfl, rfl⟩

theorem Inputs.at_start (a b : List α) : (⟨a, b, 0, 0⟩ : Inputs α).At a b 0 0 :=
  ⟨rfl, Nat.zero_le _, Nat.zero_le _⟩

namespace InPlaceMerge.At

variable {t : InPlaceMerge α} {p q : Nat}

theorem shows (place : t.At a b p q) : t.inputs.Shows a b p q := by
  obtain ⟨s, mirrors, place⟩ := place
  rw [Inputs.Shows, ← mirrors.shown.1, ← mirrors.shown.2]
  exact place.shows

theorem ends (place : t.At a b a.length b.length) :
    t.inputs.i = t.inputs.left.length ∧ t.inputs.j = t.inputs.right.length := by
  obtain ⟨s, mirrors, place⟩ := place
  obtain ⟨gap, buffer⟩ := mirrors.buffer
  have none : s.unreadLeft = [] := place.shows.1.trans List.drop_length
  have right := place.ends.2
  rw [none] at buffer
  constructor
  · simp only [inputs, buffer, GapBuffer.ofRegions, List.append_nil, Int.toNat_natCast,
      List.length_append]
  · rw [inputs, mirrors.right, mirrors.cursor]
    exact right

theorem start (a b : List α) : (InPlaceMerge.start a b).At a b 0 0 :=
  ⟨.start a b, Mirrors.start a b, Inputs.at_start a b⟩

end InPlaceMerge.At

/-- Whatever the lists and the comparison are, every policy of this library merges safely into a new
list and in place, and every rule on sets does so against a probe. -/
theorem library_merges_safe [Inhabited α] (cmp : Comparison ε κ) (key : α → Except ε κ)
    (a b : List α) :
    (∀ policy : Policy ε α, policy.Library →
      SafeMerge a b ListMerge.toInputs
          ((⟨key, policy⟩ : Operation ε α κ).run cmp ListMerge.sink (.start a b))
          (recordedRun cmp key ListMerge.toInputs (policy.handler ListMerge.sink) (.start a b)) ∧
        SafeMerge a b InPlaceMerge.inputs
          ((⟨key, policy⟩ : Operation ε α κ).run cmp InPlaceMerge.sink (.start a b))
          (recordedRun cmp key InPlaceMerge.inputs (policy.handler InPlaceMerge.sink)
            (.start a b))) ∧
      ∀ rule : SetRule,
        SafeMerge a b Probe.toInputs
          ((⟨key, .ofRule rule⟩ : Operation ε α κ).run cmp Probe.sink (.start a b))
          (recordedRun cmp key Probe.toInputs ((Policy.ofRule rule).handler Probe.sink)
            (.start a b)) := by
  refine ⟨fun policy library => ⟨?_, ?_⟩, fun rule => ?_⟩
  · have serves : (ListMerge.sink : Sink ε α (ListMerge α)).Serves a b _ := ListMerge.serves a b
    exact (library.consumes serves).safe serves.within Inputs.At.shows Inputs.At.ends cmp key
      (Inputs.at_start a b)
  · have serves : (InPlaceMerge.sink : Sink ε α (InPlaceMerge α)).Serves a b _ :=
      InPlaceMerge.serves a b
    exact (library.consumes serves).safe serves.within InPlaceMerge.At.shows InPlaceMerge.At.ends
      cmp key (InPlaceMerge.At.start a b)
  · have advances : (Probe.sink : Sink ε α (Probe α)).Advances a b _ := Probe.advances a b
    exact (Policy.ofRule_consumes rule advances).safe advances.within Inputs.At.shows
      Inputs.At.ends cmp key (Inputs.at_start a b)

/-- Lists out of order, under a comparison that finds each of any two items less than the other. -/
theorem union_of_unsorted_safe :
    let cmp : Comparison Unit Nat := ⟨fun _ _ => .ok true, fun _ _ => .ok false⟩
    let op : Operation Unit Nat Nat := ⟨.ok, .ofRule .union⟩
    SafeMerge [2, 1] [1, 1] InPlaceMerge.inputs
      (op.run cmp InPlaceMerge.sink (.start [2, 1] [1, 1]))
      (recordedRun cmp .ok InPlaceMerge.inputs (op.policy.handler InPlaceMerge.sink)
        (.start [2, 1] [1, 1])) :=
  ((library_merges_safe _ _ [2, 1] [1, 1]).1 (.ofRule .union) (.rule .union)).2

end SortedCollections
