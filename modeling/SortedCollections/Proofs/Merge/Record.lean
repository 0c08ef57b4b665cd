import SortedCollections.Proofs.Merge.Simulation

/-!
# The record of a merge

A merge is watched by noting each call with the inputs as they stand before it and with its answer.
The record of a merge follows its schedule: the calls come in the order of the schedule, each when
those before it have been answered with yes, and the first that is not answered with yes is the
last.
-/
namespace SortedCollections

variable {ε α κ σ τ β : Type}

/-- The state that a step leaves behind, whether it ends in a fault or not. -/
def stateAfter : EStateM.Result τ σ β → σ
  | .ok _ s => s
  | .error _ s => s

/-- A call as it was made. -/
structure Exchange (α : Type) where
  call : Call
  /-- The inputs before the call. -/
  seen : Inputs α
  /-- The answer; there is none if the call has ended in a fault. -/
  answer : Option Bool

/-- A state together with the calls made so far. -/
structure Recorded (σ α : Type) where
  state : σ
  log : List (Exchange α)

/-- Passes each call on and notes it. -/
def Recorded.handler (view : σ → Inputs α) (handler : Handler ε σ) : Handler ε (Recorded σ α) :=
  fun call s =>
    match handler call s.state with
    | .ok more state => .ok more ⟨state, s.log ++ [⟨call, view s.state, some more⟩]⟩
    | .error e state => .error e ⟨state, s.log ++ [⟨call, view s.state, none⟩]⟩

/-- A merge whose calls are recorded. -/
def recordedRun (cmp : Comparison ε κ) (key : α → Except ε κ) (view : σ → Inputs α)
    (handler : Handler ε σ) (s : σ) : EStateM.Result (Fault ε) (Recorded σ α) Unit :=
  Engine.remainder cmp key (.ok <| view <| Recorded.state ·) (Recorded.handler view handler) ⟨s, []⟩

/-- Recording changes nothing about a merge. -/
theorem recordedRun_agree (cmp : Comparison ε κ) (key : α → Except ε κ) (view : σ → Inputs α)
    (handler : Handler ε σ) (s : σ) :
    Agree (fun recorded s => recorded.state = s) (recordedRun cmp key view handler s)
      (Engine.remainder cmp key (.ok <| view ·) handler s) := by
  refine Engine.remainder_forget cmp key view Recorded.state (fun call recorded => ?_) ⟨s, []⟩
  rw [Recorded.handler]
  cases handler call recorded.state with
  | ok more t => exact .ok rfl
  | error e t => exact .error rfl

/-- A record that follows the calls of a schedule from the positions `p` and `q` on, while the inputs
are `shown` as they should be at each position. -/
inductive Transcript (shown : Inputs α → Nat → Nat → Prop) :
    Nat → Nat → List Call → List (Exchange α) → Prop where
  | done {p q : Nat} : Transcript shown p q [] []
  /-- A call that was not answered with yes is the last one. -/
  | last {p q : Nat} {call : Call} {calls : List Call} {seen : Inputs α} {answer : Option Bool}
      (now : shown seen p q) (stop : answer ≠ some true) :
      Transcript shown p q (call :: calls) [⟨call, seen, answer⟩]
  | next {p q : Nat} {call : Call} {calls : List Call} {seen : Inputs α} {log : List (Exchange α)}
      (now : shown seen p q)
      (rest : Transcript shown (p + call.onLeft) (q + call.onRight) calls log) :
      Transcript shown p q (call :: calls) (⟨call, seen, some true⟩ :: log)

namespace Transcript

variable {shown : Inputs α → Nat → Nat → Prop} {p q : Nat} {calls : List Call}
  {log : List (Exchange α)}

theorem calls_made (record : Transcript shown p q calls log) :
    log.map Exchange.call <+: calls := by
  induction record with
  | done => exact List.prefix_rfl
  | last now stop => exact ⟨_, rfl⟩
  | next now rest ih => exact List.cons_prefix_cons.mpr ⟨rfl, ih⟩

/-- If every call was answered with yes, all of them were made. -/
theorem calls_eq (record : Transcript shown p q calls log)
    (yes : ∀ exchange ∈ log, exchange.answer = some true) : log.map Exchange.call = calls := by
  induction record with
  | done => rfl
  | last now stop => exact absurd (yes _ (List.mem_singleton_self _)) stop
  | next now rest ih => rw [List.map_cons, ih fun exchange mem => yes exchange (.tail _ mem)]

/-- No call follows one that was not answered with yes. -/
theorem answered (record : Transcript shown p q calls log) :
    ∀ exchange ∈ log.dropLast, exchange.answer = some true := by
  induction record with
  | done => simp
  | last now stop => simp
  | @next p q call calls seen log now rest ih =>
    intro exchange mem
    cases log with
    | nil => simp at mem
    | cons first log =>
      rw [List.dropLast_cons_cons, List.mem_cons] at mem
      rcases mem with rfl | mem
      · rfl
      · exact ih exchange mem

/-- Each call asks for something and for no more than there is. -/
theorem fits {a b : List α} (record : Transcript shown p q calls log)
    (shows : ∀ {seen p q}, shown seen p q → seen.Shows a b p q)
    (positive : ∀ call ∈ calls, 0 < call.count) (left : p + leftTotal calls ≤ a.length)
    (right : q + rightTotal calls ≤ b.length) :
    ∀ exchange ∈ log,
      exchange.call.Fits exchange.seen.unreadLeft.length exchange.seen.unreadRight.length := by
  induction record with
  | done => simp
  | last now stop =>
    intro exchange mem
    obtain rfl := List.mem_singleton.mp mem
    rw [leftTotal_cons] at left
    rw [rightTotal_cons] at right
    rw [(shows now).1, (shows now).2, List.length_drop, List.length_drop]
    exact ⟨positive _ (by simp), by dsimp only; omega, by dsimp only; omega⟩
  | next now rest ih =>
    rw [leftTotal_cons] at left
    rw [rightTotal_cons] at right
    intro exchange mem
    rcases List.mem_cons.mp mem with rfl | mem
    · rw [(shows now).1, (shows now).2, List.length_drop, List.length_drop]
      exact ⟨positive _ (by simp), by dsimp only; omega, by dsimp only; omega⟩
    · exact ih (fun call made => positive call (by simp [made])) (by omega) (by omega) exchange mem

/-- What the calls hand over on the left, one after the other, is the list from `p` on. -/
theorem handed_left {a : List α} (record : Transcript shown p q calls log)
    (shows : ∀ {seen p q}, shown seen p q → seen.unreadLeft = a.drop p) :
    log.flatMap (fun exchange => exchange.seen.unreadLeft.take exchange.call.onLeft) =
      (a.drop p).take (leftTotal (log.map Exchange.call)) := by
  induction record with
  | done => rfl
  | last now stop => simp [shows now]
  | next now rest ih =>
    rw [List.flatMap_cons, ih, shows now, List.map_cons, leftTotal_cons, List.take_add,
      List.drop_drop]

theorem handed_right {b : List α} (record : Transcript shown p q calls log)
    (shows : ∀ {seen p q}, shown seen p q → seen.unreadRight = b.drop q) :
    log.flatMap (fun exchange => exchange.seen.unreadRight.take exchange.call.onRight) =
      (b.drop q).take (rightTotal (log.map Exchange.call)) := by
  induction record with
  | done => rfl
  | last now stop => simp [shows now]
  | next now rest ih =>
    rw [List.flatMap_cons, ih, shows now, List.map_cons, rightTotal_cons, List.take_add,
      List.drop_drop]

end Transcript

namespace Walk

variable {view : σ → Inputs α} {handler : Handler ε σ} {a b : List α} {At : σ → Nat → Nat → Prop}

/-- Recording does not disturb a walk. -/
theorem recorded (walk : Walk view handler a b At) :
    Walk (view <| Recorded.state ·) (Recorded.handler view handler) a b
      (fun s p q => At s.state p q) where
  within start := walk.within start
  sees start := walk.sees start
  moves {s s' p q call} start fits answer := by
    rw [Recorded.handler] at answer
    cases moved : handler call s.state with
    | error e t =>
      rw [moved] at answer
      cases answer
    | ok more t =>
      rw [moved] at answer
      cases answer
      exact walk.moves start fits moved

theorem performAll_transcript (walk : Walk view handler a b At)
    {shown : Inputs α → Nat → Nat → Prop} (shows : ∀ {s p q}, At s p q → shown (view s) p q)
    {calls : List Call} {s : Recorded σ α} {p q : Nat} (start : At s.state p q)
    (positive : ∀ call ∈ calls, 0 < call.count) (left : p + leftTotal calls ≤ a.length)
    (right : q + rightTotal calls ≤ b.length) :
    ∃ log, (stateAfter (performAll (Recorded.handler view handler) calls s)).log = s.log ++ log ∧
      Transcript shown p q calls log ∧
      ((∀ exchange ∈ log, exchange.answer ≠ none) →
        ∃ more final, performAll (Recorded.handler view handler) calls s = .ok more final ∧
          ((∀ exchange ∈ log, exchange.answer = some true) → more = true)) := by
  induction calls generalizing s p q with
  | nil => exact ⟨[], (List.append_nil _).symm, .done, fun _ => ⟨true, s, rfl, fun _ => rfl⟩⟩
  | cons call calls ih =>
    rw [leftTotal_cons] at left
    rw [rightTotal_cons] at right
    have fits : call.Fits (a.length - p) (b.length - q) :=
      ⟨positive call (by simp), by omega, by omega⟩
    have now := shows start
    rw [performAll, bind_run, Recorded.handler]
    cases answer : handler call s.state with
    | error e t =>
      refine ⟨_, rfl, .last now (by simp), fun answers => ?_⟩
      exact absurd rfl (answers _ (List.mem_singleton_self _))
    | ok more t =>
      cases more with
      | false =>
        refine ⟨_, rfl, .last now (by simp), fun _ => ⟨false, _, rfl, fun yes => ?_⟩⟩
        exact absurd (yes _ (List.mem_singleton_self _)) (by simp)
      | true =>
        obtain ⟨log, later, record, whole⟩ := ih (s := ⟨t, s.log ++ [⟨call, view s.state, some true⟩]⟩)
          (walk.moves start fits answer) (fun c mem => positive c (by simp [mem])) (by omega) (by omega)
        refine ⟨⟨call, view s.state, some true⟩ :: log, ?_, .next now record, ?_⟩
        · rw [← List.append_cons] at later
          exact later
        · intro answers
          obtain ⟨more, final, done, all⟩ := whole fun exchange mem => answers exchange (.tail _ mem)
          exact ⟨more, final, done, fun yes => all fun exchange mem => yes exchange (.tail _ mem)⟩

/-- The record of a merge follows its schedule. The merge returns if the schedule has no fault and
every call was answered, and if every call was answered with yes, both inputs are at their ends. -/
theorem recordedRun_transcript (walk : Walk view handler a b At) (cmp : Comparison ε κ)
    (key : α → Except ε κ) {shown : Inputs α → Nat → Nat → Prop}
    (shows : ∀ {s p q}, At s p q → shown (view s) p q) {s : σ} {p q : Nat} (start : At s p q) :
    Transcript shown p q (schedule cmp key (a.drop p) (b.drop q)).calls
        (stateAfter (recordedRun cmp key view handler s)).log ∧
      ((schedule cmp key (a.drop p) (b.drop q)).fault = none →
        (∀ exchange ∈ (stateAfter (recordedRun cmp key view handler s)).log,
          exchange.answer ≠ none) →
        ∃ final, recordedRun cmp key view handler s = .ok () final) ∧
      ∀ final, recordedRun cmp key view handler s = .ok () final →
        (∀ exchange ∈ final.log, exchange.answer = some true) →
        (schedule cmp key (a.drop p) (b.drop q)).fault = none ∧
          At final.state a.length b.length := by
  have within := walk.within start
  have covers := schedule_covers cmp key (a.drop p) (b.drop q)
  rw [List.length_drop, List.length_drop] at covers
  have left := covers.left
  have right := covers.right
  obtain ⟨log, made, record, whole⟩ := walk.performAll_transcript shows (s := ⟨s, []⟩) start
    covers.positive (by omega) (by omega)
  rw [List.nil_append] at made
  rw [recordedRun, walk.recorded.remainder_eq cmp key start, bind_run, Schedule.perform, bind_run]
  cases performed : performAll (Recorded.handler view handler)
      (schedule cmp key (a.drop p) (b.drop q)).calls ⟨s, []⟩ with
  | error e t =>
    rw [performed] at made whole
    have same : t.log = log := made
    subst same
    refine ⟨record, fun _ answers => ?_, fun final returned => by cases returned⟩
    obtain ⟨_, _, answer, _⟩ := whole answers
    cases answer
  | ok more t =>
    rw [performed] at made whole
    have same : t.log = log := made
    subst same
    cases more with
    | false =>
      refine ⟨record, fun _ _ => ⟨t, rfl⟩, fun final returned yes => ?_⟩
      cases returned
      have answers : ∀ exchange ∈ t.log, exchange.answer ≠ none := by
        intro exchange mem
        rw [yes exchange mem]
        exact Option.some_ne_none true
      obtain ⟨_, _, answer, all⟩ := whole answers
      cases answer
      cases all yes
    | true =>
      dsimp only
      rw [if_pos rfl]
      cases fault : (schedule cmp key (a.drop p) (b.drop q)).fault with
      | some e =>
        exact ⟨record, fun faultless => (by cases faultless), fun final returned => by cases returned⟩
      | none =>
        refine ⟨record, fun _ _ => ⟨t, rfl⟩, fun final returned _ => ?_⟩
        cases returned
        have ends := walk.recorded.moves_all start covers.positive (by omega) (by omega) performed
        have all := covers.whole fault
        rw [all.1, all.2] at ends
        have atEnds : p + (a.length - p) = a.length ∧ q + (b.length - q) = b.length := by omega
        rw [atEnds.1, atEnds.2] at ends
        exact ⟨rfl, ends⟩

end Walk

end SortedCollections
