import SortedCollections.Proofs.GapBuffer.Queues

/-!
# How long a buffer grows

The list of a buffer grows by its gaps alone. A gap is opened when the items to be written do not fit, so
at that time the list is hardly longer than the items put into it, and the gap is no longer than the
initial list or those items. So the list never gets longer than twice what was put into it, however
readings and writings alternate.
-/
namespace SortedCollections

namespace GapBuffer

variable {ε α : Type}

namespace Request

/-- How many items are given to be written. -/
def given : Request α → Nat
  | extend items => items.length
  | push _ => 1
  | _ => 0

def givenAll : List (Request α) → Nat
  | [] => 0
  | request :: rest => request.given + givenAll rest

end Request

theorem size_ofRegions (w g u : List α) : (ofRegions w g u).size = w.length + g.length + u.length := by
  rw [size, ofRegions, List.length_append, List.length_append]

/-- A request takes no item twice, and puts out no items but those that it was given. -/
theorem Queues.length_serve (q : Queues α) {request : Request α} (opened : request.closes = false) :
    (q.serve request).unread.length ≤ q.unread.length ∧
      (q.serve request).out.length + (q.serve request).unread.length ≤
        q.out.length + q.unread.length + request.given := by
  cases request with
  | consume n take =>
    cases take <;> simp only [serve, Request.given, if_true, Bool.false_eq_true, if_false,
      List.length_append, List.length_take, List.length_drop] <;> omega
  | extend items => simp only [serve, Request.given, List.length_append]; omega
  | push item => simp only [serve, Request.given, List.length_append, List.length_singleton]; omega
  | popFront n => simp only [serve, Request.given, List.length_drop]; omega
  | finish => cases opened
  | restart items => cases opened
  | check | remaining => exact ⟨Nat.le_refl _, Nat.le_refl _⟩

variable [Inhabited α]

/-- The list has got a gap of this length in front of the unread items, which is no shorter than they are,
and nothing else has changed. -/
structure Opens (before after : GapBuffer α) (gap : Nat) : Prop where
  slots : after.slots = Slice.replace before.slots before.source before.source (unused gap)
  target : after.target = before.target
  source : after.source = before.source + gap
  size : after.size = before.size + gap
  unread : before.unread.length ≤ gap

/-- Space for `n` items is either there, and the buffer stays as it is, or a gap is opened. -/
theorem reserve_stays_or_opens (w g u : List α) (n : Nat) :
    n ≤ g.length ∧ (ofRegions w g u).reserve n = ofRegions w g u ∨
    g.length < n ∧ (ofRegions w g u).Opens ((ofRegions w g u).reserve n) (max n u.length) := by
  have full := overflows_iff w g u n
  have gap := max_remaining w g u n
  by_cases short : g.length < n
  · refine .inr ⟨short, ?_, ?_, ?_, ?_, ?_⟩
    · rw [reserve, if_pos (full.mpr short), gap]
    · rw [reserve, if_pos (full.mpr short)]
    · rw [reserve, if_pos (full.mpr short), gap]
    · rw [reserve_ofRegions, if_pos short, size_ofRegions, size_ofRegions, List.length_append,
        List.length_replicate]
      omega
    · rw [unread_ofRegions]
      exact Nat.le_max_right ..
  · exact .inl ⟨Nat.le_of_not_lt short, by rw [reserve, if_neg (mt full.mp short)]⟩

theorem size_consume (w g u : List α) (n : Nat) (take : Bool) :
    ((ofRegions w g u).consume n take).size = (ofRegions w g u).size := by
  cases take with
  | true =>
    obtain ⟨g', length, consumed⟩ := exists_take_ofRegions w g u n
    rw [consumed, size_ofRegions, size_ofRegions, length, List.length_append, List.length_take,
      List.length_drop]
    omega
  | false =>
    obtain ⟨g', length, consumed⟩ := exists_drop_ofRegions w g u n
    rw [consumed, size_ofRegions, size_ofRegions, length, List.length_drop]
    omega

/-- Writing covers slots that are there. -/
theorem size_extend (w g u items : List α) :
    ((ofRegions w g u).extend items).size = ((ofRegions w g u).reserve items.length).size := by
  obtain ⟨g', room, opened⟩ := exists_reserve_ofRegions w g u items.length
  rw [extend]
  split
  · next empty =>
    rw [List.isEmpty_iff.mp empty, reserve_ofRegions, List.length_nil, if_neg (Nat.not_lt_zero _)]
  · rw [opened, write_ofRegions room, size_ofRegions, size_ofRegions, List.length_append,
      List.length_drop]
    omega

omit [Inhabited α] in
theorem become_eq_ok {b after put : GapBuffer α}
    (became : (become put b : EStateM.Result (Fault ε) (GapBuffer α) Unit) = .ok () after) :
    after = put := by
  rw [become] at became
  split at became <;> cases became
  rfl

omit [Inhabited α] in
/-- A step that answers with nothing but its end. -/
theorem step_eq_ok {step : Step ε α Unit} {b after : GapBuffer α} {answer : Answer α}
    (run : (do step; return .done : Step ε α (Answer α)) b = .ok answer after) :
    step b = .ok () after := by
  rw [bind_run] at run
  cases done : step b with
  | error e b' =>
    rw [done] at run
    cases run
  | ok _ b' =>
    rw [done] at run
    cases run
    rfl

/-- A request adds no slots but those of the gap that it may open for the items it is given. -/
theorem size_run (w g u : List α) {request : Request α} (opened : request.closes = false)
    {answer : Answer α} {after : GapBuffer α}
    (run : (request.command.run (ofRegions w g u) :
      EStateM.Result (Fault ε) (GapBuffer α) (Answer α)) = .ok answer after) :
    after.size = ((ofRegions w g u).reserve request.given).size := by
  have nothing : (ofRegions w g u).reserve 0 = ofRegions w g u := by
    rw [reserve_ofRegions, if_neg (Nat.not_lt_zero _)]
  cases request with
  | consume n take =>
    obtain rfl := become_eq_ok (step_eq_ok run)
    exact (size_consume w g u n take).trans (congrArg size nothing.symm)
  | extend items =>
    have step := step_eq_ok run
    rw [extendStep] at step
    split at step
    · next empty =>
      cases step
      rw [Request.given, List.isEmpty_iff.mp empty]
      exact congrArg size nothing.symm
    · obtain rfl := become_eq_ok step
      exact size_extend w g u items
  | push item =>
    have step := step_eq_ok run
    simp only [pushStep, push?_ofRegions] at step
    obtain rfl := become_eq_ok step
    exact size_extend w g u [item]
  | popFront n =>
    cases run
    have popped := congrArg (fun result => result.2.size) (popFront_ofRegions w g u n)
    exact popped.trans ((size_consume w g u n false).trans (congrArg size nothing.symm))
  | finish => cases opened
  | restart items => cases opened
  | check =>
    have step := step_eq_ok run
    rw [checkStep] at step
    split at step <;> cases step
    exact congrArg size nothing.symm
  | remaining =>
    cases run
    exact congrArg size nothing.symm

/-- The list changes its length only where a gap is inserted: a request leaves it as long as it was, or
opens a gap for the items it is given, and then the list is longer by the length of this gap. -/
def Widens (before after : GapBuffer α) (given : Nat) : Prop :=
  (after.size = before.size ∧ before.reserve given = before) ∨
    ∃ gap, before.Opens (before.reserve given) gap ∧ after.size = before.size + gap

theorem widens_run (w g u : List α) {request : Request α} (opened : request.closes = false)
    {answer : Answer α} {after : GapBuffer α}
    (run : (request.command.run (ofRegions w g u) :
      EStateM.Result (Fault ε) (GapBuffer α) (Answer α)) = .ok answer after) :
    (ofRegions w g u).Widens after request.given := by
  have size := size_run w g u opened run
  rcases reserve_stays_or_opens w g u request.given with ⟨room, stays⟩ | ⟨short, opens⟩
  · rw [stays] at size
    exact .inl ⟨size, stays⟩
  · exact .inr ⟨_, opens, size.trans opens.size⟩

/-- What bounds a buffer with two queues in it that began with `initial` items and was given `given`
more. -/
structure Bounded (b : GapBuffer α) (q : Queues α) (initial given : Nat) : Prop where
  unread : q.unread.length ≤ initial
  items : q.out.length + q.unread.length ≤ initial + given
  size : b.size ≤ initial + given + max initial given

/-- What one request keeps. Where a gap is opened, the old gap is shorter than what is given now, so the
written and unread items and the gap together are within the bound for the items; the new gap is what
the maximum stands for. -/
theorem bounded_run {q : Queues α} {g : List α} {initial given : Nat}
    (bounded : (ofRegions q.out g q.unread).Bounded q initial given) {request : Request α}
    (opened : request.closes = false) {answer : Answer α} {after : GapBuffer α}
    (run : (request.command.run (ofRegions q.out g q.unread) :
      EStateM.Result (Fault ε) (GapBuffer α) (Answer α)) = .ok answer after) :
    after.Bounded (q.serve request) initial (given + request.given) := by
  have lengths := q.length_serve opened
  have unread := bounded.unread
  have items := bounded.items
  have size := bounded.size
  refine ⟨by omega, by omega, ?_⟩
  rw [size_run q.out g q.unread opened run]
  rcases reserve_stays_or_opens q.out g q.unread request.given with ⟨room, stays⟩ | ⟨short, opens⟩
  · rw [stays]
    omega
  · rw [opens.size, size_ofRegions]
    omega

/-- What a run keeps, from any buffer on. -/
theorem bounded_runAll {requests : List (Request α)} {b : GapBuffer α} {q : Queues α}
    {initial given : Nat} (holds : b.Holds q) (bounded : b.Bounded q initial given) {i : Nat}
    {report : Report ε α} (reached : (b.runAll (requests.map Request.command))[i]? = some report)
    (opened : ∀ request ∈ requests.take (i + 1), request.closes = false) :
    (∃ q', report.after.Bounded q' initial (given + Request.givenAll (requests.take (i + 1)))) ∧
      ∃ before request,
        (b :: (b.runAll (requests.map Request.command) : List (Report ε α)).map Report.after)[i]? =
          some before ∧
        requests[i]? = some request ∧ before.Widens report.after request.given := by
  induction requests generalizing b q given i with
  | nil => cases reached
  | cons request rest ih =>
    obtain ⟨g, rfl⟩ := holds.exists_eq
    obtain ⟨g', step, _⟩ := answers_run (ε := ε) q g request
    have here : request.closes = false := opened request List.mem_cons_self
    have kept := bounded_run bounded here step
    rw [List.map_cons, runAll, step] at reached ⊢
    rw [List.take_succ_cons, Request.givenAll, ← Nat.add_assoc]
    cases i with
    | zero =>
      cases reached
      exact ⟨⟨_, kept⟩, _, request, rfl, rfl, widens_run q.out g q.unread here step⟩
    | succ i =>
      exact ih (holds_ofRegions (q.serve request) g') kept reached fun request mem =>
        opened request (List.mem_cons_of_mem _ mem)

/-- The list of a buffer stays linearly bounded. Let it begin with `items`, and let it be given more items
to write, between readings of any kind and in any order. After each step it is no longer than the initial
list, the items given so far, and the longer of the two once more. It changes its length only where a gap is
inserted, and a gap is never shorter than the unread items behind it. -/
theorem buffer_stays_linear (items : List α) (requests : List (Request α)) (i : Nat)
    (report : Report ε α)
    (reached : ((ofList items).runAll (requests.map Request.command))[i]? = some report)
    (opened : ∀ request ∈ requests.take (i + 1), request.closes = false) :
    report.after.size ≤ items.length + Request.givenAll (requests.take (i + 1)) +
        max items.length (Request.givenAll (requests.take (i + 1))) ∧
      ∃ before request,
        (ofList items ::
          ((ofList items).runAll (requests.map Request.command) : List (Report ε α)).map
            Report.after)[i]? = some before ∧
        requests[i]? = some request ∧ before.Widens report.after request.given := by
  have holds := holds_ofRegions (Queues.mk [] items) []
  have fresh : (ofList items).Bounded (Queues.mk [] items) items.length 0 :=
    ⟨Nat.le_refl _, Nat.le_of_eq (Nat.zero_add _), Nat.le_add_right (items.length + 0) _⟩
  obtain ⟨⟨_, bounded⟩, widens⟩ := bounded_runAll holds fresh reached opened
  have size := bounded.size
  rw [Nat.zero_add] at size
  exact ⟨size, widens⟩

/-- Two gaps: one for the seven in front of three items, and one for the five items after that, which
are more than are left to be read. -/
theorem bounded_between_gaps :
    let requests : List (Request Nat) := [.push 7, .popFront 1, .extend [8, 9, 10, 11, 12]]
    let report : Report Empty Nat :=
      ⟨.ok .done, ofRegions [7, 8, 9, 10, 11, 12] [0, 0, 0] [2, 3]⟩
    ((ofList [1, 2, 3]).runAll (requests.map Request.command))[2]? = some report ∧
      (∀ request ∈ requests.take 3, request.closes = false) ∧
      report.after.size ≤ 3 + 6 + max 3 6 := by
  intro requests report
  have reached : ((ofList [1, 2, 3]).runAll (requests.map Request.command))[2]? = some report := rfl
  have opened : ∀ request ∈ requests.take 3, request.closes = false := by decide
  exact ⟨reached, opened, (buffer_stays_linear [1, 2, 3] requests 2 report reached opened).1⟩

end GapBuffer

end SortedCollections
