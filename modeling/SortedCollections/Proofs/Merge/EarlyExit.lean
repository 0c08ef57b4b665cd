import SortedCollections.Proofs.Merge.Probe

/-!
# Where a probe stops

A merge is watched by noting each call with the states before and after it. A merge into a new list and a
merge with a probe make the same calls, until the probe stops in front of the first one that adds to the
output of the other. If the lists increase, all that comes before that call is less than the least item of
the output, and nothing else is.
-/
namespace SortedCollections

variable {ε α κ σ : Type}

/-- A call of a merge, with the states before and after it. -/
structure Performed (σ : Type) where
  call : Call
  before : σ
  after : σ

namespace Performed

/-- Passes each call on and notes it. -/
def handler (inner : Handler ε σ) : Handler ε (σ × List (Performed σ)) := fun call s =>
  match inner call s.1 with
  | .ok more t => .ok more (t, s.2 ++ [⟨call, s.1, t⟩])
  | .error e t => .error e (t, s.2 ++ [⟨call, s.1, t⟩])

/-- The call adds to the output. -/
def Adds (performed : Performed (ListMerge α)) : Prop :=
  performed.before.result.length < performed.after.result.length

end Performed

/-- Merges two lists into a new one, noting the calls. -/
def Operation.collect (op : Operation ε α κ) (cmp : Comparison ε κ) (a b : List α) :
    EStateM.Result (Fault ε) (ListMerge α × List (Performed (ListMerge α))) Unit :=
  Engine.remainder cmp op.key (.ok ·.1.toInputs) (Performed.handler (op.policy.handler ListMerge.sink))
    (.start a b, [])

/-- Noting the calls changes nothing about a merge. -/
theorem Operation.collect_agree (op : Operation ε α κ) (cmp : Comparison ε κ) (a b : List α) :
    Agree Beside (op.collect cmp a b) (op.run cmp ListMerge.sink (.start a b)) := by
  refine Engine.remainder_forget cmp op.key ListMerge.toInputs Prod.fst (fun call s => ?_) (_, [])
  rw [Performed.handler]
  cases op.policy.handler ListMerge.sink call s.1 with
  | ok more t => exact .ok rfl
  | error e t => exact .error rfl

/-- Noting the calls does not disturb a walk. -/
theorem Walk.performed {view : σ → Inputs α} {handler : Handler ε σ} {a b : List α}
    {At : σ → Nat → Nat → Prop} (walk : Walk view handler a b At) :
    Walk (view ·.1) (Performed.handler handler) a b (fun s p q => At s.1 p q) where
  within start := walk.within start
  sees start := walk.sees start
  moves {s s' p q call} start fits answer := by
    rw [Performed.handler] at answer
    cases moved : handler call s.1 with
    | error e t =>
      rw [moved] at answer
      cases answer
    | ok more t =>
      rw [moved] at answer
      cases answer
      exact walk.moves start fits moved

namespace SetRule

variable {s : ListMerge α} {call : Call}

/-- A merge into a new list after calls that hand over no more than there is. -/
def after (rule : SetRule) (s : ListMerge α) (calls : List Call) : ListMerge α where
  left := s.left
  right := s.right
  i := s.i + leftTotal calls
  j := s.j + rightTotal calls
  result := s.result ++ rule.kept (paired calls (s.left.drop s.i) (s.right.drop s.j))

theorem after_cons (rule : SetRule) (s : ListMerge α) (call : Call) (calls : List Call) :
    rule.after s (call :: calls) = rule.after (rule.after s [call]) calls := by
  simp [after, paired, kept_append, Nat.add_assoc]

theorem handler_collects (rule : SetRule) (call : Call) (log : List (Performed (ListMerge α)))
    (left : s.i + call.onLeft ≤ s.left.length) (right : s.j + call.onRight ≤ s.right.length) :
    Performed.handler ((Policy.ofRule rule : Policy ε α).handler ListMerge.sink) call (s, log) =
      .ok true (rule.after s [call], log ++ [⟨call, s, rule.after s [call]⟩]) := by
  have adds : Adds (ε := ε) true _ s.result _ _ := rule.itemwise.adds call left right
  rw [filterMapM_pick] at adds
  have done : (Policy.ofRule rule : Policy ε α).handler ListMerge.sink call s =
      .ok true (rule.after s [call]) := by
    rw [after, paired, paired, List.append_nil]
    exact adds
  rw [Performed.handler, done]

theorem keepsCall_of_adds (rule : SetRule) (adds : (Performed.mk call s (rule.after s [call])).Adds) :
    rule.keepsCall call = true := by
  by_contra drops
  have none : rule.kept (paired [call] (s.left.drop s.i) (s.right.drop s.j)) = [] :=
    rule.kept_paired_nil (List.forall_mem_singleton.mpr (by simpa using drops))
  rw [Performed.Adds, after, none, List.append_nil] at adds
  exact Nat.lt_irrefl _ adds

theorem adds_of_keepsCall (rule : SetRule) (keeps : rule.keepsCall call = true)
    (positive : 0 < call.count) (left : s.i + call.onLeft ≤ s.left.length)
    (right : s.j + call.onRight ≤ s.right.length) :
    (Performed.mk call s (rule.after s [call])).Adds := by
  obtain ⟨first, rest, paired_eq⟩ := Call.exists_paired positive left right
  rw [Performed.Adds, after, paired, paired, List.append_nil, kept_paired, if_pos keeps, paired_eq,
    List.length_append]
  exact Nat.lt_add_of_pos_right (Nat.succ_pos _)

/-- Of the calls of a merge into a new list, only those that the rule keeps add to the output. -/
theorem performAll_collects (rule : SetRule) (calls : List Call) (s : ListMerge α)
    (log : List (Performed (ListMerge α))) (left : s.i + leftTotal calls ≤ s.left.length)
    (right : s.j + rightTotal calls ≤ s.right.length) :
    ∃ made, performAll (Performed.handler ((Policy.ofRule rule : Policy ε α).handler ListMerge.sink))
        calls (s, log) = .ok true (rule.after s calls, log ++ made) ∧
      ∀ performed ∈ made, performed.Adds → ∃ call ∈ calls, rule.keepsCall call = true := by
  induction calls generalizing s log with
  | nil => exact ⟨[], by simp [performAll, after, paired, kept]; rfl, by simp⟩
  | cons call calls ih =>
    rw [leftTotal_cons, ← Nat.add_assoc] at left
    rw [rightTotal_cons, ← Nat.add_assoc] at right
    have first := rule.handler_collects (ε := ε) (s := s) call log (by omega) (by omega)
    obtain ⟨made, rest, adding⟩ := ih (rule.after s [call])
      (log ++ [⟨call, s, rule.after s [call]⟩]) left right
    refine ⟨⟨call, s, rule.after s [call]⟩ :: made, both_run_eq_ok.mpr ⟨_, first, ?_⟩, ?_⟩
    · rw [rest, rule.after_cons s call calls, ← List.append_cons]
    · intro performed mem adds
      rcases List.mem_cons.mp mem with rfl | mem
      · exact ⟨call, List.mem_cons_self .., rule.keepsCall_of_adds adds⟩
      · obtain ⟨later, mem, keeps⟩ := adding performed mem adds
        exact ⟨later, .tail _ mem, keeps⟩

/-- The same with a call singled out. -/
theorem performAll_collects_around (rule : SetRule) (front : List Call) (call : Call)
    (back : List Call) (s : ListMerge α)
    (left : s.i + (leftTotal front + (call.onLeft + leftTotal back)) ≤ s.left.length)
    (right : s.j + (rightTotal front + (call.onRight + rightTotal back)) ≤ s.right.length) :
    ∃ made later final,
      performAll (Performed.handler ((Policy.ofRule rule : Policy ε α).handler ListMerge.sink))
          (front ++ call :: back) (s, []) =
        .ok true (final,
          made ++ ⟨call, rule.after s front, rule.after (rule.after s front) [call]⟩ :: later) ∧
      ∀ performed ∈ made, performed.Adds → ∃ call ∈ front, rule.keepsCall call = true := by
  obtain ⟨made, first, adding⟩ :=
    rule.performAll_collects (ε := ε) front s [] (by omega) (by omega)
  have middle := rule.handler_collects (ε := ε) (s := rule.after s front) call made
    (by simp only [after]; omega) (by simp only [after]; omega)
  obtain ⟨later, rest, _⟩ := rule.performAll_collects (ε := ε) back
    (rule.after (rule.after s front) [call])
    (made ++ [⟨call, rule.after s front, rule.after (rule.after s front) [call]⟩])
    (by simp only [after, leftTotal_cons, leftTotal_nil]; omega)
    (by simp only [after, rightTotal_cons, rightTotal_nil]; omega)
  rw [List.nil_append] at first
  rw [← List.append_cons] at rest
  refine ⟨made, later, rule.after (rule.after (rule.after s front) [call]) back, ?_, adding⟩
  rw [performAll_append]
  exact both_run_eq_ok.mpr ⟨_, first, both_run_eq_ok.mpr ⟨_, middle, rest⟩⟩

/-- The first call of a merge into a new list that adds to the output is the first that the rule
keeps. -/
theorem collect_first (rule : SetRule) {cmp : Comparison ε κ} {key : α → Except ε κ} {a b : List α}
    {front back : List Call} (split : (schedule cmp key a b).calls = front ++ call :: back)
    (drops : ∀ call ∈ front, rule.keepsCall call = false) (keeps : rule.keepsCall call = true) :
    ∃ made performed later,
      (stateAfter (Operation.collect ⟨key, .ofRule rule⟩ cmp a b)).2 = made ++ performed :: later ∧
      (∀ earlier ∈ made, ¬earlier.Adds) ∧ performed.Adds ∧
      performed.before.toInputs = ⟨a, b, leftTotal front, rightTotal front⟩ := by
  have covers := schedule_covers cmp key a b
  obtain ⟨positive, left, right⟩ := covers.around split
  have leftAll := covers.left
  have rightAll := covers.right
  rw [split, leftTotal_append, leftTotal_cons] at leftAll
  rw [split, rightTotal_append, rightTotal_cons] at rightAll
  have place : (rule.after (.start a b) front).toInputs = ⟨a, b, leftTotal front, rightTotal front⟩ := by
    simp only [after, ListMerge.start, Nat.zero_add]
  obtain ⟨made, later, final, performed, adding⟩ :=
    rule.performAll_collects_around (ε := ε) front call back (.start a b)
      (by simpa only [ListMerge.start, Nat.zero_add] using leftAll)
      (by simpa only [ListMerge.start, Nat.zero_add] using rightAll)
  have run : Operation.collect ⟨key, .ofRule rule⟩ cmp a b =
      (do
        let _ ← (schedule cmp key a b).perform
          (Performed.handler ((Policy.ofRule rule).handler ListMerge.sink))) (.start a b, []) :=
    (rule.itemwise.walk a b).performed.remainder_eq cmp key ⟨rfl, Nat.zero_le _, Nat.zero_le _⟩
  refine ⟨made, _, later, ?_, fun earlier mem adds => ?_,
    rule.adds_of_keepsCall keeps positive ?_ ?_, place⟩
  · rw [run, bind_run, Schedule.perform, bind_run, split, performed]
    dsimp only
    rw [if_pos rfl]
    cases (schedule cmp key a b).fault <;> rfl
  · obtain ⟨kept, mem, keeps⟩ := adding earlier mem adds
    rw [drops kept mem] at keeps
    cases keeps
  · simpa only [after, ListMerge.start, Nat.zero_add] using left
  · simpa only [after, ListMerge.start, Nat.zero_add] using right

end SetRule

section Order

variable {lt : α → α → Except ε Bool} {less : α → α → Bool} {P : α → Prop} {xs ys : List α}

/-- The items of a pairing are compared as the item that stands for it. -/
theorem less_of_side (order : Decides lt less P) (hx : IncreasingOn less P xs)
    (hy : IncreasingOn less P ys) {p : Pairing α} (mem : p ∈ pairings less xs ys) {x y : α} (hx' : P x)
    (side : p.left? = some y ∨ p.right? = some y) : less y x = less p.item x := by
  cases p with
  | left z =>
    rcases side with side | side
    · cases side
      rfl
    · cases side
  | right z =>
    rcases side with side | side
    · cases side
    · cases side
      rfl
  | tie z w =>
    obtain ⟨memZ, memW, twins⟩ := (tie_mem_pairings order hx hy).mp mem
    rcases side with side | side
    · cases side
      rfl
    · cases side
      exact (order.less_of_tied (hx.inside z memZ) (hy.inside y memW) hx' twins).symm

/-- Of the items on one side of increasing pairings, those before a pairing are less than it, and those
from it on are not. -/
theorem countP_below (order : Decides lt less P) {front back : List (Pairing α)} {p : Pairing α}
    (increasing : IncreasingOn (fun p q => less p.item q.item) (fun p : Pairing α => P p.item)
      (front ++ p :: back)) (side : Pairing α → Option α)
    (same : ∀ q ∈ front ++ p :: back, ∀ y, side q = some y → less y p.item = less q.item p.item) :
    ((front ++ p :: back).filterMap side).countP (less · p.item) = (front.filterMap side).length := by
  obtain ⟨_, behind, across⟩ := List.pairwise_append.mp increasing.increasing
  obtain ⟨above, _⟩ := List.pairwise_cons.mp behind
  have hp : P p.item := increasing.inside p (by simp)
  rw [List.filterMap_append, List.countP_append]
  have before : (front.filterMap side).countP (less · p.item) = (front.filterMap side).length := by
    rw [List.countP_eq_length]
    intro y mem
    obtain ⟨q, memFront, given⟩ := List.mem_filterMap.mp mem
    rw [same q (by simp [memFront]) y given]
    exact across q memFront p (by simp)
  have later : ((p :: back).filterMap side).countP (less · p.item) = 0 := by
    rw [List.countP_eq_zero]
    intro y mem
    obtain ⟨q, memBack, given⟩ := List.mem_filterMap.mp mem
    rw [same q (List.mem_append_right _ memBack) y given]
    rcases List.mem_cons.mp memBack with rfl | memBack
    · rw [order.irrefl hp]
      exact Bool.false_ne_true
    · rw [order.asymm hp (increasing.inside q (by simp [memBack])) (above q memBack)]
      exact Bool.false_ne_true
  rw [before, later, Nat.add_zero]

end Order

section Stops

variable (rule : SetRule) {cmp : Comparison ε κ} {key : α → Except ε κ} {a b : List α}

/-- A probe that stops has passed over what is less than the least item of the output. -/
theorem SetRule.stops_below_least {P : κ → Prop} (ordered : cmp.OrderedOn P)
    (ha : IncreasingOn (cmp.on key).less (Comparison.KeyIn key P) a)
    (hb : IncreasingOn (cmp.on key).less (Comparison.KeyIn key P) b) {s : Probe α}
    (run : Operation.run ⟨key, .ofRule rule⟩ cmp Probe.sink (.start a b) = .ok () s)
    (stopped : s.result = true) :
    ∃ r least, merge cmp ⟨key, .ofRule rule⟩ a b = .ok r ∧ least ∈ r ∧
      (∀ x ∈ r, x = least ∨ (cmp.on key).less least x = true) ∧
      s.i = a.countP ((cmp.on key).less · least) ∧ s.j = b.countP ((cmp.on key).less · least) := by
  have order := (ordered.on key).decides
  have ends := rule.run_probe_ends cmp key a b
  rw [run] at ends
  cases ends with
  | passes drops faultless => cases stopped
  | @stops front back call calls drops keeps =>
    obtain ⟨positive, left, right⟩ := (schedule_covers cmp key a b).around calls
    obtain ⟨p, ps, first, kept⟩ := rule.kept_paired_first back drops keeps positive left right
    obtain ⟨_, whole⟩ := schedule_pairings ordered ha hb
    rw [calls] at whole
    have split : pairings (cmp.on key).less a b = paired front a b ++ p :: ps := by
      rw [← whole, paired_append, first]
    obtain ⟨fromLeft, fromRight⟩ : (paired front a b).filterMap Pairing.left? = _ ∧
        (paired front a b).filterMap Pairing.right? = _ :=
      filterMap_paired front (by omega) (by omega)
    have increasing := pairings_increasing order ha hb
    have inside : Comparison.KeyIn key P p.item := increasing.inside p (by simp [split])
    have output := rule.merge_kept ordered ha hb
    have sorted := (rule.kept_pairings order ha hb).increasing
    rw [← whole, kept] at output sorted
    obtain ⟨above, _⟩ := List.pairwise_cons.mp sorted
    have below (side : Pairing α → Option α)
        (ofSide : ∀ q y, side q = some y → q.left? = some y ∨ q.right? = some y) :
        ((pairings (cmp.on key).less a b).filterMap side).countP ((cmp.on key).less · p.item) =
          ((paired front a b).filterMap side).length := by
      rw [split] at increasing ⊢
      refine countP_below order increasing side fun q mem y given => ?_
      rw [← split] at mem
      exact less_of_side order ha hb mem inside (ofSide q y given)
    have belowLeft := below Pairing.left? fun _ _ => .inl
    have belowRight := below Pairing.right? fun _ _ => .inr
    rw [filterMap_left_pairings, fromLeft, List.length_take, Nat.min_eq_left (by omega)] at belowLeft
    rw [filterMap_right_pairings, fromRight, List.length_take, Nat.min_eq_left (by omega)] at belowRight
    exact ⟨_, p.item, output, List.mem_cons_self ..,
      fun x mem => (List.mem_cons.mp mem).imp id (above x), belowLeft.symm, belowRight.symm⟩

/-- A probe against the merge that it stands for. -/
structure EarlyExit (cmp : Comparison ε κ) (key : α → Except ε κ) (rule : SetRule) (a b : List α) :
    Prop where
  /-- If the merge returns, the probe answers whether its output is not empty. -/
  answers : ∀ r, merge cmp ⟨key, .ofRule rule⟩ a b = .ok r →
    anyOutput cmp ⟨key, .ofRule rule⟩ a b = .ok !r.isEmpty
  /-- If the probe fails, the merge fails alike. -/
  fails : ∀ e, anyOutput cmp ⟨key, .ofRule rule⟩ a b = .error e →
    merge cmp ⟨key, .ofRule rule⟩ a b = .error e
  /-- Noting the calls changes nothing about the merge. -/
  watched : Agree Beside (Operation.collect ⟨key, .ofRule rule⟩ cmp a b)
    (Operation.run ⟨key, .ofRule rule⟩ cmp ListMerge.sink (.start a b))
  /-- A probe that answers yes stands where the merge stands before the first call that adds to its
  output. -/
  stops : ∀ s, Operation.run ⟨key, .ofRule rule⟩ cmp Probe.sink (.start a b) = .ok () s →
    s.result = true → ∃ made performed later,
      (stateAfter (Operation.collect ⟨key, .ofRule rule⟩ cmp a b)).2 = made ++ performed :: later ∧
      (∀ earlier ∈ made, ¬earlier.Adds) ∧ performed.Adds ∧ s.toInputs = performed.before.toInputs
  /-- One that answers no stands at both ends. -/
  passes : ∀ s, Operation.run ⟨key, .ofRule rule⟩ cmp Probe.sink (.start a b) = .ok () s →
    s.result = false → s.i = a.length ∧ s.j = b.length
  /-- In increasing lists, what it has passed over is what is less than the least item of the output. -/
  least : ∀ P, cmp.OrderedOn P → IncreasingOn (cmp.on key).less (Comparison.KeyIn key P) a →
    IncreasingOn (cmp.on key).less (Comparison.KeyIn key P) b →
    ∀ s, Operation.run ⟨key, .ofRule rule⟩ cmp Probe.sink (.start a b) = .ok () s → s.result = true →
      ∃ r least, merge cmp ⟨key, .ofRule rule⟩ a b = .ok r ∧ least ∈ r ∧
        (∀ x ∈ r, x = least ∨ (cmp.on key).less least x = true) ∧
        s.i = a.countP ((cmp.on key).less · least) ∧ s.j = b.countP ((cmp.on key).less · least)

/-- For any lists and any comparison, a probe by a rule on sets finds out what the merge would, and stops
where the merge first adds to its output. -/
theorem set_probe_exits_early (cmp : Comparison ε κ) (key : α → Except ε κ) (rule : SetRule)
    (a b : List α) : EarlyExit cmp key rule a b where
  answers r merged := by
    rw [rule.itemwise.merge_schedule, SetRule.filterMapM_pick] at merged
    cases fault : (schedule cmp key a b).fault with
    | some e =>
      rw [fault] at merged
      cases merged
    | none =>
      rw [fault] at merged
      cases merged
      exact rule.anyOutput_eq cmp key fault
  fails e failed := by
    have ends := rule.run_probe_ends cmp key a b
    rw [anyOutput] at failed
    generalize Operation.run ⟨key, .ofRule rule⟩ cmp Probe.sink (.start a b) = answer at ends failed
    cases ends with
    | stops calls drops keeps => cases failed
    | passes drops faultless => cases failed
    | fails drops fault =>
      cases failed
      rw [rule.itemwise.merge_schedule, SetRule.filterMapM_pick, fault]
      rfl
  watched := Operation.collect_agree _ cmp a b
  stops s run stopped := by
    have ends := rule.run_probe_ends cmp key a b
    rw [run] at ends
    cases ends with
    | passes drops faultless => cases stopped
    | stops calls drops keeps =>
      obtain ⟨made, performed, later, log, earlier, adds, place⟩ := rule.collect_first calls drops keeps
      exact ⟨made, performed, later, log, earlier, adds, place.symm⟩
  passes s run passed := by
    have ends := rule.run_probe_ends cmp key a b
    rw [run] at ends
    cases ends with
    | passes drops faultless => exact ⟨rfl, rfl⟩
    | stops calls drops keeps => cases passed
  least P ordered ha hb s run stopped := rule.stops_below_least ordered ha hb run stopped

/-- Looking for numbers that two lists share, a probe stops in front of the first of them. -/
theorem shared_number_stops_probe :
    let stopped : Probe Nat := ⟨⟨[1, 3, 5], [2, 3], 1, 1⟩, true⟩
    let less := (Comparison.on (.natural : Comparison Empty Nat) Except.ok).less
    ∃ r least, merge (.natural : Comparison Empty Nat) ⟨.ok, .ofRule .intersection⟩ [1, 3, 5] [2, 3] =
        .ok r ∧ least ∈ r ∧ (∀ x ∈ r, x = least ∨ less least x = true) ∧
      stopped.i = [1, 3, 5].countP (less · least) ∧ stopped.j = [2, 3].countP (less · least) := by
  intro stopped less
  have kept (numbers : List Nat) (increasing : Increasing Comparison.natural.less numbers) :
      IncreasingOn less (Comparison.KeyIn (ε := Empty) .ok fun _ => True) numbers :=
    ⟨increasing, fun x _ => ⟨x, rfl, trivial⟩⟩
  have run : Operation.run ⟨.ok, .ofRule .intersection⟩ (.natural : Comparison Empty Nat) Probe.sink
      (.start [1, 3, 5] [2, 3]) = .ok () stopped := by with_unfolding_all rfl
  exact (set_probe_exits_early .natural .ok .intersection [1, 3, 5] [2, 3]).least _
    Comparison.natural_ordered (kept _ (by decide)) (kept _ (by decide)) stopped run rfl

end Stops

end SortedCollections
