import SortedCollections.Proofs.Merge.Rules

/-!
# What a probe finds out

A probe passes over the runs that a rule drops, and stops the merge in front of the first run that the
rule keeps. It therefore notes an output exactly if a merge into a new list would have one.
-/
namespace SortedCollections

variable {ε α κ : Type}

/-- A list of calls has one that passes a test, the first of them, or none. -/
theorem exists_first_or_none {β : Type} (test : β → Bool) (xs : List β) :
    (∃ front x back, xs = front ++ x :: back ∧ (∀ y ∈ front, test y = false) ∧ test x = true) ∨
      ∀ x ∈ xs, test x = false := by
  cases found : xs.find? test with
  | none =>
    rw [List.find?_eq_none] at found
    exact .inr fun x mem => Bool.not_eq_true _ ▸ found x mem
  | some x =>
    obtain ⟨hit, front, back, rfl, passed⟩ := List.find?_eq_some_iff_append.mp found
    exact .inl ⟨front, x, back, rfl, fun y mem => by simpa using passed y mem, hit⟩

namespace SetRule

/-- Does a rule keep what a call hands over? -/
def keepsCall (rule : SetRule) : Call → Bool
  | .left _ => rule.keepsLeft
  | .right _ => rule.keepsRight
  | .tie => rule.keepsTie

theorem keeps_of_mem_paired (rule : SetRule) {call : Call} {xs ys : List α} {p : Pairing α}
    (mem : p ∈ call.paired xs ys) : rule.keeps p = rule.keepsCall call := by
  cases call with
  | left n =>
    obtain ⟨x, _, rfl⟩ := List.mem_map.mp mem
    rfl
  | right n =>
    obtain ⟨y, _, rfl⟩ := List.mem_map.mp mem
    rfl
  | tie =>
    cases xs with
    | nil => cases mem
    | cons x xs =>
      cases ys with
      | nil => cases mem
      | cons y ys =>
        obtain rfl := List.mem_singleton.mp mem
        rfl

/-- A rule keeps all that a call hands over or nothing of it. -/
theorem kept_paired (rule : SetRule) (call : Call) (xs ys : List α) :
    rule.kept (call.paired xs ys) =
      if rule.keepsCall call then (call.paired xs ys).map Pairing.item else [] := by
  have same : ∀ p ∈ call.paired xs ys, rule.keeps p = rule.keepsCall call :=
    fun p mem => rule.keeps_of_mem_paired mem
  rw [kept, List.filter_congr same]
  cases rule.keepsCall call <;> simp

/-- If a rule drops what each call hands over, it keeps nothing. -/
theorem kept_paired_nil (rule : SetRule) {calls : List Call} {xs ys : List α}
    (drops : ∀ call ∈ calls, rule.keepsCall call = false) : rule.kept (paired calls xs ys) = [] := by
  induction calls generalizing xs ys with
  | nil => rfl
  | cons call calls ih =>
    obtain ⟨drop, drops⟩ := List.forall_mem_cons.mp drops
    rw [paired, kept_append, ih drops, kept_paired, if_neg (by simp [drop]), List.append_nil]

variable {a b : List α} {p q : Nat}

/-- A probe passes over a run that the rule drops. -/
theorem handler_passes (rule : SetRule) {call : Call} (drops : rule.keepsCall call = false)
    (left : p + call.onLeft ≤ a.length) (right : q + call.onRight ≤ b.length) :
    (Policy.ofRule rule : Policy ε α).handler Probe.sink call ⟨⟨a, b, p, q⟩, false⟩ =
      .ok true ⟨⟨a, b, p + call.onLeft, q + call.onRight⟩, false⟩ := by
  have passLeft {n : Nat} (room : p + n ≤ a.length) :
      (Script.left n false : Script ε α Bool).run Probe.sink ⟨⟨a, b, p, q⟩, false⟩ =
        .ok true ⟨⟨a, b, p + n, q⟩, false⟩ := by
    rw [Script.run_left]
    show Probe.advanceLeft n false _ = _
    rw [Probe.advanceLeft, if_neg Bool.false_ne_true, if_pos room]
  have passRight {p n : Nat} (room : q + n ≤ b.length) :
      (Script.right n false : Script ε α Bool).run Probe.sink ⟨⟨a, b, p, q⟩, false⟩ =
        .ok true ⟨⟨a, b, p, q + n⟩, false⟩ := by
    rw [Script.run_right]
    show Probe.advanceRight n false _ = _
    rw [Probe.advanceRight, if_neg Bool.false_ne_true, if_pos room]
  cases call with
  | left n =>
    show (Script.left n rule.keepsLeft).run Probe.sink _ = _
    rw [show rule.keepsLeft = false from drops]
    exact passLeft left
  | right n =>
    show (Script.right n rule.keepsRight).run Probe.sink _ = _
    rw [show rule.keepsRight = false from drops]
    exact passRight right
  | tie =>
    show (Policy.andThen (Script.left 1 rule.keepsTie) (Script.right 1 false)).run Probe.sink _ = _
    rw [show rule.keepsTie = false from drops, Policy.run_andThen, both_run_eq_ok]
    exact ⟨_, passLeft left, passRight right⟩

/-- A probe stops in front of a run that the rule keeps. -/
theorem handler_stops (rule : SetRule) {call : Call} (keeps : rule.keepsCall call = true)
    (now : Inputs α) :
    (Policy.ofRule rule : Policy ε α).handler Probe.sink call ⟨now, false⟩ = .ok false ⟨now, true⟩ := by
  cases call with
  | left n =>
    show (Script.left n rule.keepsLeft).run Probe.sink _ = _
    rw [show rule.keepsLeft = true from keeps]
    rfl
  | right n =>
    show (Script.right n rule.keepsRight).run Probe.sink _ = _
    rw [show rule.keepsRight = true from keeps]
    rfl
  | tie =>
    show (Policy.andThen (Script.left 1 rule.keepsTie) (Script.right 1 false)).run Probe.sink _ = _
    rw [show rule.keepsTie = true from keeps]
    rfl

theorem performAll_passes (rule : SetRule) {calls : List Call}
    (drops : ∀ call ∈ calls, rule.keepsCall call = false) (left : p + leftTotal calls ≤ a.length)
    (right : q + rightTotal calls ≤ b.length) :
    performAll ((Policy.ofRule rule : Policy ε α).handler Probe.sink) calls ⟨⟨a, b, p, q⟩, false⟩ =
      .ok true ⟨⟨a, b, p + leftTotal calls, q + rightTotal calls⟩, false⟩ := by
  induction calls generalizing p q with
  | nil => rfl
  | cons call calls ih =>
    obtain ⟨drop, drops⟩ := List.forall_mem_cons.mp drops
    rw [leftTotal_cons] at left ⊢
    rw [rightTotal_cons] at right ⊢
    rw [performAll, both_run_eq_ok, ← Nat.add_assoc, ← Nat.add_assoc]
    exact ⟨_, rule.handler_passes drop (by omega) (by omega), ih drops (by omega) (by omega)⟩

/-- A probe stops in front of the first of several runs that the rule keeps. -/
theorem performAll_stops (rule : SetRule) {front : List Call} {call : Call} (back : List Call)
    (drops : ∀ call ∈ front, rule.keepsCall call = false) (keeps : rule.keepsCall call = true)
    (left : p + leftTotal front ≤ a.length) (right : q + rightTotal front ≤ b.length) :
    performAll ((Policy.ofRule rule : Policy ε α).handler Probe.sink) (front ++ call :: back)
        ⟨⟨a, b, p, q⟩, false⟩ =
      .ok false ⟨⟨a, b, p + leftTotal front, q + rightTotal front⟩, true⟩ := by
  rw [performAll_append, bind_run, rule.performAll_passes drops left right]
  show performAll _ (call :: back) _ = _
  rw [performAll, bind_run, rule.handler_stops keeps]
  rfl

/-- How a merge of `a` and `b` with a probe ends that performs these calls and then ends in this fault, if
there is one. -/
inductive ProbeEnds (rule : SetRule) (plan : Schedule ε) (a b : List α) :
    EStateM.Result (Fault ε) (Probe α) Unit → Prop where
  /-- In front of the first run that the rule keeps. -/
  | stops {front back : List Call} {call : Call} (calls : plan.calls = front ++ call :: back)
      (drops : ∀ call ∈ front, rule.keepsCall call = false) (keeps : rule.keepsCall call = true) :
      ProbeEnds rule plan a b (.ok () ⟨⟨a, b, leftTotal front, rightTotal front⟩, true⟩)
  /-- At the ends of both lists, if the rule drops all of them. -/
  | passes (drops : ∀ call ∈ plan.calls, rule.keepsCall call = false) (faultless : plan.fault = none) :
      ProbeEnds rule plan a b (.ok () ⟨⟨a, b, a.length, b.length⟩, false⟩)
  /-- In the fault, if the rule drops all that comes before it. -/
  | fails {e : Fault ε} {s : Probe α} (drops : ∀ call ∈ plan.calls, rule.keepsCall call = false)
      (fault : plan.fault = some e) : ProbeEnds rule plan a b (.error e s)

theorem run_probe_ends (rule : SetRule) (cmp : Comparison ε κ) (key : α → Except ε κ) (a b : List α) :
    rule.ProbeEnds (schedule cmp key a b) a b
      (Operation.run ⟨key, .ofRule rule⟩ cmp Probe.sink (.start a b)) := by
  have consumes : (Policy.ofRule rule).Consumes (Probe.sink : Sink ε α _) a b _ :=
    Policy.ofRule_consumes rule (Probe.advances a b)
  have walk := consumes.walk (fun place => ⟨place.left, place.right⟩) Inputs.At.shows
  have run : Operation.run ⟨key, .ofRule rule⟩ cmp Probe.sink (.start a b) =
      (do let _ ← (schedule cmp key a b).perform ((Policy.ofRule rule).handler Probe.sink))
        (.start a b) :=
    walk.remainder_eq cmp key ⟨rfl, Nat.zero_le _, Nat.zero_le _⟩
  have covers := schedule_covers cmp key a b
  rw [run, bind_run, Schedule.perform, bind_run, Probe.start]
  rcases exists_first_or_none rule.keepsCall (schedule cmp key a b).calls with
    ⟨front, call, back, calls, drops, keeps⟩ | drops
  · obtain ⟨_, left, right⟩ := covers.around calls
    have stopped := rule.performAll_stops (ε := ε) (a := a) (b := b) (p := 0) (q := 0) back drops keeps
      (by omega) (by omega)
    rw [Nat.zero_add, Nat.zero_add] at stopped
    rw [calls, stopped]
    exact .stops calls drops keeps
  · have left := covers.left
    have right := covers.right
    have passed := rule.performAll_passes (ε := ε) (a := a) (b := b) (p := 0) (q := 0) drops
      (by omega) (by omega)
    rw [passed]
    dsimp only
    rw [if_pos rfl]
    cases fault : (schedule cmp key a b).fault with
    | some e => exact .fails drops fault
    | none =>
      obtain ⟨left, right⟩ := covers.whole fault
      rw [left, right, Nat.zero_add, Nat.zero_add]
      exact .passes drops fault

/-- What a rule keeps of the runs of a merge begins with the first run that it keeps. -/
theorem kept_paired_first (rule : SetRule) {front : List Call} {call : Call} (back : List Call)
    {xs ys : List α} (drops : ∀ call ∈ front, rule.keepsCall call = false)
    (keeps : rule.keepsCall call = true)
    (positive : 0 < call.count) (left : leftTotal front + call.onLeft ≤ xs.length)
    (right : rightTotal front + call.onRight ≤ ys.length) :
    ∃ p ps, paired (call :: back) (xs.drop (leftTotal front)) (ys.drop (rightTotal front)) = p :: ps ∧
      rule.kept (paired (front ++ call :: back) xs ys) = p.item :: rule.kept ps := by
  obtain ⟨p, ps, first⟩ := Call.exists_paired positive left right
  refine ⟨p, _, by rw [paired, first]; rfl, ?_⟩
  have mem : p ∈ call.paired (xs.drop (leftTotal front)) (ys.drop (rightTotal front)) := by
    rw [first]
    exact List.mem_cons_self ..
  have kept : rule.keeps p = true := by rw [rule.keeps_of_mem_paired mem, keeps]
  rw [paired_append, kept_append, rule.kept_paired_nil drops, List.nil_append, paired, first, SetRule.kept,
    List.cons_append, List.filter_cons_of_pos kept]
  rfl

/-- If no comparison fails, a probe notes whether the rule keeps anything. -/
theorem anyOutput_eq (rule : SetRule) (cmp : Comparison ε κ) (key : α → Except ε κ)
    (faultless : (schedule cmp key a b).fault = none) :
    anyOutput cmp ⟨key, .ofRule rule⟩ a b =
      .ok !(rule.kept (paired (schedule cmp key a b).calls a b)).isEmpty := by
  have covers := schedule_covers cmp key a b
  have ends := rule.run_probe_ends cmp key a b
  rw [anyOutput]
  generalize Operation.run ⟨key, .ofRule rule⟩ cmp Probe.sink (.start a b) = answer at ends
  cases ends with
  | @stops front back call calls drops keeps =>
    obtain ⟨positive, left, right⟩ := covers.around calls
    obtain ⟨p, ps, _, kept⟩ := rule.kept_paired_first back drops keeps positive left right
    rw [calls, kept]
    rfl
  | passes drops => rw [rule.kept_paired_nil drops]; rfl
  | fails drops fault => rw [faultless] at fault; cases fault

/-- On two increasing lists a probe notes whether the rule keeps any of their pairings. -/
theorem anyOutput_pairings (rule : SetRule) {cmp : Comparison ε κ} {key : α → Except ε κ}
    {P : κ → Prop} (ordered : cmp.OrderedOn P)
    (ha : IncreasingOn (cmp.on key).less (Comparison.KeyIn key P) a)
    (hb : IncreasingOn (cmp.on key).less (Comparison.KeyIn key P) b) :
    anyOutput cmp ⟨key, .ofRule rule⟩ a b =
      .ok !(rule.kept (pairings (cmp.on key).less a b)).isEmpty := by
  obtain ⟨faultless, whole⟩ := schedule_pairings ordered ha hb
  rw [rule.anyOutput_eq cmp key faultless, whole]

end SetRule

end SortedCollections
