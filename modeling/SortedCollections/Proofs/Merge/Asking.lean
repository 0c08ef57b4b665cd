import SortedCollections.Merge.Asking
import SortedCollections.Proofs.Merge.Rules

/-!
# What functions are asked

An operation that asks a function treats the items of both lists one by one, in the order of their
pairings, and the function goes from one question to the next with what it remembers. So a merge of two
increasing lists is one walk through their pairings, and what can be said of that walk, in which order
the questions come, how often and up to which failure, holds of the merge.
-/
namespace SortedCollections

variable {ε α β γ κ ν μ σ : Type}

/-- An answer that needs no memory. -/
def answered : Except ε β → EStateM ε μ β
  | .ok b => pure b
  | .error e => throw e

/-- A walk of a client, whose failure is a fault of the merge. -/
def raising (step : EStateM ε μ β) : EStateM (Fault ε) μ β := fun memory =>
  match step memory with
  | .ok b memory => .ok b memory
  | .error e memory => .error (.raised e) memory

namespace Asking

section Items

variable (op : Asking ε κ ν μ) (view : PairView ε α κ ν)

/-- What becomes of an item that only one side has. -/
def ofAlone (side : OneSided) (question : κ → ν → Question κ ν) (item : α) : EStateM ε μ (Option α) :=
  match side with
  | .pass keep => pure (if keep then some item else none)
  | .ask => do
    let (key, value) ← answered (view.read item)
    return (← op.function (question key value)).map (view.write (question key value).key)

/-- What becomes of a pairing. -/
def ofPairing : Pairing α → EStateM ε μ (Option α)
  | .left x => op.ofAlone view op.onLeft .leftOnly x
  | .right y => op.ofAlone view op.onRight .rightOnly y
  | .tie x y => do
    let (key, left) ← answered (view.read x)
    let (_, right) ← answered (view.read y)
    return (← op.function ⟨key, some left, some right⟩).map (view.write key)

end Items

/-- A step of a merge into a new list gives this result, moves the cursors to `now`, and adds to the
output what a walk of the client gives, which also says what is remembered; or it fails as that walk. -/
def Does (value : β) (now : Inputs α) (result : List α)
    (answer : EStateM.Result (Fault ε) (ListMerge α × μ) β) : EStateM.Result ε μ (List α) → Prop
  | .ok items memory => answer = .ok value (⟨now, result ++ items⟩, memory)
  | .error cause memory => ∃ s, answer = .error (.raised cause) (s, memory)

variable {now later : Inputs α} {result : List α} {s : ListMerge α} {memory : μ} {value : β} {value' : γ}

theorem Does.bind {first : EStateM (Fault ε) (ListMerge α × μ) β}
    {second : β → EStateM (Fault ε) (ListMerge α × μ) γ} {made made' : EStateM ε μ (List α)}
    (does : Does value now result (first (s, memory)) (made memory))
    (rest : ∀ items memory, Does value' later (result ++ items)
      (second value (⟨now, result ++ items⟩, memory)) (made' memory)) :
    Does value' later result ((first >>= second) (s, memory))
      ((do return (← made) ++ (← made')) memory) := by
  rw [bind_run, bind_run]
  cases madeFirst : made memory with
  | error cause memory' =>
    rw [madeFirst] at does
    obtain ⟨t, failed⟩ := does
    exact ⟨t, by rw [failed]⟩
  | ok items memory' =>
    rw [madeFirst] at does
    have done : first (s, memory) = .ok value (⟨now, result ++ items⟩, memory') := does
    have next := rest items memory'
    rw [done]
    dsimp only
    rw [bind_run]
    cases madeSecond : made' memory' with
    | error cause memory'' =>
      rw [madeSecond] at next
      exact next
    | ok items' memory'' =>
      rw [madeSecond] at next
      have done' : second value (⟨now, result ++ items⟩, memory') =
          .ok value' (⟨later, result ++ items ++ items'⟩, memory'') := next
      exact done'.trans (by rw [List.append_assoc])

/-- A step of the target alone. -/
theorem beside_does {step : EStateM (Fault ε) (ListMerge α) β} {items : List α}
    (adds : Adds value now result (step s) (.ok items)) :
    Does value now result (beside step (s, memory)) ((pure items : EStateM ε μ _) memory) := by
  have done : step s = .ok value ⟨now, result ++ items⟩ := adds
  show _ = _
  rw [beside, done]

theorem done_does (value : β) :
    Does value now result ((pure value : EStateM (Fault ε) _ β) (⟨now, result⟩, memory))
      ((pure [] : EStateM ε μ _) memory) := by
  show _ = _
  rw [List.append_nil]
  rfl

/-- A step of the client alone. -/
theorem client_bind_does (step : EStateM ε μ β) {second : β → EStateM (Fault ε) (ListMerge α × μ) γ}
    {made : β → EStateM ε μ (List α)}
    (rest : ∀ b memory, Does value' now result (second b (s, memory)) (made b memory)) :
    Does value' now result ((client step >>= second) (s, memory)) ((step >>= made) memory) := by
  rw [bind_run, bind_run, client]
  cases step memory with
  | ok b memory => exact rest b memory
  | error e memory => exact ⟨s, rfl⟩

theorem ask_bind_does (answer : Except ε β) {second : β → EStateM (Fault ε) (ListMerge α × μ) γ}
    {made : β → EStateM ε μ (List α)}
    (rest : ∀ b, Does value' now result (second b (s, memory)) (made b memory)) :
    Does value' now result
      ((beside ((Script.ask answer).run ListMerge.sink) >>= second) (s, memory))
      ((answered answer >>= made) memory) := by
  cases answer with
  | ok b => exact rest b
  | error cause => exact ⟨s, rfl⟩

/-- A step of the target that only hands something out. -/
theorem beside_bind_does {step : EStateM (Fault ε) (ListMerge α) β} {t : ListMerge α}
    {second : β → EStateM (Fault ε) (ListMerge α × μ) γ} {made : EStateM ε μ (List α)} {b : β}
    (answer : step s = .ok b t) (rest : Does value' now result (second b (t, memory)) (made memory)) :
    Does value' now result ((beside step >>= second) (s, memory)) (made memory) := by
  rw [bind_run, beside, answer]
  exact rest

/-- A script of the target, piece by piece. -/
theorem beside_run_bind (first : Script ε α β) (second : β → Script ε α γ) (sink : Sink ε α σ) :
    (beside ((first >>= second).run sink) : EStateM (Fault ε) (σ × μ) γ) =
      beside (first.run sink) >>= fun b => beside ((second b).run sink) := by
  funext s
  have run : (first >>= second).run sink = (do let b ← first.run sink; (second b).run sink) :=
    Script.run_bind sink first second
  rw [bind_run, beside, beside, run, bind_run]
  cases first.run sink s.1 <;> rfl

theorem beside_run_pure (value : β) (sink : Sink ε α σ) :
    (beside ((pure value : Script ε α β).run sink) : EStateM (Fault ε) (σ × μ) β) = pure value := rfl

/-- What comes after a walk and adds nothing. -/
theorem Does.returns {step : EStateM (Fault ε) (ListMerge α × μ) β} {made : EStateM ε μ (List α)}
    (does : Does value now result (step (s, memory)) (made memory)) (value' : γ) :
    Does value' now result ((do let _ ← step; return value') (s, memory)) (made memory) := by
  rw [bind_run]
  cases walked : made memory with
  | error cause memory' =>
    rw [walked] at does
    obtain ⟨t, failed⟩ := does
    exact ⟨t, by rw [failed]⟩
  | ok items memory' =>
    rw [walked] at does
    have done : step (s, memory) = .ok value (⟨now, result ++ items⟩, memory') := does
    show _ = _
    rw [done]
    rfl

variable (op : Asking ε κ ν μ) (view : PairView ε α κ ν)

theorem put_does (question : Question κ ν) :
    Does () now result (op.put view ListMerge.sink question (⟨now, result⟩, memory))
      ((do return ((← op.function question).map (view.write question.key)).toList) memory) := by
  refine client_bind_does _ fun value memory => beside_does ?_
  cases value with
  | none =>
    show _ = _
    rw [Option.map_none, Option.toList_none, List.append_nil]
    rfl
  | some value => rfl

theorem onEach_does (question : κ → ν → Question κ ν) (items : List α) :
    Does () now result (op.onEach view ListMerge.sink question items (⟨now, result⟩, memory))
      (items.filterMapM (op.ofAlone view .ask question) memory) := by
  induction items generalizing result memory with
  | nil => exact done_does ()
  | cons item items ih =>
    have whole : (item :: items).filterMapM (op.ofAlone view .ask question) =
        do return (← [item].filterMapM (op.ofAlone view .ask question)) ++
          (← items.filterMapM (op.ofAlone view .ask question)) :=
      filterMapM_append _ [item] items
    have first : op.onEach view ListMerge.sink question (item :: items) =
        (do
          let (key, value) ← beside ((Script.ask (view.read item)).run ListMerge.sink)
          op.put view ListMerge.sink (question key value)) >>= fun _ =>
            op.onEach view ListMerge.sink question items := rfl
    rw [whole, first]
    refine Does.bind (?_ : Does () now result _ _) fun made memory => ih
    rw [filterMapM_single, ofAlone, bind_assoc]
    refine ask_bind_does _ ?_
    rintro ⟨key, value⟩
    have next : Does () now result
        (op.put view ListMerge.sink (question key value) (⟨now, result⟩, memory)) _ :=
      op.put_does view (question key value)
    simpa only [bind_assoc, pure_bind] using next

theorem onAlone_does (side : OneSided) {passing : Bool → Script ε α Bool}
    {taking : Script ε α (List α)} (question : κ → ν → Question κ ν) {items : List α}
    (passed : ∀ keep, Adds true now result ((passing keep).run ListMerge.sink s)
      (.ok (items.filter fun _ => keep)))
    (taken : taking.run ListMerge.sink s = .ok items ⟨now, result⟩) :
    Does true now result
      (op.onAlone view ListMerge.sink side passing taking question (s, memory))
      (items.filterMapM (op.ofAlone view side question) memory) := by
  cases side with
  | pass keep =>
    have walk : items.filterMapM (op.ofAlone view (.pass keep) question) =
        pure (items.filter fun _ => keep) := filterMapM_pass keep items
    rw [walk]
    exact beside_does (passed keep)
  | ask => exact beside_bind_does taken ((op.onEach_does view question items).returns true)

variable {a b : List α} {p q : Nat}

theorem run_leftItems_of_le {n : Nat} (room : p + n ≤ a.length) :
    (Script.leftItems n : Script ε α _).run ListMerge.sink ⟨⟨a, b, p, q⟩, result⟩ =
      .ok ((a.drop p).take n) ⟨⟨a, b, p + n, q⟩, result⟩ := by
  rw [Script.run_leftItems]
  simp only [ListMerge.sink, ListMerge.takeLeft, stretch_of_le room]

theorem run_rightItems_of_le {n : Nat} (room : q + n ≤ b.length) :
    (Script.rightItems n : Script ε α _).run ListMerge.sink ⟨⟨a, b, p, q⟩, result⟩ =
      .ok ((b.drop q).take n) ⟨⟨a, b, p, q + n⟩, result⟩ := by
  rw [Script.run_rightItems]
  simp only [ListMerge.sink, ListMerge.takeRight, stretch_of_le room]

theorem onTie_does (left : p + 1 ≤ a.length) (right : q + 1 ≤ b.length) :
    Does true ⟨a, b, p + 1, q + 1⟩ result (op.onTie view ListMerge.sink (⟨⟨a, b, p, q⟩, result⟩, memory))
      ((Call.tie.paired (a.drop p) (b.drop q)).filterMapM (op.ofPairing view) memory) := by
  obtain ⟨x, headA⟩ := exists_take_one left
  obtain ⟨y, headB⟩ := exists_take_one right
  have pairing : Call.tie.paired (a.drop p) (b.drop q) = [.tie x y] := by
    rw [Call.paired, headA, headB]
    rfl
  rw [pairing, filterMapM_single, ofPairing, onTie, Policy.tiedPairs]
  simp only [beside_run_bind, bind_assoc]
  refine beside_bind_does (run_leftItems_of_le left) ?_
  rw [headA]
  refine ask_bind_does (view.read x) ?_
  rintro ⟨key, value⟩
  refine beside_bind_does (run_rightItems_of_le right) ?_
  rw [headB]
  refine ask_bind_does (view.read y) ?_
  rintro ⟨_, value'⟩
  have next : Does () _ result (op.put view ListMerge.sink _ (⟨⟨a, b, p + 1, q + 1⟩, result⟩, memory)) _ :=
    op.put_does view ⟨key, some value, some value'⟩
  simpa only [bind_assoc, pure_bind, beside_run_pure] using next.returns true

/-- A call answers its pairings one by one. -/
theorem handler_does (call : Call) (memory : μ) (left : p + call.onLeft ≤ a.length)
    (right : q + call.onRight ≤ b.length) :
    Does true ⟨a, b, p + call.onLeft, q + call.onRight⟩ result
      (op.handler view ListMerge.sink call (⟨⟨a, b, p, q⟩, result⟩, memory))
      ((call.paired (a.drop p) (b.drop q)).filterMapM (op.ofPairing view) memory) := by
  cases call with
  | left n =>
    rw [Call.paired, filterMapM_map]
    exact op.onAlone_does view op.onLeft _ (fun keep => SetRule.advanceLeft_adds keep left)
      (run_leftItems_of_le left)
  | right n =>
    rw [Call.paired, filterMapM_map]
    exact op.onAlone_does view op.onRight _ (fun keep => SetRule.advanceRight_adds keep right)
      (run_rightItems_of_le right)
  | tie => exact op.onTie_does view left right

theorem performAll_does (calls : List Call) (memory : μ) (left : p + leftTotal calls ≤ a.length)
    (right : q + rightTotal calls ≤ b.length) :
    Does true ⟨a, b, p + leftTotal calls, q + rightTotal calls⟩ result
      (performAll (op.handler view ListMerge.sink) calls (⟨⟨a, b, p, q⟩, result⟩, memory))
      ((paired calls (a.drop p) (b.drop q)).filterMapM (op.ofPairing view) memory) := by
  induction calls generalizing p q result memory with
  | nil => exact done_does true
  | cons call calls ih =>
    rw [leftTotal_cons] at left ⊢
    rw [rightTotal_cons] at right ⊢
    rw [performAll, paired, filterMapM_append, List.drop_drop, List.drop_drop,
      ← Nat.add_assoc, ← Nat.add_assoc]
    exact (op.handler_does view call memory (by omega) (by omega)).bind fun items memory =>
      ih memory (by omega) (by omega)

theorem walk (a b : List α) :
    Walk (fun s => s.1.toInputs) (op.handler view ListMerge.sink) a b fun s => s.1.toInputs.At a b := by
  refine walk_of_moves fun {s s' p q} call shown left right answer => ?_
  obtain ⟨⟨now, result⟩, memory⟩ := s
  cases shown
  have does : Does true _ result _ _ := op.handler_does view call memory left right
  rw [answer] at does
  cases made : (call.paired (a.drop p) (b.drop q)).filterMapM (op.ofPairing view) memory with
  | error cause memory' =>
    rw [made] at does
    obtain ⟨_, failed⟩ := does
    cases failed
  | ok items memory' =>
    rw [made] at does
    cases does
    rfl

/-- A merge of two increasing lists goes through their pairings. -/
theorem merge_pairings {cmp : Comparison ε κ} {key : α → Except ε κ} {P : κ → Prop}
    (ordered : cmp.OrderedOn P) (ha : IncreasingOn (cmp.on key).less (Comparison.KeyIn key P) a)
    (hb : IncreasingOn (cmp.on key).less (Comparison.KeyIn key P) b) :
    op.merge view cmp key a b =
      raising ((pairings (cmp.on key).less a b).filterMapM (op.ofPairing view)) := by
  funext memory
  obtain ⟨faultless, whole⟩ := schedule_pairings ordered ha hb
  have covers := schedule_covers cmp key a b
  have left : 0 + leftTotal (schedule cmp key a b).calls ≤ a.length := by
    have := covers.left
    omega
  have right : 0 + rightTotal (schedule cmp key a b).calls ≤ b.length := by
    have := covers.right
    omega
  have run : Engine.remainder cmp key (fun s => ListMerge.sink.inputs s.1)
      (op.handler view ListMerge.sink) (.start a b, memory) =
      (do let _ ← (schedule cmp key a b).perform (op.handler view ListMerge.sink))
        (.start a b, memory) :=
    (op.walk view a b).remainder_eq cmp key ⟨rfl, Nat.zero_le _, Nat.zero_le _⟩
  have does : Does true _ [] _ _ := 
    op.performAll_does view (schedule cmp key a b).calls memory left right
  rw [List.drop_zero, List.drop_zero, whole] at does
  rw [merge, run, bind_run, Schedule.perform, bind_run, ListMerge.start, faultless, raising]
  generalize (pairings (cmp.on key).less a b).filterMapM (op.ofPairing view) memory = made at does
  cases made with
  | error cause memory' =>
    obtain ⟨s, failed⟩ := does
    rw [failed]
  | ok items memory' =>
    have done : _ = EStateM.Result.ok true _ := does
    rw [done]
    rfl

end Asking

end SortedCollections
