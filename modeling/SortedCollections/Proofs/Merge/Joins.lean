import SortedCollections.Proofs.Merge.Asking

/-!
# Functions that always answer alike

A function may remember what it likes: if what it answers depends on the question alone, an operation
that asks it goes on like the policy that is given the answers, on any target and from any state. So
what is known of the operation is known of the policy, which therefore treats the items of a run one by
one, as a join does.
-/
namespace SortedCollections

variable {ε α β γ κ ν μ σ : Type}

/-- What a walk of a client comes to. -/
def outcome : EStateM.Result ε μ β → Except ε β
  | .ok b _ => .ok b
  | .error e _ => .error e

/-- Each question is answered like this, whatever is remembered. -/
def AnswersAs (asks : β → EStateM ε μ γ) (answer : β → Except ε γ) : Prop :=
  ∀ b memory, outcome (asks b memory) = answer b

theorem answered_answersAs (answer : β → Except ε γ) :
    AnswersAs (μ := μ) (fun b => answered (answer b)) answer := by
  intro b memory
  cases h : answer b <;> simp only [h] <;> rfl

theorem outcome_bind {first : EStateM ε μ β} {second : β → EStateM ε μ γ} {memory : μ}
    {answer : Except ε β} {answers : β → Except ε γ} (does : outcome (first memory) = answer)
    (rest : AnswersAs second answers) :
    outcome ((first >>= second) memory) = answer >>= answers := by
  rw [bind_run, ← does]
  cases first memory with
  | ok b memory => exact rest b memory
  | error e memory => rfl

namespace AnswersAs

/-- Going through a list. -/
theorem filterMapM {asks : β → EStateM ε μ (Option γ)} {answer : β → Except ε (Option γ)}
    (answers : AnswersAs asks answer) : AnswersAs (List.filterMapM asks) (List.filterMapM answer) := by
  intro xs
  induction xs with
  | nil => exact fun _ => rfl
  | cons x xs ih =>
    intro memory
    simp only [List.filterMapM_cons]
    refine outcome_bind (answers x memory) fun made memory => ?_
    cases made with
    | none => exact ih memory
    | some made => exact outcome_bind (ih memory) fun rest memory => rfl

end AnswersAs

/-- The script for a run that only one side has. -/
def OneSided.script (side : OneSided) (passing : Bool → Script ε α Bool) (asking : Script ε α Bool) :
    Script ε α Bool :=
  match side with
  | .pass keep => passing keep
  | .ask => asking

namespace Asking

/-- The policy that is given the answers of a function. -/
def policy (op : Asking ε κ ν μ) (view : PairView ε α κ ν) (f : Policy.JoinFunction ε κ ν) :
    Policy ε α where
  onLeft n := op.onLeft.script (Script.left n) (Policy.joinLeft view f n)
  onRight n := op.onRight.script (Script.right n) (Policy.joinRight view f n)
  onTie := Policy.joinTie view f

/-- What the policy makes of an item that only one side has. -/
def makesOfAlone (view : PairView ε α κ ν) (f : Policy.JoinFunction ε κ ν) (side : OneSided)
    (question : κ → ν → Question κ ν) (item : α) : Except ε (Option α) :=
  match side with
  | .pass keep => .ok (if keep then some item else none)
  | .ask => do
    let (key, value) ← view.read item
    let asked := question key value
    return (← asked.answerOf f).map (view.write asked.key)

/-- What the policy makes of a pairing. -/
def makes (op : Asking ε κ ν μ) (view : PairView ε α κ ν) (f : Policy.JoinFunction ε κ ν) :
    Pairing α → Except ε (Option α)
  | .left x => makesOfAlone view f op.onLeft .leftOnly x
  | .right y => makesOfAlone view f op.onRight .rightOnly y
  | .tie x y => do
    let (key, left) ← view.read x
    let (_, right) ← view.read y
    return (← f key (some left) (some right)).map (view.write key)

variable {op : Asking ε κ ν μ} {view : PairView ε α κ ν} {f : Policy.JoinFunction ε κ ν}
  (sink : Sink ε α σ)

theorem pure_agree (b : β) (s : σ × μ) :
    Agree Beside ((pure b : EStateM (Fault ε) (σ × μ) β) s) ((pure b : Script ε α β).run sink s.1) :=
  .ok rfl

theorem beside_agree (script : Script ε α β) (s : σ × μ) :
    Agree Beside (beside (script.run sink) s) (script.run sink s.1) := by
  rw [beside]
  cases script.run sink s.1 with
  | ok result t => exact .ok rfl
  | error e t => exact .error rfl

theorem client_agree {step : EStateM ε μ β} {answer : Except ε β} {s : σ × μ}
    (answers : outcome (step s.2) = answer) :
    Agree Beside (client step s) ((Script.ask answer : Script ε α β).run sink s.1) := by
  rw [client, ← answers]
  cases step s.2 with
  | ok result memory => exact .ok rfl
  | error e memory => exact .error rfl

/-- One step and then another one. -/
theorem bind_agree {first : EStateM (Fault ε) (σ × μ) β} {script : Script ε α β}
    {second : β → EStateM (Fault ε) (σ × μ) γ} {next : β → Script ε α γ} {s : σ × μ}
    (agree : Agree Beside (first s) (script.run sink s.1))
    (rest : ∀ b s, Agree Beside (second b s) ((next b).run sink s.1)) :
    Agree Beside ((first >>= second) s) ((script >>= next).run sink s.1) := by
  show Agree Beside _ ((script.bind next).run sink s.1)
  rw [Script.run_bind]
  exact agree.bind fun b s t related => by
    cases related
    exact rest b s

variable (answers : AnswersAs op.function (Question.answerOf f))
include answers

theorem put_agree (question : Question κ ν) (s : σ × μ) :
    Agree Beside (op.put view sink question s)
      ((do
        let value ← Script.ask (question.answerOf f)
        Policy.emitIfAny view question.key value).run sink s.1) :=
  bind_agree sink (client_agree sink (answers question s.2)) fun _ s => beside_agree sink _ s

theorem onEach_agree (question : κ → ν → Question κ ν) (items : List α) (s : σ × μ) :
    Agree Beside (op.onEach view sink question items s)
      ((Script.each items fun item => do
        let (key, value) ← Script.ask (view.read item)
        let asked := question key value
        Policy.emitIfAny view asked.key (← Script.ask (asked.answerOf f))).run
          sink s.1) := by
  induction items generalizing s with
  | nil => exact .ok rfl
  | cons item items ih =>
    refine bind_agree sink (bind_agree sink (beside_agree sink _ s) ?_) fun _ => ih
    rintro ⟨key, value⟩ s
    exact put_agree sink answers (question key value) s

theorem onAlone_agree (side : OneSided) (passing : Bool → Script ε α Bool) (taking : Script ε α (List α))
    (question : κ → ν → Question κ ν) (s : σ × μ) :
    Agree Beside (op.onAlone view sink side passing taking question s)
      ((side.script passing do
        Script.each (← taking) fun item => do
          let (key, value) ← Script.ask (view.read item)
          let asked := question key value
          Policy.emitIfAny view asked.key (← Script.ask (asked.answerOf f))
        return true).run sink s.1) := by
  cases side with
  | pass keep => exact beside_agree sink (passing keep) s
  | ask =>
    refine bind_agree sink (beside_agree sink taking s) fun items s => ?_
    exact bind_agree sink (onEach_agree sink answers question items s) fun _ => pure_agree sink true

theorem onTie_agree (s : σ × μ) :
    Agree Beside (op.onTie view sink s) ((Policy.joinTie view f).run sink s.1) := by
  refine bind_agree sink (beside_agree sink (Policy.tiedPairs view) s) ?_
  rintro ⟨⟨key, left⟩, _, right⟩ s
  have agree : Agree Beside ((do op.put view sink ⟨key, some left, some right⟩; return true) s) _ :=
    bind_agree sink (put_agree sink answers _ s) fun _ => pure_agree sink true
  rw [bind_assoc] at agree
  exact agree

/-- An operation goes on like the policy that is given the answers. -/
theorem handler_agree (call : Call) (s : σ × μ) :
    Agree Beside (op.handler view sink call s) ((op.policy view f).handler sink call s.1) := by
  cases call with
  | left n => exact onAlone_agree sink answers op.onLeft _ _ .leftOnly s
  | right n => exact onAlone_agree sink answers op.onRight _ _ .rightOnly s
  | tie => exact onTie_agree sink answers s

omit answers in
/-- What a step adds to the output, without what is remembered. -/
theorem Does.adds {now : Inputs α} {result : List α} {value : β}
    {answer : EStateM.Result (Fault ε) (ListMerge α × μ) β}
    {answer' : EStateM.Result (Fault ε) (ListMerge α) β} {made : EStateM.Result ε μ (List α)}
    (does : Does value now result answer made) (agree : Agree Beside answer answer') :
    Adds value now result answer' (outcome made) := by
  cases made with
  | ok items memory =>
    have done : answer = .ok value (⟨now, result ++ items⟩, memory) := does
    rw [done] at agree
    cases agree with
    | ok related => exact related ▸ rfl
  | error cause memory =>
    obtain ⟨s, failed⟩ := does
    rw [failed] at agree
    cases agree with
    | error related => exact ⟨_, rfl⟩

/-- Such an operation makes of any two lists what the policy makes of them. -/
theorem merge_outcome (cmp : Comparison ε κ) (key : α → Except ε κ) (a b : List α) (memory : μ) :
    outcome (op.merge view cmp key a b memory) =
      SortedCollections.merge cmp ⟨key, op.policy view f⟩ a b := by
  have agree : Agree Beside
      (Engine.remainder cmp key (fun s => ListMerge.sink.inputs s.1) (op.handler view ListMerge.sink)
        (.start a b, memory))
      (Operation.run ⟨key, op.policy view f⟩ cmp ListMerge.sink (.start a b)) :=
    Engine.remainder_forget cmp key ListMerge.toInputs Prod.fst
      (handler_agree ListMerge.sink answers) (_, memory)
  rw [merge, SortedCollections.merge]
  generalize Engine.remainder cmp key _ _ _ = watched, Operation.run _ _ _ _ = run at agree
  cases agree with
  | ok related => cases related; rfl
  | error related => rfl

theorem ofAlone_answersAs (side : OneSided) (question : κ → ν → Question κ ν) :
    AnswersAs (op.ofAlone view side question) (makesOfAlone view f side question) := by
  intro item memory
  cases side with
  | pass keep => rfl
  | ask =>
    refine outcome_bind (answered_answersAs view.read item memory) ?_
    rintro ⟨key, value⟩ memory
    exact outcome_bind (answers (question key value) memory) fun made memory => rfl

/-- A pairing is treated as the policy treats it. -/
theorem ofPairing_answersAs : AnswersAs (op.ofPairing view) (op.makes view f) := by
  intro p memory
  cases p with
  | left x => exact ofAlone_answersAs answers op.onLeft .leftOnly x memory
  | right y => exact ofAlone_answersAs answers op.onRight .rightOnly y memory
  | tie x y =>
    refine outcome_bind (answered_answersAs view.read x memory) ?_
    rintro ⟨key, left⟩ memory
    refine outcome_bind (answered_answersAs view.read y memory) ?_
    rintro ⟨_, right⟩ memory
    exact outcome_bind (answers ⟨key, some left, some right⟩ memory) fun made memory => rfl

/-- The policy treats the items of a run one by one, as the operation does. -/
theorem policy_itemwise (memory : μ) : (op.policy view f).Itemwise (op.makes view f) where
  adds {a b result p q} call left right := by
    have does : Does true _ result _ _ := op.handler_does view call memory left right
    rw [← (ofPairing_answersAs answers).filterMapM _ memory]
    exact does.adds (handler_agree ListMerge.sink answers call _)

end Asking

namespace Policy

/-- What a join makes of an item that only one list has. -/
def joinItem (view : PairView ε α κ ν) (f : κ → ν → Except ε (Option ν)) (item : α) :
    Except ε (Option α) := do
  let (key, value) ← view.read item
  return (← f key value).map (view.write key)

/-- What a join makes of one pairing. -/
def joinPairing (kind : Join) (view : PairView ε α κ ν) (f : JoinFunction ε κ ν) :
    Pairing α → Except ε (Option α)
  | .left x =>
    if kind.coversLeft then joinItem view (fun key left => f key (some left) none) x else .ok none
  | .right y =>
    if kind.coversRight then joinItem view (fun key right => f key none (some right)) y else .ok none
  | .tie x y => do
    let (key, left) ← view.read x
    let (_, right) ← view.read y
    return (← f key (some left) (some right)).map (view.write key)

/-- A join answers the items of a run one by one. -/
theorem join_itemwise (kind : Join) (view : PairView ε α κ ν) (f : JoinFunction ε κ ν) :
    (join kind view f).Itemwise (joinPairing kind view f) := by
  let op : Asking ε κ ν Unit := .join kind fun q => answered (q.answerOf f)
  have policy : op.policy view f = join kind view f := by cases kind <;> rfl
  have pieces : op.makes view f = joinPairing kind view f := by
    funext p
    cases p <;> cases kind <;> rfl
  rw [← policy, ← pieces]
  exact Asking.policy_itemwise (answered_answersAs _) ()

end Policy

end SortedCollections
