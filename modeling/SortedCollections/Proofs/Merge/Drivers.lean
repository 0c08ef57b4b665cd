import SortedCollections.Merge.Asking
import SortedCollections.Merge.Command
import SortedCollections.Proofs.Merge.InPlace
import Mathlib.Data.List.Forall2

/-!
# Targets under any driver

A client can drive a merge target by hand: move its cursors, take items out, push new ones, and merge
what is left, in any order and past any fault. Whatever it does, it cannot tell a merge into a new list
from a merge back into the left list. The mirror of the two is kept by every command, whether it
succeeds or fails, so it holds after any commands, and from it all that is shown follows.
-/
namespace SortedCollections

variable {ε α κ ν μ σ τ γ : Type}

/-- The commands that are steps of every target, or merges. -/
def MergeCommand.isCommon : MergeCommand ε α κ → Bool
  | .finish => false
  | .abort => false
  | _ => true

namespace Driven

/-- The reports on steps made one after the other, each of which starts where the one before has left
the target. -/
def reports (step : γ → EStateM (Fault ε) σ (MergeAnswer α)) (s : σ) : List γ → List (Report ε α σ)
  | [] => []
  | command :: rest =>
    match step command s with
    | .ok answer after => ⟨.ok answer, after⟩ :: reports step after rest
    | .error e after => ⟨.error e, after⟩ :: reports step after rest

/-- The state that steps made one after the other leave behind. -/
def after (step : γ → EStateM (Fault ε) σ (MergeAnswer α)) (s : σ) : List γ → σ
  | [] => s
  | command :: rest =>
    match step command s with
    | .ok _ s => after step s rest
    | .error _ s => after step s rest

theorem runAll_eq_reports (target : Driven ε α σ) (cmp : Comparison ε κ)
    (commands : List (MergeCommand ε α κ)) (s : σ) :
    target.runAll cmp s commands = reports (target.run cmp) s commands := by
  induction commands generalizing s with
  | nil => rfl
  | cons command rest ih =>
    rw [runAll, reports]
    cases target.run cmp command s with
    | ok answer t => exact congrArg _ (ih t)
    | error e t => exact congrArg _ (ih t)

/-- Two reports tell the same, of states that are related. -/
structure SameReport (R : σ → τ → Prop) (report : Report ε α σ) (report' : Report ε α τ) : Prop where
  answer : report.answer = report'.answer
  after : R report.after report'.after

theorem SameReport.imp {R S : σ → τ → Prop} (weaker : ∀ s t, R s t → S s t)
    {report : Report ε α σ} {report' : Report ε α τ} (same : SameReport R report report') :
    SameReport S report report' :=
  ⟨same.answer, weaker _ _ same.after⟩

/-- What every step keeps, a run of steps keeps. -/
theorem reports_agree {R : σ → τ → Prop} {step : γ → EStateM (Fault ε) σ (MergeAnswer α)}
    {step' : γ → EStateM (Fault ε) τ (MergeAnswer α)} {commands : List γ}
    (agree : ∀ command ∈ commands, ∀ s t, R s t → Agree R (step command s) (step' command t))
    {s : σ} {t : τ} (related : R s t) :
    List.Forall₂ (SameReport R) (reports step s commands) (reports step' t commands) ∧
      R (after step s commands) (after step' t commands) := by
  induction commands generalizing s t with
  | nil => exact ⟨.nil, related⟩
  | cons command rest ih =>
    have here := agree command List.mem_cons_self s t related
    have ih := @ih fun command mem => agree command (List.mem_cons_of_mem _ mem)
    rw [reports, reports, after, after]
    generalize step command s = answer, step' command t = answer' at here
    cases here with
    | ok related => exact ⟨.cons ⟨rfl, related⟩ (ih related).1, (ih related).2⟩
    | error related => exact ⟨.cons ⟨rfl, related⟩ (ih related).1, (ih related).2⟩

/-- Both targets show the same output so far, the same items to come, and the same right cursor; and
the regions of the buffer are in order. -/
structure ShowsSame (s : ListMerge α) (t : InPlaceMerge α) : Prop where
  written : t.buffer.written = s.result
  unread : t.buffer.unread = s.left.drop s.i
  cursor : t.j = s.j
  coherent : t.buffer.Coherent

theorem showsSame_of_mirrors {saved : List α} {s : ListMerge α} {t : InPlaceMerge α}
    (mirrors : Mirrors saved s t) : ShowsSame s t := by
  obtain ⟨gap, buffer⟩ := mirrors.buffer
  refine ⟨?_, ?_, mirrors.cursor, ?_⟩
  · rw [buffer, GapBuffer.written_ofRegions]
  · rw [buffer, GapBuffer.unread_ofRegions]
    rfl
  · exact (GapBuffer.coherent_iff _).mpr ⟨_, _, _, buffer⟩

/-- Asking for more items than there are left is refused, and leaves the target as it is. -/
structure RefusesBeyond (target : Driven ε α σ) (cmp : Comparison ε κ) (inputs : Inputs α) (s : σ) :
    Prop where
  advanceLeft : ∀ n take, inputs.left.length < inputs.i + n →
    target.run cmp (.advanceLeft n take) s = .error .cursorOutOfBounds s
  takeLeft : ∀ n, inputs.left.length < inputs.i + n →
    target.run cmp (.takeLeft n) s = .error .cursorOutOfBounds s
  advanceRight : ∀ n take, inputs.right.length < inputs.j + n →
    target.run cmp (.advanceRight n take) s = .error .cursorOutOfBounds s
  takeRight : ∀ n, inputs.right.length < inputs.j + n →
    target.run cmp (.takeRight n) s = .error .cursorOutOfBounds s

theorem map_run_error {β : Type} {f : β → γ} {step : EStateM (Fault ε) σ β} {s t : σ} {e : Fault ε}
    (failed : step s = .error e t) : (f <$> step) s = .error e t := by
  show EStateM.map f step s = _
  rw [EStateM.map, failed]

theorem stretch_eq_error {items : List α} {cursor n : Nat} (beyond : items.length < cursor + n) :
    (stretch items cursor n : Except (Fault ε) (List α)) = .error .cursorOutOfBounds :=
  if_neg (Nat.not_le.mpr beyond)

theorem list_refusesBeyond (cmp : Comparison ε κ) (s : ListMerge α) :
    list.RefusesBeyond cmp s.toInputs s where
  advanceLeft n take beyond := map_run_error (by
    show ListMerge.advanceLeft n take s = _
    rw [ListMerge.advanceLeft, stretch_eq_error beyond])
  takeLeft n beyond := map_run_error (by
    show ListMerge.takeLeft n s = _
    rw [ListMerge.takeLeft, stretch_eq_error beyond])
  advanceRight n take beyond := map_run_error (by
    show ListMerge.advanceRight n take s = _
    rw [ListMerge.advanceRight, stretch_eq_error beyond])
  takeRight n beyond := map_run_error (by
    show ListMerge.takeRight n s = _
    rw [ListMerge.takeRight, stretch_eq_error beyond])

/-- A target in place whose state mirrors that of a list refuses the same. -/
theorem inPlace_refusesBeyond [Inhabited α] (cmp : Comparison ε κ) {saved : List α} {s : ListMerge α}
    {t : InPlaceMerge α} (mirrors : Mirrors saved s t) : inPlace.RefusesBeyond cmp s.toInputs t := by
  have refused {β : Type} {n : Nat} {step : GapBuffer.Step ε α β}
      (beyond : s.left.length < s.i + n) :
      InPlaceMerge.reading n step t = .error .cursorOutOfBounds t :=
    if_neg (mt (mirrors.room n).mp (Nat.not_le.mpr beyond))
  have beyondRight {n : Nat} (beyond : s.right.length < s.j + n) :
      t.right.length < t.j + n := by
    rwa [mirrors.right, mirrors.cursor]
  constructor
  · intro n take beyond
    refine map_run_error ?_
    show InPlaceMerge.advanceLeft n take t = _
    rw [InPlaceMerge.advanceLeft, bind_run, refused beyond]
  · intro n beyond
    exact map_run_error (refused beyond)
  · intro n take beyond
    refine map_run_error ?_
    show InPlaceMerge.advanceRight n take t = _
    rw [InPlaceMerge.advanceRight, stretch_eq_error (beyondRight beyond)]
  · intro n beyond
    refine map_run_error ?_
    show InPlaceMerge.takeRight n t = _
    rw [InPlaceMerge.takeRight, stretch_eq_error (beyondRight beyond)]

theorem map_run_agree {β : Type} {R : σ → τ → Prop} {f : β → γ} {step : EStateM (Fault ε) σ β}
    {step' : EStateM (Fault ε) τ β} {s : σ} {t : τ} (agree : Agree R (step s) (step' t)) :
    Agree R ((f <$> step) s) ((f <$> step') t) := by
  show Agree R (EStateM.map f step s) (EStateM.map f step' t)
  rw [EStateM.map, EStateM.map]
  generalize step s = answer, step' t = answer' at agree
  cases agree with
  | ok related => exact .ok related
  | error related => exact .error related

variable [Inhabited α]

/-- What one command keeps. -/
theorem run_agree (cmp : Comparison ε κ) {command : MergeCommand ε α κ}
    (common : command.isCommon = true) {saved : List α} {s : ListMerge α} {t : InPlaceMerge α}
    (mirrors : Mirrors saved s t) :
    Agree (Mirrors saved) (list.run cmp command s) (inPlace.run cmp command t) := by
  cases command with
  | advanceLeft n take => exact map_run_agree (mirrors.advanceLeft n take)
  | advanceRight n take => exact map_run_agree (mirrors.advanceRight n take)
  | takeLeft n => exact map_run_agree (mirrors.takeLeft n)
  | takeRight n => exact map_run_agree (mirrors.takeRight n)
  | push item => exact (mirrors.push item).bind fun _ _ _ mirrors => .ok mirrors
  | merge operation =>
    exact (operation.run_agree cmp mirrors).bind fun _ _ _ mirrors => .ok mirrors
  | finish => cases common
  | abort => cases common

end Driven

namespace Asking

variable {R : σ → τ → Prop} {s : σ × μ} {t : τ × μ} {β : Type}

/-- The targets are related, and what is remembered is the same. -/
abbrev Alike (R : σ → τ → Prop) (s : σ × μ) (t : τ × μ) : Prop := R s.1 t.1 ∧ s.2 = t.2

theorem beside_alike {step : EStateM (Fault ε) σ β} {step' : EStateM (Fault ε) τ β}
    (agree : Agree R (step s.1) (step' t.1)) (same : s.2 = t.2) :
    Agree (Alike R) (beside step s) (beside step' t) := by
  rw [beside, beside]
  generalize step s.1 = answer, step' t.1 = answer' at agree
  cases agree with
  | ok related => exact .ok ⟨related, same⟩
  | error related => exact .error ⟨related, same⟩

theorem client_alike (step : EStateM ε μ β) (alike : Alike R s t) :
    Agree (Alike R) (client step s) (client step t) := by
  rw [client, client, alike.2]
  cases step t.2 with
  | ok result memory => exact .ok ⟨alike.1, rfl⟩
  | error e memory => exact .error ⟨alike.1, rfl⟩

variable {sink : Sink ε α σ} {sink' : Sink ε α τ} (agrees : sink.Agrees R sink')
  (op : Asking ε κ ν μ) (view : PairView ε α κ ν)
include agrees

theorem script_alike (script : Script ε α β) (alike : Alike R s t) :
    Agree (Alike R) (beside (script.run sink) s) (beside (script.run sink') t) :=
  beside_alike (Script.run_agree agrees script alike.1) alike.2

theorem put_alike (question : Question κ ν) (alike : Alike R s t) :
    Agree (Alike R) (op.put view sink question s) (op.put view sink' question t) :=
  (client_alike _ alike).bind fun _ _ _ alike => script_alike agrees _ alike

theorem onEach_alike (question : κ → ν → Question κ ν) (items : List α) (alike : Alike R s t) :
    Agree (Alike R) (op.onEach view sink question items s)
      (op.onEach view sink' question items t) := by
  induction items generalizing s t with
  | nil => exact .ok alike
  | cons item items ih =>
    refine Agree.bind ?_ fun _ _ _ alike => ih alike
    exact (script_alike agrees _ alike).bind fun _ _ _ alike => put_alike agrees op view _ alike

theorem onAlone_alike (side : OneSided) (passing : Bool → Script ε α Bool)
    (taking : Script ε α (List α)) (question : κ → ν → Question κ ν) (alike : Alike R s t) :
    Agree (Alike R) (op.onAlone view sink side passing taking question s)
      (op.onAlone view sink' side passing taking question t) := by
  cases side with
  | pass keep => exact script_alike agrees _ alike
  | ask =>
    refine (script_alike agrees _ alike).bind fun items _ _ alike => ?_
    exact (onEach_alike agrees op view question items alike).bind fun _ _ _ alike => .ok alike

/-- An operation with a memory answers every call alike on targets that take every step alike. -/
theorem handler_alike (call : Call) (alike : Alike R s t) :
    Agree (Alike R) (op.handler view sink call s) (op.handler view sink' call t) := by
  cases call with
  | left n => exact onAlone_alike agrees op view _ _ _ _ alike
  | right n => exact onAlone_alike agrees op view _ _ _ _ alike
  | tie =>
    refine (script_alike agrees _ alike).bind fun pairs _ _ alike => ?_
    exact (put_alike agrees op view _ alike).bind fun _ _ _ alike => .ok alike

end Asking

/-- A command to a target with a memory beside it: one that leaves the memory alone, or a merge by an
operation whose function remembers. -/
inductive RememberingCommand (ε α κ ν μ : Type) where
  | plain (command : MergeCommand ε α κ)
  | asking (key : α → Except ε κ) (view : PairView ε α κ ν) (operation : Asking ε κ ν μ)

def RememberingCommand.isCommon : RememberingCommand ε α κ ν μ → Bool
  | plain command => command.isCommon
  | asking _ _ _ => true

namespace Driven

def runRemembering (target : Driven ε α σ) (cmp : Comparison ε κ) :
    RememberingCommand ε α κ ν μ → EStateM (Fault ε) (σ × μ) (MergeAnswer α)
  | .plain command => Asking.beside (target.run cmp command)
  | .asking key view operation => do
    Engine.remainder cmp key (fun s => target.sink.inputs s.1) (operation.handler view target.sink)
    return .done

variable [Inhabited α]

theorem runRemembering_agree (cmp : Comparison ε κ) {command : RememberingCommand ε α κ ν μ}
    (common : command.isCommon = true) {saved : List α} {s : ListMerge α × μ}
    {t : InPlaceMerge α × μ} (alike : Asking.Alike (Mirrors saved) s t) :
    Agree (Asking.Alike (Mirrors saved)) (list.runRemembering cmp command s)
      (inPlace.runRemembering cmp command t) := by
  cases command with
  | plain command => exact Asking.beside_alike (run_agree cmp common alike.1) alike.2
  | asking key view operation =>
    refine Agree.bind ?_ fun _ _ _ alike => .ok alike
    exact Engine.remainder_agree cmp key (fun _ _ alike => alike.1.shown)
      (fun call _ _ alike =>
        Asking.handler_alike (Mirrors.agrees saved) operation view call alike) alike

/-- A merge into a new list and a merge back into the left list cannot be told apart by any commands
that both have. Each command gives the same answer or the same fault, and after each one, failed ones
included, both show the same output, the same items to come and the same right cursor. Wherever they
have come to, asking for more than is left is refused by both and changes neither. All this holds, too,
if operations ask functions that remember, which are then told the same and remember the same. -/
theorem targets_indistinguishable (cmp : Comparison ε κ) (left right : List α) :
    (∀ commands : List (MergeCommand ε α κ), (∀ command ∈ commands, command.isCommon = true) →
      List.Forall₂ (SameReport ShowsSame) (list.runAll cmp (.start left right) commands)
        (inPlace.runAll cmp (.start left right) commands) ∧
      let s := after (list.run cmp) (.start left right) commands
      let t := after (inPlace.run cmp) (.start left right) commands
      list.RefusesBeyond cmp s.toInputs s ∧ inPlace.RefusesBeyond cmp s.toInputs t) ∧
    ∀ (ν μ : Type) (memory : μ) (commands : List (RememberingCommand ε α κ ν μ)),
      (∀ command ∈ commands, command.isCommon = true) →
      List.Forall₂ (SameReport fun s t => ShowsSame s.1 t.1 ∧ s.2 = t.2)
        (reports (list.runRemembering cmp) (.start left right, memory) commands)
        (reports (inPlace.runRemembering cmp) (.start left right, memory) commands) := by
  constructor
  · intro commands common
    obtain ⟨same, mirrors⟩ := reports_agree
      (fun command mem _ _ => run_agree cmp (common command mem)) (Mirrors.start left right)
    rw [runAll_eq_reports, runAll_eq_reports]
    refine ⟨same.imp fun _ _ same => same.imp fun _ _ => showsSame_of_mirrors, ?_⟩
    exact ⟨list_refusesBeyond cmp _, inPlace_refusesBeyond cmp mirrors⟩
  · intro ν μ memory commands common
    have start : Asking.Alike (Mirrors left) (ListMerge.start left right, memory)
        (InPlaceMerge.start left right, memory) := ⟨Mirrors.start left right, rfl⟩
    have same := (reports_agree
      (fun command mem _ _ => runRemembering_agree cmp (common command mem)) start).1
    exact same.imp fun _ _ same => same.imp fun _ _ alike => ⟨showsSame_of_mirrors alike.1, alike.2⟩

/-- A list merged with itself: an item is pushed, one is taken out, too many are asked for, and a join
that fails at its last key is stopped halfway before the driver goes on. Then the same join by a function
that writes down what it is asked. -/
theorem failed_join_indistinguishable :
    let cmp : Comparison String Nat := .ofDecision (fun a b => a < b) (fun a b => a == b)
    let sums : Policy.JoinFunction String Nat Nat := fun key left right =>
      if key = 3 then .error "no sum" else .ok (left.bind fun x => right.map (x + ·))
    let join : Operation String (Nat × Nat) Nat := ⟨fun item => .ok item.1, .join .outer .plain sums⟩
    let items := [(1, 10), (2, 20), (3, 30)]
    let commands : List (MergeCommand String (Nat × Nat) Nat) :=
      [.push (0, 7), .takeLeft 1, .advanceLeft 3 true, .merge join, .advanceRight 1 true]
    let remembering : List (RememberingCommand String (Nat × Nat) Nat Nat (List (Question Nat Nat))) :=
      [.plain (.push (0, 7)), .asking join.key .plain (.join .outer (Asking.noting sums)),
        .plain (.advanceRight 1 true)]
    (∀ command ∈ commands, command.isCommon = true) ∧
      (∀ command ∈ remembering, command.isCommon = true) ∧
      List.Forall₂ (SameReport ShowsSame) (list.runAll cmp (.start items items) commands)
        (inPlace.runAll cmp (.start items items) commands) ∧
      List.Forall₂ (SameReport fun s t => ShowsSame s.1 t.1 ∧ s.2 = t.2)
        (reports (list.runRemembering cmp) (.start items items, []) remembering)
        (reports (inPlace.runRemembering cmp) (.start items items, []) remembering) := by
  intro cmp sums join items commands remembering
  have common : ∀ command ∈ commands, command.isCommon = true := by
    simp [commands, MergeCommand.isCommon]
  have common' : ∀ command ∈ remembering, command.isCommon = true := by
    simp [remembering, RememberingCommand.isCommon, MergeCommand.isCommon]
  have indistinguishable := targets_indistinguishable cmp items items
  exact ⟨common, common', (indistinguishable.1 commands common).1,
    indistinguishable.2 _ _ [] remembering common'⟩

end Driven

end SortedCollections
