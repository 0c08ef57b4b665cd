import SortedCollections.Proofs.Session.InPlace

/-!
# Calls on registers

A call of a member, whose arguments are the register itself or values, works on the container that the
register holds: it answers what the member answers, and the register holds what the member leaves.
-/
namespace SortedCollections

namespace Session

/-- The other side of an operation on what a register holds: the register itself or a value. -/
inductive Source where
  | self
  | value (v : Value)

def Source.term (on : String) : Source → Term
  | .self => .register on
  | .value v => .value v

def Source.argument : Source → Argument
  | .self => .self
  | .value v => .value v

variable {registers : Registers} {on : String} {v : Value}

theorem lift_eq_ok {α : Type} {answer : Except (Fault Failure) α} {a : α} :
    Failure.lift answer = .ok a ↔ answer = .ok a := by
  cases answer <;> simp [Failure.lift]

/-- A term for the register itself or a value is read as that. -/
theorem Source.read (held : registers.lookup on = some v) (source : Source) :
    (source.term on).read registers = .ok (source.argument.toValue v) := by
  cases source with
  | self => exact Registers.read_of_lookup held
  | value w => rfl

theorem Source.resolve (held : registers.lookup on = some v) (source : Source) :
    (source.term on).resolve registers (some on) = .ok source.argument := by
  cases source with
  | self =>
    have read : (Term.register on).read registers = .ok v := Source.self.read held
    rw [Source.term, resolve_of_read read, Term.isRegister, beq_self_eq_true]
    rfl
  | value w => rfl

theorem mapM_resolve_sources (held : registers.lookup on = some v) (sources : List Source) :
    (sources.map (Source.term on)).mapM (Term.resolve registers (some on)) =
      .ok (sources.map Source.argument) := by
  induction sources with
  | nil => rfl
  | cons source sources ih =>
    rw [List.map_cons, List.mapM_cons, source.resolve held, ih]
    rfl

theorem resolveAll_sources (held : registers.lookup on = some v) (sources : List Source) :
    resolveAll registers (some on) (sources.map (Source.term on)) [] =
      .ok ⟨sources.map Source.argument, []⟩ := by
  rw [resolveAll, mapM_resolve_sources held]
  rfl

/-- Values that are given by name. -/
theorem resolveAll_named (held : registers.lookup on = some v) (sources : List Source)
    (named : List (String × Value)) :
    resolveAll registers (some on) (sources.map (Source.term on))
        (named.map fun e => (e.1, .value e.2)) =
      .ok ⟨sources.map Source.argument, named.map fun e => (e.1, .value e.2)⟩ := by
  have byName : (named.map fun e => (e.1, Term.value e.2)).mapM
      (fun e => do return (e.1, ← e.2.resolve registers (some on))) =
        (.ok (named.map fun e => (e.1, .value e.2)) : Except Failure _) := by
    induction named with
    | nil => rfl
    | cons e named ih =>
      rw [List.map_cons, List.mapM_cons, ih]
      rfl
  rw [resolveAll, mapM_resolve_sources held]
  exact congrArg (Except.map (Arguments.mk (sources.map Source.argument))) byName

/-- A step that works on the container in a register. -/
theorem onRegister_inside {σ : Type} {wrap : σ → Value} {s t : σ} {step : EStateM Failure σ Value}
    (held : registers.lookup on = some (wrap s)) {member : OnRegister}
    (works : member (wrap s) = inside wrap s step (wrap s)) {result : Value}
    (done : step s = .ok result t) :
    onRegister registers on member = (.ok result, registers.set on (wrap t)) := by
  rw [onRegister_eq held, works, inside, done]

theorem onRegister_inside_failed {σ : Type} {wrap : σ → Value} {s t : σ}
    {step : EStateM Failure σ Value} (held : registers.lookup on = some (wrap s))
    {member : OnRegister} (works : member (wrap s) = inside wrap s step (wrap s)) {e : Failure}
    (failed : step s = .error e t) :
    onRegister registers on member = (.error e, registers.set on (wrap t)) := by
  rw [onRegister_eq held, works, inside, failed]

/-- A call of a member works on the container in its register. -/
theorem run_call {σ : Type} (wrap : σ → Value) {s t : σ} {step : EStateM Failure σ Value}
    (held : registers.lookup on = some (wrap s)) {name : String} {positional : List Term}
    {named : List (String × Term)} {args : Arguments}
    (resolved : resolveAll registers (some on) positional named = .ok args)
    (works : call name args (wrap s) = inside wrap s step (wrap s)) {result : Value}
    (done : step s = .ok result t) :
    run registers (.call on name positional named) = (.ok result, registers.set on (wrap t)) := by
  rw [run, resolved]
  exact onRegister_inside held works done

theorem run_call_failed {σ : Type} (wrap : σ → Value) {s t : σ} {step : EStateM Failure σ Value}
    (held : registers.lookup on = some (wrap s)) {name : String} {positional : List Term}
    {named : List (String × Term)} {args : Arguments}
    (resolved : resolveAll registers (some on) positional named = .ok args)
    (works : call name args (wrap s) = inside wrap s step (wrap s)) {e : Failure}
    (failed : step s = .error e t) :
    run registers (.call on name positional named) = (.error e, registers.set on (wrap t)) := by
  rw [run, resolved]
  exact onRegister_inside_failed held works failed

theorem run_member {σ : Type} (wrap : σ → Value) {s t : σ} {step : EStateM Failure σ Value}
    (held : registers.lookup on = some (wrap s)) {name : String} (sources : List Source)
    (works : call name ⟨sources.map Source.argument, []⟩ (wrap s) = inside wrap s step (wrap s))
    {result : Value} (done : step s = .ok result t) :
    run registers (.call on name (sources.map (Source.term on)) []) =
      (.ok result, registers.set on (wrap t)) :=
  run_call wrap held (resolveAll_sources held sources) works done

theorem run_member_failed {σ : Type} (wrap : σ → Value) {s t : σ} {step : EStateM Failure σ Value}
    (held : registers.lookup on = some (wrap s)) {name : String} (sources : List Source)
    (works : call name ⟨sources.map Source.argument, []⟩ (wrap s) = inside wrap s step (wrap s))
    {e : Failure} (failed : step s = .error e t) :
    run registers (.call on name (sources.map (Source.term on)) []) =
      (.error e, registers.set on (wrap t)) :=
  run_call_failed wrap held (resolveAll_sources held sources) works failed

theorem reading_eq (held : registers.lookup on = some v) (f : Value → Except Failure Value) :
    reading registers on f = (f v, registers) := by
  have read := Registers.read_of_lookup held
  rw [reading, read]
  rfl

/-- Is a value in the container of a register? -/
theorem run_isIn (held : registers.lookup on = some v) {x : Value} {answer : Except Failure Bool}
    (holds : v.holds x = answer) :
    run registers (.combine .isIn (.value x) (.register on)) =
      (do return .bool (← answer), registers) := by
  have read := Registers.read_of_lookup held
  rw [run, Term.read, Term.read, read, ← holds]
  rfl

theorem replacing_ok (held : registers.lookup on = some v) {f : Value → Except Failure Value}
    {w : Value} (done : f v = .ok w) :
    replacing registers on f = (.ok .none, registers.set on w) := by
  have answered : (do f (← registers.read on)) = .ok w := by
    rw [Registers.read_of_lookup held]
    exact done
  simp only [replacing, answered]

theorem replacing_failed (held : registers.lookup on = some v) {f : Value → Except Failure Value}
    {e : Failure} (failed : f v = .error e) : replacing registers on f = (.error e, registers) := by
  have answered : (do f (← registers.read on)) = .error e := by
    rw [Registers.read_of_lookup held]
    exact failed
  simp only [replacing, answered]

open MemberCall

section Steps

variable {σ : Type} {s t : σ}

theorem store_ok (made : σ → Except (Fault Failure) σ) (done : made s = .ok t) :
    (do set (← answer (made (← get))); return .none : MemberCall σ Value) s = .ok .none t := by
  show (do set (← answer (made s)); return .none : MemberCall σ Value) s = _
  rw [done]
  rfl

theorem make_ok (wrap : σ → Value) (made : σ → Except (Fault Failure) σ) (done : made s = .ok t) :
    (do return wrap (← answer (made (← get))) : MemberCall σ Value) s = .ok (wrap t) s := by
  show (do return wrap (← answer (made s)) : MemberCall σ Value) s = _
  rw [done]
  rfl

theorem make_failed (wrap : σ → Value) (made : σ → Except (Fault Failure) σ) {e : Fault Failure}
    (failed : made s = .error e) :
    (do return wrap (← answer (made (← get))) : MemberCall σ Value) s = .error (.ofFault e) s := by
  show (do return wrap (← answer (made s)) : MemberCall σ Value) s = _
  rw [failed]
  rfl

theorem change_ok {step : EStateM (Fault Failure) σ Unit} (done : step s = .ok () t) :
    change step s = .ok .none t := by
  rw [change, done]

theorem change_failed {step : EStateM (Fault Failure) σ Unit} {e : Fault Failure}
    (failed : step s = .error e t) : change step s = .error (.ofFault e) t := by
  rw [change, failed]

end Steps

/-- The member that gives a key of a map a value answers with the one that it had. -/
theorem call_insert {m n : SortedMap Value Value} {key value : Value} {old : Option Value}
    (done : m.insert Value.order key value = .ok (old, n)) :
    MapMembers.call "insert" ⟨[.value key, .value value], []⟩ m = .ok (old.getD .none) n := by
  show (MemberCall.answer (m.insert Value.order key value) >>= _ : MemberCall _ _) _ = _
  rw [done]
  rfl

def runCommands (commands : List Command) (registers : Registers) : Registers :=
  commands.foldl (fun registers command => (run registers command).2) registers

/-- If each call of a program makes of a container what it should, so does the program. -/
theorem runCommands_refine {σ μ β : Type} {wrap : σ → Value} {command : β → Command} {on : String}
    {after : μ → β → μ} {Represents : σ → μ → Prop} {Inside : β → Prop}
    (step : ∀ {registers : Registers} {s : σ} {m : μ} {call : β},
      registers.lookup on = some (wrap s) → Represents s m → Inside call →
        ∃ answer t, run registers (command call) = (answer, registers.set on (wrap t)) ∧
          Represents t (after m call))
    {program : List β} (inside : ∀ call ∈ program, Inside call) {registers : Registers} {s : σ} {m : μ}
    (held : registers.lookup on = some (wrap s)) (represents : Represents s m) :
    ∃ t, runCommands (program.map command) registers = registers.set on (wrap t) ∧
      Represents t (program.foldl after m) := by
  induction program generalizing registers s m with
  | nil => exact ⟨s, (Registers.set_of_lookup held).symm, represents⟩
  | cons call program ih =>
    obtain ⟨insideFirst, insideRest⟩ := List.forall_mem_cons.mp inside
    obtain ⟨answer, t, ran, represents⟩ := step held represents insideFirst
    obtain ⟨u, rest, represents⟩ := ih insideRest (registers.lookup_set on _) represents
    refine ⟨u, ?_, represents⟩
    rw [List.map_cons, runCommands, List.foldl_cons, ran]
    rw [Registers.set_set] at rest
    exact rest

/-- The commands put something into the container in a register. -/
def Puts {σ β : Type} (wrap : σ → Value) (put : σ → β → Except (Fault Failure) σ) (on : String)
    (command : β → Command) : Prop :=
  ∀ (registers : Registers) (s t : σ) (x : β), registers.lookup on = some (wrap s) →
    put s x = .ok t → (run registers (command x)).2 = registers.set on (wrap t)

theorem runCommands_put {σ β : Type} {wrap : σ → Value} {put : σ → β → Except (Fault Failure) σ}
    {on : String} {command : β → Command} (puts : Puts wrap put on command) {xs : List β} {s t : σ}
    (done : xs.foldlM put s = .ok t) (registers : Registers) :
    runCommands (xs.map command) (registers.set on (wrap s)) = registers.set on (wrap t) := by
  induction xs generalizing s with
  | nil =>
    cases done
    rfl
  | cons x xs ih =>
    rw [List.foldlM_cons] at done
    obtain ⟨u, first, rest⟩ := bind_eq_ok.mp done
    rw [List.map_cons, runCommands, List.foldl_cons, puts _ s u x (registers.lookup_set on _) first,
      Registers.set_set]
    exact ih rest

end Session

end SortedCollections
