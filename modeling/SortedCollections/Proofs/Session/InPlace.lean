import SortedCollections.Proofs.Session.Members
import SortedCollections.Proofs.Storage
import SortedCollections.Proofs.Values.Integers

/-!
# Registers changed in place

A command that works in place changes its register to what another command answers, and no other
register; if the other command fails, it fails for the same cause and changes nothing.
-/
namespace SortedCollections

namespace Session

theorem Registers.read_of_lookup {registers : Registers} {name : String} {v : Value}
    (held : registers.lookup name = some v) : registers.read name = .ok v := by
  rw [Registers.read, held]

theorem Registers.set_of_lookup {registers : Registers} {name : String} {v : Value}
    (held : registers.lookup name = some v) : registers.set name v = registers := by
  induction registers with
  | nil => cases held
  | cons first rest ih =>
    obtain ⟨other, w⟩ := first
    rw [Registers.set]
    by_cases same : other = name
    · subst same
      rw [List.lookup_cons_self, Option.some.injEq] at held
      rw [if_pos rfl, held]
    · rw [if_neg same, ih (by rwa [List.lookup_cons, beq_false_of_ne (Ne.symm same)] at held)]

theorem Registers.lookup_set (registers : Registers) (name : String) (v : Value) :
    (registers.set name v).lookup name = some v := by
  induction registers with
  | nil => exact List.lookup_cons_self
  | cons first rest ih =>
    obtain ⟨other, w⟩ := first
    rw [Registers.set]
    by_cases same : other = name
    · rw [if_pos same, List.lookup_cons_self]
    · rw [if_neg same, List.lookup_cons, beq_false_of_ne (Ne.symm same), ih]

theorem Registers.lookup_set_of_ne (registers : Registers) {name other : String}
    (different : other ≠ name) (v : Value) :
    (registers.set name v).lookup other = registers.lookup other := by
  induction registers with
  | nil => rw [Registers.set, List.lookup_cons, beq_false_of_ne different]
  | cons first rest ih =>
    obtain ⟨first, w⟩ := first
    rw [Registers.set]
    by_cases same : first = name
    · subst same
      rw [if_pos rfl, List.lookup_cons, List.lookup_cons, beq_false_of_ne different]
    · rw [if_neg same, List.lookup_cons, List.lookup_cons, ih]

theorem Registers.set_set (registers : Registers) (name : String) (v w : Value) :
    (registers.set name v).set name w = registers.set name w := by
  induction registers with
  | nil => exact if_pos rfl
  | cons first rest ih =>
    obtain ⟨other, u⟩ := first
    simp only [Registers.set]
    by_cases same : other = name
    · rw [if_pos same, if_pos same, Registers.set, if_pos rfl]
    · rw [if_neg same, if_neg same, Registers.set, if_neg same, ih]

/-- One command on a register does in place what another one answers: if the other answers with a
value, the register holds it; if the other fails, so does this one, and no register has changed. In any
case the other command changes nothing, and this one nothing but its register. -/
structure ChangesInPlace (registers : Registers) (on : String)
    (changed made : Except Failure Value × Registers) : Prop where
  kept : made.2 = registers
  replaced : ∀ v, made.1 = .ok v → changed.1 = .ok .none ∧ changed.2.lookup on = some v
  failed : ∀ e, made.1 = .error e → changed = (.error e, registers)
  others : ∀ name, name ≠ on → changed.2.lookup name = registers.lookup name

section
variable {registers : Registers} {on : String} {v : Value}

theorem onRegister_eq (held : registers.lookup on = some v) (step : OnRegister) :
    onRegister registers on step =
      match step v with
      | .ok result v => (.ok result, registers.set on v)
      | .error e v => (.error e, registers.set on v) := by
  have read := Registers.read_of_lookup held
  cases answer : step v <;> simp only [onRegister, read, answer]

/-- A step that only answers changes no register. -/
theorem onRegister_answered (held : registers.lookup on = some v) {step : OnRegister}
    {answer : Except Failure Value}
    (answers : step v = (MonadExcept.ofExcept answer : OnRegister) v) :
    onRegister registers on step = (answer, registers) := by
  rw [onRegister_eq held, answers]
  cases answer with
  | ok w => exact congrArg _ (Registers.set_of_lookup held)
  | error e => exact congrArg _ (Registers.set_of_lookup held)

theorem changesInPlace_onRegister (held : registers.lookup on = some v) {changed made : OnRegister}
    (inPlace : InPlaceOf v (changed v) (made v)) :
    ChangesInPlace registers on (onRegister registers on changed) (onRegister registers on made) := by
  rw [onRegister_eq held, onRegister_eq held]
  have unchanged := Registers.set_of_lookup held
  generalize changed v = left, made v = right at inPlace
  cases inPlace with
  | made w =>
    exact {
      kept := unchanged
      replaced := by
        rintro _ ⟨⟩
        exact ⟨rfl, registers.lookup_set on w⟩
      failed := by
        rintro e ⟨⟩
      others := fun name different => registers.lookup_set_of_ne different w }
  | failed e =>
    exact {
      kept := unchanged
      replaced := by
        rintro w ⟨⟩
      failed := by
        rintro _ ⟨⟩
        exact congrArg _ unchanged
      others := fun name different => registers.lookup_set_of_ne different v }

theorem resolveAll_single (x : Term) :
    resolveAll registers (some on) [x] [] =
      (do return ⟨[← x.resolve registers (some on)], []⟩) := by
  rw [resolveAll, List.mapM_cons, List.mapM_nil]
  cases x.resolve registers (some on) <;> rfl

theorem length_of_resolveAll {positional : List Term} {named : List (String × Term)}
    {args : Arguments} (resolved : resolveAll registers (some on) positional named = .ok args) :
    args.positional.length = positional.length := by
  obtain ⟨given, done, resolved⟩ := bind_eq_ok.mp resolved
  obtain ⟨byName, _, made⟩ := bind_eq_ok.mp resolved
  cases made
  exact length_of_mapM done

theorem resolve_of_read {x : Term} {b : Value} (read : x.read registers = .ok b) :
    x.resolve registers (some on) =
      .ok (if x.isRegister (some on) then .self else .value b) := by
  cases x with
  | function f => cases read
  | _ =>
    rw [Term.resolve, read]
    · rfl
    · rintro f ⟨⟩

theorem isRegister_eq_true (held : registers.lookup on = some v) {x : Term} {b : Value}
    (read : x.read registers = .ok b) (same : x.isRegister (some on) = true) : b = v := by
  cases x with
  | register name =>
    obtain rfl := eq_of_beq same
    rw [Term.read, Registers.read, held] at read
    exact (Except.ok.inj read).symm
  | _ => cases same

/-- A member that works in place does to a register what the other one makes. -/
theorem run_member_inPlace (held : registers.lookup on = some v) {kind : ContainerKind}
    {inPlace new : String} (form : (inPlace, new) ∈ inPlaceForms kind)
    (found : ContainerKind.of? v = some kind) {positional : List Term}
    (single : kind = .sortedSet → positional.length = 1) (named : List (String × Term)) :
    ChangesInPlace registers on (run registers (.call on inPlace positional named))
      (run registers (.call on new positional named)) := by
  refine changesInPlace_onRegister held ?_
  cases resolved : resolveAll registers (some on) positional named with
  | error e => exact .failed e
  | ok args =>
    exact member_inPlace form found fun set => (length_of_resolveAll resolved).trans (single set)

/-- An operator that assigns does to a register what the member makes that goes with it. -/
theorem run_assign_inPlace (held : registers.lookup on = some v) {op : Operator} {new : String}
    (form : (op, new) ∈ assigningForms) {kind : ContainerKind}
    (found : ContainerKind.of? v = some kind) (other : kind ≠ .defaultMap) (ordered : OrderedItems v)
    (x : Term) :
    ChangesInPlace registers on (run registers (.assign op on x))
      (run registers (.call on new [x] [])) := by
  refine changesInPlace_onRegister held ?_
  rw [resolveAll_single]
  cases x.resolve registers (some on) with
  | error e => exact .failed e
  | ok argument => exact assign_inPlace form found other ordered argument

/-- It does what the operator without assignment makes, if that takes the operand. -/
theorem run_operate_inPlace (held : registers.lookup on = some v) {op : Operator} {new : String}
    (form : (op, new) ∈ assigningForms) {kind : ContainerKind}
    (found : ContainerKind.of? v = some kind) (other : kind ≠ .defaultMap) (ordered : OrderedItems v)
    {x : Term} {b : Value} (read : x.read registers = .ok b) (taken : takes v b = true) :
    ChangesInPlace registers on (run registers (.assign op on x))
      (run registers (.combine (.operator op) (.register on) x)) := by
  -- If the operand is the register itself, the member reads it as such and the operator as a value.
  have answered : (MonadExcept.ofExcept (Value.operate op v b) : OnRegister) v =
      call new ⟨[if x.isRegister (some on) then .self else .value b], []⟩ v := by
    rw [operate_eq form taken]
    by_cases same : x.isRegister (some on) = true
    · obtain rfl := isRegister_eq_true held read same
      rw [if_pos same, call_self_eq form taken]
    · rw [if_neg same]
  have called : run registers (.call on new [x] []) = (Value.operate op v b, registers) := by
    refine onRegister_answered held ?_
    rw [answered, resolveAll_single, resolve_of_read read]
    rfl
  have combined : run registers (.combine (.operator op) (.register on) x) =
      (Value.operate op v b, registers) := by
    rw [run, Term.read, Registers.read, held, read]
    rfl
  rw [combined, ← called]
  exact run_assign_inPlace held form found other ordered x

end

end Session

/-- Containers of any items change in place to what the operation that makes a new one makes, or fail
for the same cause and stay as they were. Of several operands of a set the first is merged in first. -/
structure ContainersInPlace (ε α κ ν : Type) [Inhabited α] [Inhabited κ] [Inhabited ν] : Prop where
  sets : ∀ (cmp : Comparison ε α) rule operand s,
    SortedSet.update cmp rule [operand] s = changedTo s (s.merged cmp rule [operand])
  assigned : ∀ (cmp : Comparison ε α) P, cmp.OrderedOn P →
    ∀ rule operand (s : SortedSet α), IncreasingOn cmp.less P s.items →
      SortedSet.assign cmp rule operand s = changedTo s (s.merged cmp rule [operand])
  inTurn : ∀ (cmp : Comparison ε α) rule operand operands s,
    SortedSet.update cmp rule (operand :: operands) s =
      (do SortedSet.update cmp rule [operand]; SortedSet.update cmp rule operands) s
  maps : ∀ (cmp : Comparison ε κ) (rule : MapRule ε κ ν) operand m,
    SortedMap.update cmp rule operand m = changedTo m (m.merged cmp rule operand)
  cofinite : ∀ (cmp : Comparison ε α) rule operand s,
    CofiniteSet.update cmp rule operand s = changedTo s (s.merged cmp rule operand)
  defaults : ∀ (cmp : Comparison ε κ) (eq : ν → ν → Except ε Bool) (f : ν → ν → Except ε ν) other
    (m : DefaultMap κ ν), m.combineInPlace cmp eq f other =
      changedTo m (m.combine cmp eq f (other.getD m))

namespace Session

/-- What a session does in place to a register that holds a container. -/
structure RegisterInPlace (registers : Registers) (on : String) (v : Value) : Prop where
  /-- The members, by the kind of container. Those of sets take one operand here. -/
  members : ∀ kind inPlace new, (inPlace, new) ∈ inPlaceForms kind →
    ContainerKind.of? v = some kind →
    ∀ (positional : List Term) named, (kind = .sortedSet → positional.length = 1) →
      ChangesInPlace registers on (run registers (.call on inPlace positional named))
        (run registers (.call on new positional named))
  /-- The operators that assign, which take more operands than those that do not. -/
  operators : ∀ kind, ContainerKind.of? v = some kind → kind ≠ .defaultMap → OrderedItems v →
    ∀ op new, (op, new) ∈ assigningForms → ∀ x : Term,
      ChangesInPlace registers on (run registers (.assign op on x))
        (run registers (.call on new [x] [])) ∧
      ∀ b, x.read registers = .ok b → takes v b = true →
        ChangesInPlace registers on (run registers (.assign op on x))
          (run registers (.combine (.operator op) (.register on) x))
  /-- Several operands of a set are merged in as by one call each. -/
  operands : ∀ items, v = .sortedSet items → ∀ name ∈ variadicForms, ∀ x xs,
    call name ⟨x :: xs, []⟩ v = (do let _ ← call name ⟨[x], []⟩; call name ⟨xs, []⟩) v
  /-- So are a map and then the entries that are given by name. -/
  entries : ∀ entries, v = .sortedMap entries → ∀ x named,
    call "update" ⟨[x], named⟩ v =
      (do
        let _ ← call "union_update" ⟨[x], []⟩
        if named.isEmpty then
          return Value.none
        else
          call "union_update" ⟨[.value (.dict (namedEntries v named))], []⟩) v

/-- The operations in place of sets and maps agree with those that make a new container, and change
nothing if they fail: as operations on values, on containers that may share their lists, and on the
registers of a session, which share nothing. -/
theorem in_place_operations_agree (ε α κ ν : Type) [Inhabited α] [Inhabited κ] [Inhabited ν]
    {registers : Registers} {on : String} {v : Value} (held : registers.lookup on = some v) :
    ContainersInPlace ε α κ ν ∧ SharedInPlace ε α κ ν ∧ RegisterInPlace registers on v := by
  refine ⟨?_, sharedInPlace ε α κ ν, ?_⟩
  · exact {
      sets := fun _ rule operand s => SortedSet.update_single rule operand s
      assigned := fun _ _ ordered rule operand _ kept =>
        SortedSet.assign_eq ordered rule operand kept
      inTurn := fun _ rule operand operands s => by
        rw [SortedSet.update_cons, bind_run, bind_run, SortedSet.updateOne_eq, SortedSet.update_single]
      maps := fun _ rule operand m => SortedMap.update_eq rule operand m
      cofinite := fun _ rule operand s => CofiniteSet.update_eq rule operand s
      defaults := fun _ _ f other m => DefaultMap.combineInPlace_eq f other m }
  · exact {
      members := fun _ _ _ form found _ named single =>
        run_member_inPlace held form found single named
      operators := fun _ found other ordered _ _ form x =>
        ⟨run_assign_inPlace held form found other ordered x, fun _ read taken =>
          run_operate_inPlace held form found other ordered read taken⟩
      operands := by
        rintro items rfl name form x xs
        exact variadic_call form x xs items
      entries := by
        rintro entries rfl x named
        exact map_update_call x named entries }

/-- A set of numbers is taken away from itself in place. It does not take in a text. -/
theorem numbers_minus_themselves :
    let registers : Registers := [("s", .sortedSet [.int 1, .int 2]), ("t", .sortedSet [.text "a"])]
    let difference := run registers (.call "s" "difference" [.register "s"] [])
    let union := run registers (.call "s" "union" [.register "t"] [])
    (ChangesInPlace registers "s" (run registers (.assign .sub "s" (.register "s"))) difference ∧
        difference.1.isOk = true) ∧
      ChangesInPlace registers "s" (run registers (.call "s" "update" [.register "t"] [])) union ∧
        union.1.isOk = false := by
  intro registers difference union
  have held : registers.lookup "s" = some (.sortedSet [.int 1, .int 2]) := rfl
  obtain ⟨_, _, inPlace⟩ := in_place_operations_agree Empty Nat Nat Nat held
  have ordered : OrderedItems (.sortedSet [.int 1, .int 2]) := by
    rintro items ⟨⟩
    refine ⟨Value.IsInteger, Value.integers_ordered, by decide +kernel, ?_⟩
    simp only [List.mem_cons, List.not_mem_nil, or_false, forall_eq_or_imp, forall_eq]
    exact ⟨⟨1, rfl⟩, 2, rfl⟩
  have emptied := (inPlace.operators .sortedSet rfl (by simp) ordered .sub "difference"
    (by simp [assigningForms]) (.register "s")).1
  have refused := inPlace.members .sortedSet "update" "union" (by simp [inPlaceForms]) rfl
    [.register "t"] [] fun _ => rfl
  exact ⟨⟨emptied, by decide +kernel⟩, refused, by decide +kernel⟩

/-- A list is taken by an operator that assigns and refused by the one that does not, so the two do not
agree there. The elements of a set, which are not that set, are emptied when they are taken away from
it. -/
theorem list_assigned_elements_emptied :
    let registers : Registers := [("s", .sortedSet [.int 1])]
    let list : Term := .value (.list [.int 2])
    let assigned := run registers (.assign .or "s" list)
    let combined := run registers (.combine (.operator .or) (.register "s") list)
    let st : Storage Nat Bool :=
      { lists := fun _ => [1], data := fun _ => 0, elements := fun _ => 0, mark := fun _ => false
        next := 1, allocated := fun _ => Nat.one_pos }
    (assigned.1.isOk = true ∧ combined.1.isOk = false ∧
        ¬ ChangesInPlace registers "s" assigned combined) ∧
      ∃ st', Storage.updateCofinite (Comparison.natural : Comparison Empty Nat) .difference 0
          (.sorted (.holder (st.elements 0))) st = .ok () st' ∧
        st.set (st.elements 0) = ⟨[1]⟩ ∧ st'.set (st.elements 0) = ⟨[]⟩ := by
  intro registers list assigned combined st
  have taken : assigned.1.isOk = true := by decide +kernel
  have refused : combined.1.isOk = false := by decide +kernel
  refine ⟨⟨taken, refused, ?_⟩, _, by with_unfolding_all rfl, rfl, by with_unfolding_all rfl⟩
  intro agree
  cases answer : combined.1 with
  | ok v => simp [answer, Except.isOk, Except.toBool] at refused
  | error e => simp [agree.failed e answer, Except.isOk, Except.toBool] at taken

end Session

end SortedCollections
