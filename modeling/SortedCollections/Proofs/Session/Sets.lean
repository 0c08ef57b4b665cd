import SortedCollections.Proofs.Session.Calls
import SortedCollections.Proofs.Sets.Elements

/-!
# Programs over a sorted set

A program calls the members and operators of a set that a register holds, and asks it questions. As
long as all items come from one ordered domain, the register holds the increasing list of a set that
the calls of the program determine, and every answer is read off that set or off its list.
-/
namespace SortedCollections

namespace Session

def Source.operand (source : Source) : Operand Failure Value := source.argument.asSet

/-- A call on a set, or a question about it. -/
inductive SetCall where
  | add (x : Value)
  | discard (x : Value)
  | remove (x : Value)
  | pop
  | clear
  /-- The members that combine the set with others in place. -/
  | update (rule : SetRule) (sources : List Source)
  /-- The operators that assign. -/
  | assign (rule : SetRule) (source : Source)
  /-- The members that combine the set with others into a new one. -/
  | merged (rule : SetRule) (sources : List Source)
  | operate (rule : SetRule) (source : Source)
  /-- The operators with an unordered set on their left. -/
  | operateOn (rule : SetRule) (left : List Value)
  | length
  | contains (x : Value)
  | item (index : Value)
  | slice (start stop step : Value)
  | list
  | reversed

/-- The member that combines a set with others into a new one. -/
def mergingName : SetRule → String
  | .union => "union"
  | .intersection => "intersection"
  | .difference => "difference"
  | .symmetricDifference => "symmetric_difference"

/-- The member that combines a set with others in place. -/
def updatingName : SetRule → String
  | .union => "update"
  | .intersection => "intersection_update"
  | .difference => "difference_update"
  | .symmetricDifference => "symmetric_difference_update"

def operatorOf : SetRule → Operator
  | .union => .or
  | .intersection => .and
  | .difference => .sub
  | .symmetricDifference => .xor

namespace SetCall

def command (on : String) : SetCall → Command
  | .add x => .call on "add" [.value x] []
  | .discard x => .call on "discard" [.value x] []
  | .remove x => .call on "remove" [.value x] []
  | .pop => .call on "pop" [] []
  | .clear => .call on "clear" [] []
  | .update rule sources => .call on (updatingName rule) (sources.map (Source.term on)) []
  | .assign rule source => .assign (operatorOf rule) on (source.term on)
  | .merged rule sources => .call on (mergingName rule) (sources.map (Source.term on)) []
  | .operate rule source => .combine (.operator (operatorOf rule)) (.register on) (source.term on)
  | .operateOn rule left =>
    .combine (.operator (operatorOf rule)) (.value (.hashSet left)) (.register on)
  | .length => .query .length (.register on)
  | .contains x => .combine .isIn (.value x) (.register on)
  | .item index => .getItem on (.value index)
  | .slice start stop step => .slice on (.value start) (.value stop) (.value step)
  | .list => .query .list (.register on)
  | .reversed => .query .reversed (.register on)

/-- All items that a call brings in lie in the domain. A member takes as many others as it has places
for, and an operator takes sets only. -/
def Inside (P : Value → Prop) : SetCall → Prop
  | .add x | .discard x | .remove x | .contains x => P x
  | .update rule sources | .merged rule sources =>
    (∀ source ∈ sources, source.operand.Inside Value.order P) ∧
      (rule = .symmetricDifference → sources.length = 1)
  | .assign _ source => source.operand.Inside Value.order P
  | .operate _ source =>
    source.operand.Inside Value.order P ∧ ∀ v, source = .value v → v.setOperand?.isSome = true
  | .operateOn _ left => ∀ x ∈ left, P x
  | .pop | .clear | .length | .item _ | .slice _ _ _ | .list | .reversed => True

/-- The set that a call leaves. -/
def after (members : Set Value) : SetCall → Set Value
  | .add x => Value.order.put x members
  | .discard x | .remove x => Value.order.without x members
  | .pop => Value.order.notGreatest members
  | .clear => ∅
  | .update rule sources =>
    sources.foldl (fun left source =>
      rule.combine Value.order left (source.operand.members Value.order left)) members
  | .assign rule source =>
    rule.combine Value.order members (source.operand.members Value.order members)
  | .merged _ _ | .operate _ _ | .operateOn _ _ | .length | .contains _ | .item _ | .slice _ _ _
  | .list | .reversed => members

/-- The answer is a set with these members. -/
def IsSet (P : Value → Prop) (members : Set Value) (answer : Except Failure Value) : Prop :=
  ∃ items, answer = .ok (.sortedSet items) ∧ Enumerates Value.order P items members

/-- What a call answers, by the members of the set and their list. -/
def Answers (P : Value → Prop) (members : Set Value) (items : List Value)
    (answer : Except Failure Value) : SetCall → Prop
  | .add _ | .discard _ | .clear | .update _ _ | .assign _ _ => answer = .ok .none
  | .remove x =>
    (Value.order.Meets members x ∧ answer = .ok .none) ∨
      ¬Value.order.Meets members x ∧ answer = .error (.keyMissing x)
  | .pop =>
    (members = ∅ ∧ answer = .error (.keyMissing (.text "pop from an empty set"))) ∨
      ∃ x ∈ members, answer = .ok x ∧ ∀ y ∈ members, y = x ∨ Value.order.less y x = true
  | .merged rule sources =>
    IsSet P (sources.foldl (fun left source =>
      rule.combine Value.order left (source.operand.members Value.order members)) members) answer
  | .operate rule source =>
    IsSet P (rule.combine Value.order members (source.operand.members Value.order members)) answer
  | .operateOn rule left => IsSet P (rule.combine Value.order (Value.order.lastOf left) members) answer
  | .length => answer = .ok (.int members.ncard)
  | .contains x =>
    (Value.order.Meets members x ∧ answer = .ok (.bool true)) ∨
      ¬Value.order.Meets members x ∧ answer = .ok (.bool false)
  | .item index => answer = (Value.list items).subscript index
  | .slice start stop step => answer = (Value.list items).slice start stop step
  | .list => answer = .ok (.list items)
  | .reversed => answer = .ok (.list items.reverse)

end SetCall

/-- The set that a program leaves. -/
def membersAfter (program : List SetCall) (members : Set Value) : Set Value :=
  program.foldl SetCall.after members

/-- The registers after a program of calls on one of them. -/
def runCalls (on : String) (program : List SetCall) (registers : Registers) : Registers :=
  runCommands (program.map (SetCall.command on)) registers

open MemberCall

variable {registers : Registers} {on : String}

theorem call_merging (rule : SetRule) {args : List Argument}
    (places : rule = .symmetricDifference → args.length = 1) (items : List Value) :
    call (mergingName rule) ⟨args, []⟩ (.sortedSet items) =
      inside Value.ofSet ⟨items⟩
        (do return .ofSet (← answer ((← get).merged Value.order rule (args.map Argument.asSet))))
        (.sortedSet items) := by
  cases rule with
  | union => rfl
  | intersection => rfl
  | difference => rfl
  | symmetricDifference =>
    obtain ⟨x, rfl⟩ := List.length_eq_one_iff.mp (places rfl)
    rfl

theorem call_updating (rule : SetRule) {args : List Argument}
    (places : rule = .symmetricDifference → args.length = 1) (items : List Value) :
    call (updatingName rule) ⟨args, []⟩ (.sortedSet items) =
      inside Value.ofSet ⟨items⟩
        (change (SortedSet.update Value.order rule (args.map Argument.asSet))) (.sortedSet items) := by
  cases rule with
  | union => rfl
  | intersection => rfl
  | difference => rfl
  | symmetricDifference =>
    obtain ⟨x, rfl⟩ := List.length_eq_one_iff.mp (places rfl)
    rfl

theorem operatorOf_rule (rule : SetRule) : (operatorOf rule).rule? = some rule := by
  cases rule <;> rfl

theorem assign_set (rule : SetRule) (x : Argument) (items : List Value) :
    assign (operatorOf rule) x (.sortedSet items) =
      inside Value.ofSet ⟨items⟩ (SetMembers.assign rule x) (.sortedSet items) := by
  cases rule <;> rfl

/-- What an operator gives on a set and what it takes. -/
theorem operate_set_eq (rule : SetRule) (items : List Value) {w : Value}
    {operand : Operand Failure Value} (taken : w.setOperand? = some operand) :
    Value.operate (operatorOf rule) (.sortedSet items) w =
      do return .ofSet (← Failure.lift (SortedSet.merged Value.order rule ⟨items⟩ [operand])) := by
  rw [Value.operate, Value.result, Value.offered?, Value.ownResult, operatorOf_rule, taken]
  rfl

theorem operateOn_set_eq (rule : SetRule) (left items : List Value) :
    Value.operate (operatorOf rule) (.hashSet left) (.sortedSet items) =
      do return .ofSet (← Failure.lift
        (SortedSet.mergedInto Value.order rule ⟨items⟩ (.unsorted left))) := by
  rw [Value.operate, Value.result, Value.offered?, Value.reflectedResult, operatorOf_rule]
  rfl

/-- An operator reads its right side as a member does. -/
theorem asSet_of_setOperand? {w : Value} {operand : Operand Failure Value}
    (taken : w.setOperand? = some operand) : (Argument.value w).asSet = operand := by
  cases w <;> cases taken <;> rfl

variable {P : Value → Prop} {items : List Value} {members : Set Value}

/-- The outcome of a call on the register that holds the list of a set. -/
structure SetCall.Step (P : Value → Prop) (registers : Registers) (on : String) (members : Set Value)
    (items : List Value) (call : SetCall) (answer : Except Failure Value) (later : List Value) :
    Prop where
  ran : run registers (call.command on) = (answer, registers.set on (.sortedSet later))
  list : Enumerates Value.order P later (call.after members)
  answers : call.Answers P members items answer
  unchanged : ∀ e, answer = .error e → later = items

/-- A call that only answers. -/
theorem SetCall.step_of_answer (held : registers.lookup on = some (.sortedSet items))
    (list : Enumerates Value.order P items members) {call : SetCall} {answer : Except Failure Value}
    (ran : run registers (call.command on) = (answer, registers)) (keeps : call.after members = members)
    (answers : call.Answers P members items answer) :
    ∃ answer later, call.Step P registers on members items answer later := by
  refine ⟨answer, items, ?_, keeps.symm ▸ list, answers, fun _ _ => rfl⟩
  rw [ran, Registers.set_of_lookup held]

theorem operands_inside {sources : List Source}
    (inside : ∀ source ∈ sources, source.operand.Inside Value.order P) :
    ∀ operand ∈ (sources.map Source.argument).map Argument.asSet, operand.Inside Value.order P := by
  rw [List.forall_mem_map, List.forall_mem_map]
  exact inside

theorem call_pop (s : SortedSet Value) {popped : Option (Value × SortedSet Value)}
    (done : s.popMax? = popped) :
    SetMembers.call "pop" ⟨[], []⟩ s =
      popped.elim (.error (.keyMissing (.text "pop from an empty set")) s) fun p => .ok p.1 p.2 := by
  have called : SetMembers.call "pop" ⟨[], []⟩ s =
      ((SetMembers.plain? "pop").getD (throw .noSuchMember)) s := rfl
  rw [called, SetMembers.plain?, Option.getD_some, bind_run]
  dsimp only [get, getThe, MonadStateOf.get, EStateM.get]
  rw [done]
  cases popped <;> rfl

/-- A call that takes an item out. -/
theorem SetCall.step_taking (ordered : Value.order.OrderedOn P)
    (held : registers.lookup on = some (.ofSet ⟨items⟩))
    (list : Enumerates Value.order P items members) {call : SetCall}
    (taking : call = .pop ∨ ∃ x, P x ∧ call = .remove x) :
    ∃ answer later, call.Step P registers on members items answer later := by
  rcases taking with rfl | ⟨x, hx, rfl⟩
  · rcases SortedSet.popMax?_enumerates ordered (s := ⟨items⟩) list with
      ⟨empty, done, after⟩ | ⟨x, t, done, mem, greatest, after⟩
    · exact ⟨.error (.keyMissing (.text "pop from an empty set")), items,
        run_member_failed Value.ofSet held [] rfl (call_pop ⟨items⟩ done), after, .inl ⟨empty, rfl⟩,
        fun _ _ => rfl⟩
    · exact ⟨.ok x, t.items, run_member Value.ofSet held [] rfl (call_pop ⟨items⟩ done), after,
        .inr ⟨x, mem, rfl, greatest⟩, by rintro e ⟨⟩⟩
  · rcases SortedSet.erase?_enumerates ordered (s := ⟨items⟩) list hx with
      ⟨met, t, done, after⟩ | ⟨missing, done⟩
    · refine ⟨.ok .none, t.items, run_member Value.ofSet held [.value x] rfl ?_, after,
        .inl ⟨met, rfl⟩, by rintro e ⟨⟩⟩
      show (MemberCall.answer (SortedSet.erase? Value.order ⟨items⟩ x) >>= _ : MemberCall _ _) _ = _
      rw [done]
      rfl
    · refine ⟨.error (.keyMissing x), items,
        run_member_failed Value.ofSet held [.value x] rfl ?_, list.without_of_apart missing,
        .inr ⟨missing, rfl⟩, fun _ _ => rfl⟩
      show (MemberCall.answer (SortedSet.erase? Value.order ⟨items⟩ x) >>= _ : MemberCall _ _) _ = _
      rw [done]
      rfl

/-- An operator with the set on its left. -/
theorem run_operate (held : registers.lookup on = some (.sortedSet items)) (rule : SetRule)
    (source : Source) (taken : ∀ v, source = .value v → v.setOperand?.isSome = true) :
    run registers (SetCall.command on (.operate rule source)) =
      (do return .ofSet (← Failure.lift (SortedSet.merged Value.order rule ⟨items⟩ [source.operand])),
        registers) := by
  have read := Registers.read_of_lookup held
  cases source with
  | self =>
    -- The operator is given the set as a value, which is merged in as the set itself is.
    rw [SetCall.command, run, Source.term, Term.read, read]
    have taken : (Value.sortedSet items).setOperand? = some (.sorted items) := rfl
    have asked := operate_set_eq rule items taken
    exact congrArg (·, registers) asked
  | value w =>
    obtain ⟨operand, takes⟩ := Option.isSome_iff_exists.mp (taken w rfl)
    rw [SetCall.command, run, Source.term, Term.read, Term.read, read, Source.operand,
      Source.argument, asSet_of_setOperand? takes]
    exact congrArg (·, registers) (operate_set_eq rule items takes)

namespace SetCall

theorem step_update (ordered : Value.order.OrderedOn P)
    (held : registers.lookup on = some (.ofSet ⟨items⟩))
    (list : Enumerates Value.order P items members) {rule : SetRule} {sources : List Source}
    (inside : (SetCall.update rule sources).Inside P) :
    ∃ answer later, (SetCall.update rule sources).Step P registers on members items answer later := by
  obtain ⟨insideSources, places⟩ := inside
  obtain ⟨t, done, after⟩ := SortedSet.update_enumerates ordered rule _ (s := ⟨items⟩)
    (operands_inside insideSources) list
  rw [List.foldl_map, List.foldl_map] at after
  exact ⟨.ok .none, t.items, run_member Value.ofSet held sources
    (call_updating rule (by simpa using places) items) (change_ok done), after, rfl,
    by rintro e ⟨⟩⟩

theorem step_assign (ordered : Value.order.OrderedOn P)
    (held : registers.lookup on = some (.ofSet ⟨items⟩))
    (list : Enumerates Value.order P items members) {rule : SetRule} {source : Source}
    (inside : (SetCall.assign rule source).Inside P) :
    ∃ answer later, (SetCall.assign rule source).Step P registers on members items answer later := by
  obtain ⟨t, done, after⟩ := SortedSet.assign_enumerates ordered rule (s := ⟨items⟩) inside list
  refine ⟨.ok .none, t.items, ?_, after, rfl, by rintro e ⟨⟩⟩
  rw [command, run, source.resolve held]
  exact onRegister_inside held (assign_set rule _ items) (change_ok done)

theorem step_merged (ordered : Value.order.OrderedOn P)
    (held : registers.lookup on = some (.ofSet ⟨items⟩))
    (list : Enumerates Value.order P items members) {rule : SetRule} {sources : List Source}
    (inside : (SetCall.merged rule sources).Inside P) :
    ∃ answer later, (SetCall.merged rule sources).Step P registers on members items answer later := by
  obtain ⟨insideSources, places⟩ := inside
  obtain ⟨t, done, after⟩ := SortedSet.merged_enumerates ordered rule _ (s := ⟨items⟩)
    (operands_inside insideSources) list
  rw [List.foldl_map, List.foldl_map] at after
  have made := make_ok Value.ofSet (SortedSet.merged Value.order rule ·
    ((sources.map Source.argument).map Argument.asSet)) done
  exact ⟨.ok (.ofSet t), items, run_member Value.ofSet held sources
    (call_merging rule (by simpa using places) items) made, list, ⟨t.items, rfl, after⟩,
    fun _ _ => rfl⟩

theorem step_operate (ordered : Value.order.OrderedOn P)
    (held : registers.lookup on = some (.sortedSet items))
    (list : Enumerates Value.order P items members) {rule : SetRule} {source : Source}
    (inside : (SetCall.operate rule source).Inside P) :
    ∃ answer later, (SetCall.operate rule source).Step P registers on members items answer later := by
  obtain ⟨insideSource, taken⟩ := inside
  obtain ⟨t, done, after⟩ := SortedSet.merged_enumerates ordered rule [source.operand] (s := ⟨items⟩)
    (List.forall_mem_singleton.mpr insideSource) list
  refine step_of_answer held list ?_ rfl ⟨t.items, rfl, after⟩
  rw [run_operate held rule source taken, done]
  rfl

theorem step_operateOn (ordered : Value.order.OrderedOn P)
    (held : registers.lookup on = some (.sortedSet items))
    (list : Enumerates Value.order P items members) {rule : SetRule} {left : List Value}
    (inside : (SetCall.operateOn rule left).Inside P) :
    ∃ answer later, (SetCall.operateOn rule left).Step P registers on members items answer later := by
  have insideLeft : (Operand.unsorted left : Operand Failure Value).Inside Value.order P := inside
  obtain ⟨t, done, after⟩ :=
    SortedSet.mergedInto_enumerates ordered rule (s := ⟨items⟩) insideLeft list
  have made : Value.operate (operatorOf rule) (.hashSet left) (.sortedSet items) =
      .ok (.ofSet t) := by
    rw [operateOn_set_eq, done]
    rfl
  have read := Registers.read_of_lookup held
  refine step_of_answer held list ?_ rfl ⟨t.items, rfl, after⟩
  rw [command, run, Term.read, Term.read, read]
  exact congrArg (·, registers) made

theorem step_contains (ordered : Value.order.OrderedOn P)
    (held : registers.lookup on = some (.sortedSet items))
    (list : Enumerates Value.order P items members) {x : Value} (inside : P x) :
    ∃ answer later, (SetCall.contains x).Step P registers on members items answer later := by
  have met := list.hasTie_iff ordered inside
  have contained := SortedSet.contains_eq ordered (s := ⟨items⟩) list.kept inside
  refine step_of_answer held list (run_isIn held (congrArg Except.ok contained)) rfl ?_
  by_cases meets : Value.order.Meets members x
  · rw [met.mpr meets]
    exact .inl ⟨meets, rfl⟩
  · rw [Bool.eq_false_iff.mpr fun hit => meets (met.mp hit)]
    exact .inr ⟨meets, rfl⟩

theorem step (ordered : Value.order.OrderedOn P)
    (held : registers.lookup on = some (.sortedSet items))
    (list : Enumerates Value.order P items members) {call : SetCall} (inside : call.Inside P) :
    ∃ answer later, call.Step P registers on members items answer later := by
  have heldSet : registers.lookup on = some (.ofSet ⟨items⟩) := held
  have read := Registers.read_of_lookup held
  cases call with
  | add x =>
    obtain ⟨t, done, after⟩ := SortedSet.insert_enumerates ordered (s := ⟨items⟩) list inside
    have stored := store_ok (SortedSet.insert Value.order · x) done
    exact ⟨.ok .none, t.items, run_member Value.ofSet heldSet [.value x] rfl stored, after, rfl,
      by rintro e ⟨⟩⟩
  | discard x =>
    obtain ⟨t, done, after⟩ := SortedSet.discard_enumerates ordered (s := ⟨items⟩) list inside
    have stored := store_ok (SortedSet.discard Value.order · x) done
    exact ⟨.ok .none, t.items, run_member Value.ofSet heldSet [.value x] rfl stored, after, rfl,
      by rintro e ⟨⟩⟩
  | remove x => exact step_taking ordered heldSet list (.inr ⟨x, inside, rfl⟩)
  | pop => exact step_taking ordered heldSet list (.inl rfl)
  | clear =>
    have cleared : (do set (SortedSet.empty : SortedSet Value); return .none : SetMembers.Member)
        ⟨items⟩ = .ok .none .empty := rfl
    exact ⟨.ok .none, [], run_member Value.ofSet heldSet [] rfl cleared, .nil, rfl,
      by rintro e ⟨⟩⟩
  | update rule sources => exact step_update ordered heldSet list inside
  | assign rule source => exact step_assign ordered heldSet list inside
  | merged rule sources => exact step_merged ordered heldSet list inside
  | operate rule source => exact step_operate ordered held list inside
  | operateOn rule left => exact step_operateOn ordered held list inside
  | length =>
    refine step_of_answer held list ?_ rfl rfl
    rw [command, run, Term.read, read, list.ncard_eq ordered]
    rfl
  | contains x => exact step_contains ordered held list inside
  | item index =>
    refine step_of_answer held list ?_ rfl rfl
    rw [command, run, reading, read]
    rfl
  | slice start stop step =>
    refine step_of_answer held list ?_ rfl rfl
    rw [command, run, reading, read]
    rfl
  | list =>
    refine step_of_answer held list ?_ rfl rfl
    rw [command, run, Term.read, read]
    rfl
  | reversed =>
    refine step_of_answer held list ?_ rfl rfl
    rw [command, run, Term.read, read]
    rfl

end SetCall

theorem runCalls_step (ordered : Value.order.OrderedOn P) (program : List SetCall)
    (inside : ∀ call ∈ program, call.Inside P)
    (held : registers.lookup on = some (.sortedSet items))
    (list : Enumerates Value.order P items members) :
    ∃ later, runCalls on program registers = registers.set on (.sortedSet later) ∧
      Enumerates Value.order P later (membersAfter program members) := by
  refine runCommands_refine ?_ inside held list
  intro registers items members call held list insideCall
  obtain ⟨answer, later, step⟩ := SetCall.step ordered held list insideCall
  exact ⟨answer, later, step.ran, step.list⟩

/-- After any program of calls on a set whose items come from an ordered domain, the register holds
the strictly increasing list of the set that the program determines, and no other register has
changed. Whatever call comes next, it is answered by that set and its list, and changes nothing if it
fails. -/
theorem set_programs_refine (ordered : Value.order.OrderedOn P)
    (held : registers.lookup on = some (.sortedSet items))
    (list : Enumerates Value.order P items members) (program : List SetCall)
    (inside : ∀ call ∈ program, call.Inside P) :
    ∃ later, (runCalls on program registers).lookup on = some (.sortedSet later) ∧
      Enumerates Value.order P later (membersAfter program members) ∧
      (∀ name, name ≠ on → (runCalls on program registers).lookup name = registers.lookup name) ∧
      ∀ call : SetCall, call.Inside P → ∃ answer final,
        call.Step P (runCalls on program registers) on (membersAfter program members) later answer
          final := by
  obtain ⟨later, ran, list⟩ := runCalls_step ordered program inside held list
  rw [ran]
  have heldLater := registers.lookup_set on (.sortedSet later)
  exact ⟨later, heldLater, list, fun name other => registers.lookup_set_of_ne other _,
    fun call insideCall => call.step ordered heldLater list insideCall⟩

/-- A truth value takes the place of the number that it is equal to; of the numbers in a list the last
of equal ones is taken in; what is not there cannot be removed. -/
theorem numbers_worked_on :
    let registers : Registers := [("s", .sortedSet [.int 1, .int 3])]
    let program : List SetCall := [.add (.bool true),
      .update .union [.value (.list [.int 5, .int 2, .bool false, .int 0]), .self],
      .operateOn .difference [.int 1, .int 9], .pop, .remove (.int 7)]
    ∃ later, (runCalls "s" program registers).lookup "s" = some (.sortedSet later) ∧
      Enumerates Value.order Value.IsInteger later
        (membersAfter program fun x => x ∈ [Value.int 1, .int 3]) ∧
      ∃ answer final, SetCall.Step Value.IsInteger (runCalls "s" program registers) "s"
        (membersAfter program fun x => x ∈ [Value.int 1, .int 3]) later (.remove (.int 8)) answer
          final := by
  intro registers program
  have kept : IncreasingOn Value.order.less Value.IsInteger [.int 1, .int 3] := by
    refine ⟨by decide +kernel, ?_⟩
    simp only [List.mem_cons, List.not_mem_nil, or_false, forall_eq_or_imp, forall_eq]
    exact ⟨⟨1, rfl⟩, 3, rfl⟩
  have inside : ∀ call ∈ program, call.Inside Value.IsInteger := by
    simp [program, SetCall.Inside, Source.operand, Source.argument, Argument.asSet, Value.items?,
      Operand.Inside, Value.IsInteger, Value.int?]
  have held : registers.lookup "s" = some (.sortedSet [.int 1, .int 3]) := rfl
  obtain ⟨later, held, list, _, next⟩ :=
    set_programs_refine Value.integers_ordered held (.of_increasing kept) program inside
  exact ⟨later, held, list, next (.remove (.int 8)) ⟨8, rfl⟩⟩

end Session

end SortedCollections
