import SortedCollections.Proofs.Maps.Program
import SortedCollections.Proofs.Restoring
import SortedCollections.Proofs.Session.Construction
import SortedCollections.Proofs.Session.Maps
import SortedCollections.Proofs.Session.Sets
import SortedCollections.Proofs.Sets.Program

/-!
# Saving and restoring by commands

The command that restores a container from a list answers as the command that creates one out of the
list. What programs leave, and what is created, is stored in order; so saving it and restoring it from
what was saved gives it back.
-/
namespace SortedCollections

namespace Session

variable {registers : Registers} {P : Value → Prop} {items : List Value}
  {entries : List (Value × Value)}

/-- A container that is saved and restored is the same again. -/
def ComesBack (v : Value) : Prop :=
  ∃ kind saved, ContainerKind.of? v = some kind ∧ ∀ registers : Registers,
    run registers (.query .save (.value v)) = (.ok saved, registers) ∧
    run registers (.restore kind (.value saved)) = (.ok v, registers)

/-- A command that takes a list only in order answers with the container that stores it, if creating the
container stores it unchanged, and refuses it otherwise. -/
inductive TakenInOrder (registers : Registers) (create strict : Command) (unchanged : Value)
    (refusal : Failure) : Prop where
  | taken (created : run registers create = (.ok unchanged, registers))
      (took : run registers strict = (.ok unchanged, registers))
  | refused (stored : Value) (created : run registers create = (.ok stored, registers))
      (other : stored ≠ unchanged) (refused : run registers strict = (.error refusal, registers))

/-- The containers of this kind that the given elements are created into and restored as. -/
structure CreatedAndRestored (registers : Registers) (create restore : Command) : Prop where
  same : run registers restore = run registers create
  comesBack : ∀ v, (run registers create).1 = .ok v → ComesBack v

/-- A container of any kind that is restored from a list is the one that is created out of the list, and
comes back when it is saved itself. -/
structure RestoredAsCreated (registers : Registers) (items : List Value)
    (entries : List (Value × Value)) (negated d : Value) : Prop where
  set : CreatedAndRestored registers (.create .sortedSet [.value (.list items)] [])
    (.restore .sortedSet (.value (.list items)))
  map : CreatedAndRestored registers
    (.create .sortedMap [.value (.list (Value.ofEntries entries))] [])
    (.restore .sortedMap (.value (.list (Value.ofEntries entries))))
  cofinite : CreatedAndRestored registers
    (.create .cofiniteSet [.value (.list items)] [("negated", .value negated)])
    (.restore .cofiniteSet (.value (.pair (.list items) negated)))
  defaultMap : CreatedAndRestored registers
    (.create .defaultMap [.value (.list (Value.ofEntries entries))] [("default", .value d)])
    (.restore .defaultMap (.value (.pair (.list (Value.ofEntries entries)) d)))
  sortedSet : TakenInOrder registers (.create .sortedSet [.value (.list items)] [])
    (.special .sortedSet "from_sorted" [.value (.list items)] []) (.sortedSet items)
    .itemsNotIncreasing
  sortedMap : TakenInOrder registers
    (.create .sortedMap [.value (.list (Value.ofEntries entries))] [])
    (.special .sortedMap "from_sorted" [.value (.list (Value.ofEntries entries))] [])
    (.sortedMap entries) .keysNotIncreasing

section Commands

variable (registers) (items) (entries) (negated d : Value)

theorem run_restore_set : run registers (.restore .sortedSet (.value (.list items))) =
    (do return Value.ofSet (← Failure.lift (SortedSet.restore Value.order items)), registers) := rfl

theorem run_restore_map :
    run registers (.restore .sortedMap (.value (.list (Value.ofEntries entries)))) =
      (do return Value.ofMap (← Failure.lift (SortedMap.restore Value.order entries)), registers) := by
  show (do
    let entries ← (Value.ofEntries entries).mapM Value.toPair
    return Value.ofMap (← Failure.lift (SortedMap.restore Value.order entries)), registers) = _
  rw [mapM_toPair_ofEntries]
  rfl

theorem run_restore_cofinite :
    run registers (.restore .cofiniteSet (.value (.pair (.list items) negated))) =
      (do
        let s ← Failure.lift (CofiniteSet.restore Value.order items negated.truth)
        return Value.ofCofinite s, registers) := rfl

theorem run_restore_defaultMap :
    run registers (.restore .defaultMap (.value (.pair (.list (Value.ofEntries entries)) d))) =
      (do
        let m ← Failure.lift (DefaultMap.restore Value.order Value.same entries d)
        return Value.ofDefaultMap m, registers) := by
  show (do
    let entries ← (Value.ofEntries entries).mapM Value.toPair
    let m ← Failure.lift (DefaultMap.restore Value.order Value.same entries d)
    return Value.ofDefaultMap m, registers) = _
  rw [mapM_toPair_ofEntries]
  rfl

theorem run_strict_set :
    run registers (.special .sortedSet "from_sorted" [.value (.list items)] []) =
      (do
        match ← Failure.lift (SortedSet.ofSorted? Value.order items) with
        | some s => return Value.ofSet s
        | none => throw .itemsNotIncreasing, registers) := rfl

theorem run_strict_map :
    run registers (.special .sortedMap "from_sorted" [.value (.list (Value.ofEntries entries))] []) =
      (do
        match ← Failure.lift (SortedMap.ofSorted? Value.order entries) with
        | some m => return Value.ofMap m
        | none => throw .keysNotIncreasing, registers) := by
  show (Creation.sortedMapOf (.list (Value.ofEntries entries)), registers) = _
  have read : Creation.pairsOf (.list (Value.ofEntries entries)) = .ok entries :=
    mapM_toPair_ofEntries entries
  rw [Creation.sortedMapOf, read]
  rfl

end Commands

/-- A container that is stored in order, a map with a default without values equal to it. -/
def StoredInOrder (P : Value → Prop) : Value → Prop
  | .sortedSet items => IncreasingOn Value.order.less P items
  | .cofiniteSet items _ => IncreasingOn Value.order.less P items
  | .sortedMap entries => EntriesOn Value.order.less P entries
  | .defaultMap entries fallback =>
    DefaultMap.Canonical Value.order Value.same P (fun _ => True) ⟨⟨entries⟩, fallback⟩
  | _ => False

theorem comesBack_of_storedInOrder (ordered : Value.order.OrderedOn P) {v : Value}
    (stored : StoredInOrder P v) : ComesBack v := by
  cases v with
  | sortedSet items =>
    refine ⟨.sortedSet, .list items, rfl, fun registers => ⟨rfl, ?_⟩⟩
    rw [run_restore_set, SortedSet.restore_items ordered (s := ⟨items⟩) stored]
    rfl
  | sortedMap entries =>
    refine ⟨.sortedMap, .list (Value.ofEntries entries), rfl, fun registers => ⟨rfl, ?_⟩⟩
    rw [run_restore_map, SortedMap.restore_entries_self ordered (m := ⟨entries⟩) stored]
    rfl
  | cofiniteSet items negated =>
    refine ⟨.cofiniteSet, .pair (.list items) (.bool negated), rfl, fun registers => ⟨rfl, ?_⟩⟩
    rw [run_restore_cofinite, CofiniteSet.restore,
      SortedSet.restore_items ordered (s := ⟨items⟩) stored]
    rfl
  | defaultMap entries fallback =>
    refine ⟨.defaultMap, .pair (.list (Value.ofEntries entries)) fallback, rfl,
      fun registers => ⟨rfl, ?_⟩⟩
    rw [run_restore_defaultMap, DefaultMap.restore_canonical_self ordered stored]
    rfl
  | _ => cases stored

theorem restoredAsCreated (ordered : Value.order.OrderedOn P) (insideItems : ∀ x ∈ items, P x)
    (inside : ∀ e ∈ entries, P e.1) (registers : Registers) (negated d : Value) :
    RestoredAsCreated registers items entries negated d := by
  have enters := entersAlike ordered Value.same insideItems inside negated.truth d
  constructor
  · refine ⟨by rw [run_restore_set, run_create_set, enters.set], fun v created => ?_⟩
    obtain ⟨s, made, kept, _⟩ := SortedSet.ofList_stays ordered insideItems
    rw [run_create_set, made] at created
    cases created
    exact comesBack_of_storedInOrder ordered kept
  · refine ⟨by rw [run_restore_map, run_create_map, enters.map], fun v created => ?_⟩
    obtain ⟨m, made, kept, _⟩ := SortedMap.ofList_stays ordered inside
    rw [run_create_map, made] at created
    cases created
    exact comesBack_of_storedInOrder ordered kept
  · refine ⟨by rw [run_restore_cofinite, run_create_cofinite, enters.cofinite],
      fun v created => ?_⟩
    obtain ⟨s, made, kept, _⟩ := SortedSet.ofList_stays ordered insideItems
    rw [run_create_cofinite, CofiniteSet.ofList, made] at created
    cases created
    exact comesBack_of_storedInOrder ordered kept
  · refine ⟨by rw [run_restore_defaultMap, run_create_defaultMap, enters.defaultMap],
      fun v created => ?_⟩
    rw [run_create_defaultMap] at created
    obtain ⟨m, made, last⟩ := bind_eq_ok.mp created
    cases last
    exact comesBack_of_storedInOrder ordered (DefaultMap.ofList_canonical ordered
      (fun e mem => ⟨inside e mem, trivial⟩) trivial (lift_eq_ok.mp made))
  · obtain ⟨s, made, ⟨unchanged, taken⟩ | ⟨changed, refused⟩⟩ := enters.sortedSet
    · refine .taken ?_ ?_
      · rw [run_create_set, made, ← unchanged]
        rfl
      · rw [run_strict_set, taken, ← unchanged]
        rfl
    · refine .refused (.sortedSet s.items) ?_ ?_ ?_
      · rw [run_create_set, made]
        rfl
      · exact fun same => changed (Value.sortedSet.inj same)
      · rw [run_strict_set, refused]
        rfl
  · obtain ⟨m, made, ⟨unchanged, taken⟩ | ⟨changed, refused⟩⟩ := enters.sortedMap
    · refine .taken ?_ ?_
      · rw [run_create_map, made, ← unchanged]
        rfl
      · rw [run_strict_map, taken, ← unchanged]
        rfl
    · refine .refused (.sortedMap m.entries) ?_ ?_ ?_
      · rw [run_create_map, made]
        rfl
      · exact fun same => changed (Value.sortedMap.inj same)
      · rw [run_strict_map, refused]
        rfl

/-- What the register holds comes back when it is saved and restored. -/
def HoldsWhatComesBack (registers : Registers) (on : String) : Prop :=
  ∃ v, registers.lookup on = some v ∧ ComesBack v

def SetCall.makesSet : SetCall → Bool
  | .merged _ _ | .operate _ _ | .operateOn _ _ => true
  | _ => false

/-- Does the call answer with a new map, or with the set of the keys? -/
def MapCall.makesContainer : MapCall → Bool
  | .merged _ _ | .keysSet => true
  | _ => false

/-- What programs of any calls make of containers that are stored in order comes back, and so does a
container that is then made out of it. -/
structure ProgramsComeBack (P : Value → Prop) : Prop where
  set : ∀ (registers : Registers) (on : String) (items : List Value) (program : List SetCall),
    registers.lookup on = some (.sortedSet items) → IncreasingOn Value.order.less P items →
    (∀ call ∈ program, call.Inside P) → HoldsWhatComesBack (runCalls on program registers) on ∧
      ∀ call : SetCall, call.Inside P → call.makesSet = true →
        ∀ v, (run (runCalls on program registers) (call.command on)).1 = .ok v → ComesBack v
  map : ∀ (registers : Registers) (on : String) (entries : List (Value × Value))
    (program : List MapCall), registers.lookup on = some (.sortedMap entries) →
    EntriesOn Value.order.less P entries → (∀ call ∈ program, call.Inside P) →
    HoldsWhatComesBack (runMapCalls on program registers) on ∧
      ∀ call : MapCall, call.Inside P → call.makesContainer = true →
        ∀ v, (run (runMapCalls on program registers) (call.command on)).1 = .ok v → ComesBack v
  cofinite : ∀ (ι : Type) [DecidableEq ι] (program : List (CofiniteSet.Command Value ι))
    (start : ι → CofiniteSet Value), (∀ command ∈ program, command.action.Inside Value.order P) →
    (∀ name, IncreasingOn Value.order.less P (start name).elements.items) →
    ∃ after, CofiniteSet.runProgram Value.order program start = .ok after ∧
      ∀ name, ComesBack (.ofCofinite (after name))
  /-- Nothing is assumed of the equality of values, which may fail or make no sense. -/
  defaultMap : ∀ (ι : Type) [DecidableEq ι] (program : List (DefaultMap.Command Failure ι Value Value))
    (start : ι → DefaultMap Value Value),
    (∀ command ∈ program, command.action.Inside Value.order P fun _ => True) →
    (∀ name, (start name).Canonical Value.order Value.same P fun _ => True) →
    ∀ name, ComesBack (.ofDefaultMap (DefaultMap.runProgram Value.order Value.same program start name))

theorem comesBack_of_answers (ordered : Value.order.OrderedOn P) {members : Set Value} {v : Value}
    {call : SetCall} (makes : call.makesSet = true)
    (answers : call.Answers P members items (.ok v)) : ComesBack v := by
  have ofSet {members : Set Value} (isSet : SetCall.IsSet P members (.ok v)) : ComesBack v := by
    obtain ⟨made, answer, list⟩ := isSet
    cases answer
    exact comesBack_of_storedInOrder ordered list.kept
  cases call with
  | merged rule sources => exact ofSet answers
  | operate rule source => exact ofSet answers
  | operateOn rule left => exact ofSet answers
  | _ => cases makes

theorem comesBack_of_mapAnswers (ordered : Value.order.OrderedOn P) {map : Set (Value × Value)}
    {v : Value} {call : MapCall} (makes : call.makesContainer = true)
    (table : Tabulates Value.order P entries map)
    (answers : call.Answers P map entries (.ok v)) : ComesBack v := by
  cases call with
  | merged merge source =>
    rcases answers with ⟨_, made, answer, table⟩ | ⟨cause, _, answer⟩
    · cases answer
      exact comesBack_of_storedInOrder ordered table.entriesOn
    · cases answer
  | keysSet =>
    cases answers
    exact comesBack_of_storedInOrder ordered (entriesOn_keys.mp table.entriesOn)
  | _ => cases makes

theorem programsComeBack (ordered : Value.order.OrderedOn P) : ProgramsComeBack P where
  set registers on items program held kept inside := by
    obtain ⟨later, ran, list⟩ := runCalls_step ordered program inside held (.of_increasing kept)
    have heldLater : (runCalls on program registers).lookup on = some (.sortedSet later) := by
      rw [ran]
      exact registers.lookup_set on _
    refine ⟨⟨_, heldLater, comesBack_of_storedInOrder ordered list.kept⟩,
      fun call insideCall makes v answered => ?_⟩
    obtain ⟨answer, _, step⟩ := SetCall.step ordered heldLater list insideCall
    rw [step.ran] at answered
    cases answered
    exact comesBack_of_answers ordered makes step.answers
  map registers on entries program held kept inside := by
    obtain ⟨later, ran, table⟩ :=
      runMapCalls_step ordered program inside held (.of_entriesOn kept fun _ => Iff.rfl)
    have heldLater : (runMapCalls on program registers).lookup on = some (.sortedMap later) := by
      rw [ran]
      exact registers.lookup_set on _
    refine ⟨⟨_, heldLater, comesBack_of_storedInOrder ordered table.entriesOn⟩,
      fun call insideCall makes v answered => ?_⟩
    obtain ⟨answer, _, step⟩ := MapCall.step ordered heldLater table insideCall
    rw [step.ran] at answered
    cases answered
    exact comesBack_of_mapAnswers ordered makes table step.answers
  cofinite ι _ program start inside kept := by
    obtain ⟨after, done, denote, _⟩ := CofiniteSet.runProgram_denote ordered program inside
      fun name => CofiniteSet.denotes_contains (kept name)
    exact ⟨after, done, fun name => comesBack_of_storedInOrder ordered (denote name).kept⟩
  defaultMap ι _ program start inside canonical name :=
    comesBack_of_storedInOrder ordered
      (DefaultMap.runProgram_canonical ordered program inside canonical name)

/-- Every way into a container stores the same. Restoring one from a list, over any ordered domain and
with any equality of values, is creating it out of the list; a list that must be in order is taken
exactly if the container created out of it stores it unchanged, and is refused otherwise. Every container
that is stored in order is given back when what it was saved as is restored, so every container that is
created, restored or reached by a program is. -/
theorem saved_containers_restored {ε κ ν : Type} {cmp : Comparison ε κ} {D : κ → Prop}
    (ordered : cmp.OrderedOn D) (eq : ν → ν → Except ε Bool) (keys : List κ)
    (insideKeys : ∀ k ∈ keys, D k) (pairs : List (κ × ν)) (insidePairs : ∀ e ∈ pairs, D e.1)
    (negated : Bool) (d : ν) :
    EntersAlike cmp eq keys pairs negated d ∧
      ∀ P : Value → Prop, Value.order.OrderedOn P →
        (∀ (registers : Registers) (items : List Value) (entries : List (Value × Value))
          (form fallback : Value), (∀ x ∈ items, P x) → (∀ e ∈ entries, P e.1) →
          RestoredAsCreated registers items entries form fallback) ∧
        (∀ v, StoredInOrder P v → ComesBack v) ∧
        ProgramsComeBack P :=
  ⟨entersAlike ordered eq insideKeys insidePairs negated d, fun _ orderedValues =>
    ⟨fun registers _ _ form fallback insideItems inside =>
      restoredAsCreated orderedValues insideItems inside registers form fallback,
    fun _ stored => comesBack_of_storedInOrder orderedValues stored,
    programsComeBack orderedValues⟩⟩

/-- Numbers in order but for a truth value equal to the one before it; a map whose default is stripped of
an entry; a cofinite set changed in place. -/
theorem numbers_restored :
    let items : List Value := [.int 0, .int 1, .bool true, .int 7]
    let entries : List (Value × Value) := [(.int 2, .none), (.bool true, .text "a"), (.int 2, .int 7)]
    let program : List SetCall := [.add (.bool true), .pop]
    EntersAlike (Comparison.natural : Comparison Failure Nat) Comparison.natural.eq [0, 1, 1, 2]
        [(2, 0), (1, 5), (2, 7)] true 7 ∧
      RestoredAsCreated [] items entries (.text "everything else") (.int 7) ∧
      ComesBack (.cofiniteSet [.int 1, .int 3] true) ∧
      HoldsWhatComesBack (runCalls "s" program [("s", .sortedSet [.int 1, .int 3])]) "s" := by
  intro items entries program
  obtain ⟨enters, session⟩ := saved_containers_restored
    (Comparison.natural_ordered : (Comparison.natural : Comparison Failure Nat).Ordered)
    Comparison.natural.eq [0, 1, 1, 2] (fun _ _ => trivial) [(2, 0), (1, 5), (2, 7)]
    (fun _ _ => trivial) true 7
  obtain ⟨restored, stored, programs⟩ := session Value.IsInteger Value.integers_ordered
  have kept : IncreasingOn Value.order.less Value.IsInteger [.int 1, .int 3] := by
    refine ⟨by decide +kernel, ?_⟩
    simp only [List.mem_cons, List.not_mem_nil, or_false, forall_eq_or_imp, forall_eq]
    exact ⟨⟨1, rfl⟩, 3, rfl⟩
  refine ⟨enters, restored [] items entries _ _ ?_ ?_, stored _ kept,
    (programs.set _ "s" _ program rfl kept ?_).1⟩
  · simp [items, Value.IsInteger, Value.int?]
  · simp [entries, Value.IsInteger, Value.int?]
  · simp [program, SetCall.Inside, Value.IsInteger, Value.int?]

end Session

end SortedCollections
