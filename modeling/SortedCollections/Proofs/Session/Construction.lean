import SortedCollections.Proofs.Construction
import SortedCollections.Proofs.Session.Calls
import SortedCollections.Proofs.Values.Integers

/-!
# Creating containers by commands

A container is created out of a list by one command, or empty by one command and then filled by one
command for each item. Both end with the same container in the register.
-/
namespace SortedCollections

namespace Session

variable {registers : Registers} {on : String} {P : Value → Prop} {items : List Value}
  {entries : List (Value × Value)}

/-- The container that the command `whole` creates is also what the command `start` creates after the
commands `fill` were carried out on it. -/
def FilledAs (registers : Registers) (on : String) (whole start : Command) (fill : List Command) :
    Prop :=
  ∃ v empty, run registers whole = (.ok v, registers) ∧ run registers start = (.ok empty, registers) ∧
    runCommands fill (registers.set on empty) = registers.set on v

theorem filledAs {σ β : Type} {wrap : σ → Value} {put : σ → β → Except (Fault Failure) σ}
    {command : β → Command} {whole start : Command} {empty made : σ}
    (puts : Puts wrap put on command) (atOnce : run registers whole = (.ok (wrap made), registers))
    (starts : run registers start = (.ok (wrap empty), registers)) {xs : List β}
    (filled : xs.foldlM put empty = .ok made) :
    FilledAs registers on whole start (xs.map command) :=
  ⟨wrap made, wrap empty, atOnce, starts, runCommands_put puts filled registers⟩

/-- The pairs of entries are read as these entries. -/
theorem mapM_toPair_ofEntries (entries : List (Value × Value)) :
    (Value.ofEntries entries).mapM Value.toPair = .ok entries := by
  induction entries with
  | nil => rfl
  | cons e entries ih =>
    rw [Value.ofEntries, List.map_cons, List.mapM_cons]
    rw [Value.ofEntries] at ih
    rw [ih]
    rfl

theorem mapOf_pairs (entries : List (Value × Value)) :
    Creation.mapOf (some (.value (.list (Value.ofEntries entries)))) none =
      Failure.lift (SortedMap.ofList Value.order entries) := by
  have read : (Argument.value (.list (Value.ofEntries entries))).asMap =
      (.unsorted entries : Operand Failure (Value × Value)) := by
    have pairs : (Value.list (Value.ofEntries entries)).entries? = some (.ok entries) :=
      congrArg some (mapM_toPair_ofEntries entries)
    simp only [Argument.asMap, pairs]
  rw [Creation.mapOf, Option.getD_some, read]

section Commands

variable (registers) (items) (entries) (negated d : Value)

theorem run_create_set : run registers (.create .sortedSet [.value (.list items)] []) =
    (do return Value.ofSet (← Failure.lift (SortedSet.ofList Value.order items)), registers) := rfl

theorem run_create_map :
    run registers (.create .sortedMap [.value (.list (Value.ofEntries entries))] []) =
      (do return Value.ofMap (← Failure.lift (SortedMap.ofList Value.order entries)), registers) := by
  show (do
    let m ← Creation.mapOf (some (.value (.list (Value.ofEntries entries)))) none
    return Value.ofMap m, registers) = _
  rw [mapOf_pairs]

theorem run_create_cofinite :
    run registers (.create .cofiniteSet [.value (.list items)] [("negated", .value negated)]) =
      (do
        let s ← Failure.lift (CofiniteSet.ofList Value.order items negated.truth)
        return Value.ofCofinite s, registers) := rfl

theorem run_create_defaultMap :
    run registers (.create .defaultMap [.value (.list (Value.ofEntries entries))]
      [("default", .value d)]) =
      (do return Value.ofDefaultMap (← Failure.lift
        (do DefaultMap.ofEntries Value.same (← SortedMap.ofList Value.order entries) d)),
        registers) := by
  show (do
    let whole ← Creation.mapOf (some (.value (.list (Value.ofEntries entries)))) none
    return Value.ofDefaultMap (← Failure.lift (DefaultMap.ofEntries Value.same whole d)),
    registers) = _
  rw [mapOf_pairs]
  cases SortedMap.ofList Value.order entries <;> rfl

end Commands

theorem create_set {s : SortedSet Value} (built : SortedSet.ofList Value.order items = .ok s) :
    run registers (.create .sortedSet [.value (.list items)] []) = (.ok (.ofSet s), registers) := by
  rw [run_create_set, built]
  rfl

theorem create_empty_set (ordered : Value.order.OrderedOn P) :
    run registers (.create .sortedSet [] []) = (.ok (.ofSet .empty), registers) := by
  obtain ⟨s, built, filled⟩ := SortedSet.ofList_eq_foldlM ordered (List.forall_mem_nil P)
  cases filled
  have created : run registers (.create .sortedSet [] []) =
    (do return .ofSet (← Failure.lift (SortedSet.ofList Value.order [])), registers) := rfl
  rw [created, built]
  rfl

theorem create_map {m : SortedMap Value Value}
    (built : SortedMap.ofList Value.order entries = .ok m) :
    run registers (.create .sortedMap [.value (.list (Value.ofEntries entries))] []) =
      (.ok (.ofMap m), registers) := by
  rw [run_create_map, built]
  rfl

theorem create_empty_map (ordered : Value.order.OrderedOn P) :
    run registers (.create .sortedMap [] []) = (.ok (.ofMap .empty), registers) := by
  obtain ⟨m, built, filled⟩ := SortedMap.ofList_eq_foldlM ordered
    (List.forall_mem_nil fun e : Value × Value => P e.1)
  cases filled
  have created : run registers (.create .sortedMap [] []) =
    (do return .ofMap (← Failure.lift (SortedMap.ofList Value.order [])), registers) := rfl
  rw [created, built]
  rfl

theorem create_cofinite {s : CofiniteSet Value} (negated : Bool)
    (built : CofiniteSet.ofList Value.order items negated = .ok s) :
    run registers (.create .cofiniteSet [.value (.list items)] [("negated", .value (.bool negated))]) =
      (.ok (.ofCofinite s), registers) := by
  rw [run_create_cofinite, Value.truth, built]
  rfl

theorem create_defaultMap {m : DefaultMap Value Value} {d : Value}
    (built : (do DefaultMap.ofEntries Value.same (← SortedMap.ofList Value.order entries) d) =
      .ok m) :
    run registers (.create .defaultMap [.value (.list (Value.ofEntries entries))]
        [("default", .value d)]) = (.ok (.ofDefaultMap m), registers) := by
  rw [run_create_defaultMap, built]
  rfl

theorem puts_add (on : String) :
    Puts Value.ofSet (SortedSet.insert Value.order) on fun x => .call on "add" [.value x] [] := by
  intro registers s t x held put
  have stored := store_ok (SortedSet.insert Value.order · x) put
  exact congrArg Prod.snd (run_member Value.ofSet held [.value x] rfl stored)

theorem puts_addCofinite (on : String) :
    Puts Value.ofCofinite (CofiniteSet.insert Value.order) on
      fun x => .call on "add" [.value x] [] := by
  intro registers s t x held put
  have stored := store_ok (CofiniteSet.insert Value.order · x) put
  exact congrArg Prod.snd (run_member Value.ofCofinite held [.value x] rfl stored)

theorem puts_discardCofinite (on : String) :
    Puts Value.ofCofinite (CofiniteSet.discard Value.order) on
      fun x => .call on "discard" [.value x] [] := by
  intro registers s t x held put
  have stored := store_ok (CofiniteSet.discard Value.order · x) put
  exact congrArg Prod.snd (run_member Value.ofCofinite held [.value x] rfl stored)

theorem puts_insert (on : String) :
    Puts Value.ofMap (SortedMap.put Value.order) on
      fun (e : Value × Value) => .call on "insert" [.value e.1, .value e.2] [] := by
  intro registers m n e held put
  obtain ⟨⟨previous, made⟩, inserted, last⟩ := bind_eq_ok.mp put
  cases last
  exact congrArg Prod.snd
    (run_member Value.ofMap held [.value e.1, .value e.2] rfl (call_insert inserted))

theorem puts_setItem (on : String) :
    Puts Value.ofDefaultMap (fun m e => m.set Value.order Value.same e.1 e.2) on
      fun (e : Value × Value) => .setItem on (.value e.1) (.value e.2) := by
  intro registers m n e held put
  have stored : (Value.ofDefaultMap m).put e.1 e.2 = .ok (.ofDefaultMap n) := by
    show (do return Value.ofDefaultMap (← Failure.lift (m.set Value.order Value.same e.1 e.2))) = _
    rw [show m.set Value.order Value.same e.1 e.2 = .ok n from put]
    rfl
  exact congrArg Prod.snd (replacing_ok held stored)

/-- A map with a default is created by a command exactly if equality with the default answers for the
values that stay. -/
theorem exists_create_defaultMap_iff (ordered : Value.order.OrderedOn P)
    (inside : ∀ e ∈ entries, P e.1) {d : Value} :
    (∃ v, run registers (.create .defaultMap [.value (.list (Value.ofEntries entries))]
        [("default", .value d)]) = (.ok v, registers)) ↔
      ∀ e, Keep.last.Stays (fun e f => tied Value.order.less e.1 f.1) entries e →
        ∃ r, Value.same e.2 d = .ok r := by
  rw [← DefaultMap.exists_ofList_iff ordered inside, run_create_defaultMap]
  constructor
  · rintro ⟨v, created⟩
    obtain ⟨m, built, _⟩ := bind_eq_ok.mp (congrArg Prod.fst created)
    exact ⟨m, lift_eq_ok.mp built⟩
  · rintro ⟨m, built⟩
    rw [built]
    exact ⟨.ofDefaultMap m, rfl⟩

/-- The commands that set keys go on up to the first value that cannot be compared with the default;
that one fails and changes nothing. -/
theorem run_setItem_stops (ordered : Value.order.OrderedOn P) {before : List (Value × Value)}
    {e : Value × Value} {d : Value} (inside : ∀ f ∈ before, P f.1)
    (answers : ∀ f ∈ before, ∃ r, Value.same f.2 d = .ok r) {failure : Failure}
    (failed : Value.same e.2 d = .error failure) (registers : Registers) (on : String) :
    let filled := runCommands (before.map fun f => .setItem on (.value f.1) (.value f.2))
      (registers.set on (.ofDefaultMap (.constant d)))
    run filled (.setItem on (.value e.1) (.value e.2)) = (.error failure, filled) := by
  intro filled
  obtain ⟨m, put, rfl⟩ := DefaultMap.foldlM_set ordered inside answers
  have held : filled.lookup on = some (.ofDefaultMap m) := by
    rw [show filled = _ from runCommands_put (puts_setItem on) put registers]
    exact registers.lookup_set on _
  refine replacing_failed held ?_
  show (do return Value.ofDefaultMap (← Failure.lift (m.set Value.order Value.same e.1 e.2))) = _
  rw [DefaultMap.set_failed failed]
  rfl

/-- Every kind of container that a command creates out of a list is the one that is created empty, or
holding everything, or with the default alone, and then filled. -/
structure CreatedOneByOne (registers : Registers) (on : String) (items : List Value)
    (entries : List (Value × Value)) (d : Value) : Prop where
  set : FilledAs registers on (.create .sortedSet [.value (.list items)] [])
    (.create .sortedSet [] []) (items.map fun x => .call on "add" [.value x] [])
  map : FilledAs registers on (.create .sortedMap [.value (.list (Value.ofEntries entries))] [])
    (.create .sortedMap [] [])
    (entries.map fun e => .call on "insert" [.value e.1, .value e.2] [])
  finite : FilledAs registers on
    (.create .cofiniteSet [.value (.list items)] [("negated", .value (.bool false))])
    (.special .cofiniteSet "empty" [] []) (items.map fun x => .call on "add" [.value x] [])
  cofinite : FilledAs registers on
    (.create .cofiniteSet [.value (.list items)] [("negated", .value (.bool true))])
    (.special .cofiniteSet "all" [] []) (items.map fun x => .call on "discard" [.value x] [])
  /-- As far as it can be told which values equal the default. -/
  defaultMap : (∀ e ∈ entries, ∃ r, Value.same e.2 d = .ok r) →
    FilledAs registers on
      (.create .defaultMap [.value (.list (Value.ofEntries entries))] [("default", .value d)])
      (.special .defaultMap "constant" [.value d] [])
      (entries.map fun e => .setItem on (.value e.1) (.value e.2))
  /-- Where it cannot be told of a value, the command that sets it fails and changes nothing. -/
  stops : ∀ before e after failure, entries = before ++ e :: after →
    (∀ f ∈ before, ∃ r, Value.same f.2 d = .ok r) → Value.same e.2 d = .error failure →
      ∃ empty, run registers (.special .defaultMap "constant" [.value d] []) = (.ok empty, registers) ∧
        let filled := runCommands (before.map fun f => .setItem on (.value f.1) (.value f.2))
          (registers.set on empty)
        run filled (.setItem on (.value e.1) (.value e.2)) = (.error failure, filled)
  /-- The map is created at once if it can be told of the values that stay. -/
  created : (∃ v, run registers (.create .defaultMap [.value (.list (Value.ofEntries entries))]
      [("default", .value d)]) = (.ok v, registers)) ↔
    ∀ e, Keep.last.Stays (fun e f => tied Value.order.less e.1 f.1) entries e →
      ∃ r, Value.same e.2 d = .ok r

theorem createdOneByOne (ordered : Value.order.OrderedOn P) (insideItems : ∀ x ∈ items, P x)
    (inside : ∀ e ∈ entries, P e.1) (registers : Registers) (on : String) (d : Value) :
    CreatedOneByOne registers on items entries d := by
  have built := builtOneByOne ordered Value.same insideItems inside d
  constructor
  · obtain ⟨s, atOnce, filled⟩ := built.set
    exact filledAs (puts_add on) (create_set atOnce) (create_empty_set ordered) filled
  · obtain ⟨m, atOnce, filled⟩ := built.map
    exact filledAs (puts_insert on) (create_map atOnce) (create_empty_map ordered) filled
  · obtain ⟨s, atOnce, filled⟩ := built.finite
    exact filledAs (puts_addCofinite on) (create_cofinite false atOnce) rfl filled
  · obtain ⟨s, atOnce, filled⟩ := built.cofinite
    exact filledAs (puts_discardCofinite on) (create_cofinite true atOnce) rfl filled
  · intro answers
    obtain ⟨m, atOnce, filled⟩ := DefaultMap.ofList_eq_foldlM ordered inside answers
    exact filledAs (puts_setItem on) (create_defaultMap atOnce) rfl filled
  · rintro before e after failure rfl answers failed
    have insideBefore : ∀ f ∈ before, P f.1 := fun f mem => inside f (by simp [mem])
    exact ⟨.ofDefaultMap (.constant d), rfl,
      run_setItem_stops ordered insideBefore answers failed registers on⟩
  · exact exists_create_defaultMap_iff ordered inside

/-- What is built out of a list in any order, with any number of ties, is what its items make one by
one: as a container over any ordered domain, and by the commands of a session. -/
theorem bulk_construction_one_by_one {ε κ ν : Type} {cmp : Comparison ε κ} {D : κ → Prop}
    (ordered : cmp.OrderedOn D) (eq : ν → ν → Except ε Bool) (keys : List κ)
    (insideKeys : ∀ k ∈ keys, D k) (pairs : List (κ × ν)) (insidePairs : ∀ e ∈ pairs, D e.1) (d : ν) :
    BuiltOneByOne cmp eq keys pairs d ∧
      ∀ P : Value → Prop, Value.order.OrderedOn P →
        ∀ (items : List Value) (entries : List (Value × Value)), (∀ x ∈ items, P x) →
          (∀ e ∈ entries, P e.1) → ∀ (registers : Registers) (on : String) (fallback : Value),
            CreatedOneByOne registers on items entries fallback :=
  ⟨builtOneByOne ordered eq insideKeys insidePairs d,
    fun _ orderedValues _ _ insideItems inside registers on fallback =>
      createdOneByOne orderedValues insideItems inside registers on fallback⟩

/-- A key that is set to the default and later to something else, and one that is set the other way
round; numbers among which a truth value is one of the ties. -/
theorem numbers_one_by_one :
    let entries : List (Value × Value) :=
      [(.int 2, .none), (.bool true, .text "a"), (.int 2, .int 7), (.int 1, .none)]
    BuiltOneByOne (Comparison.natural : Comparison Failure Nat) Comparison.natural.eq [2, 1, 2, 0]
        [(2, 0), (1, 5), (2, 7), (1, 0)] 0 ∧
      CreatedOneByOne [] "c" [.int 3, .bool true, .int 0, .int 1] entries .none ∧
      ∀ e ∈ entries, ∃ r, Value.same e.2 .none = .ok r := by
  intro entries
  obtain ⟨built, created⟩ := bulk_construction_one_by_one
    (Comparison.natural_ordered : (Comparison.natural : Comparison Failure Nat).Ordered)
    Comparison.natural.eq [2, 1, 2, 0] (fun _ _ => trivial) [(2, 0), (1, 5), (2, 7), (1, 0)]
    (fun _ _ => trivial) 0
  refine ⟨built, created Value.IsInteger Value.integers_ordered _ _ ?_ ?_ [] "c" .none, ?_⟩
  · simp [Value.IsInteger, Value.int?]
  · simp [entries, Value.IsInteger, Value.int?]
  · simp only [entries, List.forall_mem_cons]
    exact ⟨⟨true, rfl⟩, ⟨false, rfl⟩, ⟨false, rfl⟩, ⟨true, rfl⟩, List.forall_mem_nil _⟩

/-- A map with a default that is filled asks of every value whether it equals the default; one that is
created at once asks only of those it keeps. Here the set under the key does not compare with the
default, and the number that comes after it does. -/
theorem replaced_value_asked :
    let entries : List (Value × Value) := [(.int 1, .sortedSet [.text "a"]), (.int 1, .int 5)]
    let d : Value := .sortedSet [.int 1]
    (do DefaultMap.ofEntries Value.same (← SortedMap.ofList Value.order entries) d).isOk = true ∧
      (entries.foldlM (fun m e => DefaultMap.set Value.order Value.same m e.1 e.2)
        (.constant d)).isOk = false := by
  decide +kernel

end Session

end SortedCollections
