import SortedCollections.Proofs.Edits
import SortedCollections.Proofs.Session.Calls
import SortedCollections.Proofs.Sets.Elements
import SortedCollections.Proofs.Values.Integers

/-!
# Operations on single entries

An operation on one entry of a container is given a value of any kind, one that is equal to nothing
among them. If it fails, it has changed nothing. Otherwise one entry at most has come, gone or been
replaced, and the one that has gone is the one that a search took for the value. A search does not ask
whether the two are equal: a value that is neither less nor greater than the entries it meets, such as
what is not a number, makes the operation change an entry that is not equal to it.
-/
namespace SortedCollections

namespace Session

/-- An operation on a single entry. -/
inductive EntryCall where
  | add (x : Source)
  | discard (x : Source)
  | remove (x : Source)
  | insert (key value : Source)
  | pop (key : Source) (default : Option Source)
  | setItem (key value : Source)
  | deleteItem (key : Source)

/-- The entries that a container stores, by their keys. Those of a set carry no value. -/
def storedEntries : Value → List (Value × Option Value)
  | .sortedSet items | .cofiniteSet items _ => items.map (·, none)
  | .sortedMap entries | .defaultMap entries _ => entries.map fun e => (e.1, some e.2)
  | _ => []

def storedKey (entry : Value × Option Value) : Except Failure Value := .ok entry.1

namespace EntryCall

/-- Does a container of a kind offer the operation? -/
def offeredBy : EntryCall → ContainerKind → Bool
  | .add _, .sortedSet | .discard _, .sortedSet | .remove _, .sortedSet
  | .add _, .cofiniteSet | .discard _, .cofiniteSet
  | .insert _ _, .sortedMap | .pop _ _, .sortedMap
  | .setItem _ _, .sortedMap | .deleteItem _, .sortedMap
  | .setItem _ _, .defaultMap | .deleteItem _, .defaultMap => true
  | _, _ => false

def command (on : String) : EntryCall → Command
  | .add x => .call on "add" [x.term on] []
  | .discard x => .call on "discard" [x.term on] []
  | .remove x => .call on "remove" [x.term on] []
  | .insert key value => .call on "insert" [key.term on, value.term on] []
  | .pop key default => .call on "pop" ((key :: default.toList).map (Source.term on)) []
  | .setItem key value => .setItem on (key.term on) (value.term on)
  | .deleteItem key => .deleteItem on (key.term on)

/-- The element or key that the operation is given, called on a container. -/
def key (self : Value) : EntryCall → Value
  | .add x | .discard x | .remove x | .insert x _ | .pop x _ | .setItem x _ | .deleteItem x =>
    x.argument.toValue self

end EntryCall

variable {registers : Registers} {on : String} {v key : Value}

/-- The container was edited for the sake of a key. -/
structure EditedTo (key v w : Value) : Prop where
  kind : ContainerKind.of? w = ContainerKind.of? v
  entries : Edited Value.order storedKey key (storedEntries v) (storedEntries w)

/-- The outcome of an operation: a failure that has changed nothing, or an edit. -/
inductive EntryOutcome (registers : Registers) (on : String) (key v : Value) :
    Except Failure Value × Registers → Prop where
  | failed (e : Failure) : EntryOutcome registers on key v (.error e, registers)
  | done (answer w : Value) (edited : EditedTo key v w) :
    EntryOutcome registers on key v (.ok answer, registers.set on w)

/-- The same of a step on the container. -/
inductive StepOutcome {σ : Type} (wrap : σ → Value) (key : Value) (s : σ) :
    EStateM.Result Failure σ Value → Prop where
  | failed (e : Failure) : StepOutcome wrap key s (.error e s)
  | done (answer : Value) (t : σ) (edited : EditedTo key (wrap s) (wrap t)) :
    StepOutcome wrap key s (.ok answer t)

section Outcomes

variable {σ α : Type} {wrap : σ → Value} {s : σ}

open MemberCall

/-- A step that first asks for an answer fails without a change if there is none. -/
theorem stepOutcome_answer {made : Except (Fault Failure) α} {rest : α → MemberCall σ Value}
    (goesOn : ∀ a, made = .ok a → StepOutcome wrap key s (rest a s)) :
    StepOutcome wrap key s ((answer made >>= rest) s) := by
  cases made with
  | error e => exact .failed (.ofFault e)
  | ok a => exact goesOn a rfl

/-- A step that stores what was made of the container. -/
theorem stepOutcome_store {made : Except (Fault Failure) σ}
    (edited : ∀ t, made = .ok t → EditedTo key (wrap s) (wrap t)) :
    StepOutcome wrap key s ((do set (← answer made); return .none : MemberCall σ Value) s) :=
  stepOutcome_answer fun t done => .done .none t (edited t done)

/-- A call of a member works on the container in its register. -/
theorem entryOutcome_call (held : registers.lookup on = some (wrap s)) {name : String}
    (sources : List Source) {step : MemberCall σ Value}
    (works : call name ⟨sources.map Source.argument, []⟩ (wrap s) = inside wrap s step (wrap s))
    (outcome : StepOutcome wrap key s (step s)) :
    EntryOutcome registers on key (wrap s)
      (run registers (.call on name (sources.map (Source.term on)) [])) := by
  cases result : step s with
  | ok answer t =>
    rw [result] at outcome
    cases outcome with
    | done _ _ edited =>
      rw [run_member wrap held sources works result]
      exact .done answer (wrap t) edited
  | error e t =>
    rw [result] at outcome
    cases outcome
    rw [run_member_failed wrap held sources works result, Registers.set_of_lookup held]
    exact .failed e

/-- What a register holds is replaced. -/
theorem entryOutcome_replacing (held : registers.lookup on = some v)
    {f : Value → Except Failure Value} (edited : ∀ w, f v = .ok w → EditedTo key v w) :
    EntryOutcome registers on key v (replacing registers on f) := by
  cases made : f v with
  | ok w =>
    rw [replacing_ok held made]
    exact .done .none w (edited w made)
  | error e =>
    rw [replacing_failed held made]
    exact .failed e

end Outcomes

theorem editedTo_set {s t : SortedSet Value} (edited : Edited Value.order .ok key s.items t.items) :
    EditedTo key (.ofSet s) (.ofSet t) :=
  ⟨rfl, edited.map fun _ => rfl⟩

theorem editedTo_cofinite {s t : CofiniteSet Value}
    (edited : Edited Value.order .ok key s.elements.items t.elements.items) :
    EditedTo key (.ofCofinite s) (.ofCofinite t) :=
  ⟨rfl, edited.map fun _ => rfl⟩

theorem editedTo_map {m n : SortedMap Value Value}
    (edited : Edited Value.order SortedMap.key key m.entries n.entries) :
    EditedTo key (.ofMap m) (.ofMap n) :=
  ⟨rfl, edited.map fun _ => rfl⟩

theorem editedTo_defaultMap {m n : DefaultMap Value Value}
    (edited : Edited Value.order SortedMap.key key m.entries.entries n.entries.entries) :
    EditedTo key (.ofDefaultMap m) (.ofDefaultMap n) :=
  ⟨rfl, edited.map fun _ => rfl⟩

theorem editedTo_put_map {entries : List (Value × Value)} {value w : Value}
    (done : (Value.sortedMap entries).put key value = .ok w) : EditedTo key (.sortedMap entries) w := by
  obtain ⟨⟨old, n⟩, inserted, made⟩ := bind_eq_ok.mp done
  cases made
  exact editedTo_map (SortedMap.insert_edited (lift_eq_ok.mp inserted))

theorem editedTo_erase_map {entries : List (Value × Value)} {w : Value}
    (done : (Value.sortedMap entries).erase key = .ok w) : EditedTo key (.sortedMap entries) w := by
  obtain ⟨rest, erased, made⟩ := bind_eq_ok.mp done
  cases rest with
  | none => cases made
  | some n =>
    cases made
    exact editedTo_map (SortedMap.erase?_edited (lift_eq_ok.mp erased))

theorem editedTo_put_defaultMap {entries : List (Value × Value)} {fallback value w : Value}
    (done : (Value.defaultMap entries fallback).put key value = .ok w) :
    EditedTo key (.defaultMap entries fallback) w := by
  obtain ⟨n, stored, made⟩ := bind_eq_ok.mp done
  cases made
  exact editedTo_defaultMap (DefaultMap.set_edited (lift_eq_ok.mp stored))

theorem editedTo_erase_defaultMap {entries : List (Value × Value)} {fallback w : Value}
    (done : (Value.defaultMap entries fallback).erase key = .ok w) :
    EditedTo key (.defaultMap entries fallback) w := by
  cases done
  exact editedTo_defaultMap (DefaultMap.reset_edited Value.order ⟨⟨entries⟩, fallback⟩ key)

theorem entryOutcome_set {items : List Value} (held : registers.lookup on = some (.sortedSet items))
    {call : EntryCall} (offered : call.offeredBy .sortedSet = true) :
    EntryOutcome registers on (call.key (.sortedSet items)) (.sortedSet items)
      (run registers (call.command on)) := by
  have held : registers.lookup on = some (.ofSet ⟨items⟩) := held
  cases call with
  | add x =>
    exact entryOutcome_call held [x] rfl
      (stepOutcome_store fun _ done => editedTo_set (SortedSet.insert_edited done))
  | discard x =>
    exact entryOutcome_call held [x] rfl
      (stepOutcome_store fun _ done => editedTo_set (SortedSet.discard_edited done))
  | remove x =>
    refine entryOutcome_call held [x] rfl (stepOutcome_answer fun found done => ?_)
    cases found with
    | none => exact .failed _
    | some t => exact .done .none t (editedTo_set (SortedSet.erase?_edited done))
  | _ => cases offered

theorem entryOutcome_cofinite {items : List Value} {negated : Bool}
    (held : registers.lookup on = some (.cofiniteSet items negated)) {call : EntryCall}
    (offered : call.offeredBy .cofiniteSet = true) :
    EntryOutcome registers on (call.key (.cofiniteSet items negated)) (.cofiniteSet items negated)
      (run registers (call.command on)) := by
  have held : registers.lookup on = some (.ofCofinite ⟨⟨items⟩, negated⟩) := held
  cases call with
  | add x =>
    exact entryOutcome_call held [x] rfl
      (stepOutcome_store fun _ done => editedTo_cofinite (CofiniteSet.insert_edited done))
  | discard x =>
    exact entryOutcome_call held [x] rfl
      (stepOutcome_store fun _ done => editedTo_cofinite (CofiniteSet.discard_edited done))
  | _ => cases offered

theorem entryOutcome_map {entries : List (Value × Value)}
    (held : registers.lookup on = some (.sortedMap entries)) {call : EntryCall}
    (offered : call.offeredBy .sortedMap = true) :
    EntryOutcome registers on (call.key (.sortedMap entries)) (.sortedMap entries)
      (run registers (call.command on)) := by
  have heldMap : registers.lookup on = some (.ofMap ⟨entries⟩) := held
  cases call with
  | insert key value =>
    refine entryOutcome_call heldMap [key, value] rfl (stepOutcome_answer fun inserted done => ?_)
    exact .done _ _ (editedTo_map (SortedMap.insert_edited done))
  | pop key default =>
    cases default with
    | none =>
      refine entryOutcome_call heldMap [key] rfl (stepOutcome_answer fun popped done => ?_)
      cases popped with
      | none => exact .failed _
      | some popped => exact .done _ _ (editedTo_map (SortedMap.pop?_edited done))
    | some value =>
      refine entryOutcome_call heldMap [key, value] rfl (stepOutcome_answer fun popped done => ?_)
      cases popped with
      | none => exact .done _ _ (editedTo_map (.same _))
      | some popped => exact .done _ _ (editedTo_map (SortedMap.pop?_edited done))
  | setItem key value =>
    refine entryOutcome_replacing held fun w made => ?_
    rw [key.read held, value.read held] at made
    exact editedTo_put_map made
  | deleteItem key =>
    refine entryOutcome_replacing held fun w made => ?_
    rw [key.read held] at made
    exact editedTo_erase_map made
  | _ => cases offered

theorem entryOutcome_defaultMap {entries : List (Value × Value)} {fallback : Value}
    (held : registers.lookup on = some (.defaultMap entries fallback)) {call : EntryCall}
    (offered : call.offeredBy .defaultMap = true) :
    EntryOutcome registers on (call.key (.defaultMap entries fallback)) (.defaultMap entries fallback)
      (run registers (call.command on)) := by
  cases call with
  | setItem key value =>
    refine entryOutcome_replacing held fun w made => ?_
    rw [key.read held, value.read held] at made
    exact editedTo_put_defaultMap made
  | deleteItem key =>
    refine entryOutcome_replacing held fun w made => ?_
    rw [key.read held] at made
    exact editedTo_erase_defaultMap made
  | _ => cases offered

theorem entryOutcome (held : registers.lookup on = some v) {kind : ContainerKind}
    (container : ContainerKind.of? v = some kind) {call : EntryCall}
    (offered : call.offeredBy kind = true) :
    EntryOutcome registers on (call.key v) v (run registers (call.command on)) := by
  cases v with
  | sortedSet items =>
    cases container
    exact entryOutcome_set held offered
  | sortedMap entries =>
    cases container
    exact entryOutcome_map held offered
  | cofiniteSet items negated =>
    cases container
    exact entryOutcome_cofinite held offered
  | defaultMap entries fallback =>
    cases container
    exact entryOutcome_defaultMap held offered
  | _ => cases container

/-- Where a search takes no entry for the value that is not equal to it, the entries that are not equal
stay. -/
theorem EditedTo.spares {w : Value} (edited : EditedTo key v w)
    (told : ∀ e ∈ storedEntries v, TakenFor Value.order storedKey key e → Value.same e.1 key = .ok true)
    {others : List (Value × Option Value)} (stored : others.Sublist (storedEntries v))
    (unequal : ∀ e ∈ others, Value.same e.1 key ≠ .ok true) : others.Sublist (storedEntries w) :=
  edited.entries.keeps stored fun e mem taken => unequal e mem (told e (stored.subset mem) taken)

/-- An operation on a single entry of a container, given a value of any kind, fails and changes nothing,
or leaves a container of its kind in which one entry at most has come, gone or been replaced; an entry
that has gone is neither less nor greater than the value. So the entries that are not equal to the value
stay, and in their order, if none of the entries but an equal one is neither less nor greater. -/
theorem single_entries_edited (held : registers.lookup on = some v) {kind : ContainerKind}
    (container : ContainerKind.of? v = some kind) (call : EntryCall)
    (offered : call.offeredBy kind = true) :
    (∃ e, run registers (call.command on) = (.error e, registers)) ∨
      ∃ answer w, run registers (call.command on) = (.ok answer, registers.set on w) ∧
        ContainerKind.of? w = some kind ∧
        Edited Value.order storedKey (call.key v) (storedEntries v) (storedEntries w) ∧
        ((∀ e ∈ storedEntries v, TakenFor Value.order storedKey (call.key v) e →
            Value.same e.1 (call.key v) = .ok true) →
          ∀ others : List (Value × Option Value), others.Sublist (storedEntries v) →
            (∀ e ∈ others, Value.same e.1 (call.key v) ≠ .ok true) →
              others.Sublist (storedEntries w)) := by
  have outcome := entryOutcome held container offered
  generalize run registers (call.command on) = ran at outcome
  cases outcome with
  | failed e => exact .inl ⟨e, rfl⟩
  | done answer w edited =>
    exact .inr ⟨answer, w, rfl, edited.kind.trans container, edited.entries,
      fun told _ stored unequal => edited.spares told stored unequal⟩

/-- A truth value takes the place of the number that it is equal to, and the other numbers stay. -/
theorem equal_number_replaced :
    let registers : Registers := [("s", .sortedSet [.int 0, .int 1, .int 2])]
    ∃ answer w, run registers ((EntryCall.add (.value (.bool true))).command "s") =
        (.ok answer, registers.set "s" w) ∧
      [(Value.int 0, none), (.int 2, none)].Sublist (storedEntries w) := by
  intro registers
  have held : registers.lookup "s" = some (.sortedSet [.int 0, .int 1, .int 2]) := rfl
  have one : (Value.bool true).int? = some 1 := rfl
  have kept : IncreasingOn Value.order.less Value.IsInteger [.int 0, .int 1, .int 2] := by
    refine ⟨by decide +kernel, ?_⟩
    simp only [List.forall_mem_cons]
    exact ⟨⟨0, rfl⟩, ⟨1, rfl⟩, ⟨2, rfl⟩, List.forall_mem_nil _⟩
  have told : ∀ e ∈ storedEntries (.sortedSet [.int 0, .int 1, .int 2]),
      TakenFor Value.order storedKey (.bool true) e → Value.same e.1 (.bool true) = .ok true := by
    refine List.forall_mem_map.mpr fun x mem taken => ?_
    obtain ⟨n, isInt⟩ := kept.inside x mem
    have equal := (takenFor_iff Value.integers_ordered rfl ⟨n, isInt⟩ ⟨1, one⟩).mp taken
    rwa [Value.order_eq isInt one, ← Value.same_int isInt one] at equal
  rcases single_entries_edited held rfl (.add (.value (.bool true))) rfl with
    ⟨e, failed⟩ | ⟨answer, w, ran, _, _, spares⟩
  · obtain ⟨t, done, _⟩ := SortedSet.insert_enumerates Value.integers_ordered
      (s := ⟨[.int 0, .int 1, .int 2]⟩) (.of_increasing kept) ⟨1, one⟩
    have stored := store_ok (SortedSet.insert Value.order · (.bool true)) done
    have ran : run registers ((EntryCall.add (.value (.bool true))).command "s") = _ :=
      run_member Value.ofSet held [.value (.bool true)] rfl stored
    cases failed.symm.trans ran
  · refine ⟨answer, w, ran, spares told _ (by simp [storedEntries]) ?_⟩
    simp only [List.forall_mem_cons]
    exact ⟨by rintro ⟨⟩, by rintro ⟨⟩, List.forall_mem_nil _⟩

/-- To discard what none of the items is told from takes the first of them out. -/
theorem run_discard_untold {x : Value} {items : List Value}
    (held : registers.lookup on = some (.sortedSet (x :: items)))
    (untold : ∀ y ∈ x :: items, TakenFor Value.order .ok key y) :
    run registers ((EntryCall.discard (.value key)).command on) =
      (.ok .none, registers.set on (.sortedSet items)) :=
  have stored := store_ok (SortedSet.discard Value.order · key) (SortedSet.discard_untold untold)
  run_member Value.ofSet held [.value key] rfl stored

/-- What is not a number is equal to none of the numbers of a set, but takes the first of them out. -/
theorem first_number_discarded :
    run [("s", .sortedSet [.int 1, .int 2, .int 3])]
        ((EntryCall.discard (.value (.notANumber 0))).command "s") =
      (.ok .none, [("s", .sortedSet [.int 2, .int 3])]) ∧
    Value.same (.int 1) (.notANumber 0) = .ok false := by
  have untold : ∀ y ∈ [Value.int 1, .int 2, .int 3],
      TakenFor Value.order .ok (.notANumber 0) y := by
    simp only [List.forall_mem_cons]
    exact ⟨⟨rfl, rfl⟩, ⟨rfl, rfl⟩, ⟨rfl, rfl⟩, List.forall_mem_nil _⟩
  exact ⟨run_discard_untold rfl untold, rfl⟩

end Session

end SortedCollections
