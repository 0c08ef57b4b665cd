import SortedCollections.Proofs.Maps.Folding
import SortedCollections.Proofs.Session.Calls
import SortedCollections.Proofs.Values.Integers

/-!
# Programs over a sorted map

A program calls the members of a map that a register holds, and asks it questions. As long as all keys
come from one ordered domain, the register holds the entries, in increasing order of their keys, of a
map that the calls of the program determine, and every answer is read off that map or off its entries.
The functions that the program hands over may fail. Then the map stays as it was.
-/
namespace SortedCollections

namespace Session

def Source.mapOperand (source : Source) : Operand Failure (Value × Value) := source.argument.asMap

/-- The other side of a merge holds keys of the domain; those of a sorted map are in order. -/
def KeysInside (P : Value → Prop) (operand : Operand Failure (Value × Value)) : Prop :=
  operand.Inside (Value.order.on SortedMap.key)
    (Comparison.KeyIn (SortedMap.key : Value × Value → Except Failure Value) P)

/-- A merge with another map, with the function that it is given. Values of keys on both sides are
combined by the value on the right unless there is a function. -/
inductive MapMerge where
  | union (combine : Option ValueFunction)
  | intersection (combine : Option ValueFunction)
  | difference
  | symmetricDifference
  | join (kind : Join) (f : ValueFunction)

namespace MapMerge

def name : MapMerge → String
  | .union _ => "union"
  | .intersection _ => "intersection"
  | .difference => "difference"
  | .symmetricDifference => "symmetric_difference"
  | .join .outer _ => "outer_join"
  | .join .left _ => "left_join"
  | .join .right _ => "right_join"
  | .join .inner _ => "inner_join"

/-- The member that works in place. -/
def updatingName : MapMerge → String
  | .union _ => "union_update"
  | .intersection _ => "intersection_update"
  | .difference => "difference_update"
  | .symmetricDifference => "symmetric_difference_update"
  | .join .outer _ => "outer_join_update"
  | .join .left _ => "left_join_update"
  | .join .right _ => "right_join_update"
  | .join .inner _ => "inner_join_update"

def positional : MapMerge → List ValueFunction
  | .join _ f => [f]
  | _ => []

def named : MapMerge → List (String × ValueFunction)
  | .union (some f) | .intersection (some f) => [("combine", f)]
  | _ => []

def combining (combine : Option ValueFunction) : Value → Value → Except Failure Value :=
  (combine.map fun f => (Argument.function f).combining).getD MapRule.preferRight

def rule : MapMerge → MapRule Failure Value Value
  | .union combine => .union (combining combine)
  | .intersection combine => .intersection (combining combine)
  | .difference => .difference
  | .symmetricDifference => .symmetricDifference
  | .join kind f => .join kind (Argument.function f).joining

end MapMerge

/-- A call on a map, or a question about it. -/
inductive MapCall where
  | setItem (key value : Value)
  | insert (key value : Value)
  | deleteItem (key : Value)
  | pop (key : Value) (default : Option Value)
  | popitem
  | setdefault (key : Value) (default : Option Value)
  | clear
  | retain (f : ValueFunction)
  /-- Takes in another map, which may be left out, and then entries under names. -/
  | update (source : Option Source) (named : List (String × Value))
  /-- The members that merge another map in. -/
  | mergeIn (merge : MapMerge) (source : Source)
  /-- The members that merge the map with another one into a new map. -/
  | merged (merge : MapMerge) (source : Source)
  | length
  | contains (key : Value)
  | getItem (key : Value)
  | get (key : Value) (default : Option Value)
  | list
  | reversed
  | view (part : View)
  | viewReversed (part : View)
  | viewLength (part : View)
  /-- Is an entry in the view of the items? -/
  | hasItem (entry : Value)
  | keysSet
  | toList

namespace MapCall

def mergeCommand (on name : String) (merge : MapMerge) (source : Source) : Command :=
  .call on name (source.term on :: merge.positional.map .function)
    (merge.named.map fun entry => (entry.1, .function entry.2))

def command (on : String) : MapCall → Command
  | .setItem key value => .setItem on (.value key) (.value value)
  | .insert key value => .call on "insert" [.value key, .value value] []
  | .deleteItem key => .deleteItem on (.value key)
  | .pop key default => .call on "pop" (.value key :: default.toList.map .value) []
  | .popitem => .call on "popitem" [] []
  | .setdefault key default => .call on "setdefault" (.value key :: default.toList.map .value) []
  | .clear => .call on "clear" [] []
  | .retain f => .call on "retain" [.function f] []
  | .update source named =>
    .call on "update" (source.toList.map (Source.term on)) (named.map fun e => (e.1, .value e.2))
  | .mergeIn merge source => mergeCommand on merge.updatingName merge source
  | .merged merge source => mergeCommand on merge.name merge source
  | .length => .query .length (.register on)
  | .contains key => .combine .isIn (.value key) (.register on)
  | .getItem key => .getItem on (.value key)
  | .get key default => .call on "get" (.value key :: default.toList.map .value) []
  | .list => .query .list (.register on)
  | .reversed => .query .reversed (.register on)
  | .view part => .view on part .list
  | .viewReversed part => .view on part .reversed
  | .viewLength part => .view on part .length
  | .hasItem entry => .view on .items (.contains (.value entry))
  | .keysSet => .call on "keys_set" [] []
  | .toList => .call on "to_list" [] []

def textEntries (named : List (String × Value)) : List (Value × Value) :=
  named.map fun e => (.text e.1, e.2)

/-- What an update takes in, one after the other. -/
def updateOperands (source : Option Source) (named : List (String × Value)) :
    List (Operand Failure (Value × Value)) :=
  updateOperand (source.map Source.argument) ::
    if named.isEmpty then [] else [.unsorted (textEntries named)]

/-- All keys that a call brings in lie in the domain. The view of the keys is not read backwards. -/
def Inside (P : Value → Prop) : MapCall → Prop
  | .setItem key _ | .insert key _ | .deleteItem key | .pop key _ | .setdefault key _
  | .contains key | .getItem key | .get key _ => P key
  | .update source named => ∀ operand ∈ updateOperands source named, KeysInside P operand
  | .mergeIn _ source | .merged _ source => KeysInside P source.mapOperand
  | .viewReversed part => part ≠ .keys
  | .hasItem entry => ∃ key value, entry.toPair = .ok (key, value) ∧ P key
  | .popitem | .clear | .retain _ | .length | .list | .reversed | .view _ | .viewLength _ | .keysSet
  | .toList => True

/-- What a merge is asked about a map and its other side. -/
def asks (rule : MapRule Failure Value Value) (map : Set (Value × Value))
    (operand : Operand Failure (Value × Value)) : Inquiry Failure Value Value :=
  rule.asks Value.order map (operand.members (Value.order.on SortedMap.key) map)

/-- Does an entry pass the test that a function makes? -/
def passes (f : ValueFunction) (key value : Value) : Except Failure Bool := do
  return (← f [key, value]).truth

open Classical in
/-- A map after it was asked about in place: the map of the answers, if there are all. -/
noncomputable def asked (inquiry : Inquiry Failure Value Value) (map : Set (Value × Value)) :
    Set (Value × Value) :=
  if inquiry.Succeeds then inquiry.result else map

open Classical in
/-- The map that a call leaves. -/
noncomputable def after (map : Set (Value × Value)) : MapCall → Set (Value × Value)
  | .setItem key value | .insert key value => Value.order.giving key value map
  | .deleteItem key | .pop key _ => Value.order.withoutKey key map
  | .popitem => Value.order.notGreatestKey map
  | .setdefault key default =>
    if Value.order.HasKey map key then map else Value.order.giving key (default.getD .none) map
  | .clear => ∅
  | .retain f => asked (testing (passes f) map) map
  | .update source named =>
    (updateOperands source named).foldl (fun map operand =>
      (asks (.union MapRule.preferRight) map operand).result) map
  | .mergeIn merge source => asked (asks merge.rule map source.mapOperand) map
  | .merged _ _ | .length | .contains _ | .getItem _ | .get _ _ | .list | .reversed | .view _
  | .viewReversed _ | .viewLength _ | .hasItem _ | .keysSet | .toList => map

/-- An answer by the value of a key, or for want of one. -/
def ByKey (map : Set (Value × Value)) (key : Value) (found : Value → Except Failure Value)
    (missing : Except Failure Value) (answer : Except Failure Value) : Prop :=
  (∃ value, Value.order.Gives map key value ∧ answer = found value) ∨
    ¬Value.order.HasKey map key ∧ answer = missing

/-- A question about every key in place is answered if all keys are. -/
def InPlace (inquiry : Inquiry Failure Value Value) (answer : Except Failure Value) : Prop :=
  (inquiry.Succeeds ∧ answer = .ok .none) ∨
    ∃ cause, inquiry.FailsFirst Value.order cause ∧ answer = .error cause

/-- The answer is the map of the answers for every key, if there are all. -/
def IsMap (P : Value → Prop) (inquiry : Inquiry Failure Value Value) (answer : Except Failure Value) :
    Prop :=
  (inquiry.Succeeds ∧ ∃ entries, answer = .ok (.sortedMap entries) ∧
      Tabulates Value.order P entries inquiry.result) ∨
    ∃ cause, inquiry.FailsFirst Value.order cause ∧ answer = .error cause

/-- What a call answers, by the map and the list of its entries. -/
def Answers (P : Value → Prop) (map : Set (Value × Value)) (entries : List (Value × Value))
    (answer : Except Failure Value) : MapCall → Prop
  | .setItem _ _ | .clear | .update _ _ => answer = .ok .none
  | .insert key _ => ByKey map key .ok (.ok .none) answer
  | .deleteItem key => ByKey map key (fun _ => .ok .none) (.error (.keyMissing key)) answer
  | .pop key default => ByKey map key .ok (default.elim (.error (.keyMissing key)) .ok) answer
  | .popitem =>
    (map = ∅ ∧ answer = .error (.keyMissing (.text "popitem from an empty map"))) ∨
      ∃ e ∈ map, answer = .ok (.ofEntry e) ∧ ∀ f ∈ map, f = e ∨ Value.order.less f.1 e.1 = true
  | .setdefault key default => ByKey map key .ok (.ok (default.getD .none)) answer
  | .retain f => InPlace (testing (passes f) map) answer
  | .mergeIn merge source => InPlace (asks merge.rule map source.mapOperand) answer
  | .merged merge source => IsMap P (asks merge.rule map source.mapOperand) answer
  | .length | .viewLength _ => answer = .ok (.int map.ncard)
  | .contains key => ByKey map key (fun _ => .ok (.bool true)) (.ok (.bool false)) answer
  | .getItem key => ByKey map key .ok (.error (.keyMissing key)) answer
  | .get key default => ByKey map key .ok (.ok (default.getD .none)) answer
  | .list => answer = .ok (.list (entries.map Prod.fst))
  | .reversed => answer = .ok (.list (entries.map Prod.fst).reverse)
  | .view part => answer = .ok (.list (viewItems part entries))
  | .viewReversed part => answer = .ok (.list (viewItems part entries).reverse)
  | .hasItem entry => ∀ key value, entry.toPair = .ok (key, value) →
    ByKey map key (fun found => do return .bool (← Value.same found value)) (.ok (.bool false)) answer
  | .keysSet => answer = .ok (.sortedSet (entries.map Prod.fst))
  | .toList => answer = .ok (.list (Value.ofEntries entries))

end MapCall

/-- The map that a program leaves. -/
noncomputable def mapAfter (program : List MapCall) (map : Set (Value × Value)) :
    Set (Value × Value) :=
  program.foldl MapCall.after map

def runMapCalls (on : String) (program : List MapCall) (registers : Registers) : Registers :=
  runCommands (program.map (MapCall.command on)) registers

open MemberCall

variable {registers : Registers} {on : String}

theorem call_merged (merge : MapMerge) (x : Argument) (entries : List (Value × Value)) :
    call merge.name ⟨x :: merge.positional.map .function,
        merge.named.map fun entry => (entry.1, .function entry.2)⟩ (.sortedMap entries) =
      inside Value.ofMap ⟨entries⟩
        (do return .ofMap (← answer ((← get).merged Value.order merge.rule x.asMap)))
        (.sortedMap entries) := by
  cases merge with
  | union combine => cases combine <;> rfl
  | intersection combine => cases combine <;> rfl
  | difference => rfl
  | symmetricDifference => rfl
  | join kind f => cases kind <;> rfl

theorem call_mergeIn (merge : MapMerge) (x : Argument) (entries : List (Value × Value)) :
    call merge.updatingName ⟨x :: merge.positional.map .function,
        merge.named.map fun entry => (entry.1, .function entry.2)⟩ (.sortedMap entries) =
      inside Value.ofMap ⟨entries⟩ (change (SortedMap.update Value.order merge.rule x.asMap))
        (.sortedMap entries) := by
  let args : Arguments := ⟨x :: merge.positional.map .function,
    merge.named.map fun entry => (entry.1, .function entry.2)⟩
  have own : MapMembers.rule? merge.updatingName args = none := by
    cases merge with
    | join kind f => cases kind <;> rfl
    | _ => rfl
  have ending : MapMembers.inPlaceName? merge.updatingName = some merge.name := by
    cases merge with
    | join kind f => cases kind <;> simp only [MapMerge.updatingName, MapMerge.name] <;> decide +kernel
    | _ => simp only [MapMerge.updatingName, MapMerge.name]; decide +kernel
  have asked : MapMembers.rule? merge.name args = some (.ok (merge.rule, x)) := by
    cases merge with
    | union combine => cases combine <;> rfl
    | intersection combine => cases combine <;> rfl
    | difference => rfl
    | symmetricDifference => rfl
    | join kind f => cases kind <;> rfl
  have called : call merge.updatingName args (.sortedMap entries) =
      inside Value.ofMap ⟨entries⟩ (MapMembers.call merge.updatingName args) (.sortedMap entries) := by
    cases merge with
    | join kind f => cases kind <;> rfl
    | _ => rfl
  rw [called, MapMembers.call, own, ending, Option.bind_some, asked]

theorem resolve_merge {v : Value} (held : registers.lookup on = some v) (merge : MapMerge)
    (source : Source) :
    resolveAll registers (some on) (source.term on :: merge.positional.map .function)
        (merge.named.map fun entry => (entry.1, .function entry.2)) =
      .ok ⟨source.argument :: merge.positional.map .function,
        merge.named.map fun entry => (entry.1, .function entry.2)⟩ := by
  rw [resolveAll, List.mapM_cons, source.resolve held]
  cases merge with
  | union combine => cases combine <;> rfl
  | intersection combine => cases combine <;> rfl
  | difference => rfl
  | symmetricDifference => rfl
  | join kind f => rfl

/-- A key, and a value that may be left out. -/
theorem resolve_optional (registers : Registers) (on : String) (key : Value)
    (default : Option Value) :
    resolveAll registers (some on) (.value key :: default.toList.map .value) [] =
      .ok ⟨.value key :: default.toList.map .value, []⟩ := by
  cases default <;> rfl

/-- A member that takes no argument. -/
theorem call_plain {name : String} {member : MapMembers.Member}
    (own : MapMembers.rule? name ⟨[], []⟩ = none) (ending : MapMembers.inPlaceName? name = none)
    (plain : MapMembers.plain? name = some member) :
    MapMembers.call name ⟨[], []⟩ = member := by
  rw [MapMembers.call, own, ending, plain]
  rfl

/-- A member that takes no argument and only answers. -/
theorem run_plain {m : SortedMap Value Value} (held : registers.lookup on = some (.ofMap m))
    (name : String) (f : SortedMap Value Value → Value)
    (own : MapMembers.rule? name ⟨[], []⟩ = none) (ending : MapMembers.inPlaceName? name = none)
    (plain : MapMembers.plain? name = some do return f (← get))
    (works : call name ⟨[], []⟩ (.ofMap m) =
      inside Value.ofMap m (MapMembers.call name ⟨[], []⟩) (.ofMap m)) :
    run registers (.call on name [] []) = (.ok (f m), registers) := by
  have answered : MapMembers.call name ⟨[], []⟩ m = .ok (f m) m := by
    rw [call_plain own ending plain]
    rfl
  have ran := run_member Value.ofMap held [] works answered
  rw [Registers.set_of_lookup held] at ran
  exact ran

/-- A member that works on single keys or on every value. -/
theorem call_onKeys {name : String} {args : Arguments} (own : MapMembers.rule? name args = none)
    (ending : MapMembers.inPlaceName? name = none) (plain : MapMembers.plain? name = none)
    (other : name ≠ "update") : MapMembers.call name args = MapMembers.onKeys name args := by
  rw [MapMembers.call, own, ending, plain]
  exact if_neg other

theorem call_popitem (m : SortedMap Value Value)
    {popped : Option ((Value × Value) × SortedMap Value Value)} (done : m.popMax? = popped) :
    MapMembers.call "popitem" ⟨[], []⟩ m =
      popped.elim (.error (.keyMissing (.text "popitem from an empty map")) m)
        fun p => .ok (.ofEntry p.1) p.2 := by
  have called : MapMembers.call "popitem" ⟨[], []⟩ = _ := call_plain rfl (by decide +kernel) rfl
  rw [called, bind_run]
  dsimp only [get, getThe, MonadStateOf.get, EStateM.get]
  rw [done]
  cases popped <;> rfl

section Members

variable {m n : SortedMap Value Value} {key value : Value} {default : Option Value}

theorem call_pop_map {popped : Option (Value × SortedMap Value Value)}
    (done : m.pop? Value.order key = .ok popped) :
    MapMembers.call "pop" ⟨.value key :: default.toList.map .value, []⟩ m =
      popped.elim (default.elim (.error (.keyMissing key) m) fun value => .ok value m)
        fun p => .ok p.1 p.2 := by
  cases default with
  | none =>
    show (MemberCall.answer (m.pop? Value.order key) >>= _ : MemberCall _ _) _ = _
    rw [done]
    cases popped <;> rfl
  | some value =>
    show (MemberCall.answer (m.pop? Value.order key) >>= _ : MemberCall _ _) _ = _
    rw [done]
    cases popped <;> rfl

theorem call_setdefault
    (done : m.getOrInsert Value.order key (default.getD .none) = .ok (value, n)) :
    MapMembers.call "setdefault" ⟨.value key :: default.toList.map .value, []⟩ m = .ok value n := by
  have called : MapMembers.call "setdefault" ⟨.value key :: default.toList.map .value, []⟩ = _ :=
    call_onKeys rfl (by decide +kernel) rfl (by decide)
  rw [called]
  cases default with
  | none =>
    show (MemberCall.answer (m.getOrInsert Value.order key .none) >>= _ : MemberCall _ _) _ = _
    rw [show m.getOrInsert Value.order key .none = .ok (value, n) from done]
    rfl
  | some d =>
    show (MemberCall.answer (m.getOrInsert Value.order key d) >>= _ : MemberCall _ _) _ = _
    rw [show m.getOrInsert Value.order key d = .ok (value, n) from done]
    rfl

theorem erase_map {rest : Option (SortedMap Value Value)}
    (done : m.erase? Value.order key = .ok rest) :
    (Value.ofMap m).erase key =
      rest.elim (.error (.keyMissing key)) fun n => .ok (.ofMap n) := by
  show (Failure.lift (m.erase? Value.order key) >>= _) = _
  rw [done]
  cases rest <;> rfl

theorem call_get : MapMembers.call "get" ⟨.value key :: default.toList.map .value, []⟩ m =
    .ok ((m.lookup? Value.order key).getD (default.getD .none)) m := by
  cases default <;> rfl

end Members

theorem hasEntry_eq {entries : List (Value × Value)} {entry key value : Value}
    (pair : entry.toPair = .ok (key, value)) :
    hasEntry entries entry = (SortedMap.lookup? Value.order ⟨entries⟩ key).elim (.ok false)
      fun found => Value.same found value := by
  rw [hasEntry, pair, show (Except.ok (key, value) : Except Failure _) = pure (key, value) from rfl,
    pure_bind]
  dsimp only
  cases SortedMap.lookup? Value.order ⟨entries⟩ key <;> rfl

section Questions

variable {entries : List (Value × Value)} {registers : Registers} {on : String}

/-- What a map gives for a key, or for none. -/
theorem run_get (held : registers.lookup on = some (.ofMap ⟨entries⟩)) (key : Value)
    (default : Option Value) :
    run registers (.call on "get" (.value key :: default.toList.map .value) []) =
      (.ok ((SortedMap.lookup? Value.order ⟨entries⟩ key).getD (default.getD .none)), registers) := by
  refine (run_call Value.ofMap held (resolve_optional registers on key default) rfl call_get).trans ?_
  rw [Registers.set_of_lookup held]

/-- Is an entry in a map? Its value is compared with the one that the map gives for its key. -/
theorem run_hasItem (held : registers.lookup on = some (.ofMap ⟨entries⟩)) {entry key value : Value}
    (pair : entry.toPair = .ok (key, value)) :
    run registers (.view on .items (.contains (.value entry))) =
      ((SortedMap.lookup? Value.order ⟨entries⟩ key).elim (.ok (.bool false))
        fun found => do return .bool (← Value.same found value), registers) := by
  rw [run, reading_eq held]
  show (do return Value.bool (← hasEntry entries entry), registers) = _
  rw [hasEntry_eq pair]
  cases SortedMap.lookup? Value.order ⟨entries⟩ key <;> rfl

end Questions

variable {P : Value → Prop} {entries : List (Value × Value)} {map : Set (Value × Value)}

/-- The outcome of a call on the register that holds the entries of a map. -/
structure MapCall.Step (P : Value → Prop) (registers : Registers) (on : String)
    (map : Set (Value × Value)) (entries : List (Value × Value)) (call : MapCall)
    (answer : Except Failure Value) (later : List (Value × Value)) : Prop where
  ran : run registers (call.command on) = (answer, registers.set on (.sortedMap later))
  table : Tabulates Value.order P later (call.after map)
  answers : call.Answers P map entries answer
  unchanged : ∀ e, answer = .error e → later = entries

/-- A call that only answers. -/
theorem MapCall.step_of_answer (held : registers.lookup on = some (.sortedMap entries))
    (table : Tabulates Value.order P entries map) {call : MapCall} {answer : Except Failure Value}
    (ran : run registers (call.command on) = (answer, registers)) (keeps : call.after map = map)
    (answers : call.Answers P map entries answer) :
    ∃ answer later, call.Step P registers on map entries answer later := by
  refine ⟨answer, entries, ?_, keeps.symm ▸ table, answers, fun _ _ => rfl⟩
  rw [ran, Registers.set_of_lookup held]

namespace MapCall

/-- An answer by the value of a key. -/
theorem byKey (ordered : Value.order.OrderedOn P) (table : Tabulates Value.order P entries map)
    {key : Value} (inside : P key) (found : Value → Except Failure Value)
    (missing : Except Failure Value) :
    ByKey map key found missing ((valueOf Value.order.less entries key).elim missing found) := by
  rcases table.gives_or_missing ordered inside with ⟨value, gives, same⟩ | ⟨absent, same⟩
  · rw [same]
    exact .inl ⟨value, gives, rfl⟩
  · rw [same]
    exact .inr ⟨absent, rfl⟩

/-- A call that sets a key. -/
theorem step_setting (ordered : Value.order.OrderedOn P)
    (held : registers.lookup on = some (.ofMap ⟨entries⟩))
    (table : Tabulates Value.order P entries map) {key value : Value} (inside : P key) {call : MapCall}
    (setting : call = .setItem key value ∨ call = .insert key value) :
    ∃ answer later, call.Step P registers on map entries answer later := by
  obtain ⟨n, done, after⟩ := SortedMap.insert_tabulates ordered (m := ⟨entries⟩) table inside value
  rcases setting with rfl | rfl
  · have stored : (Value.sortedMap entries).put key value = .ok (.ofMap n) := by
      show (do
        return Value.ofMap (← Failure.lift (SortedMap.insert Value.order ⟨entries⟩ key value)).2) = _
      rw [done]
      rfl
    exact ⟨.ok .none, n.entries, replacing_ok held stored, after, rfl, by rintro e ⟨⟩⟩
  · refine ⟨.ok ((valueOf Value.order.less entries key).getD .none), n.entries,
      run_member Value.ofMap held [.value key, .value value] rfl (call_insert done), after, ?_,
      by rintro e ⟨⟩⟩
    have answers := byKey ordered table inside .ok (.ok .none)
    cases old : valueOf Value.order.less entries key with
    | none =>
      rw [old] at answers
      exact answers
    | some old' =>
      rw [old] at answers
      exact answers

/-- A call that sets a key that is not there. -/
theorem step_setdefault (ordered : Value.order.OrderedOn P)
    (held : registers.lookup on = some (.ofMap ⟨entries⟩))
    (table : Tabulates Value.order P entries map) {key : Value} (inside : P key)
    (default : Option Value) :
    ∃ answer later,
      (MapCall.setdefault key default).Step P registers on map entries answer later := by
  have run {value : Value} {n : SortedMap Value Value}
      (done : SortedMap.getOrInsert Value.order ⟨entries⟩ key (default.getD .none) = .ok (value, n)) :
      run registers ((MapCall.setdefault key default).command on) =
        (.ok value, registers.set on (.ofMap n)) := by
    have resolved := resolve_optional registers on key default
    exact run_call Value.ofMap held resolved rfl (call_setdefault done)
  rcases SortedMap.getOrInsert_tabulates ordered (m := ⟨entries⟩) table inside (default.getD .none) with
    ⟨value, gives, done⟩ | ⟨missing, n, done, after⟩
  · refine ⟨.ok value, entries, run done, ?_, .inl ⟨value, gives, rfl⟩, by rintro e ⟨⟩⟩
    rw [MapCall.after, if_pos (.of_gives gives)]
    exact table
  · refine ⟨.ok (default.getD .none), n.entries, run done, ?_, .inr ⟨missing, rfl⟩, by rintro e ⟨⟩⟩
    rw [MapCall.after, if_neg missing]
    exact after

theorem step_popitem (ordered : Value.order.OrderedOn P)
    (held : registers.lookup on = some (.ofMap ⟨entries⟩))
    (table : Tabulates Value.order P entries map) :
    ∃ answer later, MapCall.popitem.Step P registers on map entries answer later := by
  rcases SortedMap.popMax?_tabulates ordered (m := ⟨entries⟩) table with
    ⟨empty, done, after⟩ | ⟨e, n, done, mem, greatest, after⟩
  · exact ⟨.error (.keyMissing (.text "popitem from an empty map")), entries,
      run_member_failed Value.ofMap held [] rfl (call_popitem ⟨entries⟩ done), after, .inl ⟨empty, rfl⟩,
      fun _ _ => rfl⟩
  · exact ⟨.ok (.ofEntry e), n.entries,
      run_member Value.ofMap held [] rfl (call_popitem ⟨entries⟩ done), after,
      .inr ⟨e, mem, rfl, greatest⟩, by rintro e ⟨⟩⟩

theorem step_deleteItem (ordered : Value.order.OrderedOn P)
    (held : registers.lookup on = some (.sortedMap entries))
    (table : Tabulates Value.order P entries map) {key : Value} (inside : P key) :
    ∃ answer later, (MapCall.deleteItem key).Step P registers on map entries answer later := by
  rcases SortedMap.erase?_tabulates ordered (m := ⟨entries⟩) table inside with
    ⟨⟨e, mem, same⟩, n, done, after⟩ | ⟨missing, done⟩
  · exact ⟨.ok .none, n.entries, replacing_ok held (erase_map done), after,
      .inl ⟨e.2, ⟨e, mem, same, rfl⟩, rfl⟩, by rintro e ⟨⟩⟩
  · refine ⟨.error (.keyMissing key), entries, ?_, table.withoutKey_of_missing missing,
      .inr ⟨missing, rfl⟩, fun _ _ => rfl⟩
    rw [Registers.set_of_lookup held]
    exact replacing_failed held (erase_map done)

theorem step_pop (ordered : Value.order.OrderedOn P)
    (held : registers.lookup on = some (.ofMap ⟨entries⟩))
    (table : Tabulates Value.order P entries map) {key : Value} (inside : P key)
    (default : Option Value) :
    ∃ answer later, (MapCall.pop key default).Step P registers on map entries answer later := by
  have resolved := resolve_optional registers on key default
  rcases SortedMap.pop?_tabulates ordered (m := ⟨entries⟩) table inside with
    ⟨value, n, gives, done, after⟩ | ⟨missing, done⟩
  · exact ⟨.ok value, n.entries, run_call Value.ofMap held resolved rfl (call_pop_map done), after,
      .inl ⟨value, gives, rfl⟩, by rintro e ⟨⟩⟩
  · have after := table.withoutKey_of_missing missing
    cases default with
    | none =>
      exact ⟨.error (.keyMissing key), entries,
        run_call_failed Value.ofMap held resolved rfl (call_pop_map done), after, .inr ⟨missing, rfl⟩,
        fun _ _ => rfl⟩
    | some value =>
      exact ⟨.ok value, entries, run_call Value.ofMap held resolved rfl (call_pop_map done), after,
        .inr ⟨missing, rfl⟩, by rintro e ⟨⟩⟩

/-- What a step in place that makes a new container answers and leaves. -/
def inPlaceAnswer (registers : Registers) (on : String) :
    Except (Fault Failure) (SortedMap Value Value) → Except Failure Value × Registers
  | .ok n => (.ok .none, registers.set on (.ofMap n))
  | .error e => (.error (.ofFault e), registers)

theorem run_retain (held : registers.lookup on = some (.ofMap ⟨entries⟩)) (f : ValueFunction) :
    run registers ((MapCall.retain f).command on) =
      inPlaceAnswer registers on (SortedMap.retain (MapCall.passes f) ⟨entries⟩) := by
  have resolved : resolveAll registers (some on) [.function f] [] = .ok ⟨[.function f], []⟩ := rfl
  have called : MapMembers.call "retain" ⟨[.function f], []⟩ ⟨entries⟩ =
      (answer (SortedMap.retain (MapCall.passes f) ⟨entries⟩) >>= fun n => do
        set n
        return Value.none : MapMembers.Member) ⟨entries⟩ :=
    rfl
  cases made : SortedMap.retain (MapCall.passes f) (⟨entries⟩ : SortedMap Value Value) with
  | ok n =>
    rw [made] at called
    exact run_call Value.ofMap held resolved rfl called
  | error e =>
    rw [made] at called
    refine (run_call_failed Value.ofMap held resolved rfl called).trans ?_
    rw [Registers.set_of_lookup held]
    rfl

theorem run_mergeIn (held : registers.lookup on = some (.ofMap ⟨entries⟩)) (merge : MapMerge)
    (source : Source) :
    run registers ((MapCall.mergeIn merge source).command on) =
      inPlaceAnswer registers on
        (SortedMap.merged Value.order merge.rule ⟨entries⟩ source.mapOperand) := by
  have resolved := resolve_merge held merge source
  have works := call_mergeIn merge source.argument entries
  have updated : SortedMap.update Value.order merge.rule source.mapOperand ⟨entries⟩ = _ :=
    SortedMap.update_eq merge.rule source.mapOperand ⟨entries⟩
  cases made : SortedMap.merged Value.order merge.rule ⟨entries⟩ source.mapOperand with
  | ok n =>
    rw [made] at updated
    exact run_call Value.ofMap held resolved works (change_ok updated)
  | error e =>
    rw [made] at updated
    refine (run_call_failed Value.ofMap held resolved works (change_failed updated)).trans ?_
    rw [Registers.set_of_lookup held]
    rfl

/-- A call that asks about every key in place. -/
theorem step_asking (held : registers.lookup on = some (.ofMap ⟨entries⟩))
    (table : Tabulates Value.order P entries map) {call : MapCall}
    {inquiry : Inquiry Failure Value Value} {made : Except (Fault Failure) (SortedMap Value Value)}
    (makes : inquiry.Makes Value.order P made)
    (ran : run registers (call.command on) = inPlaceAnswer registers on made)
    (after : call.after map = asked inquiry map)
    (answers : ∀ answer, InPlace inquiry answer → call.Answers P map entries answer) :
    ∃ answer later, call.Step P registers on map entries answer later := by
  rcases makes with ⟨succeeds, n, rfl, table'⟩ | ⟨cause, fails, rfl⟩
  · refine ⟨.ok .none, n.entries, ran, ?_, answers _ (.inl ⟨succeeds, rfl⟩), by rintro e ⟨⟩⟩
    rw [after, asked, if_pos succeeds]
    exact table'
  · refine ⟨.error cause, entries, ?_, ?_, answers _ (.inr ⟨cause, fails, rfl⟩), fun _ _ => rfl⟩
    · have unchanged : registers.set on (.sortedMap entries) = registers := Registers.set_of_lookup held
      rw [unchanged]
      exact ran
    · rw [after, asked, if_neg fails.not_succeeds]
      exact table

/-- A call that makes a new map. -/
theorem step_merged (ordered : Value.order.OrderedOn P)
    (held : registers.lookup on = some (.ofMap ⟨entries⟩))
    (table : Tabulates Value.order P entries map) {merge : MapMerge} {source : Source}
    (inside : KeysInside P source.mapOperand) :
    ∃ answer later, (MapCall.merged merge source).Step P registers on map entries answer later := by
  have resolved := resolve_merge held merge source
  have works := call_merged merge source.argument entries
  rcases SortedMap.merged_makes ordered merge.rule (m := ⟨entries⟩) inside table with
    ⟨succeeds, n, done, table'⟩ | ⟨cause, fails, failed⟩
  · have made := make_ok Value.ofMap (SortedMap.merged Value.order merge.rule · source.mapOperand) done
    exact ⟨.ok (.ofMap n), entries, run_call Value.ofMap held resolved works made, table,
      .inl ⟨succeeds, n.entries, rfl, table'⟩, fun _ _ => rfl⟩
  · have made :=
      make_failed Value.ofMap (SortedMap.merged Value.order merge.rule · source.mapOperand) failed
    exact ⟨.error cause, entries, run_call_failed Value.ofMap held resolved works made, table,
      .inr ⟨cause, fails, rfl⟩, fun _ _ => rfl⟩

/-- One of the maps that an update takes in. -/
theorem update_tabulates (ordered : Value.order.OrderedOn P) {m : SortedMap Value Value}
    (table : Tabulates Value.order P m.entries map) {operand : Operand Failure (Value × Value)}
    (inside : KeysInside P operand) :
    ∃ n, SortedMap.update Value.order (.union MapRule.preferRight) operand m = .ok () n ∧
      Tabulates Value.order P n.entries (asks (.union MapRule.preferRight) map operand).result := by
  rw [SortedMap.update_eq]
  rcases SortedMap.merged_makes ordered (.union MapRule.preferRight) inside table with
    ⟨_, n, done, table'⟩ | ⟨cause, fails, _⟩
  · exact ⟨n, by rw [done]; rfl, table'⟩
  · exact (fails.not_succeeds (MapRule.union_preferRight_succeeds _ _)).elim

theorem step_update (ordered : Value.order.OrderedOn P)
    (held : registers.lookup on = some (.ofMap ⟨entries⟩))
    (table : Tabulates Value.order P entries map) {source : Option Source}
    {named : List (String × Value)}
    (inside : ∀ operand ∈ updateOperands source named, KeysInside P operand) :
    ∃ answer later, (MapCall.update source named).Step P registers on map entries answer later := by
  have resolved := resolveAll_named held source.toList named
  have works := map_update_eq (source.map Source.argument) (named.map fun e => (e.1, .value e.2)) entries
  rw [Option.toList_map] at works
  obtain ⟨insideFirst, insideRest⟩ := List.forall_mem_cons.mp inside
  obtain ⟨m, first, table'⟩ := update_tabulates ordered (m := ⟨entries⟩) table insideFirst
  cases named with
  | nil =>
    have done : (do
        let _ ← change (SortedMap.update Value.order (.union MapRule.preferRight)
          (updateOperand (source.map Source.argument)))
        return Value.none : MapMembers.Member) ⟨entries⟩ = .ok .none m := by
      rw [bind_run, change_ok first]
      rfl
    exact ⟨.ok .none, m.entries, run_call Value.ofMap held resolved works done, table', rfl,
      by rintro e ⟨⟩⟩
  | cons e named =>
    obtain ⟨n, second, table''⟩ := update_tabulates ordered table'
      (insideRest (.unsorted (textEntries (e :: named))) (by simp))
    have texts : namedEntries (.sortedMap entries) ((e :: named).map fun e => (e.1, .value e.2)) =
        textEntries (e :: named) := by
      rw [namedEntries, List.map_map]
      rfl
    rw [texts] at works
    have done : (do
        let _ ← change (SortedMap.update Value.order (.union MapRule.preferRight)
          (updateOperand (source.map Source.argument)))
        change (SortedMap.update Value.order (.union MapRule.preferRight)
          (.unsorted (textEntries (e :: named)))) : MapMembers.Member) ⟨entries⟩ = .ok .none n := by
      rw [bind_run, change_ok first]
      exact change_ok second
    exact ⟨.ok .none, n.entries, run_call Value.ofMap held resolved works done, table'', rfl,
      by rintro e ⟨⟩⟩

theorem step_contains (ordered : Value.order.OrderedOn P)
    (held : registers.lookup on = some (.sortedMap entries))
    (table : Tabulates Value.order P entries map) {key : Value} (inside : P key) :
    ∃ answer later, (MapCall.contains key).Step P registers on map entries answer later := by
  have answers := byKey ordered table inside (fun _ => .ok (.bool true)) (.ok (.bool false))
  have contained := SortedMap.contains_eq ordered (m := ⟨entries⟩) table.entriesOn inside
  refine step_of_answer held table ((run_isIn held (congrArg Except.ok contained)).trans ?_) rfl
    answers
  cases valueOf Value.order.less entries key <;> rfl

theorem step_getItem (ordered : Value.order.OrderedOn P)
    (held : registers.lookup on = some (.sortedMap entries))
    (table : Tabulates Value.order P entries map) {key : Value} (inside : P key) :
    ∃ answer later, (MapCall.getItem key).Step P registers on map entries answer later := by
  have answers := byKey ordered table inside .ok (.error (.keyMissing key))
  refine step_of_answer held table ?_ rfl answers
  rw [command, run, reading_eq held]
  show (do Value.present key (← Failure.lift (SortedMap.get? Value.order ⟨entries⟩ key)), registers) = _
  rw [SortedMap.get?_eq ordered (m := ⟨entries⟩) table.entriesOn inside]
  cases valueOf Value.order.less entries key <;> rfl

theorem step_get (ordered : Value.order.OrderedOn P)
    (held : registers.lookup on = some (.ofMap ⟨entries⟩))
    (table : Tabulates Value.order P entries map) {key : Value} (inside : P key)
    (default : Option Value) :
    ∃ answer later, (MapCall.get key default).Step P registers on map entries answer later := by
  have answers := byKey ordered table inside .ok (.ok (default.getD .none))
  refine step_of_answer held table ?_ rfl answers
  refine (run_get held key default).trans ?_
  rw [SortedMap.lookup?_eq ordered (m := ⟨entries⟩) table.entriesOn inside]
  cases valueOf Value.order.less entries key <;> rfl

theorem step_hasItem (ordered : Value.order.OrderedOn P)
    (held : registers.lookup on = some (.sortedMap entries))
    (table : Tabulates Value.order P entries map) {entry : Value}
    (inside : (MapCall.hasItem entry).Inside P) :
    ∃ answer later, (MapCall.hasItem entry).Step P registers on map entries answer later := by
  obtain ⟨key, value, pair, hk⟩ := inside
  have answers := byKey ordered table hk (fun found => do return .bool (← Value.same found value))
    (.ok (.bool false))
  have ran : run registers (command on (.hasItem entry)) =
      ((valueOf Value.order.less entries key).elim (.ok (.bool false))
        fun found => do return .bool (← Value.same found value), registers) := by
    rw [← SortedMap.lookup?_eq ordered (m := ⟨entries⟩) table.entriesOn hk]
    exact run_hasItem held pair
  refine step_of_answer held table ran rfl ?_
  intro key' value' pair'
  cases pair.symm.trans pair'
  exact answers

theorem step (ordered : Value.order.OrderedOn P)
    (held : registers.lookup on = some (.sortedMap entries))
    (table : Tabulates Value.order P entries map) {call : MapCall} (inside : call.Inside P) :
    ∃ answer later, call.Step P registers on map entries answer later := by
  have heldMap : registers.lookup on = some (.ofMap ⟨entries⟩) := held
  have read := Registers.read_of_lookup held
  have count : map.ncard = entries.length := table.ncard_eq (ordered.on SortedMap.key)
  cases call with
  | setItem key value => exact step_setting ordered heldMap table inside (.inl rfl)
  | insert key value => exact step_setting ordered heldMap table inside (.inr rfl)
  | deleteItem key => exact step_deleteItem ordered held table inside
  | pop key default => exact step_pop ordered heldMap table inside default
  | popitem => exact step_popitem ordered heldMap table
  | setdefault key default => exact step_setdefault ordered heldMap table inside default
  | clear =>
    have cleared : (do set (SortedMap.empty : MapMembers.Map); return .none : MapMembers.Member)
        ⟨entries⟩ = .ok .none .empty := rfl
    exact ⟨.ok .none, [], run_member Value.ofMap heldMap [] rfl cleared, .nil, rfl, by rintro e ⟨⟩⟩
  | retain f =>
    exact step_asking heldMap table (SortedMap.retain_makes ordered _ (m := ⟨entries⟩) table)
      (run_retain heldMap f) rfl fun _ => id
  | update source named => exact step_update ordered heldMap table inside
  | mergeIn merge source =>
    exact step_asking heldMap table
      (SortedMap.merged_makes ordered merge.rule (m := ⟨entries⟩) inside table)
      (run_mergeIn heldMap merge source) rfl fun _ => id
  | merged merge source => exact step_merged ordered heldMap table inside
  | length =>
    refine step_of_answer held table ?_ rfl rfl
    rw [command, run, Term.read, read, count, ← List.length_map (f := Prod.fst)]
    rfl
  | contains key => exact step_contains ordered held table inside
  | getItem key => exact step_getItem ordered held table inside
  | get key default => exact step_get ordered heldMap table inside default
  | list =>
    refine step_of_answer held table ?_ rfl rfl
    rw [command, run, Term.read, read]
    rfl
  | reversed =>
    refine step_of_answer held table ?_ rfl rfl
    rw [command, run, Term.read, read]
    rfl
  | view part => exact step_of_answer held table (reading_eq held _) rfl rfl
  | viewReversed part =>
    refine step_of_answer held table (reading_eq held _) rfl ?_
    cases part with
    | keys => exact (inside rfl).elim
    | items => rfl
    | values => rfl
  | viewLength part =>
    refine step_of_answer held table (reading_eq held _) rfl ?_
    rw [Answers, count]
    rfl
  | hasItem entry => exact step_hasItem ordered held table inside
  | keysSet =>
    have ran := run_plain heldMap "keys_set" (fun m => .ofSet m.keySet) rfl (by decide +kernel) rfl rfl
    exact step_of_answer held table ran rfl rfl
  | toList =>
    have ran := run_plain heldMap "to_list" (fun m => .list (Value.ofEntries m.entries)) rfl
      (by decide +kernel) rfl rfl
    exact step_of_answer held table ran rfl rfl

end MapCall

/-- The ways to create a map out of a collection. -/
inductive MapCreation where
  | empty
  /-- A collection in any order, the values of equal keys being combined if there is a function. -/
  | ofItems (items : Value) (combine : Option ValueFunction)
  /-- Pairs whose keys have to increase. -/
  | ofSorted (pairs : Value)
  /-- Pairs whose keys are trusted to increase. -/
  | ofTrusted (pairs : Value)
  /-- What a map was saved as. -/
  | restored (saved : Value)

namespace MapCreation

def command : MapCreation → Command
  | .empty => .create .sortedMap [] []
  | .ofItems items combine =>
    .create .sortedMap [.value items] (combine.toList.map fun f => ("combine", .function f))
  | .ofSorted pairs => .special .sortedMap "from_sorted" [.value pairs] []
  | .ofTrusted pairs => .special .sortedMap "from_sorted_unchecked" [.value pairs] []
  | .restored saved => .restore .sortedMap (.value saved)

/-- The keys lie in the domain; trusted ones are in order. -/
def Inside (P : Value → Prop) : MapCreation → Prop
  | .empty => True
  | .ofItems items _ => KeysInside P (Argument.value items).asMap
  | .ofSorted pairs | .restored pairs => ∀ entries, Creation.pairsOf pairs = .ok entries →
    ∀ e ∈ entries, P e.1
  | .ofTrusted pairs => ∀ entries, Creation.pairsOf pairs = .ok entries →
    EntriesOn Value.order.less P entries

/-- A map of a collection, whether its values are combined or not. -/
theorem mapOf_entriesOn (ordered : Value.order.OrderedOn P) {x : Argument}
    (inside : KeysInside P x.asMap) {combine : Option Argument} {m : SortedMap Value Value}
    (made : Creation.mapOf (some x) combine = .ok m) : EntriesOn Value.order.less P m.entries := by
  rw [Creation.mapOf, Option.getD_some] at made
  generalize x.asMap = operand at inside made
  cases operand with
  | self => cases made
  | sorted entries =>
    cases made
    exact entriesOn_keyed.mp inside
  | unsorted entries =>
    have keys : ∀ e ∈ entries, P e.1 := fun e mem => keyIn_entry.mp (inside e mem)
    cases combine with
    | none =>
      obtain ⟨n, done, kept, _⟩ := SortedMap.ofList_entries ordered keys
      have same := (lift_eq_ok.mp made).symm.trans done
      cases same
      exact kept
    | some f => exact SortedMap.ofListCombining_entries ordered keys (lift_eq_ok.mp made)
  | refused cause => cases made

/-- Every map that is created has increasing keys. -/
theorem entriesOn (ordered : Value.order.OrderedOn P) {creation : MapCreation}
    (inside : creation.Inside P) {v : Value}
    (created : (run registers creation.command).1 = .ok v) :
    ∃ entries, v = .sortedMap entries ∧ EntriesOn Value.order.less P entries := by
  cases creation with
  | empty =>
    have ran : (run registers (command .empty)).1 =
      do return .ofMap (← Creation.mapOf (some (.value (.tuple []))) none) := rfl
    rw [ran] at created
    obtain ⟨m, made, last⟩ := bind_eq_ok.mp created
    cases last
    have inside : KeysInside P (Argument.value (.tuple [])).asMap := List.forall_mem_nil _
    exact ⟨m.entries, rfl, mapOf_entriesOn ordered inside made⟩
  | ofItems items combine =>
    have ran : (run registers (command (.ofItems items combine))).1 =
        do return .ofMap (← Creation.mapOf (some (.value items)) (combine.map .function)) := by
      cases combine <;> rfl
    rw [ran] at created
    obtain ⟨m, made, last⟩ := bind_eq_ok.mp created
    cases last
    exact ⟨m.entries, rfl, mapOf_entriesOn ordered inside made⟩
  | ofSorted pairs =>
    have ran : (run registers (command (.ofSorted pairs))).1 = Creation.sortedMapOf pairs := rfl
    rw [ran] at created
    obtain ⟨entries, read, asked⟩ := bind_eq_ok.mp created
    have keyed : ∀ e ∈ entries, Comparison.KeyIn (SortedMap.key : _ → Except Failure _) P e :=
      fun e mem => keyIn_entry.mpr (inside entries read e mem)
    rw [SortedMap.ofSorted?, isStrictlySorted_eq ordered keyed] at asked
    by_cases sorted : Increasing (Value.order.on SortedMap.key).less entries
    · rw [decide_eq_true sorted] at asked
      cases asked
      exact ⟨entries, rfl, entriesOn_keyed.mp ⟨sorted, keyed⟩⟩
    · rw [decide_eq_false sorted] at asked
      cases asked
  | ofTrusted pairs =>
    have ran : (run registers (command (.ofTrusted pairs))).1 =
      do return .ofMap (.ofTrusted (← Creation.pairsOf pairs)) := rfl
    rw [ran] at created
    obtain ⟨entries, read, last⟩ := bind_eq_ok.mp created
    cases last
    exact ⟨entries, rfl, inside entries read⟩
  | restored saved =>
    have ran : (run registers (command (.restored saved))).1 =
      do return .ofMap (← Failure.lift (SortedMap.restore Value.order (← Creation.pairsOf saved))) := rfl
    rw [ran] at created
    obtain ⟨entries, read, asked⟩ := bind_eq_ok.mp created
    obtain ⟨m, restored, last⟩ := bind_eq_ok.mp asked
    cases last
    obtain ⟨n, done, kept, _⟩ := SortedMap.restore_entries ordered (inside entries read)
    have same := (lift_eq_ok.mp restored).symm.trans done
    cases same
    exact ⟨m.entries, rfl, kept⟩

end MapCreation

theorem runMapCalls_step (ordered : Value.order.OrderedOn P) (program : List MapCall)
    (inside : ∀ call ∈ program, call.Inside P)
    (held : registers.lookup on = some (.sortedMap entries))
    (table : Tabulates Value.order P entries map) :
    ∃ later, runMapCalls on program registers = registers.set on (.sortedMap later) ∧
      Tabulates Value.order P later (mapAfter program map) := by
  refine runCommands_refine ?_ inside held table
  intro registers entries map call held table insideCall
  obtain ⟨answer, later, step⟩ := MapCall.step ordered held table insideCall
  exact ⟨answer, later, step.ran, step.table⟩

/-- A map whose keys come from an ordered domain is created with increasing keys. After any program of
calls on it the register holds the entries, in strictly increasing order of their keys, of the map that
the program determines, and no other register has changed. Whatever call comes next, it is answered by
that map and its entries, and changes nothing if it fails. Of two maps merged without a function, the
values on the right win or stay, and the differences go by key. -/
theorem map_programs_refine (ordered : Value.order.OrderedOn P) :
    (∀ (creation : MapCreation) (registers : Registers) (v : Value), creation.Inside P →
      (run registers creation.command).1 = .ok v →
        ∃ entries, v = .sortedMap entries ∧ Tabulates Value.order P entries fun e => e ∈ entries) ∧
    (∀ (registers : Registers) (on : String) (entries : List (Value × Value))
      (map : Set (Value × Value)), registers.lookup on = some (.sortedMap entries) →
      Tabulates Value.order P entries map → ∀ program : List MapCall,
        (∀ call ∈ program, call.Inside P) →
        ∃ later, (runMapCalls on program registers).lookup on = some (.sortedMap later) ∧
          Tabulates Value.order P later (mapAfter program map) ∧
          (∀ name, name ≠ on →
            (runMapCalls on program registers).lookup name = registers.lookup name) ∧
          ∀ call : MapCall, call.Inside P → ∃ answer final,
            call.Step P (runMapCalls on program registers) on (mapAfter program map) later answer
              final) ∧
    ∀ (entries : List (Value × Value)) (map : Set (Value × Value)),
      Tabulates Value.order P entries map → ∀ operand : Operand Failure (Value × Value),
        KeysInside P operand → ∀ key value, P key → MergedValues Value.order map
          (operand.members (Value.order.on SortedMap.key) map) key value := by
  refine ⟨fun creation registers v inside created => ?_,
    fun registers on entries map held table program inside => ?_,
    fun entries map table operand inside key value hk => ?_⟩
  · obtain ⟨entries, rfl, kept⟩ := creation.entriesOn ordered inside created
    exact ⟨entries, rfl, .of_entriesOn kept fun _ => Iff.rfl⟩
  · obtain ⟨later, ran, table⟩ := runMapCalls_step ordered program inside held table
    rw [ran]
    have heldLater := registers.lookup_set on (.sortedMap later)
    exact ⟨later, heldLater, table, fun name other => registers.lookup_set_of_ne other _,
      fun call insideCall => call.step ordered heldLater table insideCall⟩
  · obtain ⟨ys, _, table'⟩ := Operand.resolve_keyed ordered inside table
    exact mergedValues ordered table table' hk value

/-- A truth value takes the place of the number that it is equal to. A union fails at the first key on
both sides for which its function does, and leaves the map as it was. -/
theorem numbers_mapped :
    let registers : Registers := [("m", .sortedMap [(.int 1, .text "a"), (.int 3, .text "c")])]
    let failing : MapCall := .mergeIn (.union (some fun _ => .error .callback))
      (.value (.dict [(.int 5, .none), (.int 1, .none)]))
    let program : List MapCall := [.setItem (.bool true) (.int 7), .insert (.int 2) .none, failing,
      .update (some (.value (.list [.pair (.int 4) .none, .pair (.int 4) (.int 0)]))) [],
      .retain fun args => .ok (.bool (args.length == 2)), .popitem, .pop (.int 9) none]
    ∃ later, (runMapCalls "m" program registers).lookup "m" = some (.sortedMap later) ∧
      Tabulates Value.order Value.IsInteger later
        (mapAfter program fun e => e ∈ [(Value.int 1, Value.text "a"), (.int 3, .text "c")]) ∧
      ∃ answer final, MapCall.Step Value.IsInteger (runMapCalls "m" program registers) "m"
        (mapAfter program fun e => e ∈ [(Value.int 1, Value.text "a"), (.int 3, .text "c")]) later
        failing answer final := by
  intro registers failing program
  have table : Tabulates Value.order Value.IsInteger [(.int 1, .text "a"), (.int 3, .text "c")]
      fun e => e ∈ [(Value.int 1, Value.text "a"), (.int 3, .text "c")] := by
    refine .of_entriesOn ⟨by decide +kernel, ?_⟩ fun _ => Iff.rfl
    simp only [List.mem_cons, List.not_mem_nil, or_false, forall_eq_or_imp, forall_eq]
    exact ⟨⟨1, rfl⟩, 3, rfl⟩
  have integers (entries : List (Value × Value)) (keys : ∀ e ∈ entries, Value.IsInteger e.1) :
      KeysInside Value.IsInteger (.unsorted entries) := fun e mem => keyIn_entry.mpr (keys e mem)
  have insideFailing : failing.Inside Value.IsInteger :=
    integers [(.int 5, .none), (.int 1, .none)] (by simp [Value.IsInteger, Value.int?])
  have taken : KeysInside Value.IsInteger
      (.unsorted [(.int 4, .none), (.int 4, .int 0)] : Operand Failure (Value × Value)) :=
    integers _ (by simp [Value.IsInteger, Value.int?])
  have inside : ∀ call ∈ program, call.Inside Value.IsInteger := by
    simp only [program, List.mem_cons, List.not_mem_nil, or_false, forall_eq_or_imp, forall_eq]
    refine ⟨⟨1, rfl⟩, ⟨2, rfl⟩, insideFailing, ?_, trivial, trivial, ⟨9, rfl⟩⟩
    exact List.forall_mem_singleton.mpr taken
  have held : registers.lookup "m" = some (.sortedMap [(.int 1, .text "a"), (.int 3, .text "c")]) := rfl
  obtain ⟨later, held, table, _, next⟩ :=
    (map_programs_refine Value.integers_ordered).2.1 registers "m" _ _ held table program inside
  exact ⟨later, held, table, next failing insideFailing⟩

end Session

end SortedCollections
