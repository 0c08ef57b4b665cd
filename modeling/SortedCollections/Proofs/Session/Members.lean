import SortedCollections.Proofs.Maps.Canonical
import SortedCollections.Proofs.Sets.Cofinite
import SortedCollections.Proofs.Sets.InPlace
import SortedCollections.Session.Basic

/-!
# Members and operators in place

A member or an operator by which a session works in place changes a container to what the one that
makes a new container makes of it, or fails for the same cause and leaves it as it was. The ways there
differ: the left list is rebuilt or, if the plan swaps the operands, a copy of the right one; a set that
is taken away from itself is emptied without a comparison; form and default are assigned after the
merge.
-/
namespace SortedCollections

namespace Session

open MemberCall

/-- The members that work in place, each with the one that makes a new container. -/
def inPlaceForms : ContainerKind → List (String × String)
  | .sortedSet =>
    [("update", "union"), ("intersection_update", "intersection"),
      ("difference_update", "difference"), ("symmetric_difference_update", "symmetric_difference")]
  | .sortedMap =>
    [("union_update", "union"), ("intersection_update", "intersection"),
      ("difference_update", "difference"), ("symmetric_difference_update", "symmetric_difference"),
      ("outer_join_update", "outer_join"), ("left_join_update", "left_join"),
      ("right_join_update", "right_join"), ("inner_join_update", "inner_join")]
  | .cofiniteSet =>
    [("update", "union"), ("union_update", "union"), ("intersection_update", "intersection"),
      ("difference_update", "difference"), ("symmetric_difference_update", "symmetric_difference")]
  | .defaultMap => [("combine_update", "combine")]

/-- What a step in place does to a value if the step that makes a new one does this: the new value
takes its place, or both fail for the same cause and it stays. -/
inductive InPlaceOf (v : Value) :
    EStateM.Result Failure Value Value → EStateM.Result Failure Value Value → Prop where
  | made (w : Value) : InPlaceOf v (.ok .none w) (.ok w v)
  | failed (e : Failure) : InPlaceOf v (.error e v) (.error e v)

theorem inPlaceOf_inside {σ : Type} (wrap : σ → Value) (step : EStateM (Fault Failure) σ Unit)
    (made : σ → Except (Fault Failure) σ) {s : σ} (same : step s = changedTo s (made s)) (v : Value) :
    InPlaceOf (wrap s) (inside wrap s (change step) v)
      (inside wrap s (do return wrap (← answer (made (← get)))) v) := by
  have run : (do return wrap (← answer (made (← get))) : MemberCall σ Value) s =
      (do return wrap (← answer (made s)) : MemberCall σ Value) s := rfl
  rw [inside, inside, change, same, run]
  cases made s with
  | ok t => exact .made (wrap t)
  | error e => exact .failed (.ofFault e)

theorem set_merged_inPlace (rule : SetRule) (x : Argument) (items : List Value) (v : Value) :
    InPlaceOf (.sortedSet items)
      (inside Value.ofSet ⟨items⟩ (change (SortedSet.update Value.order rule [x.asSet])) v)
      (inside Value.ofSet ⟨items⟩
        (do return .ofSet (← answer ((← get).merged Value.order rule [x.asSet]))) v) :=
  inPlaceOf_inside Value.ofSet (SortedSet.update Value.order rule [x.asSet])
    (SortedSet.merged Value.order rule · [x.asSet])
    (SortedSet.update_single rule x.asSet ⟨items⟩) v

theorem map_merged_inPlace (rule : MapRule Failure Value Value) (x : Argument)
    (entries : List (Value × Value)) (v : Value) :
    InPlaceOf (.sortedMap entries)
      (inside Value.ofMap ⟨entries⟩ (change (SortedMap.update Value.order rule x.asMap)) v)
      (inside Value.ofMap ⟨entries⟩
        (do return .ofMap (← answer ((← get).merged Value.order rule x.asMap))) v) :=
  inPlaceOf_inside Value.ofMap (SortedMap.update Value.order rule x.asMap)
    (SortedMap.merged Value.order rule · x.asMap) (SortedMap.update_eq rule x.asMap ⟨entries⟩) v

theorem cofinite_merged_inPlace (rule : SetRule) (x : Argument) (items : List Value)
    (negated : Bool) (v : Value) :
    InPlaceOf (.cofiniteSet items negated)
      (inside Value.ofCofinite ⟨⟨items⟩, negated⟩
        (change (CofiniteSet.update Value.order rule x.asCofinite)) v)
      (inside Value.ofCofinite ⟨⟨items⟩, negated⟩
        (do return .ofCofinite (← answer ((← get).merged Value.order rule x.asCofinite))) v) :=
  inPlaceOf_inside Value.ofCofinite (CofiniteSet.update Value.order rule x.asCofinite)
    (CofiniteSet.merged Value.order rule · x.asCofinite)
    (CofiniteSet.update_eq rule x.asCofinite ⟨⟨items⟩, negated⟩) v

theorem set_member_inPlace {inPlace new : String}
    (form : (inPlace, new) ∈ inPlaceForms .sortedSet) (x : Argument)
    (named : List (String × Argument)) (items : List Value) :
    InPlaceOf (.sortedSet items) (call inPlace ⟨[x], named⟩ (.sortedSet items))
      (call new ⟨[x], named⟩ (.sortedSet items)) := by
  simp only [inPlaceForms, List.mem_cons, Prod.mk.injEq, List.not_mem_nil, or_false] at form
  cases named with
  | nil =>
    rcases form with ⟨rfl, rfl⟩ | ⟨rfl, rfl⟩ | ⟨rfl, rfl⟩ | ⟨rfl, rfl⟩
    · exact set_merged_inPlace .union x items (.sortedSet items)
    · exact set_merged_inPlace .intersection x items (.sortedSet items)
    · exact set_merged_inPlace .difference x items (.sortedSet items)
    · exact set_merged_inPlace .symmetricDifference x items (.sortedSet items)
  | cons first rest =>
    rcases form with ⟨rfl, rfl⟩ | ⟨rfl, rfl⟩ | ⟨rfl, rfl⟩ | ⟨rfl, rfl⟩ <;> exact .failed _

theorem cofinite_member_inPlace {inPlace new : String}
    (form : (inPlace, new) ∈ inPlaceForms .cofiniteSet) (args : Arguments) (items : List Value)
    (negated : Bool) :
    InPlaceOf (.cofiniteSet items negated) (call inPlace args (.cofiniteSet items negated))
      (call new args (.cofiniteSet items negated)) := by
  simp only [inPlaceForms, List.mem_cons, Prod.mk.injEq, List.not_mem_nil, or_false] at form
  -- Both members refuse every call but one with a single operand and no names.
  rcases args with ⟨_ | ⟨x, _ | ⟨y, more⟩⟩, _ | ⟨first, rest⟩⟩
  case cons.nil.nil =>
    rcases form with ⟨rfl, rfl⟩ | ⟨rfl, rfl⟩ | ⟨rfl, rfl⟩ | ⟨rfl, rfl⟩ | ⟨rfl, rfl⟩
    · exact cofinite_merged_inPlace .union x items negated (.cofiniteSet items negated)
    · exact cofinite_merged_inPlace .union x items negated (.cofiniteSet items negated)
    · exact cofinite_merged_inPlace .intersection x items negated (.cofiniteSet items negated)
    · exact cofinite_merged_inPlace .difference x items negated (.cofiniteSet items negated)
    · exact cofinite_merged_inPlace .symmetricDifference x items negated (.cofiniteSet items negated)
  all_goals
    rcases form with ⟨rfl, rfl⟩ | ⟨rfl, rfl⟩ | ⟨rfl, rfl⟩ | ⟨rfl, rfl⟩ | ⟨rfl, rfl⟩ <;>
      exact .failed _

/-- A member of a map that ends like those that work in place does what its name without the ending
asks for. -/
theorem map_rule_inPlace {inPlace new : String} {args : Arguments}
    {request : Except Failure (MapRule Failure Value Value × Argument)}
    (own : MapMembers.rule? inPlace args = none)
    (ending : MapMembers.inPlaceName? inPlace = some new)
    (asked : MapMembers.rule? new args = some request) (entries : List (Value × Value)) (v : Value) :
    InPlaceOf (.sortedMap entries)
      (inside Value.ofMap ⟨entries⟩ (MapMembers.call inPlace args) v)
      (inside Value.ofMap ⟨entries⟩ (MapMembers.call new args) v) := by
  rw [MapMembers.call, MapMembers.call, own, ending, Option.bind_some, asked]
  cases request with
  | error e => exact .failed e
  | ok merge => exact map_merged_inPlace merge.1 merge.2 entries v

theorem map_member_inPlace {inPlace new : String}
    (form : (inPlace, new) ∈ inPlaceForms .sortedMap) (args : Arguments)
    (entries : List (Value × Value)) :
    InPlaceOf (.sortedMap entries) (call inPlace args (.sortedMap entries))
      (call new args (.sortedMap entries)) := by
  simp only [inPlaceForms, List.mem_cons, Prod.mk.injEq, List.not_mem_nil, or_false] at form
  rcases form with ⟨rfl, rfl⟩ | ⟨rfl, rfl⟩ | ⟨rfl, rfl⟩ | ⟨rfl, rfl⟩ | ⟨rfl, rfl⟩ | ⟨rfl, rfl⟩ |
      ⟨rfl, rfl⟩ | ⟨rfl, rfl⟩ <;>
    exact map_rule_inPlace rfl (by decide +kernel) rfl entries (.sortedMap entries)

theorem default_map_combined_inPlace (f : Value → Value → Except Failure Value) (x : Argument)
    (entries : List (Value × Value)) (fallback v : Value) :
    InPlaceOf (.defaultMap entries fallback)
      (inside Value.ofDefaultMap ⟨⟨entries⟩, fallback⟩ (DefaultMapMembers.combineInPlace f x) v)
      (inside Value.ofDefaultMap ⟨⟨entries⟩, fallback⟩ (DefaultMapMembers.combine f x) v) := by
  unfold DefaultMapMembers.combineInPlace DefaultMapMembers.combine
  cases DefaultMapMembers.other? x with
  | none => exact .failed .noSuchMember
  | some other =>
    exact inPlaceOf_inside Value.ofDefaultMap
      (DefaultMap.combineInPlace Value.order Value.same f other)
      (fun m => m.combine Value.order Value.same f (other.getD m))
      (DefaultMap.combineInPlace_eq f other ⟨⟨entries⟩, fallback⟩) v

theorem default_map_member_inPlace {inPlace new : String}
    (form : (inPlace, new) ∈ inPlaceForms .defaultMap) (args : Arguments)
    (entries : List (Value × Value)) (fallback : Value) :
    InPlaceOf (.defaultMap entries fallback) (call inPlace args (.defaultMap entries fallback))
      (call new args (.defaultMap entries fallback)) := by
  simp only [inPlaceForms, List.mem_cons, Prod.mk.injEq, List.not_mem_nil, or_false] at form
  obtain ⟨rfl, rfl⟩ := form
  rcases args with ⟨_ | ⟨x, _ | ⟨f, _ | ⟨y, more⟩⟩⟩, _ | ⟨first, rest⟩⟩
  case cons.cons.nil.nil =>
    exact default_map_combined_inPlace f.combining x entries fallback (.defaultMap entries fallback)
  all_goals exact .failed _

/-- A member that works in place, by the kind of container that it is called on. Members of sets take
one operand here. -/
theorem member_inPlace {kind : ContainerKind} {inPlace new : String}
    (form : (inPlace, new) ∈ inPlaceForms kind) {v : Value} (found : ContainerKind.of? v = some kind)
    {args : Arguments} (single : kind = .sortedSet → args.positional.length = 1) :
    InPlaceOf v (call inPlace args v) (call new args v) := by
  cases v with
  | sortedSet items =>
    obtain rfl : ContainerKind.sortedSet = kind := Option.some.inj found
    obtain ⟨positional, named⟩ := args
    obtain ⟨x, rfl⟩ := List.length_eq_one_iff.mp (single rfl)
    exact set_member_inPlace form x named items
  | sortedMap entries =>
    obtain rfl : ContainerKind.sortedMap = kind := Option.some.inj found
    exact map_member_inPlace form args entries
  | cofiniteSet items negated =>
    obtain rfl : ContainerKind.cofiniteSet = kind := Option.some.inj found
    exact cofinite_member_inPlace form args items negated
  | defaultMap entries fallback =>
    obtain rfl : ContainerKind.defaultMap = kind := Option.some.inj found
    exact default_map_member_inPlace form args entries fallback
  | _ => cases found

/-- The operators that change sets and maps in place, each with the member that makes a new container. -/
def assigningForms : List (Operator × String) :=
  [(.or, "union"), (.and, "intersection"), (.sub, "difference"), (.xor, "symmetric_difference")]

/-- If the value is a sorted set, its items are ordered among themselves and in order. -/
def OrderedItems (v : Value) : Prop :=
  ∀ items, v = .sortedSet items →
    ∃ P, Value.order.OrderedOn P ∧ IncreasingOn Value.order.less P items

theorem set_assigned_inPlace (rule : SetRule) (x : Argument) {items : List Value}
    (ordered : OrderedItems (.sortedSet items)) (v : Value) :
    InPlaceOf (.sortedSet items)
      (inside Value.ofSet ⟨items⟩ (SetMembers.assign rule x) v)
      (inside Value.ofSet ⟨items⟩
        (do return .ofSet (← answer ((← get).merged Value.order rule [x.asSet]))) v) := by
  obtain ⟨P, ordered, kept⟩ := ordered items rfl
  exact inPlaceOf_inside Value.ofSet (SortedSet.assign Value.order rule x.asSet)
    (SortedSet.merged Value.order rule · [x.asSet])
    (SortedSet.assign_eq ordered rule x.asSet (s := ⟨items⟩) kept) v

theorem assign_inPlace {op : Operator} {new : String} (form : (op, new) ∈ assigningForms) {v : Value}
    {kind : ContainerKind} (found : ContainerKind.of? v = some kind) (other : kind ≠ .defaultMap)
    (ordered : OrderedItems v) (x : Argument) :
    InPlaceOf v (assign op x v) (call new ⟨[x], []⟩ v) := by
  simp only [assigningForms, List.mem_cons, Prod.mk.injEq, List.not_mem_nil, or_false] at form
  cases v with
  | sortedSet items =>
    rcases form with ⟨rfl, rfl⟩ | ⟨rfl, rfl⟩ | ⟨rfl, rfl⟩ | ⟨rfl, rfl⟩
    · exact set_assigned_inPlace .union x ordered (.sortedSet items)
    · exact set_assigned_inPlace .intersection x ordered (.sortedSet items)
    · exact set_assigned_inPlace .difference x ordered (.sortedSet items)
    · exact set_assigned_inPlace .symmetricDifference x ordered (.sortedSet items)
  | sortedMap entries =>
    rcases form with ⟨rfl, rfl⟩ | ⟨rfl, rfl⟩ | ⟨rfl, rfl⟩ | ⟨rfl, rfl⟩
    · exact map_merged_inPlace (.union MapRule.preferRight) x entries (.sortedMap entries)
    · exact map_merged_inPlace (.intersection MapRule.preferRight) x entries (.sortedMap entries)
    · exact map_merged_inPlace .difference x entries (.sortedMap entries)
    · exact map_merged_inPlace .symmetricDifference x entries (.sortedMap entries)
  | cofiniteSet items negated =>
    rcases form with ⟨rfl, rfl⟩ | ⟨rfl, rfl⟩ | ⟨rfl, rfl⟩ | ⟨rfl, rfl⟩
    · exact cofinite_merged_inPlace .union x items negated (.cofiniteSet items negated)
    · exact cofinite_merged_inPlace .intersection x items negated (.cofiniteSet items negated)
    · exact cofinite_merged_inPlace .difference x items negated (.cofiniteSet items negated)
    · exact cofinite_merged_inPlace .symmetricDifference x items negated (.cofiniteSet items negated)
  | defaultMap entries fallback => exact absurd (Option.some.inj found).symm other
  | _ => cases found

/-- Does a set or a map take the value as the other side of an operator? -/
def takes : Value → Value → Bool
  | .sortedSet _, b => b.setOperand?.isSome
  | .sortedMap _, b => b.mapOperand?.isSome
  | .cofiniteSet _ _, b => b.cofiniteOperand?.isSome
  | _, _ => false

theorem ofExcept_eq_inside {σ : Type} (wrap : σ → Value) (s : σ) (made : Except (Fault Failure) σ) :
    (MonadExcept.ofExcept (do return wrap (← Failure.lift made)) : OnRegister) (wrap s) =
      inside wrap s (do return wrap (← answer made)) (wrap s) := by
  cases made <;> rfl

theorem operate_set {op : Operator} {rule : SetRule} (stands : op.rule? = some rule)
    (items : List Value) {b : Value} (taken : takes (.sortedSet items) b = true) :
    (MonadExcept.ofExcept (Value.operate op (.sortedSet items) b) : OnRegister) (.sortedSet items) =
      inside Value.ofSet ⟨items⟩
        (do return .ofSet (← answer ((← get).merged Value.order rule [(Argument.value b).asSet])))
        (.sortedSet items) := by
  obtain ⟨operand, taken⟩ := Option.isSome_iff_exists.mp taken
  -- What an operator takes, a member reads in the same way; a member takes more than that.
  have same : (Argument.value b).asSet = operand := by
    cases b <;> cases taken <;> rfl
  rw [Value.operate, Value.result, Value.offered?, Value.ownResult, stands, taken, same]
  exact ofExcept_eq_inside Value.ofSet ⟨items⟩ _

theorem operate_map {op : Operator} {rule : MapRule Failure Value Value}
    (stands : op.mapRule? = some rule) (entries : List (Value × Value)) {b : Value}
    (taken : takes (.sortedMap entries) b = true) :
    (MonadExcept.ofExcept (Value.operate op (.sortedMap entries) b) : OnRegister)
        (.sortedMap entries) =
      inside Value.ofMap ⟨entries⟩
        (do return .ofMap (← answer ((← get).merged Value.order rule (Argument.value b).asMap)))
        (.sortedMap entries) := by
  obtain ⟨operand, taken⟩ := Option.isSome_iff_exists.mp taken
  have same : (Argument.value b).asMap = operand := by
    cases b <;> cases taken <;> rfl
  rw [Value.operate, Value.result, Value.offered?, Value.ownResult, stands, taken, same]
  exact ofExcept_eq_inside Value.ofMap ⟨entries⟩ _

theorem operate_cofinite {op : Operator} {rule : SetRule} (stands : op.rule? = some rule)
    (items : List Value) (negated : Bool) {b : Value}
    (taken : takes (.cofiniteSet items negated) b = true) :
    (MonadExcept.ofExcept (Value.operate op (.cofiniteSet items negated) b) : OnRegister)
        (.cofiniteSet items negated) =
      inside Value.ofCofinite ⟨⟨items⟩, negated⟩
        (do
          return .ofCofinite
            (← answer ((← get).merged Value.order rule (Argument.value b).asCofinite)))
        (.cofiniteSet items negated) := by
  obtain ⟨operand, taken⟩ := Option.isSome_iff_exists.mp taken
  have same : (Argument.value b).asCofinite = operand := by
    cases b <;> cases taken <;> rfl
  rw [Value.operate, Value.result, Value.offered?, Value.ownResult, stands, taken, same]
  exact ofExcept_eq_inside Value.ofCofinite ⟨⟨items⟩, negated⟩ _

/-- An operator answers what the member that makes a new container answers. -/
theorem operate_eq {op : Operator} {new : String} (form : (op, new) ∈ assigningForms) {v b : Value}
    (taken : takes v b = true) :
    (MonadExcept.ofExcept (Value.operate op v b) : OnRegister) v = call new ⟨[.value b], []⟩ v := by
  simp only [assigningForms, List.mem_cons, Prod.mk.injEq, List.not_mem_nil, or_false] at form
  cases v with
  | sortedSet items =>
    rcases form with ⟨rfl, rfl⟩ | ⟨rfl, rfl⟩ | ⟨rfl, rfl⟩ | ⟨rfl, rfl⟩ <;>
      exact operate_set rfl items taken
  | sortedMap entries =>
    rcases form with ⟨rfl, rfl⟩ | ⟨rfl, rfl⟩ | ⟨rfl, rfl⟩ | ⟨rfl, rfl⟩ <;>
      exact operate_map rfl entries taken
  | cofiniteSet items negated =>
    rcases form with ⟨rfl, rfl⟩ | ⟨rfl, rfl⟩ | ⟨rfl, rfl⟩ | ⟨rfl, rfl⟩ <;>
      exact operate_cofinite rfl items negated taken
  | _ => cases taken

theorem call_self_eq {op : Operator} {new : String} (form : (op, new) ∈ assigningForms) {v : Value}
    (taken : takes v v = true) : call new ⟨[.self], []⟩ v = call new ⟨[.value v], []⟩ v := by
  simp only [assigningForms, List.mem_cons, Prod.mk.injEq, List.not_mem_nil, or_false] at form
  cases v with
  | sortedSet items => rcases form with ⟨rfl, rfl⟩ | ⟨rfl, rfl⟩ | ⟨rfl, rfl⟩ | ⟨rfl, rfl⟩ <;> rfl
  | sortedMap entries => rcases form with ⟨rfl, rfl⟩ | ⟨rfl, rfl⟩ | ⟨rfl, rfl⟩ | ⟨rfl, rfl⟩ <;> rfl
  | cofiniteSet items negated =>
    rcases form with ⟨rfl, rfl⟩ | ⟨rfl, rfl⟩ | ⟨rfl, rfl⟩ | ⟨rfl, rfl⟩ <;> rfl
  | _ => cases taken

/-- The members of a set that take in any number of operands in place. -/
def variadicForms : List String := ["update", "intersection_update", "difference_update"]

/-- Operands that are merged in by one call might as well be merged in by one call each. -/
theorem set_operands_inTurn (rule : SetRule) {name : String}
    (called : ∀ (xs : List Argument) (items : List Value), call name ⟨xs, []⟩ (.sortedSet items) =
      inside Value.ofSet ⟨items⟩
        (change (SortedSet.update Value.order rule (xs.map Argument.asSet))) (.sortedSet items))
    (x : Argument) (xs : List Argument) (items : List Value) :
    call name ⟨x :: xs, []⟩ (.sortedSet items) =
      (do let _ ← call name ⟨[x], []⟩; call name ⟨xs, []⟩) (.sortedSet items) := by
  rw [bind_run, called, called, inside, inside, change, change, List.map_cons, List.map_cons,
    List.map_nil, SortedSet.update_cons, SortedSet.update_cons, bind_run, bind_run]
  cases SortedSet.updateOne Value.order rule x.asSet ⟨items⟩ with
  | error e s => rfl
  | ok _ s =>
    show _ = call name ⟨xs, []⟩ (.sortedSet s.items)
    rw [called, inside, change]

theorem variadic_call {name : String} (form : name ∈ variadicForms) (x : Argument)
    (xs : List Argument) (items : List Value) :
    call name ⟨x :: xs, []⟩ (.sortedSet items) =
      (do let _ ← call name ⟨[x], []⟩; call name ⟨xs, []⟩) (.sortedSet items) := by
  simp only [variadicForms, List.mem_cons, List.not_mem_nil, or_false] at form
  rcases form with rfl | rfl | rfl
  · exact set_operands_inTurn .union (fun _ _ => rfl) x xs items
  · exact set_operands_inTurn .intersection (fun _ _ => rfl) x xs items
  · exact set_operands_inTurn .difference (fun _ _ => rfl) x xs items

/-- The named arguments of a call as entries under their names. -/
def namedEntries (v : Value) (named : List (String × Argument)) : List (Value × Value) :=
  named.map fun entry => (.text entry.1, entry.2.toValue v)

theorem union_update_eq (x : Argument) (entries : List (Value × Value)) :
    call "union_update" ⟨[x], []⟩ (.sortedMap entries) =
      inside Value.ofMap ⟨entries⟩
        (change (SortedMap.update Value.order (.union MapRule.preferRight) x.asMap))
        (.sortedMap entries) := by
  have asked : MapMembers.call "union_update" ⟨[x], []⟩ =
      change (SortedMap.update Value.order (.union MapRule.preferRight) x.asMap) := by
    have own : MapMembers.rule? "union_update" ⟨[x], []⟩ = none := rfl
    have ending : MapMembers.inPlaceName? "union_update" = some "union" := by decide +kernel
    rw [MapMembers.call, own, ending]
    rfl
  rw [← asked]
  rfl

/-- The other map of an update, which may be left out. -/
def updateOperand (x : Option Argument) : Operand Failure (Value × Value) :=
  x.elim (.unsorted []) Argument.asMap

theorem map_update_eq (x : Option Argument) (named : List (String × Argument))
    (entries : List (Value × Value)) :
    call "update" ⟨x.toList, named⟩ (.sortedMap entries) =
      inside Value.ofMap ⟨entries⟩ (do
        let _ ← change (SortedMap.update Value.order (.union MapRule.preferRight) (updateOperand x))
        if named.isEmpty then
          return Value.none
        else
          change (SortedMap.update Value.order (.union MapRule.preferRight)
            (.unsorted (namedEntries (.sortedMap entries) named)))) (.sortedMap entries) := by
  have asked : MapMembers.call "update" ⟨x.toList, named⟩ = MapMembers.update ⟨x.toList, named⟩ := by
    have own : MapMembers.rule? "update" ⟨x.toList, named⟩ = none := rfl
    have ending : MapMembers.inPlaceName? "update" = none := by decide +kernel
    rw [MapMembers.call, own, ending]
    rfl
  have called : call "update" ⟨x.toList, named⟩ (.sortedMap entries) =
      inside Value.ofMap ⟨entries⟩ (MapMembers.update ⟨x.toList, named⟩) (.sortedMap entries) := by
    rw [← asked]
    rfl
  rw [called]
  cases x <;> rfl

/-- Entries that are given by name are merged in after those of the other map. -/
theorem map_update_call (x : Argument) (named : List (String × Argument))
    (entries : List (Value × Value)) :
    call "update" ⟨[x], named⟩ (.sortedMap entries) =
      (do
        let _ ← call "union_update" ⟨[x], []⟩
        if named.isEmpty then
          return Value.none
        else
          call "union_update" ⟨[.value (.dict (namedEntries (.sortedMap entries) named))], []⟩)
        (.sortedMap entries) := by
  have merged := map_update_eq (some x) named entries
  rw [Option.toList_some, updateOperand, Option.elim_some] at merged
  rw [merged, bind_run, union_update_eq, inside, inside, bind_run, change]
  cases SortedMap.update Value.order (.union MapRule.preferRight) x.asMap ⟨entries⟩ with
  | error e m => rfl
  | ok _ m =>
    cases named with
    | nil => rfl
    | cons first rest =>
      show _ = call "union_update" _ (.sortedMap m.entries)
      rw [union_update_eq]
      rfl

end Session

end SortedCollections
