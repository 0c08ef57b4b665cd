import Mathlib.Logic.Function.Basic
import SortedCollections.Proofs.Maps.Canonical
import SortedCollections.Session.DefaultMapMembers

/-!
# Programs over maps with a default

A program works on maps that have names. A command makes a map, of entries or of other maps, and gives
it to a name, or changes the map that has the name. Functions that a command calls may fail; then the
target stays as the command leaves it, and the program goes on. Whatever has happened, all maps are in
canonical form, and what is done to them next is done key by key.
-/
namespace SortedCollections

namespace DefaultMap

variable {ε ι κ ν : Type}

/-- One side of a combination. -/
inductive Side (ι ν : Type) where
  | named (name : ι)
  /-- A value that stands for itself under every key. -/
  | scalar (value : ν)

/-- What is done with the maps there are. -/
inductive Action (ε ι κ ν : Type) where
  /-- The entries come in any order, perhaps with equal keys among them. -/
  | create (entries : List (κ × ν)) (default : ν)
  | createSorted (entries : SortedMap κ ν) (default : ν)
  | restore (entries : List (κ × ν)) (default : ν)
  | constant (value : ν)
  | copy (source : ι)
  | combine (f : ν → ν → Except ε ν) (left right : Side ι ν)
  | mapValues (f : ν → Except ε ν) (source : ι)
  /-- The target itself is changed by this and the following. -/
  | set (k : κ) (value : ν)
  | reset (k : κ)
  | combineInPlace (f : ν → ν → Except ε ν) (other : ι)

structure Command (ε ι κ ν : Type) where
  target : ι
  action : Action ε ι κ ν

def Side.map (maps : ι → DefaultMap κ ν) : Side ι ν → DefaultMap κ ν
  | .named name => maps name
  | .scalar value => .constant value

/-- The state after a step, whether it has succeeded or failed. -/
def stateAfter {σ : Type} : EStateM.Result (Fault ε) σ Unit → σ
  | .ok () s | .error _ s => s

section Run

variable [DecidableEq ι] [Inhabited κ] [Inhabited ν] (cmp : Comparison ε κ)
  (eq : ν → ν → Except ε Bool)

def Action.run (maps : ι → DefaultMap κ ν) (target : ι) :
    Action ε ι κ ν → EStateM.Result (Fault ε) (DefaultMap κ ν) Unit
  | .create entries default =>
    changedTo (maps target) (do ofEntries eq (← SortedMap.ofList cmp entries) default)
  | .createSorted entries default => changedTo (maps target) (ofEntries eq entries default)
  | .restore entries default =>
    changedTo (maps target) (DefaultMap.restore cmp eq entries default)
  | .constant value => .ok () (.constant value)
  | .copy source => .ok () (maps source)
  | .combine f left right =>
    changedTo (maps target) ((left.map maps).combine cmp eq f (right.map maps))
  | .mapValues f source => changedTo (maps target) ((maps source).mapValues eq f)
  | .set k value => changedTo (maps target) ((maps target).set cmp eq k value)
  | .reset k => .ok () ((maps target).reset cmp k)
  | .combineInPlace f other =>
    DefaultMap.combineInPlace cmp eq f (if other = target then none else some (maps other))
      (maps target)

def Command.run (maps : ι → DefaultMap κ ν) (command : Command ε ι κ ν) : ι → DefaultMap κ ν :=
  Function.update maps command.target
    (stateAfter (command.action.run cmp eq maps command.target))

def runProgram (program : List (Command ε ι κ ν)) (maps : ι → DefaultMap κ ν) :
    ι → DefaultMap κ ν :=
  program.foldl (Command.run cmp eq) maps

end Run

section Domain

variable (cmp : Comparison ε κ) (P : κ → Prop) (Q : ν → Prop)

def Side.Inside : Side ι ν → Prop
  | .named _ => True
  | .scalar value => Q value

/-- All keys and values are in their domains, and functions do not lead out of them. -/
def Action.Inside : Action ε ι κ ν → Prop
  | .create entries default | .restore entries default =>
    (∀ e ∈ entries, P e.1 ∧ Q e.2) ∧ Q default
  | .createSorted entries default =>
    EntriesOn cmp.less P entries.entries ∧ (∀ e ∈ entries.entries, Q e.2) ∧ Q default
  | .constant value => Q value
  | .copy _ => True
  | .combine f left right => ClosedOn Q f ∧ left.Inside Q ∧ right.Inside Q
  | .mapValues f _ => ∀ v w, Q v → f v = .ok w → Q w
  | .set k value => P k ∧ Q value
  | .reset k => P k
  | .combineInPlace f _ => ClosedOn Q f

end Domain

variable {cmp : Comparison ε κ} {eq : ν → ν → Except ε Bool} {P : κ → Prop} {Q : ν → Prop}
  {maps : ι → DefaultMap κ ν}

theorem Side.map_canonical (canonical : ∀ name, (maps name).Canonical cmp eq P Q) {side : Side ι ν}
    (inside : side.Inside Q) : (side.map maps).Canonical cmp eq P Q := by
  cases side with
  | named name => exact canonical name
  | scalar value => exact constant_canonical inside

/-- An operation that makes canonical maps only leaves one, whether it succeeds or fails. -/
theorem stateAfter_changedTo {m : DefaultMap κ ν} (canonical : m.Canonical cmp eq P Q)
    {made : Except (Fault ε) (DefaultMap κ ν)} (makes : ∀ n, made = .ok n → n.Canonical cmp eq P Q) :
    (stateAfter (changedTo m made)).Canonical cmp eq P Q := by
  cases made with
  | error e => exact canonical
  | ok n => exact makes n rfl

theorem other_getD [DecidableEq ι] (maps : ι → DefaultMap κ ν) (target other : ι) :
    (if other = target then none else some (maps other)).getD (maps target) = maps other := by
  by_cases same : other = target
  · rw [if_pos same, same]
    rfl
  · rw [if_neg same]
    rfl

variable [DecidableEq ι] [Inhabited κ] [Inhabited ν]

/-- A command leaves its target in canonical form, whatever its equality of values answers. -/
theorem Action.run_canonical (ordered : cmp.OrderedOn P) {action : Action ε ι κ ν}
    (inside : action.Inside cmp P Q) (canonical : ∀ name, (maps name).Canonical cmp eq P Q)
    (target : ι) : (stateAfter (action.run cmp eq maps target)).Canonical cmp eq P Q := by
  have before := canonical target
  cases action with
  | create entries default =>
    exact stateAfter_changedTo before fun _ => ofList_canonical ordered inside.1 inside.2
  | createSorted entries default =>
    exact stateAfter_changedTo before fun _ =>
      ofEntries_canonical inside.1 inside.2.1 inside.2.2
  | restore entries default =>
    exact stateAfter_changedTo before fun _ => restore_canonical ordered inside.1 inside.2
  | constant value => exact constant_canonical inside
  | copy source => exact canonical source
  | combine f left right =>
    have left := Side.map_canonical canonical inside.2.1
    have right := Side.map_canonical canonical inside.2.2
    refine stateAfter_changedTo before fun n done => ?_
    rw [combine_eq ordered left right] at done
    exact (combine_pieces ordered left right inside.1).canonical done
  | mapValues f source =>
    refine stateAfter_changedTo before fun n done => ?_
    rw [mapValues_eq] at done
    exact (mapValues_pieces ordered (canonical source) inside).canonical done
  | set k value =>
    exact stateAfter_changedTo before fun n => before.of_set ordered inside.1 inside.2
  | reset k => exact (before.reset ordered inside).1
  | combineInPlace f other =>
    rw [run, combineInPlace_eq, other_getD]
    refine stateAfter_changedTo before fun n done => ?_
    rw [combine_eq ordered before (canonical other)] at done
    exact (combine_pieces ordered before (canonical other) inside).canonical done

theorem Command.run_canonical (ordered : cmp.OrderedOn P) {command : Command ε ι κ ν}
    (inside : command.action.Inside cmp P Q) (canonical : ∀ name, (maps name).Canonical cmp eq P Q)
    (name : ι) : (command.run cmp eq maps name).Canonical cmp eq P Q := by
  by_cases same : name = command.target
  · subst same
    rw [run, Function.update_self]
    exact Action.run_canonical ordered inside canonical command.target
  · rw [run, Function.update_of_ne same]
    exact canonical name

theorem runProgram_canonical (ordered : cmp.OrderedOn P) (program : List (Command ε ι κ ν))
    (inside : ∀ command ∈ program, command.action.Inside cmp P Q)
    (canonical : ∀ name, (maps name).Canonical cmp eq P Q) (name : ι) :
    (runProgram cmp eq program maps name).Canonical cmp eq P Q := by
  induction program generalizing maps with
  | nil => exact canonical name
  | cons command program ih =>
    exact ih (fun c mem => inside c (.tail _ mem))
      (Command.run_canonical ordered (inside command (by simp)) canonical)

/-- No other value takes a map with a default as the right operand of arithmetic. -/
theorem ownResult_defaultMap (inner : Value.Operation) {op : Operator}
    (pointwise : op.isPointwise = true) {a : Value} (other : a.kind ≠ .defaultMap)
    (y : DefaultMap Value Value) : Value.ownResult inner op a (.ofDefaultMap y) = none := by
  cases a with
  | defaultMap entries fallback => exact absurd rfl other
  | _ => cases op <;> first | rfl | cases pointwise

/-- Arithmetic with a map with a default on either side combines the two sides in their order. -/
theorem offered?_pointwise (inner : Value.Operation) {op : Operator}
    (pointwise : op.isPointwise = true) {a b : Value} {x y : DefaultMap Value Value}
    (left : a.defaultMap? = some x) (right : b.defaultMap? = some y)
    (either : a = .ofDefaultMap x ∨ b = .ofDefaultMap y) :
    Value.offered? inner op a b = some (do
      return .ofDefaultMap (← Failure.lift (x.combine Value.order Value.same (inner op) y))) := by
  have own (x : DefaultMap Value Value) : Value.offered? inner op (.ofDefaultMap x) b = some (do
      return .ofDefaultMap (← Failure.lift (x.combine Value.order Value.same (inner op) y))) := by
    rw [Value.offered?, Value.ofDefaultMap, Value.ownResult, if_pos pointwise, right]
    rfl
  by_cases same : a.kind = .defaultMap
  · cases a with
    | defaultMap entries fallback =>
      cases left
      exact own ⟨⟨entries⟩, fallback⟩
    | _ => cases same
  · rcases either with rfl | rfl
    · exact absurd rfl same
    · rw [Value.offered?, ownResult_defaultMap inner pointwise same, Value.ofDefaultMap,
        Value.reflectedResult, if_pos pointwise, left]
      rfl

/-- The members of a map that take the larger or the smaller of two values. -/
theorem call_extremum {name : String} {f : Value → Value → Except Failure Value}
    (member : (name, f) ∈ [("supremum", Value.larger), ("infimum", Value.smaller)]) {x : Argument}
    {other : Option (DefaultMap Value Value)} (read : DefaultMapMembers.other? x = some other)
    (m : DefaultMap Value Value) : DefaultMapMembers.call name ⟨[x], []⟩ m = (do
      return .ofDefaultMap (← MemberCall.answer
        (m.combine Value.order Value.same f (other.getD m))) : DefaultMapMembers.Member) m := by
  have combined (f : Value → Value → Except Failure Value) :
      DefaultMapMembers.combine f x m = (do
        return .ofDefaultMap (← MemberCall.answer
          (m.combine Value.order Value.same f (other.getD m))) : DefaultMapMembers.Member) m := by
    simp only [DefaultMapMembers.combine, read]
    rfl
  rcases List.mem_pair.mp member with same | same <;> cases same <;> exact combined _

/-- The operators and members of values that combine maps with a default, or change all values. -/
structure Operators : Prop where
  /-- Arithmetic with a map with a default on either side, and any value but a finite map on the other,
  which stands for itself under every key. -/
  arithmetic : ∀ (inner : Value.Operation) (op : Operator) (a b : Value)
    (x y : DefaultMap Value Value), op.isPointwise = true → a.defaultMap? = some x →
    b.defaultMap? = some y → (a = .ofDefaultMap x ∨ b = .ofDefaultMap y) →
    Value.offered? inner op a b = some (do
      return .ofDefaultMap (← Failure.lift (x.combine Value.order Value.same (inner op) y)))
  negation : ∀ levels (m : DefaultMap Value Value),
    Value.negateBelow (levels + 1) (.ofDefaultMap m) = do
      return .ofDefaultMap (← Failure.lift (m.mapValues Value.same (Value.negateBelow levels)))
  extremum : ∀ name f, (name, f) ∈ [("supremum", Value.larger), ("infimum", Value.smaller)] →
    ∀ x other, DefaultMapMembers.other? x = some other → ∀ m : DefaultMap Value Value,
      DefaultMapMembers.call name ⟨[x], []⟩ m = (do
        return .ofDefaultMap (← MemberCall.answer
          (m.combine Value.order Value.same f (other.getD m))) : DefaultMapMembers.Member) m

theorem operators : Operators where
  arithmetic inner _ _ _ _ _ pointwise left right either :=
    offered?_pointwise inner pointwise left right either
  negation _ _ := rfl
  extremum _ _ member _ _ read m := call_extremum member read m

def Side.get (cmp : Comparison ε κ) (maps : ι → DefaultMap κ ν) : Side ι ν → κ → ν
  | .named name => (maps name).get cmp
  | .scalar value => fun _ => value

omit [DecidableEq ι] [Inhabited κ] [Inhabited ν] in
theorem Side.map_get (side : Side ι ν) : (side.map maps).get cmp = side.get cmp maps := by
  cases side with
  | named name => rfl
  | scalar value => exact funext (get_constant value)

/-- What operations do to the maps that have names. -/
structure Laws (cmp : Comparison ε κ) (eq : ν → ν → Except ε Bool) (P : κ → Prop) (Q : ν → Prop)
    (maps : ι → DefaultMap κ ν) : Prop where
  /-- Keys increase, and no stored value equals the default. -/
  canonical : ∀ name, (maps name).Canonical cmp eq P Q
  /-- Maps, or scalars on either side, are combined key by key. -/
  combine : ∀ f (left right : Side ι ν), ClosedOn Q f → left.Inside Q → right.Inside Q →
    KeyByKey cmp eq P Q (fun k => f (left.get cmp maps k) (right.get cmp maps k))
      (f (left.map maps).default (right.map maps).default)
      ((left.map maps).entries.keys ++ (right.map maps).entries.keys)
      ((left.map maps).combine cmp eq f (right.map maps))
  /-- A combination in place, with another map or with the map itself. -/
  combineInPlace : ∀ f target other,
    DefaultMap.combineInPlace cmp eq f (if other = target then none else some (maps other))
      (maps target) = changedTo (maps target) ((maps target).combine cmp eq f (maps other))
  mapValues : ∀ f name, (∀ v w, Q v → f v = .ok w → Q w) →
    KeyByKey cmp eq P Q (fun k => f ((maps name).get cmp k)) (f (maps name).default)
      (maps name).entries.keys ((maps name).mapValues eq f)
  set : ∀ name k v, P k → Q v → ∃ m, (maps name).set cmp eq k v = .ok m ∧
    m.default = (maps name).default ∧ eq (m.get cmp k) v = .ok true ∧
    ∀ j, P j → cmp.eq j k = .ok false → m.get cmp j = (maps name).get cmp j
  reset : ∀ name k, P k → ((maps name).reset cmp k).default = (maps name).default ∧
    ((maps name).reset cmp k).get cmp k = (maps name).default ∧
    ∀ j, P j → cmp.eq j k = .ok false →
      ((maps name).reset cmp k).get cmp j = (maps name).get cmp j

theorem laws_of_canonical (ordered : cmp.OrderedOn P) (equivalence : EquivalenceOn eq Q)
    (canonical : ∀ name, (maps name).Canonical cmp eq P Q) : Laws cmp eq P Q maps where
  canonical := canonical
  combine f left right closed insideLeft insideRight := by
    rw [← Side.map_get, ← Side.map_get]
    exact (Side.map_canonical canonical insideLeft).combine ordered equivalence
      (Side.map_canonical canonical insideRight) closed
  combineInPlace f target other := by rw [combineInPlace_eq, other_getD]
  mapValues f name closed := (canonical name).mapValues ordered equivalence closed
  set name k v hk hv := (canonical name).set ordered equivalence hk hv
  reset name k hk := ((canonical name).reset ordered hk).2

/-- A program over maps in canonical form leaves maps in canonical form, and whatever is done next with
its maps is done key by key: combining them, or a map and a scalar in either order, with any function;
combining in place, also with the map itself; changing all values; setting a key; giving it the default
again. A combination returns exactly if its function returns for the defaults and for every key that
either side stores. Arithmetic, changing the sign, and taking the larger or smaller values are such
operations, with the operands in their order. -/
theorem default_map_programs_pointwise (ordered : cmp.OrderedOn P)
    (equivalence : EquivalenceOn eq Q) (program : List (Command ε ι κ ν))
    (inside : ∀ command ∈ program, command.action.Inside cmp P Q)
    (canonical : ∀ name, (maps name).Canonical cmp eq P Q) :
    Laws cmp eq P Q (runProgram cmp eq program maps) ∧ Operators :=
  ⟨laws_of_canonical ordered equivalence
    (runProgram_canonical ordered program inside canonical), operators⟩

/-- A map loses an entry that equals the default and is added to itself in place; then it is taken away
from a scalar. -/
theorem scalar_minus_doubled :
    let cmp : Comparison Empty Nat := .natural
    let maps := runProgram cmp cmp.eq
      [⟨true, .create [(3, 1), (1, 0), (3, 2)] 0⟩,
        ⟨true, .combineInPlace (fun x y => .ok (x + y)) true⟩, ⟨true, .set 5 1⟩, ⟨true, .reset 5⟩]
      fun _ : Bool => .constant 0
    Laws cmp cmp.eq (fun _ => True) (fun _ => True) maps ∧
      ∃ m, (constant 9).combine cmp cmp.eq (fun x y => .ok (x - y)) (maps true) = .ok m ∧
        cmp.eq (m.get cmp 3) 5 = .ok true := by
  intro cmp maps
  have laws : Laws cmp cmp.eq (fun _ => True) (fun _ => True) maps :=
    (default_map_programs_pointwise Comparison.natural_ordered natural_equivalence _
      (by simp [Action.Inside, ClosedOn]) fun _ => constant_canonical trivial).1
  have made := laws.combine (fun x y => .ok (x - y)) (.scalar 9) (.named true)
    (fun _ _ _ _ _ _ => trivial) trivial trivial
  obtain ⟨m, done⟩ := made.returns_iff.mpr ⟨⟨_, rfl⟩, fun k _ => ⟨_, rfl⟩⟩
  obtain ⟨v, value, _, same⟩ := made.agrees m done 3 trivial
  have five : (.ok (9 - (maps true).get cmp 3) : Except Empty Nat) = .ok 5 := by decide +kernel
  have expected : v = 5 := Except.ok.inj (value.symm.trans five)
  exact ⟨laws, m, done, expected ▸ same⟩

end DefaultMap

end SortedCollections
