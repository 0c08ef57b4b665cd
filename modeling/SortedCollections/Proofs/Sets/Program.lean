import Mathlib.Logic.Function.Basic
import SortedCollections.Proofs.Sets.Cofinite

/-!
# Programs over finite and cofinite sets

A program works on sets that have names. A command makes a set of items, or of other sets, and gives
it to a name, or changes the set that has the name. Run on a domain that is ordered, every program
comes to its end, keeps the stored items of all sets increasing, and leaves each set with the
members that the Boolean operations of its commands give it. A command changes no set but its
target's, whatever it reads.
-/
namespace SortedCollections

namespace CofiniteSet

variable {ε α ν : Type}

/-- Items that are no set with a name. -/
inductive Collection (α : Type) where
  | sorted (set : SortedSet α)
  /-- Items in any order, perhaps equal ones among them. -/
  | unsorted (items : List α)

/-- The right side of a command. -/
inductive Source (α ν : Type) where
  | named (name : ν)
  | collection (items : Collection α)

/-- What is made of the sets there are. -/
inductive Action (α ν : Type) where
  | create (items : List α) (negated : Bool)
  | all
  | empty
  | constant (value : Bool)
  | copy (source : ν)
  | complement (source : ν)
  | combine (rule : SetRule) (left : ν) (right : Source α ν)
  /-- The set on the right is combined with what stands on its left. -/
  | combineWith (rule : SetRule) (left : Collection α) (right : ν)
  /-- The target itself is changed by this and the following. -/
  | insert (item : α)
  | discard (item : α)
  | update (rule : SetRule) (right : Source α ν)

structure Command (α ν : Type) where
  target : ν
  action : Action α ν

def Collection.operand : Collection α → Operand ε α
  | .sorted set => .set ⟨set, false⟩
  | .unsorted items => .unsorted items

section Run

variable [DecidableEq ν] [Inhabited α] (cmp : Comparison ε α)

def Source.operand (sets : ν → CofiniteSet α) (receiver : ν) : Source α ν → Operand ε α
  | .named name => if name = receiver then .self else .set (sets name)
  | .collection items => items.operand

/-- The set that a command leaves to its target. -/
def Action.result (sets : ν → CofiniteSet α) (target : ν) :
    Action α ν → Except (Fault ε) (CofiniteSet α)
  | .create items negated => ofList cmp items negated
  | .all => .ok .all
  | .empty => .ok .empty
  | .constant value => .ok (.constant value)
  | .copy source => .ok (sets source)
  | .complement source => .ok (sets source).complement
  | .combine rule left right => (sets left).merged cmp rule (right.operand sets left)
  | .combineWith rule left right => do
    (← left.operand.resolve cmp .empty).combine cmp rule (sets right)
  | .insert item => (sets target).insert cmp item
  | .discard item => (sets target).discard cmp item
  | .update rule right =>
    match CofiniteSet.update cmp rule (right.operand sets target) (sets target) with
    | .ok () s => .ok s
    | .error e _ => .error e

def Command.run (sets : ν → CofiniteSet α) (command : Command α ν) :
    Except (Fault ε) (ν → CofiniteSet α) := do
  return Function.update sets command.target (← command.action.result cmp sets command.target)

def runProgram (program : List (Command α ν)) (sets : ν → CofiniteSet α) :
    Except (Fault ε) (ν → CofiniteSet α) :=
  program.foldlM (Command.run cmp) sets

end Run

section Meaning

variable [DecidableEq ν] (cmp : Comparison ε α)

def Collection.members : Collection α → α → Bool
  | .sorted set => set.contains cmp
  | .unsorted items => cmp.among items

def Source.members (sets : ν → α → Bool) : Source α ν → α → Bool
  | .named name => sets name
  | .collection items => items.members cmp

/-- The members of the target after a command, by those of all sets before it. -/
def Action.members (sets : ν → α → Bool) (target : ν) : Action α ν → α → Bool
  | .create items negated => fun x => negated != cmp.among items x
  | .all => fun _ => true
  | .empty => fun _ => false
  | .constant value => fun _ => value
  | .copy source => sets source
  | .complement source => fun x => !sets source x
  | .combine rule left right => fun x => rule.holds (sets left x) (right.members cmp sets x)
  | .combineWith rule left right => fun x => rule.holds (left.members cmp x) (sets right x)
  | .insert item => fun x => cmp.same x item || sets target x
  | .discard item => fun x => !cmp.same x item && sets target x
  | .update rule right => fun x => rule.holds (sets target x) (right.members cmp sets x)

def Command.members (sets : ν → α → Bool) (command : Command α ν) : ν → α → Bool :=
  Function.update sets command.target (command.action.members cmp sets command.target)

def programMembers (program : List (Command α ν)) (sets : ν → α → Bool) : ν → α → Bool :=
  program.foldl (Command.members cmp) sets

end Meaning

section Domain

variable (cmp : Comparison ε α) (P : α → Prop)

/-- All items are in the domain. A sorted set keeps its items increasing. -/
def Collection.Inside : Collection α → Prop
  | .sorted set => IncreasingOn cmp.less P set.items
  | .unsorted items => ∀ x ∈ items, P x

def Source.Inside : Source α ν → Prop
  | .named _ => True
  | .collection items => items.Inside cmp P

def Action.Inside : Action α ν → Prop
  | .create items _ => ∀ x ∈ items, P x
  | .all | .empty | .constant _ | .copy _ | .complement _ => True
  | .combine _ _ right | .update _ right => right.Inside cmp P
  | .combineWith _ left _ => left.Inside cmp P
  | .insert item | .discard item => P item

/-- Every set denotes its predicate. -/
def Denote (sets : ν → CofiniteSet α) (members : ν → α → Bool) : Prop :=
  ∀ name, (sets name).Denotes cmp P (members name)

end Domain

variable {cmp : Comparison ε α} {P : α → Prop} {sets : ν → CofiniteSet α} {meaning : ν → α → Bool}

theorem Collection.resolve_denotes (ordered : cmp.OrderedOn P) {items : Collection α}
    (inside : items.Inside cmp P) (receiver : CofiniteSet α) :
    ∃ s, items.operand.resolve cmp receiver = .ok s ∧ s.Denotes cmp P (items.members cmp) := by
  cases items with
  | sorted set =>
    refine ⟨⟨set, false⟩, rfl, inside, fun x _ => ?_⟩
    rw [contains, Bool.false_bne]
    rfl
  | unsorted items =>
    obtain ⟨s, done, denotes⟩ := ofList_denotes ordered inside false
    exact ⟨s, done, denotes.congr fun x _ => Bool.false_bne _⟩

variable [DecidableEq ν]

theorem Source.resolve_denotes (ordered : cmp.OrderedOn P) {right : Source α ν}
    (inside : right.Inside cmp P) (denote : Denote cmp P sets meaning) (receiver : ν) :
    ∃ s, (right.operand sets receiver).resolve cmp (sets receiver) = .ok s ∧
      s.Denotes cmp P (right.members cmp meaning) := by
  cases right with
  | named name =>
    refine ⟨sets name, ?_, denote name⟩
    by_cases same : name = receiver
    · rw [operand, if_pos same, same]
      rfl
    · rw [operand, if_neg same]
      rfl
  | collection items => exact Collection.resolve_denotes ordered inside (sets receiver)

theorem merged_denotes (ordered : cmp.OrderedOn P) (rule : SetRule) {right : Source α ν}
    (inside : right.Inside cmp P) (denote : Denote cmp P sets meaning) (left : ν) :
    ∃ s, (sets left).merged cmp rule (right.operand sets left) = .ok s ∧
      s.Denotes cmp P fun x => rule.holds (meaning left x) (right.members cmp meaning x) := by
  obtain ⟨t, resolved, denotes⟩ := Source.resolve_denotes ordered inside denote left
  obtain ⟨s, done, combined⟩ := (denote left).combine ordered rule denotes
  exact ⟨s, by rw [merged, resolved]; exact done, combined⟩

variable [Inhabited α]

/-- A command leaves its target with the members that it should have. -/
theorem Action.result_denotes (ordered : cmp.OrderedOn P) {action : Action α ν}
    (inside : action.Inside cmp P) (denote : Denote cmp P sets meaning) (target : ν) :
    ∃ s, action.result cmp sets target = .ok s ∧
      s.Denotes cmp P (action.members cmp meaning target) := by
  cases action with
  | create items negated => exact ofList_denotes ordered inside negated
  | all => exact ⟨_, rfl, constant_denotes ordered true⟩
  | empty => exact ⟨_, rfl, constant_denotes ordered false⟩
  | constant value => exact ⟨_, rfl, constant_denotes ordered value⟩
  | copy source => exact ⟨_, rfl, denote source⟩
  | complement source => exact ⟨_, rfl, (denote source).complement⟩
  | combine rule left right => exact merged_denotes ordered rule inside denote left
  | combineWith rule left right =>
    obtain ⟨t, resolved, denotes⟩ := Collection.resolve_denotes ordered inside CofiniteSet.empty
    obtain ⟨s, done, combined⟩ := denotes.combine ordered rule (denote right)
    exact ⟨s, by rw [result, resolved]; exact done, combined⟩
  | insert item => exact (denote target).insert ordered inside
  | discard item => exact (denote target).discard ordered inside
  | update rule right =>
    obtain ⟨s, done, denotes⟩ := merged_denotes ordered rule inside denote target
    exact ⟨s, by rw [result, update_eq, done]; rfl, denotes⟩

theorem Command.run_denote (ordered : cmp.OrderedOn P) {command : Command α ν}
    (inside : command.action.Inside cmp P) (denote : Denote cmp P sets meaning) :
    ∃ after, command.run cmp sets = .ok after ∧ Denote cmp P after (command.members cmp meaning) ∧
      ∀ name, name ≠ command.target → after name = sets name := by
  obtain ⟨s, done, denotes⟩ := Action.result_denotes ordered inside denote command.target
  refine ⟨Function.update sets command.target s, by rw [run, done]; rfl, fun name => ?_,
    fun name other => Function.update_of_ne other s sets⟩
  by_cases same : name = command.target
  · subst same
    rw [members, Function.update_self, Function.update_self]
    exact denotes
  · rw [members, Function.update_of_ne same, Function.update_of_ne same]
    exact denote name

theorem runProgram_denote (ordered : cmp.OrderedOn P) (program : List (Command α ν))
    (inside : ∀ command ∈ program, command.action.Inside cmp P)
    (denote : Denote cmp P sets meaning) :
    ∃ after, runProgram cmp program sets = .ok after ∧
      Denote cmp P after (programMembers cmp program meaning) ∧
      ∀ name, (∀ command ∈ program, name ≠ command.target) → after name = sets name := by
  induction program generalizing sets meaning with
  | nil => exact ⟨sets, rfl, denote, fun _ _ => rfl⟩
  | cons command program ih =>
    have insideFirst := inside command (by simp)
    obtain ⟨between, first, denote, kept⟩ := Command.run_denote ordered insideFirst denote
    obtain ⟨after, rest, denote, keptRest⟩ := ih (fun c mem => inside c (.tail _ mem)) denote
    refine ⟨after, ?_, denote, fun name other => ?_⟩
    · rw [runProgram, List.foldlM_cons, first]
      exact rest
    · rw [keptRest name fun c mem => other c (.tail _ mem), kept name (other command (by simp))]

/-- A program over sets of an ordered domain runs to its end. In each set that it leaves, the stored
items increase, and something of the domain is in the set exactly if the Boolean operations of the
commands say so. A set that is no command's target stays the very set it was. -/
theorem cofinite_programs_denote (ordered : cmp.OrderedOn P) (program : List (Command α ν))
    (inside : ∀ command ∈ program, command.action.Inside cmp P) (start : ν → CofiniteSet α)
    (increasing : ∀ name, IncreasingOn cmp.less P (start name).elements.items) :
    ∃ after, runProgram cmp program start = .ok after ∧
      (∀ name, IncreasingOn cmp.less P (after name).elements.items) ∧
      (∀ name x, P x → (after name).contains cmp x =
        programMembers cmp program (fun name => (start name).contains cmp) name x) ∧
      ∀ name, (∀ command ∈ program, name ≠ command.target) → after name = start name := by
  obtain ⟨after, done, denote, kept⟩ :=
    runProgram_denote ordered program inside fun name => denotes_contains (increasing name)
  exact ⟨after, done, fun name => (denote name).kept, fun name => (denote name).contains, kept⟩

/-- A finite set takes in a cofinite one in place, which swaps the two, loses an item, and is combined
with what stands on its left. -/
theorem updated_complement_denotes :
    ∃ after, runProgram (ν := Bool) (.natural : Comparison Empty Nat)
      [⟨true, .create [3, 1, 3] false⟩, ⟨false, .create [2, 1] true⟩,
        ⟨true, .update .union (.named false)⟩, ⟨true, .discard 7⟩,
        ⟨false, .combineWith .symmetricDifference (.unsorted [5]) true⟩]
      (fun _ => .empty) = .ok after ∧
      (∀ name, IncreasingOn (.natural : Comparison Empty Nat).less (fun _ => True)
        (after name).elements.items) ∧
      (after true).contains (.natural : Comparison Empty Nat) 1 = true ∧
      (after true).contains (.natural : Comparison Empty Nat) 7 = false ∧
      (after false).contains (.natural : Comparison Empty Nat) 5 = false ∧
      (after false).contains (.natural : Comparison Empty Nat) 6 = true := by
  obtain ⟨after, done, increasing, contains, _⟩ :=
    cofinite_programs_denote (ν := Bool) (Comparison.natural_ordered (ε := Empty))
      [⟨true, .create [3, 1, 3] false⟩, ⟨false, .create [2, 1] true⟩,
        ⟨true, .update .union (.named false)⟩, ⟨true, .discard 7⟩,
        ⟨false, .combineWith .symmetricDifference (.unsorted [5]) true⟩]
      (by simp [Action.Inside, Source.Inside, Collection.Inside]) (fun _ => .empty)
      (fun _ => ⟨List.Pairwise.nil, fun _ _ => trivial⟩)
  refine ⟨after, done, increasing, ?_, ?_, ?_, ?_⟩
  · rw [contains true 1 trivial]
    decide +kernel
  · rw [contains true 7 trivial]
    decide +kernel
  · rw [contains false 5 trivial]
    decide +kernel
  · rw [contains false 6 trivial]
    decide +kernel

end CofiniteSet

end SortedCollections
