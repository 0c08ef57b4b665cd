import SortedCollections.Merge.Script
import SortedCollections.Runs

/-!
# Merge policies

A policy decides what happens to each run of items that a merge finds: a run found only on the
left, a run found only on the right, and a tie, one item on each side with equal keys.

Set rules keep or drop items as they are; on a tie the left item stays. Map policies read items
as pairs and decide which value a key gets when both sides have it.
-/
namespace SortedCollections

/-- What happens to each run. Each script answers whether the merge should go on. -/
structure Policy (ε α : Type) where
  onLeft : Nat → Script ε α Bool
  onRight : Nat → Script ε α Bool
  onTie : Script ε α Bool

/-- A policy together with the key by which items are compared. -/
structure Operation (ε α κ : Type) where
  key : α → Except ε κ
  policy : Policy ε α

/-- The four rules on sets. -/
inductive SetRule where
  | union
  | intersection
  | difference
  | symmetricDifference
  deriving Repr, DecidableEq

namespace SetRule

def keepsLeft : SetRule → Bool
  | .union | .difference | .symmetricDifference => true
  | .intersection => false

def keepsRight : SetRule → Bool
  | .union | .symmetricDifference => true
  | .intersection | .difference => false

/-- Is the left item of a tie kept? The right one never is. -/
def keepsTie : SetRule → Bool
  | .union | .intersection => true
  | .difference | .symmetricDifference => false

def name : SetRule → String
  | .union => "Union"
  | .intersection => "Intersection"
  | .difference => "Difference"
  | .symmetricDifference => "SymmetricDifference"

/-- A rule written out, with a mark if items are compared by a key of theirs. -/
def text (rule : SetRule) (keyed : Bool) : String :=
  if keyed then s!"{rule.name}(KEY)" else s!"{rule.name}()"

end SetRule

namespace Policy

variable {ε α κ ν : Type}

/-- Goes on with a second step only if the first one answers that the merge should go on. -/
def andThen (first second : Script ε α Bool) : Script ε α Bool := do
  if ← first then second else return false

/-- The policy of a rule on sets. -/
def ofRule (rule : SetRule) : Policy ε α where
  onLeft n := Script.left n rule.keepsLeft
  onRight n := Script.right n rule.keepsRight
  onTie := andThen (Script.left 1 rule.keepsTie) (Script.right 1 false)

/-- A policy that says nothing. -/
def absent : Policy ε α where
  onLeft _ := .fail (.missing .onLeft)
  onRight _ := .fail (.missing .onRight)
  onTie := .fail (.missing .onTie)

/-- Takes one item out of a list that a target has handed out. -/
def single (items : List α) : Script ε α α :=
  match items with
  | [item] => .done item
  | _ => .fail .readPastEnd

/-- Takes the pair on the left and the pair on the right of a tie. -/
def tiedPairs (view : PairView ε α κ ν) : Script ε α ((κ × ν) × (κ × ν)) := do
  let left ← Script.ask (view.read (← single (← Script.leftItems 1)))
  let right ← Script.ask (view.read (← single (← Script.rightItems 1)))
  return (left, right)

/-- What a tie gives when the values of both sides are combined: the left key stays. -/
def combineTie (view : PairView ε α κ ν) (combine : ν → ν → Except ε ν) : Script ε α Bool := do
  let ((key, left), (_, right)) ← tiedPairs view
  Script.emit (view.write key (← Script.ask (combine left right)))
  return true

/-- All keys; the values of a key on both sides are combined. -/
def combineUnion (view : PairView ε α κ ν) (combine : ν → ν → Except ε ν) : Policy ε α where
  onLeft n := Script.left n true
  onRight n := Script.right n true
  onTie := combineTie view combine

/-- The keys on both sides, with their values combined. -/
def combineIntersection (view : PairView ε α κ ν) (combine : ν → ν → Except ε ν) :
    Policy ε α where
  onLeft n := Script.left n false
  onRight n := Script.right n false
  onTie := combineTie view combine

/-- A function that joins two values under a key. A side that does not have the key has no value;
no result leaves the key out. -/
abbrev JoinFunction (ε κ ν : Type) : Type := κ → Option ν → Option ν → Except ε (Option ν)

/-- Adds a pair to the output, if there is a value. -/
def emitIfAny (view : PairView ε α κ ν) (key : κ) : Option ν → Script ε α Unit
  | some value => Script.emit (view.write key value)
  | none => .done ()

def joinTie (view : PairView ε α κ ν) (f : JoinFunction ε κ ν) : Script ε α Bool := do
  let ((key, left), (_, right)) ← tiedPairs view
  emitIfAny view key (← Script.ask (f key (some left) (some right)))
  return true

/-- Joins a run that only the left side has. -/
def joinLeft (view : PairView ε α κ ν) (f : JoinFunction ε κ ν) (n : Nat) : Script ε α Bool := do
  Script.each (← Script.leftItems n) fun item => do
    let (key, left) ← Script.ask (view.read item)
    emitIfAny view key (← Script.ask (f key (some left) none))
  return true

/-- Joins a run that only the right side has. -/
def joinRight (view : PairView ε α κ ν) (f : JoinFunction ε κ ν) (n : Nat) : Script ε α Bool := do
  Script.each (← Script.rightItems n) fun item => do
    let (key, right) ← Script.ask (view.read item)
    emitIfAny view key (← Script.ask (f key none (some right)))
  return true

end Policy

/-- The four joins, by the keys that they cover. -/
inductive Join where
  /-- The keys of either side. -/
  | outer
  /-- The keys of the left side. -/
  | left
  /-- The keys of the right side. -/
  | right
  /-- The keys of both sides. -/
  | inner
  deriving Repr, DecidableEq

def Join.coversLeft : Join → Bool
  | .outer | .left => true
  | .right | .inner => false

def Join.coversRight : Join → Bool
  | .outer | .right => true
  | .left | .inner => false

namespace Policy

variable {ε α κ ν : Type}

/-- The policy of a join. Runs that it does not cover are passed over. -/
def join (kind : Join) (view : PairView ε α κ ν) (f : JoinFunction ε κ ν) : Policy ε α where
  onLeft n := if kind.coversLeft then joinLeft view f n else Script.left n false
  onRight n := if kind.coversRight then joinRight view f n else Script.right n false
  onTie := joinTie view f

/-- What is needed to combine two maps that give every key a value. -/
structure Pointwise (ε ν : Type) where
  /-- Equality of values, by which the result's default is recognised. -/
  eq : ν → ν → Except ε Bool
  combine : ν → ν → Except ε ν
  /-- The value of the keys that the left, or the right, map does not store. -/
  leftDefault : ν
  rightDefault : ν
  /-- The value of the keys that the result does not store. -/
  resultDefault : ν

/-- The combination of two values, or nothing if it is the result's default. -/
def Pointwise.value (p : Pointwise ε ν) (left right : ν) : Except ε (Option ν) := do
  let value ← p.combine left right
  if ← p.eq value p.resultDefault then return none else return some value

/-- Combines two maps that give every key a value: a key that one side does not store has the
default there, and a result equal to the new default is not stored. This is the outer join by a
function that puts the defaults in for absent sides. -/
def pointwise (view : PairView ε α κ ν) (p : Pointwise ε ν) : Policy ε α :=
  join .outer view fun _ left right =>
    p.value (left.getD p.leftDefault) (right.getD p.rightDefault)

end Policy

end SortedCollections
