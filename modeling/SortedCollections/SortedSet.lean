import SortedCollections.Merge.Relation
import SortedCollections.Operand

/-!
# Sets as sorted lists

A set is one list in strictly increasing order. Members are found by halving; set operations
merge two lists. Of equal items the one added last is kept, and a merge keeps the item of the
left operand.

Operations that build a new set and operations that change a set in place are kept apart: the
former merge into a new list, the latter rebuild the list through a gap buffer and put it back
as it was if anything fails.
-/
namespace SortedCollections

/-- A set as the list of its items. The operations keep the list strictly increasing; one that
is built from a trusted list is as good as that list. -/
structure SortedSet (α : Type) where
  items : List α
  deriving Repr

namespace SortedSet

variable {ε α : Type}

def empty : SortedSet α := ⟨[]⟩

def singleton (item : α) : SortedSet α := ⟨[item]⟩

/-- The set of a list's items; of equal items the last one. -/
def ofList (cmp : Comparison ε α) (items : List α) : Except (Fault ε) (SortedSet α) := do
  return ⟨← sortDedup cmp .ok .standard items⟩

/-- The set of a list that must be strictly increasing already. -/
def ofSorted? (cmp : Comparison ε α) (items : List α) : Except (Fault ε) (Option (SortedSet α)) :=
  do
    if ← Fault.lift (isStrictlySorted cmp .ok items) then return some ⟨items⟩ else return none

/-- The set of a list that is taken on trust to be strictly increasing. -/
def ofTrusted (items : List α) : SortedSet α := ⟨items⟩

/-- The set that was saved as a list. A list that is not strictly increasing is sorted. -/
def restore (cmp : Comparison ε α) (items : List α) : Except (Fault ε) (SortedSet α) := do
  if ← Fault.lift (isStrictlySorted cmp .ok items) then return ⟨items⟩ else ofList cmp items

/-- Where an item is, or belongs, and whether it is there. -/
def find (cmp : Comparison ε α) (s : SortedSet α) (item : α) : Except (Fault ε) (Nat × Bool) :=
  SortedCollections.find cmp .ok s.items item

/-- Is the item in the set? Something that cannot be compared with the items is not. -/
def contains (cmp : Comparison ε α) (s : SortedSet α) (item : α) : Bool :=
  match s.find cmp item with
  | .ok (_, found) => found
  | .error _ => false

/-- Adds an item, in place of an equal one if there is one. -/
def insert (cmp : Comparison ε α) (s : SortedSet α) (item : α) :
    Except (Fault ε) (SortedSet α) := do
  let (i, found) ← s.find cmp item
  return ⟨if found then s.items.set i item else s.items.take i ++ item :: s.items.drop i⟩

def discard (cmp : Comparison ε α) (s : SortedSet α) (item : α) :
    Except (Fault ε) (SortedSet α) := do
  let (i, found) ← s.find cmp item
  return if found then ⟨s.items.eraseIdx i⟩ else s

/-- Removes an item; there is no answer if it is not there. -/
def erase? (cmp : Comparison ε α) (s : SortedSet α) (item : α) :
    Except (Fault ε) (Option (SortedSet α)) := do
  let (i, found) ← s.find cmp item
  return if found then some ⟨s.items.eraseIdx i⟩ else none

/-- The largest item and the set without it. -/
def popMax? (s : SortedSet α) : Option (α × SortedSet α) :=
  s.items.getLast?.map fun item => (item, ⟨s.items.dropLast⟩)

/-- Merges the operands one after the other into a new set. -/
def merged (cmp : Comparison ε α) (rule : SetRule) (s : SortedSet α)
    (operands : List (Operand ε α)) : Except (Fault ε) (SortedSet α) := do
  let items ← operands.foldlM (fun items operand => do
    merge cmp rule.operation items (← operand.resolve cmp .ok s.items)) s.items
  return ⟨items⟩

/-- Merges the set into a collection, which is then the left operand. -/
def mergedInto (cmp : Comparison ε α) (rule : SetRule) (s : SortedSet α) (left : Operand ε α) :
    Except (Fault ε) (SortedSet α) := do
  return ⟨← merge cmp rule.operation (← left.resolve cmp .ok s.items) s.items⟩

/-- A step on a set. After a fault the set is what the step has left. -/
abbrev Step (ε α : Type) : Type → Type := EStateM (Fault ε) (SortedSet α)

/-- Merges one operand into the set in place. -/
def updateOne (cmp : Comparison ε α) [Inhabited α] (rule : SetRule) (operand : Operand ε α) :
    Step ε α Unit := fun s =>
  match operand.resolve cmp .ok s.items with
  | .error e => .error e s
  | .ok right =>
    match mergeInPlace cmp rule.operation right s.items with
    | .ok () items => .ok () ⟨items⟩
    | .error e items => .error e ⟨items⟩

/-- Merges the operands one after the other into the set in place. What earlier operands have
done stays when a later one fails. -/
def update (cmp : Comparison ε α) [Inhabited α] (rule : SetRule) (operands : List (Operand ε α)) :
    Step ε α Unit :=
  operands.forM (updateOne cmp rule)

/-- Combines the set with an operand in place. Taking a set away from itself leaves nothing,
without comparing anything. -/
def assign (cmp : Comparison ε α) [Inhabited α] (rule : SetRule) (operand : Operand ε α) :
    Step ε α Unit :=
  match rule, operand with
  | .difference, .self | .symmetricDifference, .self => set (empty : SortedSet α)
  | _, _ => updateOne cmp rule operand

def isDisjointFrom (cmp : Comparison ε α) (s : SortedSet α) (operand : Operand ε α) :
    Except (Fault ε) Bool := do
  isDisjoint cmp s.items (← operand.resolve cmp .ok s.items)

def isSubsetOf (cmp : Comparison ε α) (s : SortedSet α) (operand : Operand ε α) :
    Except (Fault ε) Bool := do
  isSubset cmp s.items (← operand.resolve cmp .ok s.items)

def isSupersetOf (cmp : Comparison ε α) (s : SortedSet α) (operand : Operand ε α) :
    Except (Fault ε) Bool := do
  isSuperset cmp s.items (← operand.resolve cmp .ok s.items)

end SortedSet

end SortedCollections
