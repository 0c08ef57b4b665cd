import SortedCollections.SortedSet

/-!
# Sets that are finite or have a finite complement

Such a set stores finitely many items and says whether it holds exactly these or everything but
these. Whatever the two forms of two operands are, a set operation on them comes down to one merge
of the stored items. The universe has no end: the complement of a finite set is never empty and
never lies in a finite set.
-/
namespace SortedCollections

structure CofiniteSet (α : Type) where
  /-- The stored items. -/
  elements : SortedSet α
  /-- The set holds everything but the stored items. -/
  negated : Bool
  deriving Repr

namespace CofiniteSet

variable {ε α : Type}

/-- How an operation on two sets is carried out on their stored items. -/
structure Plan where
  rule : SetRule
  /-- The right operand's items are merged on the left. -/
  swapped : Bool
  /-- The result holds everything but the merged items. -/
  negated : Bool
  deriving Repr, DecidableEq

/-- The plan for an operation, by the forms of its left and right operand. -/
def plan : SetRule → (left right : Bool) → Plan
  | .union, false, false => ⟨.union, false, false⟩
  | .union, false, true => ⟨.difference, true, true⟩
  | .union, true, false => ⟨.difference, false, true⟩
  | .union, true, true => ⟨.intersection, false, true⟩
  | .intersection, false, false => ⟨.intersection, false, false⟩
  | .intersection, false, true => ⟨.difference, false, false⟩
  | .intersection, true, false => ⟨.difference, true, false⟩
  | .intersection, true, true => ⟨.union, false, true⟩
  | .difference, false, false => ⟨.difference, false, false⟩
  | .difference, false, true => ⟨.intersection, false, false⟩
  | .difference, true, false => ⟨.union, false, true⟩
  | .difference, true, true => ⟨.difference, true, false⟩
  | .symmetricDifference, false, false => ⟨.symmetricDifference, false, false⟩
  | .symmetricDifference, false, true => ⟨.symmetricDifference, false, true⟩
  | .symmetricDifference, true, false => ⟨.symmetricDifference, false, true⟩
  | .symmetricDifference, true, true => ⟨.symmetricDifference, false, false⟩

def empty : CofiniteSet α := ⟨.empty, false⟩

def all : CofiniteSet α := ⟨.empty, true⟩

/-- Everything or nothing. -/
def constant (value : Bool) : CofiniteSet α := ⟨.empty, value⟩

def ofList (cmp : Comparison ε α) (items : List α) (negated : Bool) :
    Except (Fault ε) (CofiniteSet α) := do
  return ⟨← SortedSet.ofList cmp items, negated⟩

/-- The set that was saved as its stored items and its form. -/
def restore (cmp : Comparison ε α) (items : List α) (negated : Bool) :
    Except (Fault ε) (CofiniteSet α) := do
  return ⟨← SortedSet.restore cmp items, negated⟩

def complement (s : CofiniteSet α) : CofiniteSet α := { s with negated := !s.negated }

def contains (cmp : Comparison ε α) (s : CofiniteSet α) (item : α) : Bool :=
  s.negated != s.elements.contains cmp item

def insert (cmp : Comparison ε α) (s : CofiniteSet α) (item : α) :
    Except (Fault ε) (CofiniteSet α) := do
  let elements ← if s.negated then s.elements.discard cmp item else s.elements.insert cmp item
  return { s with elements }

def discard (cmp : Comparison ε α) (s : CofiniteSet α) (item : α) :
    Except (Fault ε) (CofiniteSet α) := do
  let elements ← if s.negated then s.elements.insert cmp item else s.elements.discard cmp item
  return { s with elements }

def isAll (s : CofiniteSet α) : Bool := s.negated && s.elements.items.isEmpty

def isEmpty (s : CofiniteSet α) : Bool := !s.negated && s.elements.items.isEmpty

/-- The other side of an operation. -/
inductive Operand (ε α : Type) where
  /-- The set operated on. -/
  | self
  | set (other : CofiniteSet α)
  /-- Items in any order. -/
  | unsorted (items : List α)
  /-- Something that holds no items. -/
  | refused (cause : ε)
  deriving Repr

def Operand.resolve (cmp : Comparison ε α) (self : CofiniteSet α) :
    Operand ε α → Except (Fault ε) (CofiniteSet α)
  | .self => .ok self
  | .set other => .ok other
  | .unsorted items => ofList cmp items false
  | .refused cause => .error (.raised cause)

def combine (cmp : Comparison ε α) (rule : SetRule) (s t : CofiniteSet α) :
    Except (Fault ε) (CofiniteSet α) := do
  let p := plan rule s.negated t.negated
  let (a, b) := if p.swapped then (t.elements, s.elements) else (s.elements, t.elements)
  return ⟨⟨← merge cmp p.rule.operation a.items b.items⟩, p.negated⟩

def merged (cmp : Comparison ε α) (rule : SetRule) (s : CofiniteSet α) (operand : Operand ε α) :
    Except (Fault ε) (CofiniteSet α) := do
  s.combine cmp rule (← operand.resolve cmp s)

/-- A step on a set. After a fault the set is what the step has left. -/
abbrev Step (ε α : Type) : Type → Type := EStateM (Fault ε) (CofiniteSet α)

/-- Combines the set with an operand in place. If the plan swaps the operands, the result is
rebuilt from a copy of the other operand's items. -/
def update (cmp : Comparison ε α) [Inhabited α] (rule : SetRule) (operand : Operand ε α) :
    Step ε α Unit := fun s =>
  match operand.resolve cmp s with
  | .error e => .error e s
  | .ok t =>
    let p := plan rule s.negated t.negated
    if p.swapped then
      match mergeInPlace cmp p.rule.operation s.elements.items t.elements.items with
      | .ok () items => .ok () ⟨⟨items⟩, p.negated⟩
      | .error e _ => .error e s
    else
      match mergeInPlace cmp p.rule.operation t.elements.items s.elements.items with
      | .ok () items => .ok () ⟨⟨items⟩, p.negated⟩
      | .error e items => .error e { s with elements := ⟨items⟩ }

/-- Does one set lie in the other? -/
def isSubset (cmp : Comparison ε α) (s t : CofiniteSet α) : Except (Fault ε) Bool :=
  let a := s.elements.items
  let b := t.elements.items
  match s.negated, t.negated with
  | false, false => SortedCollections.isSubset cmp a b
  | false, true => SortedCollections.isDisjoint cmp a b
  | true, false => .ok false
  | true, true => SortedCollections.isSuperset cmp a b

def isDisjoint (cmp : Comparison ε α) (s t : CofiniteSet α) : Except (Fault ε) Bool :=
  let a := s.elements.items
  let b := t.elements.items
  match s.negated, t.negated with
  | false, false => SortedCollections.isDisjoint cmp a b
  | false, true => SortedCollections.isSubset cmp a b
  | true, false => SortedCollections.isSuperset cmp a b
  | true, true => .ok false

/-- Do two sets have the same form and the same stored items? -/
def isEqual (cmp : Comparison ε α) (s t : CofiniteSet α) : Except (Fault ε) Bool :=
  if s.negated = t.negated then
    SortedCollections.isEqual cmp s.elements.items t.elements.items
  else
    .ok false

/-- Does one set lie in the other without being equal to it? Equality is asked first. -/
def isProperSubset (cmp : Comparison ε α) (s t : CofiniteSet α) : Except (Fault ε) Bool := do
  if ← s.isEqual cmp t then return false else s.isSubset cmp t

/-- Does one set hold all of the other without being equal to it? Equality is asked first. -/
def isProperSuperset (cmp : Comparison ε α) (s t : CofiniteSet α) : Except (Fault ε) Bool := do
  if ← s.isEqual cmp t then return false else t.isSubset cmp s

def isSubsetOf (cmp : Comparison ε α) (s : CofiniteSet α) (operand : Operand ε α) :
    Except (Fault ε) Bool := do
  s.isSubset cmp (← operand.resolve cmp s)

def isSupersetOf (cmp : Comparison ε α) (s : CofiniteSet α) (operand : Operand ε α) :
    Except (Fault ε) Bool := do
  (← operand.resolve cmp s).isSubset cmp s

def isDisjointFrom (cmp : Comparison ε α) (s : CofiniteSet α) (operand : Operand ε α) :
    Except (Fault ε) Bool := do
  s.isDisjoint cmp (← operand.resolve cmp s)

end CofiniteSet

end SortedCollections
