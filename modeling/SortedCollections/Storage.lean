import Mathlib.Logic.Function.Basic
import SortedCollections.CofiniteSet
import SortedCollections.DefaultMap

/-!
# Containers that share their lists

A sorted set or map is a holder: an object that refers to a list. A cofinite set or a map with a
default refers to a holder, which a set hands out as its elements. So a list may show in several
containers, and what is written into it through one of them shows in the others.

An operation in place writes into the list of its container. Only a set whose plan swaps the operands
is rebuilt in a list of its own, which its holder then refers to.
-/
namespace SortedCollections

/-- Lists and the containers that refer to them, by their addresses. -/
structure Storage (ι μ : Type) where
  lists : Nat → List ι
  /-- The list of a holder. -/
  data : Nat → Nat
  /-- The holder of the items that a cofinite set or a map with a default stores. -/
  elements : Nat → Nat
  /-- The form of a cofinite set, the default of a map. -/
  mark : Nat → μ
  /-- The address of the next new list. -/
  next : Nat
  allocated : ∀ h, data h < next

namespace Storage

variable {ε ι κ μ ν α β : Type}

/-- The items that a holder shows. -/
def items (st : Storage ι μ) (h : Nat) : List ι := st.lists (st.data h)

def set (st : Storage α μ) (h : Nat) : SortedSet α := ⟨st.items h⟩

def map (st : Storage (κ × ν) μ) (h : Nat) : SortedMap κ ν := ⟨st.items h⟩

def cofinite (st : Storage α Bool) (s : Nat) : CofiniteSet α := ⟨st.set (st.elements s), st.mark s⟩

def defaultMap (st : Storage (κ × ν) ν) (m : Nat) : DefaultMap κ ν :=
  ⟨st.map (st.elements m), st.mark m⟩

def write (st : Storage ι μ) (a : Nat) (items : List ι) : Storage ι μ :=
  { st with lists := Function.update st.lists a items }

@[simp] theorem lists_write (st : Storage ι μ) (a b : Nat) (items : List ι) :
    (st.write a items).lists b = if b = a then items else st.lists b := by
  by_cases same : b = a <;> simp [write, same]

@[simp] theorem items_write (st : Storage ι μ) (a h : Nat) (items : List ι) :
    (st.write a items).items h = if st.data h = a then items else st.items h := by
  simp [Storage.items, write, Function.update_apply]

@[simp] theorem write_lists (st : Storage ι μ) (a : Nat) : st.write a (st.lists a) = st := by
  simp [write]

@[simp] theorem write_write (st : Storage ι μ) (a : Nat) (items items' : List ι) :
    (st.write a items).write a items' = st.write a items' := by
  simp [write]

/-- Lets a holder refer to a new list. -/
def renew (st : Storage ι μ) (h : Nat) (items : List ι) : Storage ι μ :=
  { st with
    lists := Function.update st.lists st.next items
    data := Function.update st.data h st.next
    next := st.next + 1
    allocated := by
      intro other
      have before := st.allocated other
      by_cases same : other = h
      · rw [same, Function.update_self]
        omega
      · rw [Function.update_of_ne same]
        omega }

@[simp] theorem items_renew (st : Storage ι μ) (h g : Nat) (items : List ι) :
    (st.renew h items).items g = if g = h then items else st.items g := by
  by_cases same : g = h
  · simp [Storage.items, renew, same]
  · have before := st.allocated g
    have old : st.data g ≠ st.next := by omega
    simp [Storage.items, renew, same, old]

theorem lists_renew (st : Storage ι μ) (h : Nat) (items : List ι) {a : Nat} (old : a < st.next) :
    (st.renew h items).lists a = st.lists a := by
  have other : a ≠ st.next := by omega
  simp [renew, other]

def setMark (st : Storage ι μ) (w : Nat) (mark : μ) : Storage ι μ :=
  { st with mark := Function.update st.mark w mark }

/-- A step that may change what is stored. -/
abbrev Step (ε ι μ : Type) : Type → Type := EStateM (Fault ε) (Storage ι μ)

/-- The right input of a merge: a stored list, or one that nothing refers to. -/
inductive Right (ι : Type) where
  | stored (a : Nat)
  | apart (items : List ι)

def Right.items (st : Storage ι μ) : Right ι → List ι
  | .stored a => st.lists a
  | .apart items => items

/-- What a merge back into the list at `a` works on: the slots of its buffer are that list, and the
right input is read where it is stored. A list that is merged into itself is read from the copy that is
saved of it. -/
def loaded (a : Nat) (right : Right ι) (st : Storage ι μ) (m : InPlaceMerge ι) : InPlaceMerge ι :=
  { m with
    buffer := { m.buffer with slots := st.lists a }
    right :=
      match right with
      | .stored b => if b = a then m.saved else st.lists b
      | .apart items => items }

/-- Makes a step of a merge back into the list at `a`. -/
def mergeStep (a : Nat) (right : Right ι) (step : EStateM (Fault ε) (InPlaceMerge ι) β) :
    EStateM (Fault ε) (Storage ι μ × InPlaceMerge ι) β := fun s =>
  match step (loaded a right s.1 s.2) with
  | .ok result m => .ok result (s.1.write a m.buffer.slots, m)
  | .error e m => .error e (s.1.write a m.buffer.slots, m)

def sink [Inhabited ι] (a : Nat) (right : Right ι) : Sink ε ι (Storage ι μ × InPlaceMerge ι) where
  inputs s := .ok (loaded a right s.1 s.2).inputs
  advanceLeft n take := mergeStep a right (InPlaceMerge.advanceLeft n take)
  advanceRight n take := mergeStep a right (InPlaceMerge.advanceRight n take)
  takeLeft n := mergeStep a right (InPlaceMerge.takeLeft n)
  takeRight n := mergeStep a right (InPlaceMerge.takeRight n)
  push item := mergeStep a right (InPlaceMerge.push item)

/-- Merges into the list at `a`. If the merge fails, the list is put back as it was. -/
def mergeInto [Inhabited ι] (cmp : Comparison ε κ) (op : Operation ε ι κ) (a : Nat) (right : Right ι) :
    Step ε ι μ Unit := fun st =>
  match op.run cmp (sink a right) (st, .start (st.lists a) (right.items st)) with
  | .ok _ s => .ok () (s.1.write a (loaded a right s.1 s.2).finish.buffer.slots)
  | .error e s => .error e (s.1.write a (loaded a right s.1 s.2).abort.buffer.slots)

/-- What a holder is combined with. -/
inductive Other (ε ι : Type) where
  | holder (h : Nat)
  /-- A stored list, with its items in any order. -/
  | list (a : Nat)
  /-- Items that are stored nowhere, in any order. -/
  | unsorted (items : List ι)
  | refused (cause : ε)

/-- The list that is merged. That of a holder is taken as it is, any other is sorted into a new one. -/
def Other.right (cmp : Comparison ε κ) (key : ι → Except ε κ) (st : Storage ι μ) :
    Other ε ι → Except (Fault ε) (Right ι)
  | .holder h => .ok (.stored (st.data h))
  | .list a => do return .apart (← sortDedup cmp key .standard (st.lists a))
  | .unsorted items => do return .apart (← sortDedup cmp key .standard items)
  | .refused cause => .error (.raised cause)

/-- Merges into the list of a holder. -/
def update [Inhabited ι] (cmp : Comparison ε κ) (op : Operation ε ι κ) (h : Nat) (x : Other ε ι) :
    Step ε ι μ Unit := fun st =>
  match x.right cmp op.key st with
  | .error e => .error e st
  | .ok right => mergeInto cmp op (st.data h) right st

/-- Is a set taken away from itself? -/
def rids (rule : SetRule) (h : Nat) : Other ε α → Bool
  | .holder g => decide (g = h ∧ (rule = .difference ∨ rule = .symmetricDifference))
  | _ => false

/-- Combines a set with an operand by an assigning operator. One that is taken away from itself is
emptied. -/
def assign [Inhabited α] (cmp : Comparison ε α) (rule : SetRule) (h : Nat) (x : Other ε α) :
    Step ε α μ Unit := fun st =>
  if rids rule h x then .ok () (st.write (st.data h) []) else update cmp rule.operation h x st

/-- What a cofinite set is combined with. -/
inductive OtherSet (ε α : Type) where
  | cofinite (s : Nat)
  | sorted (x : Other ε α)

/-- Does the other set hold everything but its stored items? -/
def OtherSet.negated (st : Storage α Bool) : OtherSet ε α → Bool
  | .cofinite s => st.mark s
  | .sorted _ => false

/-- The list of the other set's items. -/
def OtherSet.right (cmp : Comparison ε α) (st : Storage α Bool) :
    OtherSet ε α → Except (Fault ε) (Right α)
  | .cofinite s => .ok (.stored (st.data (st.elements s)))
  | .sorted x => x.right cmp .ok st

/-- Combines a cofinite set with another set in place. -/
def updateCofinite [Inhabited α] (cmp : Comparison ε α) (rule : SetRule) (s : Nat)
    (x : OtherSet ε α) : Step ε α Bool Unit := fun st =>
  match x.right cmp st with
  | .error e => .error e st
  | .ok right =>
    let p := CofiniteSet.plan rule (st.mark s) (x.negated st)
    let h := st.elements s
    if p.swapped then
      match mergeInPlace cmp p.rule.operation (st.items h) (right.items st) with
      | .ok () items => .ok () ((st.renew h items).setMark s p.negated)
      | .error e _ => .error e st
    else
      match mergeInto cmp p.rule.operation (st.data h) right st with
      | .ok () st => .ok () (st.setMark s p.negated)
      | .error e st => .error e st

/-- Combines a map with another one key by key in place. -/
def combineInPlace [Inhabited κ] [Inhabited ν] (cmp : Comparison ε κ) (eq : ν → ν → Except ε Bool)
    (f : ν → ν → Except ε ν) (m x : Nat) : Step ε (κ × ν) ν Unit := fun st =>
  match f (st.mark m) (st.mark x) with
  | .error e => .error (.raised e) st
  | .ok default =>
    let op := DefaultMap.pointwise eq f (st.defaultMap m) (st.defaultMap x) default
    match mergeInto cmp op (st.data (st.elements m)) (.stored (st.data (st.elements x))) st with
    | .ok () st => .ok () (st.setMark m default)
    | .error e st => .error e st

end Storage

end SortedCollections
