import SortedCollections.Comparison

/-!
# Scripts: what a merge policy does with a run

A script is a finite program over the five steps that every merge target understands: move past
items of the left or the right input, keeping or dropping them; take items of either input out
to look at them; and push a new item. Moving past items answers whether the merge should go on.
What follows a step is told its answer, or the fault that it ended in, and may go on after either.

A policy written as a script can be run against any target, and it can do nothing but these
steps. Whether two targets are equivalent for all policies is therefore a question about five
steps.
-/
namespace SortedCollections

/-- A program over the steps of a merge target, with items `α` and a result `β`. -/
inductive Script (ε α β : Type) : Type where
  | done (result : β)
  | fail (fault : Fault ε)
  | advanceLeft (n : Nat) (take : Bool) (next : Except (Fault ε) Bool → Script ε α β)
  | advanceRight (n : Nat) (take : Bool) (next : Except (Fault ε) Bool → Script ε α β)
  | takeLeft (n : Nat) (next : Except (Fault ε) (List α) → Script ε α β)
  | takeRight (n : Nat) (next : Except (Fault ε) (List α) → Script ε α β)
  | push (item : α) (next : Except (Fault ε) Unit → Script ε α β)

namespace Script

variable {ε α β γ : Type}

protected def bind : Script ε α β → (β → Script ε α γ) → Script ε α γ
  | .done result, f => f result
  | .fail fault, _ => .fail fault
  | .advanceLeft n take next, f => .advanceLeft n take fun answer => (next answer).bind f
  | .advanceRight n take next, f => .advanceRight n take fun answer => (next answer).bind f
  | .takeLeft n next, f => .takeLeft n fun answer => (next answer).bind f
  | .takeRight n next, f => .takeRight n fun answer => (next answer).bind f
  | .push item next, f => .push item fun answer => (next answer).bind f

instance : Monad (Script ε α) where
  pure := .done
  bind := Script.bind

protected theorem bind_done (s : Script ε α β) : s.bind .done = s := by
  induction s with
  | done result => rfl
  | fail fault => rfl
  | advanceLeft n take next ih => exact congrArg (advanceLeft n take) (funext ih)
  | advanceRight n take next ih => exact congrArg (advanceRight n take) (funext ih)
  | takeLeft n next ih => exact congrArg (takeLeft n) (funext ih)
  | takeRight n next ih => exact congrArg (takeRight n) (funext ih)
  | push item next ih => exact congrArg (push item) (funext ih)

protected theorem bind_assoc {δ : Type} (s : Script ε α β) (f : β → Script ε α γ)
    (g : γ → Script ε α δ) : (s.bind f).bind g = s.bind fun b => (f b).bind g := by
  induction s with
  | done result => rfl
  | fail fault => rfl
  | advanceLeft n take next ih => exact congrArg (advanceLeft n take) (funext ih)
  | advanceRight n take next ih => exact congrArg (advanceRight n take) (funext ih)
  | takeLeft n next ih => exact congrArg (takeLeft n) (funext ih)
  | takeRight n next ih => exact congrArg (takeRight n) (funext ih)
  | push item next ih => exact congrArg (push item) (funext ih)

instance : LawfulMonad (Script ε α) :=
  LawfulMonad.mk' _ Script.bind_done (fun _ _ => rfl) Script.bind_assoc

/-- Hands an answer on, and ends with a fault. -/
def ofAnswer : Except (Fault ε) β → Script ε α β
  | .ok result => .done result
  | .error fault => .fail fault

/-- Moves past `n` items of the left input, keeping or dropping them. -/
def left (n : Nat) (take : Bool) : Script ε α Bool := .advanceLeft n take ofAnswer

/-- Moves past `n` items of the right input, keeping or dropping them. -/
def right (n : Nat) (take : Bool) : Script ε α Bool := .advanceRight n take ofAnswer

/-- Takes `n` items of the left input out. -/
def leftItems (n : Nat) : Script ε α (List α) := .takeLeft n ofAnswer

/-- Takes `n` items of the right input out. -/
def rightItems (n : Nat) : Script ε α (List α) := .takeRight n ofAnswer

/-- Adds a new item to the output. -/
def emit (item : α) : Script ε α Unit := .push item ofAnswer

def ask (answer : Except ε β) : Script ε α β := ofAnswer (Fault.lift answer)

/-- Does something for each item in turn. -/
def each (items : List β) (body : β → Script ε α Unit) : Script ε α Unit :=
  match items with
  | [] => .done ()
  | item :: rest => (body item).bind fun _ => each rest body

end Script

end SortedCollections
