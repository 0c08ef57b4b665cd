import SortedCollections.Number.Bits
import SortedCollections.Value.Filling

/-!
# Operators on values

An operator is offered to its left operand first. If that one does not take the right operand, the
right one is asked to combine itself with what stands on its left. Lists, tuples and texts are put
together, or repeated, only after both have declined.

Numbers calculate; sets of all kinds combine with one another, maps with maps. A map with a
default takes part in arithmetic with everything but a finite map: what is no such map stands for
the same value under every key.

Arithmetic on maps with a default is arithmetic on their values, which may be such maps again. The
operators are therefore built level by level, like the comparisons.
-/
namespace SortedCollections

/-- The rule on sets that an operator stands for. -/
def Operator.rule? : Operator → Option SetRule
  | .or => some .union
  | .and => some .intersection
  | .sub => some .difference
  | .xor => some .symmetricDifference
  | _ => none

/-- The rule on maps that an operator stands for; values on the right win. -/
def Operator.mapRule? : Operator → Option (MapRule Failure Value Value)
  | .or => some (.union MapRule.preferRight)
  | .and => some (.intersection MapRule.preferRight)
  | .sub => some .difference
  | .xor => some .symmetricDifference
  | _ => none

/-- Is the operator arithmetic that maps with a default take part in? -/
def Operator.isPointwise : Operator → Bool
  | .add | .sub | .mul | .div => true
  | _ => false

def Operator.onNumbers? : Operator → Option (Number → Number → Except NumberFault Number)
  | .add => some Number.add
  | .sub => some Number.sub
  | .mul => some Number.mul
  | .div => some Number.div
  | .mod => some Number.mod
  | _ => none

namespace Value

/-- How an operator works on two values. -/
abbrev Operation : Type := Operator → Value → Value → Except Failure Value

/-- A finite set as the other side of a set operation. -/
def setOperand? : Value → Option (Operand Failure Value)
  | .sortedSet items => some (.sorted items)
  | .hashSet items => some (.unsorted items)
  | _ => Option.none

/-- A finite map as the other side of a map operation. -/
def mapOperand? : Value → Option (Operand Failure (Value × Value))
  | .sortedMap entries => some (.sorted entries)
  | .dict entries => some (.unsorted entries)
  | _ => Option.none

/-- A set as the other side of an operation on finite or cofinite sets. -/
def cofiniteOperand? : Value → Option (CofiniteSet.Operand Failure Value)
  | .cofiniteSet items negated => some (.set ⟨⟨items⟩, negated⟩)
  | .sortedSet items => some (.set ⟨⟨items⟩, false⟩)
  | .hashSet items => some (.unsorted items)
  | _ => Option.none

/-- The value as a map with a default. A finite map is none; everything else stands for itself
under every key. -/
def defaultMap? : Value → Option (DefaultMap Value Value)
  | .defaultMap entries fallback => some ⟨⟨entries⟩, fallback⟩
  | .sortedMap _ | .dict _ => Option.none
  | v => some (.constant v)

/-- Combines two unordered sets. Of the items on both sides, those of the smaller set are kept, and
those of the right one if the sets are equally large. -/
def combineHashSets (rule : SetRule) (s t : List Value) : Except Failure (List Value) := do
  let without (a b : List Value) := a.filterM fun x => do return !(← parts.isAmong x b)
  let shared (a b : List Value) := a.filterM fun x => parts.isAmong x b
  match rule with
  | .union => return s ++ (← without t s)
  | .intersection => if s.length < t.length then shared s t else shared t s
  | .difference => without s t
  | .symmetricDifference => return (← without s t) ++ (← without t s)

/-- The operation on the binary digits of whole numbers. -/
def bitwise? : Operator → Option (Int → Int → Int)
  | .or => some Bits.or
  | .and => some Bits.and
  | .xor => some Bits.xor
  | _ => Option.none

/-- What an operator gives on two numbers. Truth values stay truth values if an operator works on
their digits. -/
def numericResult (op : Operator) (a b : Value) : Option (Except Failure Value) :=
  match bitwise? op, op.onNumbers? with
  | some f, _ => do
    let n := f (← a.int?) (← b.int?)
    match a, b with
    | .bool _, .bool _ => return .ok (.bool (n != 0))
    | _, _ => return .ok (.int n)
  | _, some f => do return ((f (← a.number?) (← b.number?)).map ofNumber).mapError Failure.ofNumber
  | Option.none, Option.none => Option.none

/-- What an operator gives if its left operand takes the right one. -/
def ownResult (inner : Operation) (op : Operator) (a b : Value) : Option (Except Failure Value) :=
  match a with
  | .hashSet s => do
    match b with
    | .hashSet t => do
      let rule ← op.rule?
      return do return .hashSet (inSlotOrder (← combineHashSets rule s t))
    | _ => Option.none
  | .dict d =>
    match op, b with
    | .or, .dict e => some do return .dict (← parts.dictOf (d ++ e))
    | _, _ => Option.none
  | .text s => if op = .mod then some (filledIn s b) else Option.none
  | .sortedSet s => do
    let rule ← op.rule?
    let operand ← b.setOperand?
    return do return ofSet (← Failure.lift (SortedSet.merged order rule ⟨s⟩ [operand]))
  | .sortedMap m => do
    let rule ← op.mapRule?
    let operand ← b.mapOperand?
    return do return ofMap (← Failure.lift (SortedMap.merged order rule ⟨m⟩ operand))
  | .cofiniteSet items negated => do
    let rule ← op.rule?
    let operand ← b.cofiniteOperand?
    return do
      return ofCofinite (← Failure.lift (CofiniteSet.merged order rule ⟨⟨items⟩, negated⟩ operand))
  | .defaultMap entries fallback => do
    let other ← if op.isPointwise then b.defaultMap? else Option.none
    return do
      return ofDefaultMap (← Failure.lift
        (DefaultMap.combine order same (inner op) ⟨⟨entries⟩, fallback⟩ other))
  | _ => numericResult op a b

/-- What an operator gives if its right operand takes the left one. -/
def reflectedResult (inner : Operation) (op : Operator) (a b : Value) :
    Option (Except Failure Value) :=
  match b with
  | .sortedSet t => do
    let rule ← op.rule?
    let operand ← a.setOperand?
    return do return ofSet (← Failure.lift (SortedSet.mergedInto order rule ⟨t⟩ operand))
  | .cofiniteSet items negated => do
    let rule ← op.rule?
    let _ ← a.setOperand?
    let operand ← a.cofiniteOperand?
    return do
      let left ← Failure.lift (operand.resolve order .empty)
      return ofCofinite (← Failure.lift (left.combine order rule ⟨⟨items⟩, negated⟩))
  | .defaultMap entries fallback => do
    let other ← if op.isPointwise then a.defaultMap? else Option.none
    return do
      return ofDefaultMap (← Failure.lift
        (DefaultMap.combine order same (inner op) other ⟨⟨entries⟩, fallback⟩))
  | _ => Option.none

/-- The most items that there is room for. -/
def mostItems : Nat := Nat.pow 2 32

/-- A list repeated a number of times; not at all if the number is negative. -/
def repeated {α : Type} (items : List α) (n : Int) : Except Failure (List α) :=
  if !Slice.isIndex n then .error .overflow
  else if items.length * n.toNat > mostItems then .error .tooLarge
  else .ok (List.replicate n.toNat items).flatten

def repeated? (a : Value) (n : Int) : Option (Except Failure Value) :=
  match a with
  | .text s => some <|
    if s.length * n.toNat ≥ Nat.pow 2 63 then .error .overflow
    else do return .text (String.ofList (← repeated s.toList n))
  | .list items => some do return .list (← repeated items n)
  | .tuple items => some do return .tuple (← repeated items n)
  | _ => Option.none

def isSequence : Value → Bool
  | .text _ | .list _ | .tuple _ => true
  | _ => false

/-- What an operator gives on lists, tuples and texts. -/
def sequenceResult (op : Operator) (a b : Value) : Option (Except Failure Value) :=
  match op, a, b with
  | .add, .text s, .text t => some (.ok (.text (s ++ t)))
  | .add, .list xs, .list ys => some (.ok (.list (xs ++ ys)))
  | .add, .tuple xs, .tuple ys => some (.ok (.tuple (xs ++ ys)))
  | .add, _, _ =>
    if a.isSequence then some (.error (.cannotConcatenate a.kind b.kind)) else Option.none
  | .mul, _, _ =>
    match b.int?.bind a.repeated?, a.int?.bind b.repeated? with
    | some result, _ | _, some result => some result
    | _, _ => if a.isSequence || b.isSequence then some (.error .cannotRepeat) else Option.none
  | _, _, _ => Option.none

/-- What an operator gives, if either operand takes the other. -/
def offered? (inner : Operation) (op : Operator) (a b : Value) : Option (Except Failure Value) :=
  ownResult inner op a b <|> reflectedResult inner op a b

/-- What an operator gives on two values. -/
def result (inner : Operation) (op : Operator) (a b : Value) : Except Failure Value :=
  (offered? inner op a b <|> sequenceResult op a b).getD
    (.error (.unsupportedOperands op a.kind b.kind))

/-- How operators work on values that are together nested less deep than a number of levels. -/
def operationBelow : Nat → Operation
  | 0, _, _, _ => .error .tooDeep
  | levels + 1, op, a, b => result (operationBelow levels) op a b

/-- How operators work on the values inside two values. -/
def operationInside (a b : Value) : Operation := operationBelow (a.depth + b.depth)

def operate (op : Operator) (a b : Value) : Except Failure Value :=
  result (operationInside a b) op a b

/-- Changes the sign of a value that is nested less deep than a number of levels. -/
def negateBelow : Nat → Value → Except Failure Value
  | 0, _ => .error .tooDeep
  | levels + 1, v =>
    match v, v.number? with
    | .defaultMap entries fallback, _ => do
      return ofDefaultMap (← Failure.lift
        (DefaultMap.mapValues same (negateBelow levels) ⟨⟨entries⟩, fallback⟩))
    | _, some n => .ok (ofNumber n.neg)
    | _, Option.none => .error (.unsupportedSign "-" v.kind)

/-- Changes the sign of a number, or of every value of a map with a default. -/
def negate (v : Value) : Except Failure Value := negateBelow (v.depth + 1) v

/-- The complement of a finite or cofinite set, or of the bits of a whole number. -/
def invert (v : Value) : Except Failure Value :=
  match v, v.int? with
  | .cofiniteSet items negated, _ => .ok (.cofiniteSet items !negated)
  | _, some n => .ok (.int (-n - 1))
  | _, Option.none => .error (.unsupportedSign "~" v.kind)

/-- A number without its sign. -/
def absolute (v : Value) : Except Failure Value :=
  match v.number? with
  | some n => .ok (ofNumber n.abs)
  | Option.none => .error (.unsupportedAbsolute v.kind)

/-- The larger of two values; the left one if neither is larger. -/
def larger (a b : Value) : Except Failure Value := do
  if ← relate .gt b a then return b else return a

/-- The smaller of two values; the left one if neither is smaller. -/
def smaller (a b : Value) : Except Failure Value := do
  if ← relate .lt b a then return b else return a

end Value

end SortedCollections
