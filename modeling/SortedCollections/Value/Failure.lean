import SortedCollections.Value.Text

/-!
# What can go wrong with values

The causes for which an operation on values fails, and the text of each cause. Some causes have
no text.
-/
namespace SortedCollections

inductive Relation where
  | lt
  | le
  | gt
  | ge
  deriving Repr, DecidableEq

def Relation.sign : Relation → String
  | .lt => "<"
  | .le => "<="
  | .gt => ">"
  | .ge => ">="

/-- The relation that holds the other way round. -/
def Relation.converse : Relation → Relation
  | .lt => .gt
  | .le => .ge
  | .gt => .lt
  | .ge => .le

/-- Does a relation hold between two things in a given order? -/
def Relation.holds : Relation → Ordering → Bool
  | .lt, o => o == .lt
  | .le, o => o != .gt
  | .gt, o => o == .gt
  | .ge, o => o != .lt

/-- The operators that combine two values. -/
inductive Operator where
  | add
  | sub
  | mul
  | div
  | mod
  | or
  | and
  | xor
  deriving Repr, DecidableEq

def Operator.sign : Operator → String
  | .add => "+"
  | .sub => "-"
  | .mul => "*"
  | .div => "/"
  | .mod => "%"
  | .or => "|"
  | .and => "&"
  | .xor => "^"

/-- Why an operation on values failed. -/
inductive Failure where
  /-- Two values have no order. -/
  | unordered (relation : Relation) (left right : Kind)
  /-- Two values have no order, and stand inside containers that were compared. -/
  | unorderedInside (relation : Relation) (left right : Kind)
  /-- Values that were to be sorted have no order. -/
  | unsortable
  /-- Values are nested deeper than the comparison was told. -/
  | tooDeep
  | notACollection (got : Value)
  | notASet (got : Value)
  | notAMap (got : Value)
  /-- Items, or keys, that had to be strictly increasing are not. -/
  | itemsNotIncreasing
  | keysNotIncreasing
  | unsupportedOperands (operator : Operator) (left right : Kind)
  /-- An operator that assigns its result was given operands that it does not take. -/
  | unsupportedAssignment (operator : Operator) (left right : Kind)
  | cannotConcatenate (left right : Kind)
  | cannotRepeat
  /-- A sign in front of a value that has no such operation. -/
  | unsupportedSign (sign : String) (operand : Kind)
  | unsupportedAbsolute (operand : Kind)
  | divisionByZero
  | doubleDivisionByZero
  | remainderByZero
  | overflow
  /-- There is no room for so many items. -/
  | tooLarge
  /-- The places in a text do not take the values given. -/
  | unfilled
  /-- A place in a text is not well formed, or there is no such form for its value. -/
  | badTemplate
  /-- An entry of a dictionary has not exactly two parts. -/
  | notAnEntry
  | notIterable (got : Kind)
  | cannotUnpack (got : Kind)
  | tooManyToUnpack
  | notEnoughToUnpack (got : Nat)
  | unhashable (got : Kind)
  | noLength (got : Kind)
  | notReversible (got : Kind)
  | notSubscriptable (got : Kind)
  /-- Something was looked for in a value that is no collection. -/
  | notACollectionToSearch (got : Kind)
  /-- The hash of a value differs from run to run. -/
  | noStableHash (got : Kind)
  | notAnIndex (got : Kind)
  /-- A whole number lies beyond all positions that can be asked for. -/
  | noIndex
  /-- A position beyond a list, a tuple or a text. -/
  | listIndexOutOfRange
  | tupleIndexOutOfRange
  | textIndexOutOfRange
  | storeOutOfRange
  | zeroSliceStep
  | negativeStart
  | cursorOutOfBounds
  /-- A write left the regions of a gap buffer overlapping. -/
  | overrun
  /-- The regions of a gap buffer were found out of order. -/
  | incoherent (target source : Int) (size : Nat)
  | missing (what : Missing)
  /-- A key that is not there, or a removal from something empty. -/
  | keyMissing (key : Value)
  /-- An item that is not in a list. -/
  | noSuchItem
  | noSuchMember
  | wrongArguments
  | notCallable
  /-- A client's function gave up. -/
  | callback
  /-- A register that was never set. -/
  | noRegister

namespace Failure

/-- The text of a policy or target that leaves an operation out. -/
def missingText : Missing → Option String
  | .advanceLeft => "advance_a is a required method for merge states"
  | .advanceRight => "advance_b is a required method for merge states"
  | .push target => target ++ " does not accept items"
  | .handOut target => target ++ " does not hand out items"
  | .onLeft => "from_a is a required method for merge operations"
  | .onRight => "from_b is a required method for merge operations"
  | .onTie => "collision is a required method for merge operations"
  | .cursors => none

/-- Between which kinds of values something does not work. -/
def between (left right : Kind) : String := "'" ++ left.name ++ "' and '" ++ right.name ++ "'"

/-- The text of a cause, if it has one. -/
def message : Failure → Option String
  | .unordered relation left right | .unorderedInside relation left right =>
    some ("'" ++ relation.sign ++ "' not supported between instances of " ++ between left right)
  | .notACollection got => some ("expected an iterable, got " ++ got.render)
  | .notASet got => some ("expected a set, got " ++ got.render)
  | .notAMap got => some ("expected a mapping or an iterable of pairs, got " ++ got.render)
  | .itemsNotIncreasing => some "FlatSet.from_sorted expects strictly increasing elements"
  | .keysNotIncreasing => some "FlatMap.from_sorted expects strictly increasing keys"
  | .unsupportedOperands .mod _ _ => none
  | .unsupportedOperands operator left right =>
    some ("unsupported operand type(s) for " ++ operator.sign ++ ": " ++ between left right)
  | .cannotConcatenate left right =>
    some ("can only concatenate " ++ left.name ++ " (not \"" ++ right.name ++ "\") to " ++
      left.name)
  | .unsupportedSign sign operand =>
    some ("bad operand type for unary " ++ sign ++ ": '" ++ operand.name ++ "'")
  | .divisionByZero => some "division by zero"
  | .doubleDivisionByZero => some "float division by zero"
  | .notIterable got => some ("'" ++ got.name ++ "' object is not iterable")
  | .cannotUnpack got => some ("cannot unpack non-iterable " ++ got.name ++ " object")
  | .tooManyToUnpack => some "too many values to unpack (expected 2)"
  | .notEnoughToUnpack got =>
    some ("not enough values to unpack (expected 2, got " ++ toString got ++ ")")
  | .unhashable got => some ("unhashable type: '" ++ got.name ++ "'")
  | .noLength got => some ("object of type '" ++ got.name ++ "' has no len()")
  | .listIndexOutOfRange => some "list index out of range"
  | .zeroSliceStep => some "slice step cannot be zero"
  | .negativeStart => some "lo must be non-negative"
  | .cursorOutOfBounds => some "merge cursor out of bounds"
  | .incoherent target source size => some (GapBuffer.text target source size)
  | .missing what => missingText what
  | .callback => some "callback"
  | _ => none

/-- A failure inside containers that were compared. -/
def inside : Failure → Failure
  | .unordered relation left right => .unorderedInside relation left right
  | cause => cause

/-- A failure of a comparison that a sort has made. Of two items that have no order the sort says
only that they cannot be sorted; what went wrong inside them is told as it is. -/
def ofSort : Failure → Failure
  | .unordered _ _ _ => .unsortable
  | cause => cause

/-- The failure of an operation on values, seen from outside. -/
def ofFault : Fault Failure → Failure
  | .raised cause => cause
  | .unsortable cause => ofSort cause
  | .readPastEnd => .listIndexOutOfRange
  | .storePastEnd => .storeOutOfRange
  | .negativeStart => .negativeStart
  | .cursorOutOfBounds => .cursorOutOfBounds
  | .overrun => .overrun
  | .incoherent target source size => .incoherent target source size
  | .missing what => .missing what

/-- The failure of an arithmetic operation. -/
def ofNumber : NumberFault → Failure
  | .divisionByZero => .divisionByZero
  | .doubleDivisionByZero => .doubleDivisionByZero
  | .remainderByZero => .remainderByZero
  | .overflow => .overflow

/-- The answer of a container's operation. -/
def lift {α : Type} : Except (Fault Failure) α → Except Failure α
  | .ok a => .ok a
  | .error e => .error (ofFault e)

end Failure

end SortedCollections
