import SortedCollections.Number.Double

/-!
# Numbers

A number is a whole number of any size or a double. Numbers of both kinds are compared exactly.
In arithmetic a whole number that meets a double becomes the nearest double; a quotient is always
a double, and that of two whole numbers is rounded once.
-/
namespace SortedCollections

inductive Number where
  | int (n : Int)
  | double (x : Float)
  deriving Repr

/-- What stops an arithmetic operation. -/
inductive NumberFault where
  /-- A whole number was divided by zero. -/
  | divisionByZero
  /-- A division by zero with a double on at least one side. -/
  | doubleDivisionByZero
  /-- A remainder by zero. -/
  | remainderByZero
  /-- A whole number or a quotient lies beyond the range of doubles. -/
  | overflow
  deriving Repr, DecidableEq

namespace Number

/-- What a number stands for. -/
def form : Number → Double.Form
  | .int n => .finite (.ofInt n)
  | .double x => Double.form x

def order (a b : Number) : Option Ordering :=
  match a.form, b.form with
  | .nan, _ | _, .nan => none
  | .infinite s, .infinite t =>
    some (if s = t then .eq else if s then .lt else .gt)
  | .infinite s, .finite _ => some (if s then .lt else .gt)
  | .finite _, .infinite t => some (if t then .gt else .lt)
  | .finite x, .finite y => some (x.order y)

def isZero (a : Number) : Bool :=
  match a.form with
  | .finite x => x.mantissa = 0
  | _ => false

def toDouble : Number → Except NumberFault Float
  | .int n =>
    match Double.ofInt n with
    | some x => .ok x
    | none => .error .overflow
  | .double x => .ok x

/-- An operation that is exact on whole numbers and rounds on doubles. -/
def mixed (onInt : Int → Int → Int) (onDouble : Float → Float → Float) (a b : Number) :
    Except NumberFault Number :=
  match a, b with
  | .int m, .int n => .ok (.int (onInt m n))
  | _, _ => do return .double (onDouble (← a.toDouble) (← b.toDouble))

def add : Number → Number → Except NumberFault Number := mixed (· + ·) (· + ·)

def sub : Number → Number → Except NumberFault Number := mixed (· - ·) (· - ·)

def mul : Number → Number → Except NumberFault Number := mixed (· * ·) (· * ·)

/-- The quotient as a double. -/
def div (a b : Number) : Except NumberFault Number :=
  match a, b with
  | .int m, .int n =>
    if n = 0 then
      .error .divisionByZero
    else
      match Double.ofRatio ((m < 0) != (n < 0)) m.natAbs n.natAbs with
      | some x => .ok (.double x)
      | none => .error .overflow
  | _, _ => do
    let x ← a.toDouble
    let y ← b.toDouble
    if y == 0.0 then throw .doubleDivisionByZero else return .double (x / y)

/-- The remainder with the sign of the divisor. -/
def mod (a b : Number) : Except NumberFault Number :=
  match a, b with
  | .int m, .int n => if n = 0 then .error .remainderByZero else .ok (.int (Int.fmod m n))
  | _, _ => do
    let x ← a.toDouble
    let y ← b.toDouble
    if y == 0.0 then throw .remainderByZero else return .double (Double.flooredRemainder x y)

/-- The least whole number that is not below a finite number; zero for any other. -/
def ceiling (a : Number) : Int :=
  match a.form with
  | .finite x => x.ceiling
  | _ => 0

def neg : Number → Number
  | .int n => .int (-n)
  | .double x => .double (-x)

def abs : Number → Number
  | .int n => .int n.natAbs
  | .double x => .double x.abs

end Number

end SortedCollections
