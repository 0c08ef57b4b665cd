/-!
# Doubles as exact numbers

A finite double is a whole number times a power of two. Reading it in that form makes it
comparable with whole numbers of any size without rounding, and `ofRatio` goes the other way: it
finds the double nearest to a fraction.
-/
namespace SortedCollections

/-- The number `mantissa * 2 ^ exponent`. -/
structure Dyadic where
  mantissa : Int
  exponent : Int
  deriving Repr, DecidableEq

namespace Dyadic

def ofInt (n : Int) : Dyadic := ⟨n, 0⟩

/-- Both mantissas over the smaller of the two exponents. -/
def align (a b : Dyadic) : Int × Int :=
  let unit := min a.exponent b.exponent
  (a.mantissa * Int.pow 2 (a.exponent - unit).toNat,
    b.mantissa * Int.pow 2 (b.exponent - unit).toNat)

def order (a b : Dyadic) : Ordering :=
  let (m, n) := a.align b
  compare m n

/-- The least whole number that is not below a number. -/
def ceiling (a : Dyadic) : Int :=
  -(Int.fdiv (-a.mantissa * Int.pow 2 a.exponent.toNat) (Int.pow 2 (-a.exponent).toNat))

end Dyadic

namespace Double

/-- What a double stands for. -/
inductive Form where
  | nan
  | infinite (negative : Bool)
  | finite (value : Dyadic)
  deriving Repr, DecidableEq

/-- The exponent of the smallest positive double. -/
def leastExponent : Int := -1074

/-- The sign of a double; a zero and the not-a-number have one too. -/
def isNegative (x : Float) : Bool := x.toBits.toNat ≥ Nat.pow 2 63

/-- Reads a double exactly. -/
def form (x : Float) : Form :=
  let bits := x.toBits.toNat
  let exponent : Nat := bits / Nat.pow 2 52 % 2048
  let fraction : Nat := bits % Nat.pow 2 52
  if exponent = 2047 then
    if fraction = 0 then .infinite (isNegative x) else .nan
  else
    let magnitude : Nat := if exponent = 0 then fraction else fraction + Nat.pow 2 52
    .finite
      { mantissa := if isNegative x then -magnitude else magnitude
        exponent := if exponent = 0 then leastExponent else leastExponent + exponent - 1 }

/-- The quotient rounded to a whole number, a half going to the even neighbour. -/
def roundHalfEven (num den : Nat) : Nat :=
  let q := num / den
  let r := num % den
  if 2 * r > den ∨ (2 * r = den ∧ q % 2 = 1) then q + 1 else q

/-- The double nearest to a fraction, a tie going to the even mantissa; there is none beyond the
range of doubles. -/
def ofRatio (negative : Bool) (num den : Nat) : Option Float :=
  let sign := if negative then Nat.pow 2 63 else 0
  if num = 0 then
    some (Float.ofBits (UInt64.ofNat sign))
  else
    let guess : Int := (Nat.log2 num : Int) - Nat.log2 den
    let below : Bool :=
      if guess ≥ 0 then num < den * Nat.pow 2 guess.toNat
      else num * Nat.pow 2 (-guess).toNat < den
    let top := if below then guess - 1 else guess
    let unit := max (top - 52) leastExponent
    let mantissa :=
      if unit ≥ 0 then roundHalfEven num (den * Nat.pow 2 unit.toNat)
      else roundHalfEven (num * Nat.pow 2 (-unit).toNat) den
    let bits := (unit - leastExponent).toNat * Nat.pow 2 52 + mantissa
    if bits ≥ 2047 * Nat.pow 2 52 then none else some (Float.ofBits (UInt64.ofNat (bits + sign)))

/-- The double nearest to a whole number. -/
def ofInt (n : Int) : Option Float := ofRatio (n < 0) n.natAbs 1

/-- What arithmetic gives where there is no number to give. -/
def nan : Float := 0.0 / 0.0

/-- A zero with the sign of `x`. -/
def zeroLike (x : Float) : Float := if isNegative x then -0.0 else 0.0

/-- What is left of `x` after taking as many whole multiples of `y` away as go into it. The
result is exact and has the sign of `x`. -/
def truncatedRemainder (x y : Float) : Float :=
  match form x, form y with
  | .finite a, .finite b =>
    let (m, n) := a.align b
    let r := m.natAbs % n.natAbs
    let unit := min a.exponent b.exponent
    let result :=
      if unit ≥ 0 then ofRatio (isNegative x) (r * Nat.pow 2 unit.toNat) 1
      else ofRatio (isNegative x) r (Nat.pow 2 (-unit).toNat)
    result.getD x
  | .finite _, .infinite _ => x
  | _, _ => nan

/-- The remainder with the sign of the divisor. -/
def flooredRemainder (x y : Float) : Float :=
  let r := truncatedRemainder x y
  if r == 0.0 then zeroLike y
  else if (y < 0.0) != (r < 0.0) then r + y
  else r

end Double

end SortedCollections
