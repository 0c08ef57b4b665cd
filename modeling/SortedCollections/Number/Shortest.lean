import SortedCollections.Number.Double

/-!
# The shortest decimal of a double

A double is written with the fewest digits that read back as the same double; of several such
decimals with equally many digits, the nearest, and of two that are equally near, the even one.

The decimals that read back as a double fill an interval around it. For each number of digits in
turn, the two decimals next to the double on the grid of that many digits are tested against the
interval, in exact arithmetic.
-/
namespace SortedCollections

namespace Double

/-- A decimal: the digits, and the power of ten at which the first of them stands. -/
structure Decimal where
  digits : List Char
  power : Int
  deriving Repr, DecidableEq

/-- A positive double with its interval, over a common denominator. -/
structure Neighbourhood where
  value : Nat
  low : Nat
  high : Nat
  den : Nat
  /-- The ends of the interval belong to it. -/
  closed : Bool

/-- The numbers that round to `mantissa * 2 ^ exponent`. Below a power of two the doubles lie
closer together. -/
def neighbourhood (mantissa : Nat) (exponent : Int) : Neighbourhood :=
  let down := if mantissa = Nat.pow 2 52 ∧ exponent > leastExponent then 1 else 2
  let scale := if exponent ≥ 2 then Nat.pow 2 (exponent - 2).toNat else 1
  { value := 4 * mantissa * scale
    low := (4 * mantissa - down) * scale
    high := (4 * mantissa + 2) * scale
    den := if exponent ≥ 2 then 1 else Nat.pow 2 (2 - exponent).toNat
    closed := mantissa % 2 = 0 }

def digitsOf (n : Nat) : List Char := Nat.toDigits 10 n

def withoutTrailingZeros (digits : List Char) : List Char :=
  (digits.reverse.dropWhile (· = '0')).reverse

/-- The power of ten of the first digit of a fraction that is no power of ten below one. -/
def leadingPower (num den : Nat) : Int :=
  if num ≥ den then (digitsOf (num / den)).length - 1 else -(digitsOf (den / num)).length

/-- The nearest decimal with a given number of digits that lies in the interval. -/
def decimalWith? (h : Neighbourhood) (power : Int) (count : Nat) : Option Decimal :=
  let unit := power - count + 1
  -- A decimal `d * 10 ^ unit` is compared with `t / den` as `d * p` with `t * q`.
  let p := if unit ≥ 0 then Nat.pow 10 unit.toNat * h.den else h.den
  let q := if unit ≥ 0 then 1 else Nat.pow 10 (-unit).toNat
  let inside (d : Nat) : Bool :=
    if h.closed then h.low * q ≤ d * p ∧ d * p ≤ h.high * q
    else h.low * q < d * p ∧ d * p < h.high * q
  let below := h.value * q / p
  let above := below + 1
  let excess := 2 * (h.value * q - below * p)
  let belowIsNearer := excess < p ∨ (excess = p ∧ below % 2 = 0)
  let chosen :=
    match inside below, inside above with
    | true, true => some (if belowIsNearer then below else above)
    | true, false => some below
    | false, true => some above
    | false, false => none
  chosen.map fun d =>
    let ds := digitsOf d
    ⟨withoutTrailingZeros ds, unit + ds.length - 1⟩

/-- The shortest decimal of a positive double. Seventeen digits always suffice. -/
def shortest (mantissa : Nat) (exponent : Int) : Decimal :=
  let h := neighbourhood mantissa exponent
  let power := leadingPower h.value h.den
  (((List.range 17).map (· + 1)).findSome? (decimalWith? h power)).getD ⟨['0'], 0⟩

/-- How decimals are laid out: the powers of ten that are written without an exponent. -/
structure Layout where
  leastPlain : Int
  mostPlain : Int
  /-- The least number of digits of an exponent. -/
  exponentDigits : Nat

/-- Numbers from a ten-thousandth up to below ten to the sixteenth are written without an
exponent; an exponent has at least two digits and a sign. -/
def Layout.standard : Layout := ⟨-4, 15, 2⟩

/-- A decimal written without an exponent, with at least one digit behind the point. -/
def Decimal.plain (d : Decimal) : String :=
  if d.power < 0 then
    "0." ++ String.ofList (List.replicate (-d.power - 1).toNat '0' ++ d.digits)
  else
    let whole := d.power.toNat + 1
    let front := d.digits.take whole ++ List.replicate (whole - d.digits.length) '0'
    let behind := d.digits.drop whole
    String.ofList front ++ "." ++ (if behind.isEmpty then "0" else String.ofList behind)

/-- A decimal written with an exponent. A point with nothing behind it is left out, or kept. -/
def Decimal.scientific (layout : Layout) (d : Decimal) (keepPoint : Bool := false) : String :=
  let exponent := digitsOf d.power.natAbs
  let padded := List.replicate (layout.exponentDigits - exponent.length) '0' ++ exponent
  let behind := d.digits.drop 1
  String.ofList (d.digits.take 1)
    ++ (if behind.isEmpty && !keepPoint then "" else "." ++ String.ofList behind)
    ++ (if d.power < 0 then "e-" else "e+") ++ String.ofList padded

def text (x : Float) (layout : Layout := Layout.standard) : String :=
  match form x with
  | .nan => "nan"
  | .infinite negative => if negative then "-inf" else "inf"
  | .finite value =>
    let sign := if isNegative x then "-" else ""
    if value.mantissa = 0 then
      sign ++ "0.0"
    else
      let d := shortest value.mantissa.natAbs value.exponent
      sign ++ (if layout.leastPlain ≤ d.power ∧ d.power ≤ layout.mostPlain
        then d.plain else d.scientific layout)

end Double

end SortedCollections
