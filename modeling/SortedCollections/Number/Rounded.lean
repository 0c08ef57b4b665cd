import SortedCollections.Number.Shortest

/-!
# Doubles with a given number of digits

A double is rounded, from its exact value, to a number of places behind the point or to a number of
digits; a half goes to the even neighbour.
-/
namespace SortedCollections

/-- The absolute value of a number, as a fraction. -/
def Dyadic.fraction (a : Dyadic) : Nat × Nat :=
  (a.mantissa.natAbs * Nat.pow 2 a.exponent.toNat, Nat.pow 2 (-a.exponent).toNat)

namespace Double

/-- An absolute value with a number of places behind the point. A point with nothing behind it is
left out, or kept. -/
def withPlaces (a : Dyadic) (places : Nat) (keepPoint : Bool) : String :=
  let (num, den) := a.fraction
  let digits := digitsOf (roundHalfEven (num * Nat.pow 10 places) den)
  let padded := List.replicate (places + 1 - digits.length) '0' ++ digits
  let whole := padded.length - places
  let point := if places = 0 && !keepPoint then [] else ['.']
  String.ofList (padded.take whole ++ point ++ padded.drop whole)

/-- An absolute value rounded to a number of digits. -/
def withDigits (a : Dyadic) (count : Nat) : Decimal :=
  let (num, den) := a.fraction
  if num = 0 then
    ⟨List.replicate count '0', 0⟩
  else
    let power := leadingPower num den
    let unit := power - count + 1
    let digits := digitsOf <|
      if unit ≥ 0 then roundHalfEven num (den * Nat.pow 10 unit.toNat)
      else roundHalfEven (num * Nat.pow 10 (-unit).toNat) den
    ⟨digits.take count, if digits.length > count then power + 1 else power⟩

/-- An absolute value with an exponent, and a number of places behind the point of the mantissa. -/
def withExponent (a : Dyadic) (places : Nat) (keepPoint : Bool) : String :=
  (withDigits a (places + 1)).scientific Layout.standard keepPoint

/-- An absolute value with a number of digits, of which zeros at the end are left out, or kept. It
has an exponent if there are not enough digits for the whole part, or if more than four zeros would
come first. -/
def withSignificant (a : Dyadic) (count : Nat) (keepZeros : Bool) : String :=
  let d := withDigits a count
  if d.power < -4 ∨ d.power ≥ count then
    let behind := d.digits.drop 1
    let kept := if keepZeros then behind else withoutTrailingZeros behind
    Decimal.scientific Layout.standard ⟨d.digits.take 1 ++ kept, d.power⟩ keepZeros
  else
    let text := withPlaces a (count - 1 - d.power).toNat keepZeros
    if keepZeros || !text.contains '.' then
      text
    else
      let short := withoutTrailingZeros text.toList
      String.ofList (if short.getLast? = some '.' then short.dropLast else short)

end Double

end SortedCollections
