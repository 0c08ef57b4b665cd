import SortedCollections.Number.Basic

/-!
# Hashes of numbers

The hash of a number is the residue of its absolute value modulo the prime `2 ^ 61 - 1`, with the
sign of the number. It does not depend on the kind of the number, so equal numbers have equal
hashes. Fractions have residues too: every double is a whole number times a power of two, and two
to the sixty-first is one modulo the prime.
-/
namespace SortedCollections

def hashModulus : Nat := Nat.pow 2 61 - 1

/-- The residue of a number's absolute value, with the sign of the number. -/
def Dyadic.residue (a : Dyadic) : Int :=
  let r := a.mantissa.natAbs * Nat.pow 2 (a.exponent % 61).toNat % hashModulus
  if a.mantissa < 0 then -r else r

/-- No hash is minus one; minus two stands in for it. -/
def withoutMinusOne (hash : Int) : Int := if hash = -1 then -2 else hash

def Double.Form.hash? : Double.Form → Option Int
  | .nan => none
  | .infinite negative => some (if negative then -314159 else 314159)
  | .finite value => some (withoutMinusOne value.residue)

def Number.hash? (a : Number) : Option Int := a.form.hash?

end SortedCollections
