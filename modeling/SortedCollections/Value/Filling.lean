import SortedCollections.Number.Rounded
import SortedCollections.Value.Lookup

/-!
# Texts with places for values

A text may hold places, each of which begins with a percent sign and says how a value is written
there: flags, a width, a precision, and a letter for the form. The places take the items of a tuple
one after the other, or a single value; a place may also name the key under which its value is
found. Values that are left over are an error, but for something that can be asked for keys.

The text is read and filled from left to right, so the first thing that is wrong decides the
failure.
-/
namespace SortedCollections

namespace Filling

/-- What of the text is still to be read, and the values that no place has taken yet. -/
structure State where
  rest : List Char
  supply : List Value

abbrev Step : Type → Type := StateT State (Except Failure)

def nextValue : Step Value := do
  match (← get).supply with
  | v :: supply =>
    modify ({ · with supply })
    return v
  | [] => throw .unfilled

/-- The characters in front that pass a test, taken off the text. -/
def takeWhile (test : Char → Bool) : Step (List Char) := do
  let rest := (← get).rest
  modify ({ · with rest := rest.dropWhile test })
  return rest.takeWhile test

/-- Takes the next character, which must be there. -/
def nextChar : Step Char := do
  match (← get).rest with
  | c :: rest =>
    modify ({ · with rest })
    return c
  | [] => throw .badTemplate

/-- Takes a character if it is next. -/
def accept (c : Char) : Step Bool := do
  if (← get).rest.head? = some c then
    let _ ← nextChar
    return true
  else
    return false

/-- How a value is written in a place. -/
structure Place where
  flags : List Char
  /-- The least number of characters, to the right edge of which the value is moved. -/
  width : Nat
  /-- Does the value stand at the left edge instead? -/
  atLeft : Bool
  precision : Option Nat
  form : Char

/-- The greatest width, and the greatest precision. -/
def mostWidth : Nat := Nat.pow 2 63 - 1

def mostPrecision : Nat := Nat.pow 2 31 - 1

/-- A width or a precision: digits, or a star that takes the next value. There may be no digits. -/
def amount (most : Nat) : Step Int := do
  if ← accept '*' then
    match (← nextValue).int? with
    | some n => if n.natAbs ≤ most then return n else throw .overflow
    | none => throw .unfilled
  else
    let digits ← takeWhile Char.isDigit
    let n := digits.foldl (fun n d => n * 10 + (d.toNat - '0'.toNat)) 0
    if n ≤ most then return n else throw .badTemplate

/-- The characters up to the parenthesis that closes an open one, and those behind it. -/
def untilClosed (depth : Nat) : List Char → Option (List Char × List Char)
  | [] => none
  | c :: rest =>
    if c = ')' ∧ depth = 0 then
      some ([], rest)
    else
      let depth := if c = '(' then depth + 1 else if c = ')' then depth - 1 else depth
      (untilClosed depth rest).map fun (key, rest) => (c :: key, rest)

/-- Reads a key, if there is one, and leaves its value as the only one to take. -/
def lookUpKey (source : Option Value) : Step Unit := do
  if ← accept '(' then
    match source, untilClosed 0 (← get).rest with
    | none, _ => throw .unfilled
    | some _, none => throw .badTemplate
    | some source, some (key, rest) =>
      set (State.mk rest [← source.subscript (.text (.ofList key))])

/-- Reads how a value is to be written, behind the percent sign and the key. -/
def place : Step Place := do
  let flags ← takeWhile "-+ #0".toList.contains
  let width ← amount mostWidth
  let precision ← if ← accept '.' then some <$> amount mostPrecision else pure none
  if (← get).rest.head?.any "hlL".toList.contains then
    let _ ← nextChar
  return {
    flags
    width := width.natAbs
    atLeft := flags.contains '-' || width < 0
    precision := precision.map Int.toNat
    form := ← nextChar }

/-- A value as it is written in a place, before it is moved to an edge. -/
structure Written where
  /-- The sign of a number, or nothing. -/
  sign : String
  /-- What says that digits are not decimal. -/
  base : String
  body : String
  /-- May zeros fill up the width, between the sign and the body? -/
  isNumber : Bool

/-- A text, cut to the precision. -/
def Written.ofText (place : Place) (s : String) : Written :=
  let body := match place.precision with
    | some n => String.ofList (s.toList.take n)
    | none => s
  ⟨"", "", body, false⟩

/-- The sign of a number: flags may ask for a plus or a blank where it is not negative. -/
def signOf (place : Place) (negative : Bool) : String :=
  if negative then "-"
  else if place.flags.contains '+' then "+"
  else if place.flags.contains ' ' then " "
  else ""

/-- The letters of a text as capital letters, if the form is one. -/
def inCaseOf (form : Char) (s : String) : String := if form.isUpper then s.toUpper else s

/-- The base of the digits that a form writes. -/
def baseOf (form : Char) : Nat :=
  match form with
  | 'o' => 8
  | 'x' | 'X' => 16
  | _ => 10

/-- A whole number, with at least as many digits as the precision says. -/
def ofInt (place : Place) (n : Int) : Written :=
  let base := baseOf place.form
  let digits := Nat.toDigits base n.natAbs
  let padded := List.replicate (place.precision.getD 0 - digits.length) '0' ++ digits
  { sign := signOf place (n < 0)
    base := if place.flags.contains '#' ∧ base ≠ 10 then .ofList ['0', place.form] else ""
    body := inCaseOf place.form (.ofList padded)
    isNumber := true }

/-- The whole number that a form writes. Only the decimal form cuts off a fraction. -/
def wholeNumber (place : Place) (v : Value) : Except Failure Int :=
  match v.int?, v.number?, baseOf place.form with
  | some n, _, _ => .ok n
  | none, some x, 10 =>
    match x.form with
    | .finite a => .ok (a.mantissa * Int.pow 2 a.exponent.toNat |>.tdiv (Int.pow 2 (-a.exponent).toNat))
    | .infinite _ => .error .overflow
    | .nan => .error .badTemplate
  | none, _, _ => .error .unfilled

/-- A double, with six digits if there is no precision. -/
def ofDouble (place : Place) (x : Float) : Written :=
  let precision := place.precision.getD 6
  let full := place.flags.contains '#'
  let body := match Double.form x with
    | .nan => "nan"
    | .infinite _ => "inf"
    | .finite a =>
      match place.form.toLower with
      | 'f' => Double.withPlaces a precision full
      | 'e' => Double.withExponent a precision full
      | _ => Double.withSignificant a (max precision 1) full
  { sign := signOf place (Double.isNegative x && !x.isNaN)
    base := ""
    body := inCaseOf place.form body
    isNumber := true }

/-- The character that a value is, or that it is the code of. -/
def character (v : Value) : Except Failure Char :=
  match v, v.int? with
  | .text s, _ =>
    match s.toList with
    | [c] => .ok c
    | _ => .error .unfilled
  | _, some n => if 0 ≤ n ∧ n < 0x110000 then .ok (Char.ofNat n.toNat) else .error .overflow
  | _, none => .error .unfilled

/-- A text with characters beyond ASCII written by their codes. -/
def inAscii (s : String) : String :=
  String.join (s.toList.map fun c => if c.toNat < 128 then String.ofList [c] else Value.codeOf c)

/-- Writes a value in the form that a place asks for. -/
def write (place : Place) (v : Value) : Except Failure Written := do
  match place.form with
  | 's' =>
    match v with
    | .text s => return .ofText place s
    | _ => return .ofText place v.render
  | 'r' => return .ofText place v.render
  | 'a' => return .ofText place (inAscii v.render)
  | 'd' | 'i' | 'u' | 'x' | 'X' | 'o' => return ofInt place (← wholeNumber place v)
  | 'e' | 'E' | 'f' | 'F' | 'g' | 'G' =>
    match v.number? with
    | some x => return ofDouble place (← x.toDouble.mapError Failure.ofNumber)
    | none => throw .unfilled
  | 'c' => return ⟨"", "", String.ofList [← character v], false⟩
  | _ => throw .badTemplate

/-- The most characters that there is room for. -/
def mostRoom : Nat := Nat.pow 2 32

/-- Moves what is written to an edge of its place. -/
def align (place : Place) (w : Written) : Except Failure String :=
  let front := w.sign ++ w.base
  let missing := place.width - (front.length + w.body.length)
  let fill (c : Char) : String := String.ofList (List.replicate missing c)
  if missing > mostRoom then .error .tooLarge
  else if place.atLeft then .ok (front ++ w.body ++ fill ' ')
  else if w.isNumber && place.flags.contains '0' then .ok (front ++ fill '0' ++ w.body)
  else .ok (fill ' ' ++ front ++ w.body)

/-- Fills one place, behind its percent sign. A second percent sign stands for itself. -/
def fillPlace (source : Option Value) : Step String := do
  if ← accept '%' then
    return "%"
  lookUpKey source
  let place ← place
  align place (← write place (← nextValue))

/-- Fills the places of a text, in a number of rounds that is greater than their number. -/
def fillAll (source : Option Value) : Nat → Step String
  | 0 => return ""
  | rounds + 1 => do
    let literal := String.ofList (← takeWhile (· ≠ '%'))
    if ← accept '%' then
      let filled ← fillPlace source
      return literal ++ filled ++ (← fillAll source rounds)
    else
      return literal

/-- The values that the places of a text take from a value, one after the other. -/
def supplyOf : Value → List Value
  | .tuple items => items
  | v => [v]

/-- The value, if it can be asked for keys. -/
def sourceOf? (v : Value) : Option Value :=
  match v with
  | .list _ | .dict _ | .sortedSet _ | .sortedMap _ | .defaultMap _ _ => some v
  | _ => none

end Filling

/-- A text with values filled in. Only what can be asked for keys may be left unused. -/
def Value.filledIn (s : String) (v : Value) : Except Failure Value := do
  let source := Filling.sourceOf? v
  let (filled, state) ←
    (Filling.fillAll source (s.length + 1)).run ⟨s.toList, Filling.supplyOf v⟩
  if source.isNone && !state.supply.isEmpty then throw .unfilled else return .text filled

end SortedCollections
