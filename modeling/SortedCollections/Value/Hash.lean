import SortedCollections.Number.Hash
import SortedCollections.SlotTable
import SortedCollections.Value.Items

/-!
# Hashes of values

The hash of a value that can be a key, where the value alone decides it, and the order in which an
unordered set lists its items: that of a table of slots.

The hashes of texts differ from run to run. A set that holds one lists its items as they came.
-/
namespace SortedCollections

/-- Hashes of the items of a tuple are mixed into one, as 64-bit lanes, by the scheme of xxHash. -/
structure LaneMixer where
  state : UInt64

namespace LaneMixer

def start : LaneMixer := ⟨2870177450012600261⟩

def mix (m : LaneMixer) (lane : Int) : LaneMixer :=
  let x := m.state + UInt64.ofInt lane * 14029467366897019727
  ⟨((x <<< 31) ||| (x >>> 33)) * 11400714785074694791⟩

/-- The hash of a number of lanes. -/
def finish (m : LaneMixer) (count : Nat) : Int :=
  let x := m.state + (UInt64.ofNat count ^^^ (start.state ^^^ 3527539))
  if x = UInt64.ofInt (-1) then 1546275796 else x.toInt64.toInt

end LaneMixer

namespace Value

mutual

/-- The hash of a value, if the value alone decides it. -/
def hash? : Value → Option Int
  | .bool b => Number.hash? (.int (if b then 1 else 0))
  | .int n => Number.hash? (.int n)
  | .double x => Number.hash? (.double x)
  | .text s => if s.isEmpty then some 0 else Option.none
  | .tuple items => (mixItems .start items).map (·.finish items.length)
  | _ => Option.none

def mixItems (mixer : LaneMixer) : List Value → Option LaneMixer
  | [] => some mixer
  | x :: xs => do mixItems (mixer.mix (← x.hash?)) xs

end

def hash (v : Value) : Except Failure Int := do
  v.requireHashable
  match v.hash? with
  | some hash => return hash
  | Option.none => throw (.noStableHash v.kind)

/-- An item with its hash as an unsigned word. -/
def withHash (v : Value) : Option (Nat × Value) := do
  return ((UInt64.ofInt (← v.hash?)).toNat, v)

/-- Distinct items in the order in which an unordered set lists them. -/
def inSlotOrder (items : List Value) : List Value :=
  match items.mapM withHash with
  | some entries => (SlotTable.ofEntries entries).entries.map Prod.snd
  | Option.none => items

end Value

end SortedCollections
