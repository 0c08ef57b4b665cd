import SortedCollections.Comparison
import SortedCollections.Slice

/-!
# Rebuilding a list out of itself

A gap buffer is one list of slots in three regions: the items written so far, a gap of unused
slots, and the items not yet read.

    slots:   written items | gap | unread items
             0 .. target         source .. size

Writes go to `target` and reads come from `source`. As long as `target ≤ source`, no item is
overwritten before it has been read. A write that does not fit first opens a gap in front of the
unread items. The new gap is at least as long as what is unread, so that a long series of writes
opens few gaps.

An unused slot holds `default` until something is written to it.

Both positions can be moved anywhere by hand, even beyond the slots. They then stand for bounds
counted from either end, and every step works on the stretches that these bounds mark out.
-/
namespace SortedCollections

structure GapBuffer (α : Type) where
  slots : List α
  /-- The end of the written items. -/
  target : Int
  /-- The start of the unread items. -/
  source : Int
  deriving Repr

namespace GapBuffer

variable {ε α : Type}

/-- A buffer in which nothing is written and everything is unread. -/
def ofList (items : List α) : GapBuffer α := ⟨items, 0, 0⟩

def size (b : GapBuffer α) : Nat := b.slots.length

def written (b : GapBuffer α) : List α := Slice.before b.slots b.target

def unread (b : GapBuffer α) : List α := Slice.behind b.slots b.source

/-- How many items are unread. It is negative when `source` was set behind the last slot. -/
def remaining (b : GapBuffer α) : Int := b.size - b.source

/-- The regions lie in order within the slots. -/
def Coherent (b : GapBuffer α) : Prop := 0 ≤ b.target ∧ b.target ≤ b.source ∧ b.source ≤ b.size

instance (b : GapBuffer α) : Decidable b.Coherent :=
  inferInstanceAs (Decidable (_ ∧ _))

/-- The bounds of the two regions that hold items. -/
def text (target source : Int) (size : Nat) : String :=
  s!"InPlaceBuilder(0..{target}, {source}..{size})"

/-- Slots that hold nothing. -/
def unused [Inhabited α] (n : Int) : List α := List.replicate n.toNat default

/-- Opens a gap in front of the unread items if `n` more items do not fit. -/
def reserve [Inhabited α] (b : GapBuffer α) (n : Nat) : GapBuffer α :=
  if b.target + n > b.source then
    let gap := max (n : Int) b.remaining
    { b with
      slots := Slice.replace b.slots b.source b.source (unused gap)
      source := b.source + gap }
  else
    b

/-- Reads up to `n` items. Items that are taken become the last written ones, the others are
dropped. -/
def consume [Inhabited α] (b : GapBuffer α) (n : Int) (take : Bool) : GapBuffer α :=
  let n := min n b.remaining
  if take then
    let items := Slice.between b.slots b.source (b.source + n)
    { slots :=
        if b.target = b.source then b.slots
        else Slice.replace b.slots b.target (b.target + n) items
      target := b.target + n
      source := b.source + n }
  else
    { b with
      slots := Slice.replace b.slots b.source (b.source + n) (unused n)
      source := b.source + n }

def write (b : GapBuffer α) (items : List α) : GapBuffer α :=
  { b with
    slots := Slice.replace b.slots b.target (b.target + items.length) items
    target := b.target + items.length }

/-- Writes items behind those written so far. -/
def extend [Inhabited α] (b : GapBuffer α) (items : List α) : GapBuffer α :=
  if items.isEmpty then b else (b.reserve items.length).write items

/-- Writes one item behind those written so far; the slot for it must exist once the gap is
open. -/
def push? [Inhabited α] (b : GapBuffer α) (item : α) : Option (GapBuffer α) :=
  let b := b.reserve 1
  (Slice.position? b.size b.target).map fun i =>
    { b with slots := b.slots.set i item, target := b.target + 1 }

/-- Reads up to `n` items and hands them out. -/
def popFront [Inhabited α] (b : GapBuffer α) (n : Int) : List α × GapBuffer α :=
  let items := Slice.between b.slots b.source (b.source + n)
  let stop := b.source + items.length
  (items,
    { b with
      slots := Slice.replace b.slots b.source stop (unused items.length)
      source := stop })

/-- Drops the gap and whatever is unread. -/
def finish (b : GapBuffer α) : GapBuffer α :=
  { slots := b.written, target := b.target, source := b.target }

/-- Discards all that was written: `items` are unread again. -/
def restart (_ : GapBuffer α) (items : List α) : GapBuffer α := ofList items

abbrev Step (ε α : Type) : Type → Type := EStateM (Fault ε) (GapBuffer α)

/-- Puts a changed buffer in place. If the target has passed the source by then, the fault is reported
and the buffer stays as the write has made it. -/
def become (after : GapBuffer α) : Step ε α Unit := fun _ =>
  if after.target ≤ after.source then .ok () after else .error .overrun after

def consumeStep [Inhabited α] (n : Int) (take : Bool) : Step ε α Unit := fun b =>
  become (b.consume n take) b

/-- Writing no items is no write: nothing is looked at. -/
def extendStep [Inhabited α] (items : List α) : Step ε α Unit := fun b =>
  if items.isEmpty then .ok () b else become (b.extend items) b

/-- If there is no slot for the item, the gap has been opened all the same. -/
def pushStep [Inhabited α] (item : α) : Step ε α Unit := fun b =>
  match b.push? item with
  | some after => become after b
  | none => .error .storePastEnd (b.reserve 1)

def popFrontStep [Inhabited α] (n : Int) : Step ε α (List α) := fun b =>
  let (items, after) := b.popFront n
  .ok items after

/-- Reports regions that are out of order. -/
def checkStep : Step ε α Unit := fun b =>
  if b.Coherent then .ok () b else .error (.incoherent b.target b.source b.size) b

end GapBuffer

end SortedCollections
