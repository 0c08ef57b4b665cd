/-!
# Tables of slots

Items that are known by a hash stand in the slots of a table whose size is a power of two. An item
goes to the slot of its hash modulo the size, or, if that one is taken, to the first free one of
those that are tried after it. A table that is three fifths full gives way to a larger one. So the
order in which a table lists its items depends on their hashes, and only where slots are contested
on the order in which they came.

The main statement is `entries_ofEntries`: a table lists exactly what was put in.
-/
namespace SortedCollections

/-- A table of slots for items that are known by their hashes. -/
structure SlotTable (α : Type) where
  slots : List (Option (Nat × α))
  deriving Repr

namespace SlotTable

variable {α : Type}

/-- The number of slots of the smallest table. -/
def leastSize : Nat := 8

def ofSize (size : Nat) : SlotTable α := ⟨List.replicate size none⟩

def size (t : SlotTable α) : Nat := t.slots.length

/-- The items with their hashes, slot by slot. -/
def entries (t : SlotTable α) : List (Nat × α) := t.slots.filterMap id

/-- The slots that are tried from a slot on: it and the nine behind it, if there are as many, or
else it alone. -/
def neighbours (size slot : Nat) : List Nat :=
  if slot + 9 < size then (List.range 10).map (slot + ·) else [slot]

def isFree (t : SlotTable α) (slot : Nat) : Bool := t.slots[slot]?.any Option.isNone

/-- The first free slot, tried in a number of rounds. From round to round the slot moves on, by a
rule that in the end reaches every slot; the digits of the hash that the first slot left out are
used up on the way. -/
def freeSlot? (t : SlotTable α) (slot rest : Nat) : Nat → Option Nat
  | 0 => none
  | rounds + 1 =>
    match (neighbours t.size slot).find? t.isFree with
    | some free => some free
    | none => freeSlot? t ((slot * 5 + 1 + rest / 32) % t.size) (rest / 32) rounds

/-- Puts an item into the first free slot. Thirteen rounds use up a hash of 64 digits, and then the
slots go round once through all; a table without a free slot gets another one. -/
def place (t : SlotTable α) (entry : Nat × α) : SlotTable α :=
  match t.freeSlot? (entry.1 % t.size) entry.1 (t.size + 14) with
  | some slot => ⟨t.slots.set slot (some entry)⟩
  | none => ⟨t.slots ++ [some entry]⟩

/-- The least size of a table that is greater than a number. -/
def sizeAbove (n : Nat) : Nat := max leastSize (Nat.pow 2 (n.log2 + 1))

/-- Moves all items to a table with room for a good many more. -/
def grow (t : SlotTable α) : SlotTable α :=
  let count := t.entries.length
  t.entries.foldl place (ofSize (sizeAbove (if count > 50000 then count * 2 else count * 4)))

def insert (t : SlotTable α) (entry : Nat × α) : SlotTable α :=
  let t := t.place entry
  if t.entries.length * 5 < (t.size - 1) * 3 then t else t.grow

def ofEntries (entries : List (Nat × α)) : SlotTable α := entries.foldl insert (ofSize leastSize)

theorem entries_ofSize (size : Nat) : (ofSize size : SlotTable α).entries = [] := by
  induction size with
  | zero => rfl
  | succ size ih =>
    rw [entries, ofSize] at ih ⊢
    rw [List.replicate_succ, List.filterMap_cons_none rfl, ih]

theorem isFree_of_freeSlot? {t : SlotTable α} {slot rest rounds free : Nat}
    (found : t.freeSlot? slot rest rounds = some free) : t.isFree free = true := by
  induction rounds generalizing slot rest with
  | zero => simp [freeSlot?] at found
  | succ rounds ih =>
    rw [freeSlot?] at found
    split at found
    · rename_i here
      rw [Option.some.injEq] at found
      exact found ▸ List.find?_some here
    · exact ih found

theorem filterMap_set_perm {slots : List (Option α)} {slot : Nat} (free : slots[slot]? = some none)
    (x : α) : ((slots.set slot (some x)).filterMap id).Perm (x :: slots.filterMap id) := by
  induction slots generalizing slot with
  | nil => simp at free
  | cons head slots ih =>
    cases slot with
    | zero =>
      obtain rfl : head = none := by simpa using free
      simp
    | succ slot =>
      have rest := ih (by simpa using free)
      cases head with
      | none => simpa using rest
      | some y => simpa using (rest.cons y).trans (List.Perm.swap x y _)

theorem entries_place (t : SlotTable α) (entry : Nat × α) :
    (t.place entry).entries.Perm (entry :: t.entries) := by
  rw [place]
  split
  · rename_i slot found
    have free := isFree_of_freeSlot? found
    refine filterMap_set_perm ?_ entry
    rw [isFree, Option.any_eq_true] at free
    obtain ⟨content, here, isEmpty⟩ := free
    rw [here, Option.isNone_iff_eq_none.mp isEmpty]
  · rw [entries, List.filterMap_append]
    exact List.perm_append_comm

theorem entries_foldl_place (t : SlotTable α) (entries : List (Nat × α)) :
    (entries.foldl place t).entries.Perm (entries ++ t.entries) := by
  induction entries generalizing t with
  | nil => exact .refl _
  | cons entry rest ih =>
    exact (ih (t.place entry)).trans
      ((t.entries_place entry).append_left rest |>.trans List.perm_middle)

theorem entries_grow (t : SlotTable α) : t.grow.entries.Perm t.entries := by
  rw [grow]
  refine (entries_foldl_place _ _).trans ?_
  rw [entries_ofSize, List.append_nil]

theorem entries_insert (t : SlotTable α) (entry : Nat × α) :
    (t.insert entry).entries.Perm (entry :: t.entries) := by
  rw [insert]
  split
  · exact t.entries_place entry
  · exact (entries_grow _).trans (t.entries_place entry)

/-- A table lists what was put in. -/
theorem entries_ofEntries (entries : List (Nat × α)) :
    (ofEntries entries).entries.Perm entries := by
  have all (t : SlotTable α) : (entries.foldl insert t).entries.Perm (entries ++ t.entries) := by
    induction entries generalizing t with
    | nil => exact .refl _
    | cons entry rest ih =>
      exact (ih (t.insert entry)).trans
        ((t.entries_insert entry).append_left rest |>.trans List.perm_middle)
  have listed := all (ofSize leastSize)
  rw [entries_ofSize, List.append_nil] at listed
  exact listed

end SlotTable

end SortedCollections
