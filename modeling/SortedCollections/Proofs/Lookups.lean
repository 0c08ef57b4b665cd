import SortedCollections.Proofs.Edits
import SortedCollections.Proofs.Maps.Entries

/-!
# Lookups of any value

A search asks for no more than the order, and takes an item for the value if neither is less. So it finds
what is equal to a value if the order tells the value from all other keys: if only a key that is equal is
neither less nor greater, and the other keys stand to the value as they stand to a key that is equal to
it. The value may be of any kind, and comparing it with a key may fail.
-/
namespace SortedCollections

variable {ε α κ ν : Type} {cmp : Comparison ε κ} {eq : κ → κ → Except ε Bool} {P : κ → Prop}
  {value : κ}

/-- The order tells a value from the keys that are not equal to it. -/
structure Told (cmp : Comparison ε κ) (eq : κ → κ → Except ε Bool) (value : κ) (keys : List κ) :
    Prop where
  apart : ∀ k ∈ keys, TakenFor cmp .ok value k → eq k value = .ok true
  sameSide : ∀ k ∈ keys, eq k value = .ok true →
    ∀ l ∈ keys, ∀ r, cmp.lt l k = .ok r → cmp.lt l value = .ok r
  notLess : ∀ k ∈ keys, eq k value = .ok true → cmp.lt value k = .ok false

/-- How a search ends: at the one item that is sought, or without a hit if there is none. -/
inductive Ends (sought : α → Prop) (data : List α) : Except (Fault ε) (Nat × Bool) → Prop where
  | hit {lows highs : List α} {x : α} (cut : data = lows ++ x :: highs) (here : sought x)
    (only : ∀ y ∈ lows ++ highs, ¬sought y) : Ends sought data (.ok (lows.length, true))
  | miss (i : Nat) (absent : ∀ x ∈ data, ¬sought x) : Ends sought data (.ok (i, false))
  | failed (e : Fault ε) (absent : ∀ x ∈ data, ¬sought x) : Ends sought data (.error e)

section Search

variable {key : α → Except ε κ} {keyOf : α → κ} (keyed : ∀ x, key x = .ok (keyOf x))

/-- Keys stand to a value as they stand to a key that is equal to it. -/
theorem Told.asked (ordered : cmp.OrderedOn P) {data : List α}
    (kept : IncreasingOn cmp.less P (data.map keyOf)) (told : Told cmp eq value (data.map keyOf))
    {x y : α} (memX : x ∈ data) (memY : y ∈ data) (equal : eq (keyOf x) value = .ok true) :
    cmp.lt (keyOf y) value = .ok (cmp.less (keyOf y) (keyOf x)) :=
  have memX := List.mem_map_of_mem memX
  have memY := List.mem_map_of_mem memY
  told.sameSide _ memX equal _ memY _ (ordered.lt_eq (kept.inside _ memY) (kept.inside _ memX))

/-- Neither of two keys that are equal to the value is less, so they are one. -/
theorem Told.unique (ordered : cmp.OrderedOn P) {data : List α}
    (kept : IncreasingOn cmp.less P (data.map keyOf)) (told : Told cmp eq value (data.map keyOf))
    {x y : α} (memX : x ∈ data) (memY : y ∈ data) (equalX : eq (keyOf x) value = .ok true)
    (equalY : eq (keyOf y) value = .ok true) : cmp.less (keyOf y) (keyOf x) = false := by
  have first := told.asked ordered kept memX memY equalX
  have second := told.asked ordered kept memY memY equalY
  have insideY := kept.inside _ (List.mem_map_of_mem memY)
  rw [second, ordered.decides.irrefl insideY, Except.ok.injEq] at first
  exact first.symm

include keyed

/-- A search ends at a key that is equal to the value. -/
theorem find_equal (ordered : cmp.OrderedOn P) {lows highs : List α} {x : α}
    (kept : IncreasingOn cmp.less P ((lows ++ x :: highs).map keyOf))
    (told : Told cmp eq value ((lows ++ x :: highs).map keyOf))
    (equal : eq (keyOf x) value = .ok true) :
    find cmp key (lows ++ x :: highs) value = .ok (lows.length, true) := by
  have mem : x ∈ lows ++ x :: highs := by simp
  obtain ⟨_, behind, across⟩ := List.pairwise_append.mp (List.pairwise_map.mp kept.increasing)
  have pass : ∀ y ∈ lows, keyBelow cmp key value y = .ok true := by
    intro y low
    rw [keyBelow, keyed]
    refine (told.asked ordered kept mem (List.mem_append_left _ low) equal).trans (congrArg _ ?_)
    exact across y low x List.mem_cons_self
  have stop : ∀ y ∈ x :: highs, keyBelow cmp key value y = .ok false := by
    intro y high
    have memY := List.mem_append_right lows high
    rw [keyBelow, keyed]
    refine (told.asked ordered kept mem memY equal).trans (congrArg _ ?_)
    have insideX := kept.inside _ (List.mem_map_of_mem mem)
    rcases List.mem_cons.mp high with rfl | high
    · exact ordered.decides.irrefl insideX
    · exact ordered.less_asymm insideX (kept.inside _ (List.mem_map_of_mem memY))
        ((List.pairwise_cons.mp behind).1 y high)
  have head : keyAbove cmp key value x = .ok false := by
    rw [keyAbove, keyed]
    exact told.notLess _ (List.mem_map_of_mem mem) equal
  exact findIn_append_cons pass stop head

/-- A hit of a search is a key that is equal to the value. -/
theorem equal_of_hit {data : List α} (told : Told cmp eq value (data.map keyOf)) {i : Nat}
    (found : find cmp key data value = .ok (i, true)) :
    ∃ x ∈ data, eq (keyOf x) value = .ok true := by
  obtain ⟨lows, x, highs, rfl, _, below, above⟩ := find_hit found
  have mem : x ∈ lows ++ x :: highs := by simp
  rw [keyBelow, keyed] at below
  rw [keyAbove, keyed] at above
  exact ⟨x, mem, told.apart _ (List.mem_map_of_mem mem) ⟨below, above⟩⟩

/-- A search for a value that is told from the keys ends at the key that is equal to it. -/
theorem find_told (ordered : cmp.OrderedOn P) {data : List α}
    (kept : IncreasingOn cmp.less P (data.map keyOf)) (told : Told cmp eq value (data.map keyOf)) :
    Ends (fun x => eq (keyOf x) value = .ok true) data (find cmp key data value) := by
  by_cases present : ∃ x ∈ data, eq (keyOf x) value = .ok true
  · obtain ⟨x, mem, here⟩ := present
    obtain ⟨lows, highs, rfl⟩ := List.append_of_mem mem
    obtain ⟨_, behind, across⟩ := List.pairwise_append.mp (List.pairwise_map.mp kept.increasing)
    rw [find_equal keyed ordered kept told here]
    refine .hit rfl here fun y memY equal => ?_
    rcases List.mem_append.mp memY with low | high
    · have memY := List.mem_append_left (x :: highs) low
      have less := across y low x List.mem_cons_self
      rw [told.unique ordered kept mem memY here equal] at less
      cases less
    · have memY := List.mem_append_right lows (List.mem_cons_of_mem x high)
      have less := (List.pairwise_cons.mp behind).1 y high
      rw [told.unique ordered kept memY mem equal here] at less
      cases less
  · have absent : ∀ x ∈ data, ¬eq (keyOf x) value = .ok true := fun x mem equal =>
      present ⟨x, mem, equal⟩
    cases found : find cmp key data value with
    | error e => exact .failed e absent
    | ok answer =>
      obtain ⟨i, hit⟩ := answer
      cases hit with
      | false => exact .miss i absent
      | true => exact absurd (equal_of_hit keyed told found) present

end Search

namespace SortedSet

variable {s : SortedSet κ}

/-- Exactly what is equal to a stored item is in a set. -/
theorem contains_told (ordered : cmp.OrderedOn P) (kept : IncreasingOn cmp.less P s.items)
    (told : Told cmp eq value s.items) :
    s.contains cmp value = true ↔ ∃ k ∈ s.items, eq k value = .ok true := by
  have ends : Ends (fun k => eq k value = .ok true) s.items (s.find cmp value) := by
    rw [← List.map_id' s.items] at kept told
    exact find_told (fun _ => rfl) ordered kept told
  rw [contains]
  generalize s.find cmp value = found at ends
  cases ends with
  | @hit lows highs x cut here only =>
    refine iff_of_true rfl ⟨x, ?_, here⟩
    rw [cut]
    simp
  | miss i absent => exact iff_of_false Bool.false_ne_true (by simpa using absent)
  | failed e absent => exact iff_of_false Bool.false_ne_true (by simpa using absent)

end SortedSet

/-- What a lookup gives: the value of the one entry whose key is sought, or nothing if there is none. -/
inductive LooksUp (sought : κ → Prop) (entries : List (κ × ν)) : Option ν → Prop where
  | found {e : κ × ν} (mem : e ∈ entries) (here : sought e.1)
    (only : ∀ f ∈ entries, sought f.1 → f = e) : LooksUp sought entries (some e.2)
  | absent (apart : ∀ e ∈ entries, ¬sought e.1) : LooksUp sought entries none

namespace SortedMap

variable {m : SortedMap κ ν}

/-- A map gives the value that is stored under the key that is equal to the one sought. -/
theorem lookup?_told (ordered : cmp.OrderedOn P) (kept : EntriesOn cmp.less P m.entries)
    (told : Told cmp eq value m.keys) :
    LooksUp (fun k => eq k value = .ok true) m.entries (m.lookup? cmp value) ∧
      m.contains cmp value = (m.lookup? cmp value).isSome := by
  have ends : Ends (fun e => eq e.1 value = .ok true) m.entries (m.find cmp value) :=
    find_told (fun _ => rfl) ordered (entriesOn_keys.mp kept) told
  rw [lookup?, get?, contains]
  generalize m.find cmp value = found at ends
  cases ends with
  | @hit lows highs e cut here only =>
    have stored : m.valueAt lows.length = some e.2 := by
      rw [valueAt, cut, List.getElem?_append_right (Nat.le_refl _), Nat.sub_self]
      rfl
    show LooksUp _ _ (m.valueAt lows.length) ∧ true = (m.valueAt lows.length).isSome
    rw [stored]
    refine ⟨.found (by rw [cut]; simp) here fun f mem equal => ?_, rfl⟩
    rw [cut] at mem
    by_contra other
    refine only f ?_ equal
    simpa [other] using mem
  | miss i absent => exact ⟨.absent absent, rfl⟩
  | failed e absent => exact ⟨.absent absent, rfl⟩

end SortedMap

end SortedCollections
