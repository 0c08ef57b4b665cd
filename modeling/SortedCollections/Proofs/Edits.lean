import SortedCollections.CofiniteSet
import SortedCollections.DefaultMap
import SortedCollections.Proofs.Window

/-!
# Edits for the sake of one value

An operation on one item of a container searches for a value and then edits the list at the place where
the search has ended. No more is known of the item there than what the search has asked: that neither
it nor the value is less than the other. So whatever the order answers, and whatever the value is, all
items but those that the order does not tell from the value stay as they are and where they are.
-/
namespace SortedCollections

variable {ε α β κ ν : Type} {cmp : Comparison ε κ} {key : α → Except ε κ} {value : κ}

/-- Does a search take an item for the value? It does if neither is less than the other; whether the
two are equal it does not ask. -/
def TakenFor (cmp : Comparison ε κ) (key : α → Except ε κ) (value : κ) (x : α) : Prop :=
  keyBelow cmp key value x = .ok false ∧ keyAbove cmp key value x = .ok false

/-- Among ordered keys, what is taken for a value is equal to it. -/
theorem takenFor_iff {P : κ → Prop} (ordered : cmp.OrderedOn P) {x : α} {k : κ} (keyed : key x = .ok k)
    (hk : P k) (hv : P value) : TakenFor cmp key value x ↔ cmp.eq k value = .ok true := by
  rw [TakenFor, keyBelow, keyAbove, keyed]
  exact (ordered.tie_iff k value hk hv).symm

/-- An edit of a list for the sake of a value: one item at most has come, gone or been replaced. What
has come has the value as its key, and what has gone was taken for the value. -/
inductive Edited (cmp : Comparison ε κ) (key : α → Except ε κ) (value : κ) :
    List α → List α → Prop where
  | same (xs : List α) : Edited cmp key value xs xs
  | added (lows highs : List α) {new : α} (keyed : key new = .ok value) :
    Edited cmp key value (lows ++ highs) (lows ++ new :: highs)
  | removed (lows highs : List α) {old : α} (taken : TakenFor cmp key value old) :
    Edited cmp key value (lows ++ old :: highs) (lows ++ highs)
  | replaced (lows highs : List α) {old new : α} (taken : TakenFor cmp key value old)
    (keyed : key new = .ok value) :
    Edited cmp key value (lows ++ old :: highs) (lows ++ new :: highs)

namespace Edited

variable {xs ys : List α}

/-- Items that are not taken for the value stay, and in their order. -/
theorem keeps (edited : Edited cmp key value xs ys) {kept : List α} (stored : kept.Sublist xs)
    (apart : ∀ x ∈ kept, ¬TakenFor cmp key value x) : kept.Sublist ys := by
  have spared {lows highs : List α} {old : α} (taken : TakenFor cmp key value old)
      (stored : kept.Sublist (lows ++ old :: highs)) : kept.Sublist (lows ++ highs) := by
    obtain ⟨before, behind, rfl, inLows, inHighs⟩ := List.sublist_append_iff.mp stored
    rcases List.sublist_cons_iff.mp inHighs with inHighs | ⟨rest, rfl, _⟩
    · exact inLows.append inHighs
    · exact absurd taken (apart old (by simp))
  cases edited with
  | same => exact stored
  | added lows highs keyed => exact stored.trans ((List.sublist_cons_self _ highs).append_left lows)
  | removed lows highs taken => exact spared taken stored
  | replaced lows highs taken keyed =>
    exact (spared taken stored).trans ((List.sublist_cons_self _ highs).append_left lows)

/-- The same edit of the images under a function that keeps keys. -/
theorem map (edited : Edited cmp key value xs ys) {key' : β → Except ε κ} {f : α → β}
    (keyed : ∀ x, key' (f x) = key x) : Edited cmp key' value (xs.map f) (ys.map f) := by
  have carry {x : α} (taken : TakenFor cmp key value x) : TakenFor cmp key' value (f x) := by
    rw [TakenFor, keyBelow, keyAbove, keyed]
    exact taken
  cases edited with
  | same => exact .same _
  | added lows highs own =>
    rw [List.map_append, List.map_append]
    exact .added _ _ ((keyed _).trans own)
  | removed lows highs taken =>
    rw [List.map_append, List.map_append]
    exact .removed _ _ (carry taken)
  | replaced lows highs taken own =>
    rw [List.map_append, List.map_append]
    exact .replaced _ _ (carry taken) ((keyed _).trans own)

end Edited

variable {data : List α} {i : Nat}

/-- A hit is an item of the list that is taken for the value. -/
theorem find_hit (found : find cmp key data value = .ok (i, true)) :
    ∃ lows old highs, data = lows ++ old :: highs ∧ i = lows.length ∧
      TakenFor cmp key value old := by
  obtain ⟨old, here, below, above⟩ := findIn_hit (Nat.zero_le _) found
  obtain ⟨inside, rfl⟩ := List.getElem?_eq_some_iff.mp here
  refine ⟨data.take i, data[i], data.drop (i + 1), ?_, ?_, below, above⟩
  · rw [← List.drop_eq_getElem_cons inside, List.take_append_drop]
  · rw [List.length_take, Nat.min_eq_left (Nat.le_of_lt inside)]

/-- What no item is told from is taken for the first one. -/
theorem find_untold {x : α} {xs : List α} (untold : ∀ y ∈ x :: xs, TakenFor cmp key value y) :
    find cmp key (x :: xs) value = .ok (0, true) := by
  have rest : ∀ y ∈ x :: xs, keyBelow cmp key value y = .ok false := fun y mem => (untold y mem).1
  have head : keyAbove cmp key value x = .ok false := (untold x List.mem_cons_self).2
  exact findIn_append_cons (List.forall_mem_nil _) rest head

/-- An item is put in, in place of a hit. -/
theorem edited_put {hit : Bool} (found : find cmp key data value = .ok (i, hit)) {new : α}
    (keyed : key new = .ok value) :
    Edited cmp key value data (if hit then data.set i new else data.take i ++ new :: data.drop i) := by
  cases hit with
  | true =>
    obtain ⟨lows, old, highs, rfl, rfl, taken⟩ := find_hit found
    rw [if_pos rfl, List.set_append_right _ _ (Nat.le_refl _), Nat.sub_self, List.set_cons_zero]
    exact .replaced lows highs taken keyed
  | false =>
    have added : Edited cmp key value (data.take i ++ data.drop i) _ :=
      .added (data.take i) (data.drop i) keyed
    rw [List.take_append_drop] at added
    exact added

/-- A hit is taken out. -/
theorem edited_erase (found : find cmp key data value = .ok (i, true)) :
    Edited cmp key value data (data.eraseIdx i) := by
  obtain ⟨lows, old, highs, rfl, rfl, taken⟩ := find_hit found
  rw [List.eraseIdx_append_of_length_le (Nat.le_refl _), Nat.sub_self, List.eraseIdx_cons_zero]
  exact .removed lows highs taken

namespace SortedSet

variable {cmp : Comparison ε α} {s t : SortedSet α} {x value : α}

theorem insert_edited (done : s.insert cmp x = .ok t) : Edited cmp .ok x s.items t.items := by
  obtain ⟨⟨i, hit⟩, found, made⟩ := bind_eq_ok.mp done
  cases made
  exact edited_put found rfl

theorem erase?_edited (done : s.erase? cmp x = .ok (some t)) : Edited cmp .ok x s.items t.items := by
  obtain ⟨⟨i, hit⟩, found, made⟩ := bind_eq_ok.mp done
  cases hit with
  | true =>
    cases made
    exact edited_erase found
  | false => cases made

theorem discard_edited (done : s.discard cmp x = .ok t) : Edited cmp .ok x s.items t.items := by
  obtain ⟨⟨i, hit⟩, found, made⟩ := bind_eq_ok.mp done
  cases hit with
  | true =>
    cases made
    exact edited_erase found
  | false =>
    cases made
    exact .same _

/-- What no item is told from takes the first one with it, whether they are equal or not. -/
theorem discard_untold {items : List α} (untold : ∀ y ∈ x :: items, TakenFor cmp .ok value y) :
    SortedSet.discard cmp ⟨x :: items⟩ value = .ok ⟨items⟩ := by
  rw [discard, SortedSet.find, find_untold untold]
  rfl

end SortedSet

namespace SortedMap

variable {m n : SortedMap κ ν} {k : κ}

theorem insert_edited {v : ν} {old : Option ν} (done : m.insert cmp k v = .ok (old, n)) :
    Edited cmp SortedMap.key k m.entries n.entries := by
  obtain ⟨⟨i, hit⟩, found, made⟩ := bind_eq_ok.mp done
  have keyed : (SortedMap.key (k, v) : Except ε κ) = .ok k := rfl
  have edited := edited_put found keyed
  cases hit with
  | true =>
    cases made
    exact edited
  | false =>
    cases made
    exact edited

theorem erase?_edited (done : m.erase? cmp k = .ok (some n)) :
    Edited cmp SortedMap.key k m.entries n.entries := by
  obtain ⟨⟨i, hit⟩, found, made⟩ := bind_eq_ok.mp done
  cases hit with
  | true =>
    cases made
    exact edited_erase found
  | false => cases made

theorem pop?_edited {v : ν} (done : m.pop? cmp k = .ok (some (v, n))) :
    Edited cmp SortedMap.key k m.entries n.entries := by
  obtain ⟨value, looked, made⟩ := bind_eq_ok.mp done
  cases value with
  | none => cases made
  | some value =>
    obtain ⟨rest, erased, made⟩ := bind_eq_ok.mp made
    cases rest with
    | none => cases made
    | some rest =>
      cases made
      exact erase?_edited erased

end SortedMap

namespace CofiniteSet

variable {cmp : Comparison ε α} {s t : CofiniteSet α} {x : α}

theorem insert_edited (done : s.insert cmp x = .ok t) :
    Edited cmp .ok x s.elements.items t.elements.items := by
  cases form : s.negated with
  | true =>
    rw [insert, form] at done
    obtain ⟨elements, stored, made⟩ := bind_eq_ok.mp done
    cases made
    exact SortedSet.discard_edited stored
  | false =>
    rw [insert, form] at done
    obtain ⟨elements, stored, made⟩ := bind_eq_ok.mp done
    cases made
    exact SortedSet.insert_edited stored

theorem discard_edited (done : s.discard cmp x = .ok t) :
    Edited cmp .ok x s.elements.items t.elements.items := by
  cases form : s.negated with
  | true =>
    rw [discard, form] at done
    obtain ⟨elements, stored, made⟩ := bind_eq_ok.mp done
    cases made
    exact SortedSet.insert_edited stored
  | false =>
    rw [discard, form] at done
    obtain ⟨elements, stored, made⟩ := bind_eq_ok.mp done
    cases made
    exact SortedSet.discard_edited stored

end CofiniteSet

namespace DefaultMap

variable {m n : DefaultMap κ ν} {k : κ}

theorem reset_edited (cmp : Comparison ε κ) (m : DefaultMap κ ν) (k : κ) :
    Edited cmp SortedMap.key k m.entries.entries (m.reset cmp k).entries.entries := by
  rw [reset]
  cases erased : m.entries.erase? cmp k with
  | error e => exact .same _
  | ok rest =>
    cases rest with
    | none => exact .same _
    | some rest => exact SortedMap.erase?_edited erased

theorem set_edited {eq : ν → ν → Except ε Bool} {v : ν} (done : m.set cmp eq k v = .ok n) :
    Edited cmp SortedMap.key k m.entries.entries n.entries.entries := by
  obtain ⟨isDefault, asked, made⟩ := bind_eq_ok.mp done
  cases isDefault with
  | true =>
    cases made
    exact reset_edited cmp m k
  | false =>
    obtain ⟨⟨old, entries⟩, inserted, made⟩ := bind_eq_ok.mp made
    cases made
    exact SortedMap.insert_edited inserted

end DefaultMap

end SortedCollections
