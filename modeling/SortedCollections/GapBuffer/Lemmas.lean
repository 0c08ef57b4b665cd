import SortedCollections.GapBuffer.Basic

/-!
# The regions of a gap buffer

A buffer whose regions are in order is given by its three regions: the written items, the gap and
the unread items. Each step is described by what it does to them. Reading takes items from the
front of the unread ones, writing puts items at the end of the written ones, and opening a gap does
neither; what the gap holds is of no interest.
-/
namespace SortedCollections

namespace GapBuffer

variable {ε α : Type}

def ofRegions (written gap unread : List α) : GapBuffer α :=
  ⟨written ++ gap ++ unread, written.length, (written.length + gap.length : Nat)⟩

@[simp] theorem written_ofRegions (w g u : List α) : (ofRegions w g u).written = w := by
  rw [written, ofRegions, Slice.before_natCast, List.append_assoc]
  exact List.take_left

@[simp] theorem unread_ofRegions (w g u : List α) : (ofRegions w g u).unread = u := by
  rw [unread, ofRegions, Slice.behind_natCast, ← List.length_append]
  exact List.drop_left

theorem remaining_ofRegions (w g u : List α) : (ofRegions w g u).remaining = u.length := by
  simp only [remaining, ofRegions, size, List.length_append]
  omega

/-- A buffer is coherent if it has three regions. -/
theorem coherent_iff (b : GapBuffer α) : b.Coherent ↔ ∃ w g u, b = ofRegions w g u := by
  constructor
  · rintro ⟨front, order, inside⟩
    obtain ⟨slots, target, source⟩ := b
    obtain ⟨t, rfl⟩ := Int.eq_ofNat_of_zero_le front
    obtain ⟨s, rfl⟩ := Int.eq_ofNat_of_zero_le (Int.le_trans front order)
    have order : t ≤ s := Int.ofNat_le.mp order
    have inside : s ≤ slots.length := Int.ofNat_le.mp inside
    refine ⟨slots.take t, (slots.take s).drop t, slots.drop s, ?_⟩
    have joined : slots.take t ++ (slots.take s).drop t = slots.take s := by
      have parts := List.take_append_drop t (slots.take s)
      rwa [List.take_take, Nat.min_eq_left order] at parts
    have lengths : (slots.take t).length = t ∧ ((slots.take s).drop t).length = s - t := by
      rw [List.length_drop, List.length_take_of_le inside]
      exact ⟨List.length_take_of_le (Nat.le_trans order inside), rfl⟩
    rw [ofRegions, joined, List.take_append_drop, lengths.1, lengths.2, Nat.add_sub_cancel' order]
  · rintro ⟨w, g, u, rfl⟩
    simp only [Coherent, ofRegions, size, List.length_append]
    omega

/-- Items to be written overflow the gap if it is shorter. -/
theorem overflows_iff (w g u : List α) (n : Nat) :
    (ofRegions w g u).target + n > (ofRegions w g u).source ↔ g.length < n := by
  simp only [ofRegions]
  omega

/-- The length of a gap that is opened for `n` items. -/
theorem max_remaining (w g u : List α) (n : Nat) :
    max (n : Int) (ofRegions w g u).remaining = ((max n u.length : Nat) : Int) := by
  rw [remaining_ofRegions]
  omega

/-- Replacing a stretch behind the written items. -/
theorem replace_behind (w rest items : List α) (n : Nat) :
    Slice.replace (w ++ rest) (w.length : Int) (w.length + n : Int) items =
      w ++ items ++ rest.drop n := by
  have stop : (w.length + n : Int) = ((w.length + n : Nat) : Int) := rfl
  rw [stop, Slice.replace_natCast _ (Nat.le_add_right ..) (by rw [List.length_append]; omega),
    List.take_left, List.drop_length_add_append]

/-- Writing into a gap that has room. -/
theorem write_ofRegions {w g u items : List α} (room : items.length ≤ g.length) :
    (ofRegions w g u).write items = ofRegions (w ++ items) (g.drop items.length) u := by
  have lengths : w.length + g.length = (w ++ items).length + (g.drop items.length).length := by
    rw [List.length_append, List.length_drop]
    omega
  simp only [write, ofRegions]
  rw [List.append_assoc, replace_behind, List.drop_append_of_le_length room, ← List.append_assoc,
    lengths, List.length_append]
  rfl

variable [Inhabited α]

/-- A gap is opened only if the items do not fit, and then it is as long as what is unread, or
longer. -/
theorem reserve_ofRegions (w g u : List α) (n : Nat) :
    (ofRegions w g u).reserve n =
      ofRegions w (if g.length < n then g ++ List.replicate (max n u.length) default else g) u := by
  have full := overflows_iff w g u n
  by_cases short : g.length < n
  · have gap : unused (max (n : Int) (ofRegions w g u).remaining) =
        (List.replicate (max n u.length) default : List α) := by
      rw [max_remaining, unused, Int.toNat_natCast]
    have opened : Slice.replace (ofRegions w g u).slots (ofRegions w g u).source
        (ofRegions w g u).source (List.replicate (max n u.length) default) =
        w ++ (g ++ List.replicate (max n u.length) default) ++ u := by
      simp only [ofRegions]
      rw [Slice.replace_natCast _ (Nat.le_refl _) (by simp only [List.length_append]; omega),
        ← List.length_append, List.take_left, List.drop_left, List.append_assoc w g]
    rw [reserve, if_pos (full.mpr short), if_pos short]
    dsimp only
    rw [gap, opened, remaining_ofRegions, ofRegions]
    simp only [ofRegions, mk.injEq, true_and, List.length_append, List.length_replicate]
    omega
  · rw [reserve, if_neg (mt full.mp short), if_neg short]

/-- Once a gap was opened, the items to be written fit. -/
theorem exists_reserve_ofRegions (w g u : List α) (n : Nat) :
    ∃ g', n ≤ g'.length ∧ (ofRegions w g u).reserve n = ofRegions w g' u := by
  refine ⟨_, ?_, reserve_ofRegions w g u n⟩
  split
  · rw [List.length_append, List.length_replicate]
    omega
  · omega

theorem exists_extend_ofRegions (w g u items : List α) :
    ∃ g', (ofRegions w g u).extend items = ofRegions (w ++ items) g' u := by
  rw [extend]
  split
  · next empty => exact ⟨g, by rw [List.isEmpty_iff.mp empty, List.append_nil]⟩
  · obtain ⟨g', room, opened⟩ := exists_reserve_ofRegions w g u items.length
    exact ⟨_, by rw [opened, write_ofRegions room]⟩

/-- There is always a slot for an item, and writing one item is writing a list of one. -/
theorem push?_ofRegions (w g u : List α) (item : α) :
    (ofRegions w g u).push? item = some ((ofRegions w g u).extend [item]) := by
  obtain ⟨g', room, opened⟩ := exists_reserve_ofRegions w g u 1
  have extended : (ofRegions w g u).extend [item] = (ofRegions w g' u).write [item] := by
    rw [extend]
    exact congrArg (write · [item]) opened
  cases g' with
  | nil => cases room
  | cons slot g' =>
    have fits : [item].length ≤ (slot :: g').length := Nat.succ_le_succ (Nat.zero_le _)
    rw [extended, push?, opened, write_ofRegions fits]
    have place : Slice.position? (ofRegions w (slot :: g') u).size
        (ofRegions w (slot :: g') u).target = some w.length := by
      refine Slice.position?_natCast ?_
      simp only [size, ofRegions, List.length_append, List.length_cons]
      omega
    rw [place]
    simp only [Option.map_some, ofRegions, List.append_assoc, List.cons_append, List.nil_append,
      List.length_append, List.length_cons, List.length_nil, List.drop_succ_cons, List.drop_zero,
      Option.some.injEq, mk.injEq]
    refine ⟨?_, ?_, ?_⟩
    · rw [List.set_append_right _ _ (Nat.le_refl _), Nat.sub_self]
      rfl
    · omega
    · omega

omit [Inhabited α] in
/-- The items that a read of `n` items finds. -/
theorem between_ofRegions (w g u : List α) (n : Nat) :
    Slice.between (ofRegions w g u).slots (ofRegions w g u).source
      ((ofRegions w g u).source + n) = u.take n := by
  have stop : (ofRegions w g u).source + n = ((w.length + g.length + n : Nat) : Int) := rfl
  rw [stop]
  simp only [ofRegions]
  rw [Slice.between_natCast, ← List.length_append, List.take_length_add_append, List.drop_left]

omit [Inhabited α] in
/-- Emptying the first slots of the unread items. -/
theorem replace_unread (w g u : List α) (n : Nat) (items : List α) :
    Slice.replace (ofRegions w g u).slots (ofRegions w g u).source
      ((ofRegions w g u).source + n) items = w ++ (g ++ items) ++ u.drop n := by
  have replaced := replace_behind (w ++ g) u items n
  rw [List.length_append] at replaced
  rw [← List.append_assoc w g]
  exact replaced

theorem exists_drop_ofRegions (w g u : List α) (n : Nat) :
    ∃ g', g'.length = g.length + min n u.length ∧
      (ofRegions w g u).consume n false = ofRegions w g' (u.drop n) := by
  have count : min (n : Int) (ofRegions w g u).remaining = ((min n u.length : Nat) : Int) := by
    rw [remaining_ofRegions]
    omega
  have rest : u.drop (min n u.length) = u.drop n := by
    by_cases short : n ≤ u.length
    · rw [Nat.min_eq_left short]
    · rw [List.drop_eq_nil_of_le (by omega), List.drop_eq_nil_of_le (by omega)]
  refine ⟨g ++ List.replicate (min n u.length) default, ?_, ?_⟩
  · rw [List.length_append, List.length_replicate]
  · rw [consume, count]
    simp only [Bool.false_eq_true, if_false]
    rw [replace_unread, unused, Int.toNat_natCast, rest]
    simp only [ofRegions, mk.injEq, true_and, List.length_append, List.length_replicate]
    omega

/-- The items that were read leave slots to the gap. -/
theorem exists_take_ofRegions (w g u : List α) (n : Nat) :
    ∃ g', g'.length = g.length ∧
      (ofRegions w g u).consume n true = ofRegions (w ++ u.take n) g' (u.drop n) := by
  have count : min (n : Int) (ofRegions w g u).remaining = ((min n u.length : Nat) : Int) := by
    rw [remaining_ofRegions]
    omega
  have length : (u.take (min n u.length)).length = min n u.length := by
    rw [List.length_take]
    omega
  have read : u.take (min n u.length) = u.take n := List.take_eq_take_min.symm
  -- The slots behind the items that were moved: what is left of the gap, and what is unread.
  have slots : (if (ofRegions w g u).target = (ofRegions w g u).source then
        (ofRegions w g u).slots
      else Slice.replace (ofRegions w g u).slots (ofRegions w g u).target
        ((ofRegions w g u).target + (min n u.length : Nat)) (u.take (min n u.length))) =
      w ++ u.take (min n u.length) ++ (g ++ u).drop (min n u.length) := by
    split
    · next meet =>
      have empty : g = [] := by
        simp only [ofRegions] at meet
        exact List.length_eq_zero_iff.mp (by omega)
      simp only [empty, ofRegions, List.append_nil, List.nil_append, List.append_assoc,
        List.take_append_drop]
    · have replaced := replace_behind w (g ++ u) (u.take (min n u.length)) (min n u.length)
      rw [← replaced]
      simp only [ofRegions, List.append_assoc]
  have behind : (g ++ u).drop (min n u.length) =
      ((g ++ u).drop (min n u.length)).take g.length ++ u.drop n := by
    have parts := List.take_append_drop g.length ((g ++ u).drop (min n u.length))
    rw [List.drop_drop, Nat.add_comm, List.drop_length_add_append] at parts
    rw [← parts]
    congr 1
    · rw [parts]
    · by_cases short : n ≤ u.length
      · rw [Nat.min_eq_left short]
      · rw [List.drop_eq_nil_of_le (by omega), List.drop_eq_nil_of_le (by omega)]
  refine ⟨((g ++ u).drop (min n u.length)).take g.length, ?_, ?_⟩
  · rw [List.length_take, List.length_drop, List.length_append]
    omega
  · rw [consume, count]
    simp only [if_true]
    rw [between_ofRegions, slots]
    simp only [ofRegions, mk.injEq]
    refine ⟨?_, ?_, ?_⟩
    · conv => lhs; rw [behind, read, ← List.append_assoc]
    · rw [List.length_append, ← read, length]
      omega
    · rw [List.length_append, ← read, length, List.length_take, List.length_drop,
        List.length_append]
      omega

/-- Handing items out is reading them and dropping them. -/
theorem popFront_ofRegions (w g u : List α) (n : Nat) :
    (ofRegions w g u).popFront n = (u.take n, (ofRegions w g u).consume n false) := by
  have length : (u.take n).length = min n u.length := List.length_take
  have count : min (n : Int) (ofRegions w g u).remaining = ((min n u.length : Nat) : Int) := by
    rw [remaining_ofRegions]
    omega
  rw [popFront, consume, count]
  simp only [Bool.false_eq_true, if_false]
  rw [between_ofRegions, length]

omit [Inhabited α] in
theorem finish_ofRegions (w g u : List α) : (ofRegions w g u).finish = ofRegions w [] [] := by
  rw [finish, written_ofRegions]
  simp only [ofRegions, List.append_nil, List.length_nil, Nat.add_zero]

omit [Inhabited α] in
@[simp] theorem slots_finish (b : GapBuffer α) : b.finish.slots = b.written := rfl

omit [Inhabited α] in
-- On a buffer with three regions no step finds the target behind the source.
theorem become_ofRegions (w g u : List α) (b : GapBuffer α) :
    (become (ofRegions w g u) b : EStateM.Result (Fault ε) (GapBuffer α) Unit) =
      .ok () (ofRegions w g u) := by
  have order : (ofRegions w g u).target ≤ (ofRegions w g u).source := by
    simp only [ofRegions]
    omega
  rw [become, if_pos order]

theorem exists_consumeStep (w g u : List α) (n : Nat) (take : Bool) :
    ∃ g', (consumeStep n take (ofRegions w g u) : EStateM.Result (Fault ε) (GapBuffer α) Unit) =
      .ok () (ofRegions (if take then w ++ u.take n else w) g' (u.drop n)) := by
  cases take with
  | true =>
    obtain ⟨g', _, consumed⟩ := exists_take_ofRegions w g u n
    exact ⟨g', by rw [consumeStep, consumed, become_ofRegions]; rfl⟩
  | false =>
    obtain ⟨g', _, consumed⟩ := exists_drop_ofRegions w g u n
    exact ⟨g', by rw [consumeStep, consumed, become_ofRegions]; rfl⟩

theorem exists_extendStep (w g u items : List α) :
    ∃ g', (extendStep items (ofRegions w g u) : EStateM.Result (Fault ε) (GapBuffer α) Unit) =
      .ok () (ofRegions (w ++ items) g' u) := by
  rw [extendStep]
  split
  · next empty => exact ⟨g, by rw [List.isEmpty_iff.mp empty, List.append_nil]⟩
  · obtain ⟨g', extended⟩ := exists_extend_ofRegions w g u items
    exact ⟨g', by rw [extended, become_ofRegions]⟩

theorem exists_pushStep (w g u : List α) (item : α) :
    ∃ g', (pushStep item (ofRegions w g u) : EStateM.Result (Fault ε) (GapBuffer α) Unit) =
      .ok () (ofRegions (w ++ [item]) g' u) := by
  obtain ⟨g', extended⟩ := exists_extend_ofRegions w g u [item]
  refine ⟨g', ?_⟩
  simp only [pushStep, push?_ofRegions, extended]
  exact become_ofRegions _ _ _ _

theorem exists_popFrontStep (w g u : List α) (n : Nat) :
    ∃ g', (popFrontStep n (ofRegions w g u) : EStateM.Result (Fault ε) (GapBuffer α) (List α)) =
      .ok (u.take n) (ofRegions w g' (u.drop n)) := by
  obtain ⟨g', _, consumed⟩ := exists_drop_ofRegions w g u n
  exact ⟨g', by simp only [popFrontStep, popFront_ofRegions, consumed]⟩

end GapBuffer

end SortedCollections
