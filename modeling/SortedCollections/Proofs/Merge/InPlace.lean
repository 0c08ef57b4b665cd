import SortedCollections.GapBuffer.Lemmas
import SortedCollections.Merge.Memory
import SortedCollections.Proofs.Merge.Simulation

/-!
# Rebuilding the left input in place

A merge back into the left list mirrors a merge into a new list: the written items of its buffer are
the new list so far, the unread ones are what is left of the left input, and the gap between them is
of no interest. Every step of a merge target keeps it so, whether it succeeds or fails. Therefore
both merges end alike, whatever the policy does, and a failed one puts the left list back.
-/
namespace SortedCollections

variable {ε α κ μ : Type}

/-- The merge in place mirrors a merge into a new list. -/
structure Mirrors (saved : List α) (s : ListMerge α) (t : InPlaceMerge α) : Prop where
  buffer : ∃ gap, t.buffer = .ofRegions s.result gap s.unreadLeft
  within : s.i ≤ s.left.length
  right : t.right = s.right
  cursor : t.j = s.j
  saved : t.saved = saved

namespace Mirrors

variable {saved : List α} {s : ListMerge α} {t : InPlaceMerge α}

theorem start (left right : List α) :
    Mirrors left (.start left right) (.start left right) where
  buffer := ⟨[], rfl⟩
  within := Nat.zero_le _
  right := rfl
  cursor := rfl
  saved := rfl

/-- Both merges show the same items still to come. -/
theorem shown (mirrors : Mirrors saved s t) :
    s.unreadLeft = t.inputs.unreadLeft ∧ s.unreadRight = t.inputs.unreadRight := by
  obtain ⟨gap, buffer⟩ := mirrors.buffer
  constructor
  · simp only [InPlaceMerge.inputs, Inputs.unreadLeft, buffer, GapBuffer.ofRegions,
      Int.toNat_natCast]
    rw [← List.length_append, List.drop_left]
  · simp only [InPlaceMerge.inputs, Inputs.unreadRight, mirrors.right, mirrors.cursor]

/-- There are as many unread items on either side. -/
theorem room (mirrors : Mirrors saved s t) (n : Nat) :
    (n : Int) ≤ t.buffer.remaining ↔ s.i + n ≤ s.left.length := by
  obtain ⟨gap, buffer⟩ := mirrors.buffer
  have within := mirrors.within
  rw [buffer, GapBuffer.remaining_ofRegions, Inputs.unreadLeft, List.length_drop]
  omega

variable [Inhabited α]

theorem advanceLeft (mirrors : Mirrors saved s t) (n : Nat) (take : Bool) :
    Agree (Mirrors saved) (ListMerge.advanceLeft n take s : EStateM.Result (Fault ε) _ _)
      (InPlaceMerge.advanceLeft n take t) := by
  obtain ⟨gap, buffer⟩ := mirrors.buffer
  rw [ListMerge.advanceLeft, stretch, InPlaceMerge.advanceLeft, bind_run, InPlaceMerge.reading]
  by_cases room : s.i + n ≤ s.left.length
  · obtain ⟨gap', consumed⟩ := GapBuffer.exists_consumeStep (ε := ε) s.result gap s.unreadLeft n take
    rw [if_pos room, if_pos ((mirrors.room n).mpr room), InPlaceMerge.onBuffer, buffer, consumed]
    refine .ok ⟨⟨gap', ?_⟩, room, mirrors.right, mirrors.cursor, mirrors.saved⟩
    simp only [Inputs.unreadLeft, List.drop_drop]
  · rw [if_neg room, if_neg (mt (mirrors.room n).mp room)]
    exact .error mirrors

theorem advanceRight (mirrors : Mirrors saved s t) (n : Nat) (take : Bool) :
    Agree (Mirrors saved) (ListMerge.advanceRight n take s : EStateM.Result (Fault ε) _ _)
      (InPlaceMerge.advanceRight n take t) := by
  obtain ⟨gap, buffer⟩ := mirrors.buffer
  rw [ListMerge.advanceRight, InPlaceMerge.advanceRight, mirrors.right, mirrors.cursor]
  cases (stretch s.right s.j n : Except (Fault ε) (List α)) with
  | error e => exact .error mirrors
  | ok items =>
    dsimp only
    cases take with
    | true =>
      obtain ⟨gap', extended⟩ := GapBuffer.exists_extendStep (ε := ε) s.result gap s.unreadLeft items
      rw [if_pos rfl, if_pos rfl, InPlaceMerge.onBuffer, buffer, extended]
      exact .ok ⟨⟨gap', rfl⟩, mirrors.within, mirrors.right, by rw [← mirrors.cursor], mirrors.saved⟩
    | false =>
      exact .ok ⟨⟨gap, buffer⟩, mirrors.within, mirrors.right, by rw [← mirrors.cursor],
        mirrors.saved⟩

theorem takeLeft (mirrors : Mirrors saved s t) (n : Nat) :
    Agree (Mirrors saved) (ListMerge.takeLeft n s : EStateM.Result (Fault ε) _ _)
      (InPlaceMerge.takeLeft n t) := by
  obtain ⟨gap, buffer⟩ := mirrors.buffer
  rw [ListMerge.takeLeft, stretch, InPlaceMerge.takeLeft, InPlaceMerge.reading]
  by_cases room : s.i + n ≤ s.left.length
  · obtain ⟨gap', popped⟩ := GapBuffer.exists_popFrontStep (ε := ε) s.result gap s.unreadLeft n
    rw [if_pos room, if_pos ((mirrors.room n).mpr room), InPlaceMerge.onBuffer, buffer, popped]
    refine .ok ⟨⟨gap', ?_⟩, room, mirrors.right, mirrors.cursor, mirrors.saved⟩
    simp only [Inputs.unreadLeft, List.drop_drop]
  · rw [if_neg room, if_neg (mt (mirrors.room n).mp room)]
    exact .error mirrors

omit [Inhabited α] in
theorem takeRight (mirrors : Mirrors saved s t) (n : Nat) :
    Agree (Mirrors saved) (ListMerge.takeRight n s : EStateM.Result (Fault ε) _ _)
      (InPlaceMerge.takeRight n t) := by
  rw [ListMerge.takeRight, InPlaceMerge.takeRight, mirrors.right, mirrors.cursor]
  cases (stretch s.right s.j n : Except (Fault ε) (List α)) with
  | error e => exact .error mirrors
  | ok items => exact .ok ⟨mirrors.buffer, mirrors.within, rfl, rfl, mirrors.saved⟩

theorem push (mirrors : Mirrors saved s t) (item : α) :
    Agree (Mirrors saved) (ListMerge.push item s : EStateM.Result (Fault ε) _ _)
      (InPlaceMerge.push item t) := by
  obtain ⟨gap, buffer⟩ := mirrors.buffer
  obtain ⟨gap', pushed⟩ := GapBuffer.exists_pushStep (ε := ε) s.result gap s.unreadLeft item
  rw [ListMerge.push, InPlaceMerge.push, InPlaceMerge.onBuffer, buffer, pushed]
  exact .ok ⟨⟨gap', rfl⟩, mirrors.within, mirrors.right, mirrors.cursor, mirrors.saved⟩

/-- Every step of a merge target keeps the mirror. -/
theorem agrees (saved : List α) :
    (ListMerge.sink : Sink ε α (ListMerge α)).Agrees (Mirrors saved) InPlaceMerge.sink where
  advanceLeft n take mirrors := mirrors.advanceLeft n take
  advanceRight n take mirrors := mirrors.advanceRight n take
  takeLeft n mirrors := mirrors.takeLeft n
  takeRight n mirrors := mirrors.takeRight n
  push item mirrors := mirrors.push item

omit [Inhabited α] in
/-- What is written when the merge ends is the new list. -/
theorem finish (mirrors : Mirrors saved s t) : t.finish.buffer.slots = s.result := by
  obtain ⟨gap, buffer⟩ := mirrors.buffer
  rw [InPlaceMerge.finish, GapBuffer.slots_finish, buffer, GapBuffer.written_ofRegions]

omit [Inhabited α] in
/-- A merge that is given up puts the left list back. -/
theorem abort (mirrors : Mirrors saved s t) : t.abort.buffer.slots = saved := mirrors.saved

end Mirrors

variable [Inhabited α]

/-- What an operation in place does to its state if the operation that makes a new one gives this
answer. -/
def changedTo {σ : Type} (s : σ) : Except (Fault ε) σ → EStateM.Result (Fault ε) σ Unit
  | .ok t => .ok () t
  | .error e => .error e s

/-- What a merge in place does to the left list if a merge into a new list gives this answer. -/
def inPlaceOf (left : List α) :
    Except (Fault ε) (List α) → EStateM.Result (Fault ε) (List α) Unit
  | .ok result => .ok () result
  | .error e => .error e left

/-- A merge of what is left of both inputs keeps the mirror, from wherever the cursors stand. -/
theorem Operation.run_agree (cmp : Comparison ε κ) (op : Operation ε α κ) {saved : List α}
    {s : ListMerge α} {t : InPlaceMerge α} (mirrors : Mirrors saved s t) :
    Agree (Mirrors saved) (op.run cmp ListMerge.sink s) (op.run cmp InPlaceMerge.sink t) :=
  Engine.remainder_agree cmp op.key (fun _ _ mirrors => mirrors.shown)
    (fun call _ _ mirrors => Script.run_agree (Mirrors.agrees saved) (op.policy.script call) mirrors)
    mirrors

theorem mergeInPlace_eq (cmp : Comparison ε κ) (op : Operation ε α κ) (left right : List α) :
    mergeInPlace cmp op right left = inPlaceOf left (merge cmp op left right) := by
  have agree := op.run_agree cmp (Mirrors.start left right)
  rw [mergeInPlace, merge]
  generalize op.run cmp ListMerge.sink (.start left right) = new,
    op.run cmp InPlaceMerge.sink (.start left right) = rebuilt at agree
  cases agree with
  | ok mirrors => exact congrArg _ mirrors.finish
  | error mirrors => exact congrArg _ mirrors.abort

/-- The states of two merges and the memories of their operations. -/
theorem MemoryOperation.run_mirrors (cmp : Comparison ε κ) (op : MemoryOperation ε α κ μ) (memory : μ)
    (left right : List α) :
    Agree (fun s t => Mirrors left s.1 t.1 ∧ s.2 = t.2)
      (op.run cmp ListMerge.sink (.start left right, memory))
      (op.run cmp InPlaceMerge.sink (.start left right, memory)) := by
  refine Engine.remainder_agree cmp op.key (fun s t related => related.1.shown) ?_
    ⟨Mirrors.start left right, rfl⟩
  rintro call ⟨s, memory⟩ ⟨t, _⟩ ⟨mirrors, rfl⟩
  have agree := Script.run_agree (Mirrors.agrees left) (op.script call memory) mirrors
  rw [handler, handler]
  generalize (op.script call memory).run ListMerge.sink s = new,
    (op.script call memory).run InPlaceMerge.sink t = rebuilt at agree
  cases agree with
  | ok mirrors => exact .ok ⟨mirrors, rfl⟩
  | error mirrors => exact .error ⟨mirrors, rfl⟩

theorem MemoryOperation.mergeInPlace_eq (cmp : Comparison ε κ) (op : MemoryOperation ε α κ μ)
    (memory : μ) (left right : List α) :
    op.mergeInPlace cmp memory right left = inPlaceOf left (op.merge cmp memory left right) := by
  have agree := op.run_mirrors cmp memory left right
  rw [mergeInPlace, merge]
  generalize op.run cmp ListMerge.sink (.start left right, memory) = new,
    op.run cmp InPlaceMerge.sink (.start left right, memory) = rebuilt at agree
  cases agree with
  | ok related => exact congrArg _ related.1.finish
  | error related => exact congrArg _ related.1.abort

/-- A merge in place leaves exactly the list that a merge into a new list returns, or ends in the
same fault with the left list as it was. Nothing is assumed of the lists, which may be one and the
same, of the comparison, or of the operation, which may stop early, fail anywhere, go on after a
failed step and remember what it has done. -/
theorem in_place_merge_agrees_with_merge (cmp : Comparison ε κ) (left right : List α) :
    (∀ op : Operation ε α κ,
      mergeInPlace cmp op right left = inPlaceOf left (merge cmp op left right)) ∧
    ∀ (μ : Type) (op : MemoryOperation ε α κ μ) (memory : μ),
      op.mergeInPlace cmp memory right left = inPlaceOf left (op.merge cmp memory left right) :=
  ⟨fun op => mergeInPlace_eq cmp op left right,
    fun _ op memory => op.mergeInPlace_eq cmp memory left right⟩

end SortedCollections
