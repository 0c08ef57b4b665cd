import SortedCollections.Proofs.Merge.InPlace
import SortedCollections.Proofs.Merge.Rules
import SortedCollections.SortedMap

/-!
# Sets and maps in place

A set or a map that is merged with an operand in place is changed to what the merge into a new one
gives. If the operand is no collection or a comparison fails, it stays as it was. Several operands are
merged in one after the other, and what is done stays done.
-/
namespace SortedCollections

variable {ε α κ ν : Type}

namespace SortedSet

variable {cmp : Comparison ε α} {P : α → Prop}

/-- A set takes nothing from itself. -/
theorem merge_self (ordered : cmp.OrderedOn P) {rule : SetRule}
    (rids : rule = .difference ∨ rule = .symmetricDifference) {items : List α}
    (kept : IncreasingOn cmp.less P items) : merge cmp rule.operation items items = .ok [] := by
  obtain ⟨left, done, keptLeft, members⟩ := merge_members ordered rule kept kept
  rw [done, Except.ok.injEq, ← List.isEmpty_iff, ordered.isEmpty_iff keptLeft.inside]
  intro x hx
  rw [members x hx]
  rcases rids with rfl | rfl <;> simp [SetRule.holds]

variable [Inhabited α]

theorem updateOne_eq (rule : SetRule) (operand : Operand ε α) (s : SortedSet α) :
    updateOne cmp rule operand s = changedTo s (s.merged cmp rule [operand]) := by
  rw [updateOne, merged, List.foldlM_cons]
  cases operand.resolve cmp .ok s.items with
  | error e => rfl
  | ok right =>
    show _ = changedTo s ((merge cmp rule.operation s.items right >>= pure) >>= _)
    rw [bind_pure]
    simp only [mergeInPlace_eq]
    cases merge cmp rule.operation s.items right <;> rfl

/-- Operands are merged in one after the other; a failure leaves what has been done so far. -/
theorem update_cons (rule : SetRule) (operand : Operand ε α) (operands : List (Operand ε α))
    (s : SortedSet α) : update cmp rule (operand :: operands) s =
      (do updateOne cmp rule operand; update cmp rule operands) s := by
  rw [update, List.forM_eq_forM, List.forM_cons]
  rfl

theorem update_single (rule : SetRule) (operand : Operand ε α) (s : SortedSet α) :
    update cmp rule [operand] s = changedTo s (s.merged cmp rule [operand]) := by
  rw [update_cons, bind_run, updateOne_eq]
  cases s.merged cmp rule [operand] <;> rfl

/-- An operator that assigns does the same, but for a set that is taken away from itself, which it
empties. -/
theorem assign_eq (ordered : cmp.OrderedOn P) (rule : SetRule) (operand : Operand ε α)
    {s : SortedSet α} (kept : IncreasingOn cmp.less P s.items) :
    assign cmp rule operand s = changedTo s (s.merged cmp rule [operand]) := by
  -- Emptying compares nothing, while the merge has to find that every item ties with itself.
  have emptied (rids : rule = .difference ∨ rule = .symmetricDifference) :
      s.merged cmp rule [.self] = .ok .empty := by
    rw [merged, List.foldlM_cons, Operand.resolve]
    show ((merge cmp rule.operation s.items s.items >>= pure) >>= _) = _
    rw [merge_self ordered rids kept]
    rfl
  cases operand with
  | self =>
    cases rule with
    | union => exact updateOne_eq .union .self s
    | intersection => exact updateOne_eq .intersection .self s
    | difference => rw [emptied (.inl rfl)]; rfl
    | symmetricDifference => rw [emptied (.inr rfl)]; rfl
  | sorted items => cases rule <;> exact updateOne_eq _ (.sorted items) s
  | unsorted items => cases rule <;> exact updateOne_eq _ (.unsorted items) s
  | refused cause => cases rule <;> exact updateOne_eq _ (.refused cause) s

end SortedSet

theorem SortedMap.update_eq [Inhabited κ] [Inhabited ν] {cmp : Comparison ε κ} (rule : MapRule ε κ ν)
    (operand : Operand ε (κ × ν)) (m : SortedMap κ ν) :
    update cmp rule operand m = changedTo m (m.merged cmp rule operand) := by
  rw [update, merged]
  cases operand.resolve cmp key m.entries with
  | error e => rfl
  | ok right =>
    simp only [mergeEntries, mergeInPlace_eq]
    show _ = changedTo m (merge cmp rule.operation m.entries right >>= _)
    cases merge cmp rule.operation m.entries right <;> rfl

end SortedCollections
