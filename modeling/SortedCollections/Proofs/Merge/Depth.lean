import Mathlib.Data.Nat.Size
import SortedCollections.Proofs.Merge.Schedule

/-!
# How deep a merge nests

A window of a merge is split at the middle of its left part, wherever the middle item is found on the
right. So the windows within it are at most half as long on the left, and the recursion nests no deeper
than the length of the left part has binary digits, and one frame more for the empty windows. This asks
nothing of the right part, of the order of either list, or of the answers that the merge gets.

To say so, a merge is given a number of frames that it may nest, and fails if it needs another one.
-/
namespace SortedCollections

variable {ε α κ σ β γ : Type}

/-- How a merge fails that may only nest so deep. -/
inductive LimitedFault (ε : Type) where
  | fault (fault : Fault ε)
  | tooDeep
  deriving Repr

/-- A step that needs no frame. -/
def unlimited (step : EStateM (Fault ε) σ β) : EStateM (LimitedFault ε) σ β := fun s =>
  match step s with
  | .ok b s => .ok b s
  | .error e s => .error (.fault e) s

theorem unlimited_bind (first : EStateM (Fault ε) σ β) (second : β → EStateM (Fault ε) σ γ) :
    unlimited (first >>= second) = (do unlimited (second (← unlimited first))) := by
  funext s
  rw [unlimited, bind_run, bind_run, unlimited]
  cases first s <;> rfl

theorem unlimited_pure (b : β) : unlimited (pure b : EStateM (Fault ε) σ β) = pure b := rfl

/-- One step and then another, if the first one answers yes. -/
theorem unlimited_both (first second : EStateM (Fault ε) σ Bool) :
    unlimited (do if ← first then second else return false) =
      (do if ← unlimited first then unlimited second else return false) := by
  rw [unlimited_bind]
  refine bind_congr fun more => ?_
  cases more <;> rfl

theorem unlimited_ne_tooDeep (step : EStateM (Fault ε) σ β) (s s' : σ) :
    unlimited step s ≠ .error .tooDeep s' := by
  rw [unlimited]
  cases step s <;> simp

namespace Engine

/-- How a merge finds the item that stands some places ahead on the left among the next items on the
right. The comparisons and keys behind the answer may go by the state, and may change it. -/
abbrev Search (ε σ : Type) : Type := (half n : Nat) → EStateM (Fault ε) σ (Nat × Bool)

/-- The search of a merge whose comparisons and keys remember nothing. -/
def searchIn (cmp : Comparison ε κ) (key : α → Except ε κ) (inputs : σ → Except (Fault ε) (Inputs α)) :
    Search ε σ := fun half n => do
  lift (locate cmp key (← lift (inputs (← get))) half n)

/-- Merges the next `m` items on the left with the next `n` items on the right, with any search. -/
def windowBy (search : Search ε σ) (handler : Handler ε σ) (m n : Nat) : EStateM (Fault ε) σ Bool :=
  if m = 0 then
    if n = 0 then pure true else handler (.right n)
  else if n = 0 then
    handler (.left m)
  else do
    let half := m / 2
    let (place, found) ← search half n
    if ← windowBy search handler half place then
      if ← handler (if found then .tie else .left 1) then
        windowBy search handler (m - half - 1) (if found then n - place - 1 else n - place)
      else
        return false
    else
      return false
termination_by m
decreasing_by all_goals omega

/-- A merge as `windowBy` does it, which may nest so many frames and no more. -/
def windowWithin (search : Search ε σ) (handler : Handler ε σ) :
    (frames m n : Nat) → EStateM (LimitedFault ε) σ Bool
  | 0, _, _ => throw .tooDeep
  | frames + 1, m, n =>
    if m = 0 then
      if n = 0 then pure true else unlimited (handler (.right n))
    else if n = 0 then
      unlimited (handler (.left m))
    else do
      let half := m / 2
      let (place, found) ← unlimited (search half n)
      if ← windowWithin search handler frames half place then
        if ← unlimited (handler (if found then .tie else .left 1)) then
          windowWithin search handler frames (m - half - 1)
            (if found then n - place - 1 else n - place)
        else
          return false
      else
        return false

theorem window_eq_windowBy (cmp : Comparison ε κ) (key : α → Except ε κ)
    (inputs : σ → Except (Fault ε) (Inputs α)) (handler : Handler ε σ) (m n : Nat) :
    window cmp key inputs handler m n = windowBy (searchIn cmp key inputs) handler m n := by
  induction m using Nat.strongRecOn generalizing n with
  | ind m ih =>
    rw [window, windowBy]
    by_cases noLeft : m = 0
    · rw [if_pos noLeft, if_pos noLeft]
    by_cases noRight : n = 0
    · rw [if_neg noLeft, if_neg noLeft, if_pos noRight, if_pos noRight]
    rw [if_neg noLeft, if_neg noLeft, if_neg noRight, if_neg noRight]
    simp only [searchIn, bind_assoc, ih (m / 2) (by omega), ih (m - m / 2 - 1) (by omega)]

/-- A window that is shorter than `2 ^ frames` on the left needs one frame more than that. -/
theorem windowWithin_eq (search : Search ε σ) (handler : Handler ε σ) {frames m : Nat}
    (short : m < Nat.pow 2 frames) (n : Nat) :
    windowWithin search handler (frames + 1) m n = unlimited (windowBy search handler m n) := by
  induction frames generalizing m n with
  | zero =>
    have noLeft : m = 0 := Nat.lt_one_iff.mp short
    rw [windowWithin, windowBy, if_pos noLeft, if_pos noLeft]
    by_cases noRight : n = 0
    · rw [if_pos noRight, if_pos noRight, unlimited_pure]
    · rw [if_neg noRight, if_neg noRight]
  | succ frames ih =>
    rw [windowWithin, windowBy]
    by_cases noLeft : m = 0
    · rw [if_pos noLeft, if_pos noLeft]
      by_cases noRight : n = 0
      · rw [if_pos noRight, if_pos noRight, unlimited_pure]
      · rw [if_neg noRight, if_neg noRight]
    by_cases noRight : n = 0
    · rw [if_neg noLeft, if_neg noLeft, if_pos noRight, if_pos noRight]
    rw [if_neg noLeft, if_neg noLeft, if_neg noRight, if_neg noRight]
    have short : m < Nat.pow 2 frames * 2 := short
    have before : m / 2 < Nat.pow 2 frames := by omega
    have behind : m - m / 2 - 1 < Nat.pow 2 frames := by omega
    rw [unlimited_bind]
    refine bind_congr fun found => ?_
    dsimp only
    rw [unlimited_both, unlimited_both, ih before, ih behind]

end Engine

/-- A merge of `m` items on the left nests at most one frame more than `m` has binary digits, whatever
stands on the right. With so many frames it never needs another one, and gives the result of a merge
without a limit, makes the same calls at the same cursors, and leaves the same state behind. Comparisons,
keys and calls may answer or fail as they like; what they answer may even depend on what was asked
before. -/
theorem merge_nests_logarithmically (handler : Handler ε σ) (m n : Nat) :
    (∀ search : Engine.Search ε σ,
      Engine.windowWithin search handler (m.size + 1) m n =
        unlimited (Engine.windowBy search handler m n)) ∧
    ∀ (cmp : Comparison ε κ) (key : α → Except ε κ) (inputs : σ → Except (Fault ε) (Inputs α)),
      Engine.windowWithin (Engine.searchIn cmp key inputs) handler (m.size + 1) m n =
        unlimited (Engine.window cmp key inputs handler m n) ∧
      Engine.windowWithin (Engine.searchIn cmp key fun s => inputs s.state)
          (Traced.handler inputs none handler) (m.size + 1) m n =
        unlimited (Engine.window cmp key (fun s => inputs s.state)
          (Traced.handler inputs none handler) m n) ∧
      ∀ s s', Engine.windowWithin (Engine.searchIn cmp key inputs) handler (m.size + 1) m n s ≠
        .error .tooDeep s' := by
  have short : m < Nat.pow 2 m.size := Nat.lt_size_self m
  refine ⟨fun search => Engine.windowWithin_eq search handler short n, fun cmp key inputs => ?_⟩
  have enough := Engine.windowWithin_eq (Engine.searchIn cmp key inputs) handler short n
  rw [← Engine.window_eq_windowBy] at enough
  refine ⟨enough, ?_, fun s s' => ?_⟩
  · rw [Engine.window_eq_windowBy]
    exact Engine.windowWithin_eq _ _ short n
  · rw [enough]
    exact unlimited_ne_tooDeep _ s s'

/-- With one frame less, one item on either side is too much. -/
example (handler : Handler Unit Unit) :
    Engine.windowWithin (fun _ _ => pure (0, false)) handler 1 1 1 () = .error .tooDeep () := rfl

end SortedCollections
