import SortedCollections.Sorting.Gallop

/-!
# Merging two neighbouring runs

Two sorted runs that stand next to each other become one. What is in place already at the two
outer ends is left alone. The rest is merged from the end of the shorter run: forward, smallest
first, or backward, largest first.

Both ways are one procedure. On the side of the `favoured` run stand the items that are taken on
a tie: the left run going forward, the right run going backward. The procedure walks, comparing the
two heads, until one side has won `threshold` times in a row. It then gallops, taking stretches of
one side after the other, as long as the stretches are long. Galloping that pays off makes the
threshold smaller, and the end of it makes the threshold larger; the threshold is kept from one
merge to the next.
-/
namespace SortedCollections

namespace Sorting

variable {ε α : Type}

/-- The two sides of a merge. -/
inductive Side where
  /-- The side that wins ties. -/
  | favoured
  | other
  deriving Repr, DecidableEq

def Side.across : Side → Side
  | .favoured => .other
  | .other => .favoured

def Direction.left : Direction → Side
  | .forward => .favoured
  | .backward => .other

/-- Does an item of the other side come before one of the favoured side? -/
def Direction.beats (d : Direction) (lt : α → α → Except ε Bool) (other favoured : α) :
    Except ε Bool :=
  match d with
  | .forward => lt other favoured
  | .backward => lt favoured other

/-- The length from which on a stretch counts as long. -/
def longStretch : Nat := 7

/-- Two runs on their way into one. -/
structure Blend (α : Type) where
  /-- The items that have been placed, the last one first. -/
  placed : List α
  /-- What is left of the two runs. -/
  favoured : List α
  other : List α
  deriving Repr

namespace Blend

/-- What is left on a side. -/
def left (b : Blend α) : Side → List α
  | .favoured => b.favoured
  | .other => b.other

def place (b : Blend α) (side : Side) (n : Nat) : Blend α :=
  let placed := (b.left side).take n |>.reverseAux b.placed
  match side with
  | .favoured => { b with placed, favoured := b.favoured.drop n }
  | .other => { b with placed, other := b.other.drop n }

/-- Is it known where all items go? The last item of the favoured side belongs behind everything
else. -/
def isSettled (b : Blend α) : Bool :=
  match b.favoured, b.other with
  | _ :: _ :: _, _ :: _ => false
  | _, _ => true

/-- The items in the order in which they are placed, once that is known. -/
def items (b : Blend α) : List α := b.placed.reverseAux (b.other ++ b.favoured)

/-- How many items have not been placed. -/
def size (b : Blend α) : Nat := b.favoured.length + b.other.length

/-- Places the smaller of the two heads, and says which side it came from. -/
def step (d : Direction) (lt : α → α → Except ε Bool) (b : Blend α) :
    Except ε (Side × Blend α) := do
  match b.favoured, b.other with
  | f :: _, s :: _ =>
    let side := if ← d.beats lt s f then Side.other else .favoured
    return (side, b.place side 1)
  | _, _ => return (.other, b)

/-- How many items of a side come before the head of the side across. -/
def stretch (d : Direction) (lt : α → α → Except ε Bool) (b : Blend α) (side : Side) :
    Except ε Nat :=
  match side, b.favoured, b.other with
  | .favoured, fs, s :: _ => gallop d (fun f => do return !(← d.beats lt s f)) fs
  | .other, f :: _, ss => gallop d (fun s => d.beats lt s f) ss
  | _, _, _ => .ok 0

/-- Places a stretch of one side and then the head of the side across, if that is not settled by
then. Says how long the stretch was. -/
def leap (d : Direction) (lt : α → α → Except ε Bool) (b : Blend α) (side : Side) :
    Except ε (Nat × Blend α) := do
  let n ← b.stretch d lt side
  let b := b.place side n
  return (n, if b.isSettled then b else b.place side.across 1)

/-- Leaps on the side of the left run and then on the side across. Says whether a stretch was
long. -/
def round (d : Direction) (lt : α → α → Except ε Bool) (b : Blend α) :
    Except ε (Bool × Blend α) := do
  let (m, b) ← b.leap d lt d.left
  if b.isSettled then
    return (longStretch ≤ m, b)
  else
    let (n, b) ← b.leap d lt d.left.across
    return (longStretch ≤ max m n, b)

theorem eq_of_not_settled {b : Blend α} (open_ : b.isSettled = false) :
    ∃ f g fs s ss, b.favoured = f :: g :: fs ∧ b.other = s :: ss := by
  obtain ⟨_, _ | ⟨f, _ | ⟨g, fs⟩⟩, _ | ⟨s, ss⟩⟩ := b
  all_goals cases open_
  exact ⟨f, g, fs, s, ss, rfl, rfl⟩

theorem size_place_le (b : Blend α) (side : Side) (n : Nat) : (b.place side n).size ≤ b.size := by
  cases side with
  | favoured => simp only [size, place, List.length_drop]; omega
  | other => simp only [size, place, List.length_drop]; omega

theorem size_place_lt {b : Blend α} (open_ : b.isSettled = false) (side : Side) :
    (b.place side 1).size < b.size := by
  obtain ⟨f, g, fs, s, ss, favoured, other⟩ := eq_of_not_settled open_
  cases side with
  | favoured => simp only [size, place, favoured, other, List.length_drop, List.length_cons]; omega
  | other => simp only [size, place, favoured, other, List.length_drop, List.length_cons]; omega

theorem size_step_lt {d : Direction} {lt : α → α → Except ε Bool} {b : Blend α}
    {result : Side × Blend α} (open_ : b.isSettled = false)
    (stepped : b.step d lt = .ok result) : result.2.size < b.size := by
  obtain ⟨f, g, fs, s, ss, favoured, other⟩ := eq_of_not_settled open_
  rw [step, favoured, other] at stepped
  obtain ⟨_, _, stepped⟩ := bind_eq_ok.mp stepped
  cases stepped
  exact size_place_lt open_ _

theorem size_leap_le {d : Direction} {lt : α → α → Except ε Bool} {b : Blend α} {side : Side}
    {result : Nat × Blend α} (leapt : b.leap d lt side = .ok result) :
    result.2.size ≤ b.size := by
  obtain ⟨n, _, leapt⟩ := bind_eq_ok.mp leapt
  cases leapt
  dsimp only
  split
  · exact size_place_le ..
  · exact Nat.le_trans (size_place_le ..) (size_place_le ..)

theorem size_leap_lt {d : Direction} {lt : α → α → Except ε Bool} {b : Blend α} {side : Side}
    {result : Nat × Blend α} (open_ : result.2.isSettled = false)
    (leapt : b.leap d lt side = .ok result) : result.2.size < b.size := by
  obtain ⟨n, _, leapt⟩ := bind_eq_ok.mp leapt
  cases leapt
  dsimp only at open_ ⊢
  split at open_
  · next settled => rw [settled] at open_; cases open_
  · next unsettled =>
    rw [if_neg unsettled]
    exact Nat.lt_of_lt_of_le (size_place_lt (Bool.eq_false_iff.mpr unsettled) _)
      (size_place_le ..)

theorem size_round_lt {d : Direction} {lt : α → α → Except ε Bool} {b : Blend α}
    {result : Bool × Blend α} (open_ : result.2.isSettled = false)
    (rounded : b.round d lt = .ok result) : result.2.size < b.size := by
  obtain ⟨⟨m, middle⟩, first, rounded⟩ := bind_eq_ok.mp rounded
  dsimp only at rounded
  split at rounded
  · cases rounded
    exact size_leap_lt open_ first
  · obtain ⟨⟨n, last⟩, second, rounded⟩ := bind_eq_ok.mp rounded
    cases rounded
    exact Nat.lt_of_lt_of_le (size_leap_lt open_ second) (size_leap_le first)

theorem place_perm (b : Blend α) (side : Side) (n : Nat) :
    (b.place side n).items.Perm b.items := by
  cases side with
  | favoured =>
    have parts := List.take_append_drop n b.favoured
    simp only [items, place, left, List.reverseAux_eq, List.reverse_append, List.reverse_reverse,
      List.append_assoc]
    refine List.Perm.append_left _ ?_
    conv => rhs; rw [← parts]
    rw [← List.append_assoc, ← List.append_assoc]
    exact List.Perm.append_right _ List.perm_append_comm
  | other =>
    simp only [items, place, left, List.reverseAux_eq, List.reverse_append, List.reverse_reverse,
      List.append_assoc]
    rw [← List.append_assoc (b.other.take n), List.take_append_drop]

theorem step_perm {d : Direction} {lt : α → α → Except ε Bool} {b : Blend α}
    {result : Side × Blend α} (stepped : b.step d lt = .ok result) :
    result.2.items.Perm b.items := by
  obtain ⟨_, _ | ⟨f, fs⟩, _ | ⟨s, ss⟩⟩ := b
  all_goals try (cases stepped; exact List.Perm.refl _)
  obtain ⟨_, _, stepped⟩ := bind_eq_ok.mp stepped
  cases stepped
  exact place_perm ..

theorem leap_perm {d : Direction} {lt : α → α → Except ε Bool} {b : Blend α} {side : Side}
    {result : Nat × Blend α} (leapt : b.leap d lt side = .ok result) :
    result.2.items.Perm b.items := by
  obtain ⟨n, _, leapt⟩ := bind_eq_ok.mp leapt
  cases leapt
  dsimp only
  split
  · exact place_perm ..
  · exact (place_perm ..).trans (place_perm ..)

theorem round_perm {d : Direction} {lt : α → α → Except ε Bool} {b : Blend α}
    {result : Bool × Blend α} (rounded : b.round d lt = .ok result) :
    result.2.items.Perm b.items := by
  obtain ⟨⟨m, middle⟩, first, rounded⟩ := bind_eq_ok.mp rounded
  dsimp only at rounded
  split at rounded
  · cases rounded
    exact leap_perm first
  · obtain ⟨⟨n, last⟩, second, rounded⟩ := bind_eq_ok.mp rounded
    cases rounded
    exact (leap_perm second).trans (leap_perm first)

end Blend

/-- How a merge goes about finding the next items. -/
inductive Pace where
  /-- One by one; one side has just won a number of times in a row. -/
  | walk (winner : Side) (wins : Nat)
  /-- By stretches. -/
  | gallop
  deriving Repr

/-- The pace of a merge that begins to walk. -/
def Pace.begin : Pace := .walk .other 0

/-- Merges what is left of two runs until it is settled, and says how the threshold has changed. -/
def Blend.settle (d : Direction) (lt : α → α → Except ε Bool) (threshold : Nat) (pace : Pace)
    (b : Blend α) : Except ε (Nat × Blend α) :=
  if _settled : b.isSettled then
    .ok (threshold, b)
  else
    match pace with
    | .walk winner wins =>
      match stepped : b.step d lt with
      | .error e => .error e
      | .ok (side, next) =>
        let wins := if side = winner then wins + 1 else 1
        next.settle d lt threshold (if wins < threshold then .walk side wins else .gallop)
    | .gallop =>
      match rounded : b.round d lt with
      | .error e => .error e
      | .ok (long, next) =>
        if settled : next.isSettled then
          .ok (threshold, next)
        else if long then
          next.settle d lt (max 1 (threshold - 1)) .gallop
        else
          next.settle d lt (threshold + 1) .begin
termination_by b.size
decreasing_by
  · exact Blend.size_step_lt (Bool.eq_false_iff.mpr _settled) stepped
  · exact Blend.size_round_lt (Bool.eq_false_iff.mpr settled) rounded
  · exact Blend.size_round_lt (Bool.eq_false_iff.mpr settled) rounded

theorem Blend.settle_perm {d : Direction} {lt : α → α → Except ε Bool} {threshold : Nat}
    {pace : Pace} {b : Blend α} {result : Nat × Blend α}
    (merged : b.settle d lt threshold pace = .ok result) : result.2.items.Perm b.items := by
  fun_induction Blend.settle d lt threshold pace b with
  | case1 => cases merged; exact List.Perm.refl _
  | case2 => cases merged
  | case3 _ b _ _ _ side next stepped _ ih => exact (ih merged).trans (Blend.step_perm stepped)
  | case4 => cases merged
  | case5 _ b _ long next rounded => cases merged; exact Blend.round_perm rounded
  | case6 _ b _ next _ rounded ih => exact (ih merged).trans (Blend.round_perm rounded)
  | case7 _ b _ long next rounded _ _ ih => exact (ih merged).trans (Blend.round_perm rounded)

/-- Merges two runs of which the favoured one stands on its side, the other one across. The head
of the other run is known to come first. -/
def blend (d : Direction) (lt : α → α → Except ε Bool) (threshold : Nat)
    (favoured other : List α) : Except ε (Nat × List α) := do
  let start : Blend α := { placed := [], favoured, other }
  let (threshold, b) ← (start.place .other 1).settle d lt threshold .begin
  return (threshold, b.items)

theorem blend_perm {d : Direction} {lt : α → α → Except ε Bool} {threshold : Nat}
    {favoured other : List α} {result : Nat × List α}
    (merged : blend d lt threshold favoured other = .ok result) :
    result.2.Perm (other ++ favoured) := by
  obtain ⟨⟨later, b⟩, settled, merged⟩ := bind_eq_ok.mp merged
  cases merged
  exact (Blend.settle_perm settled).trans (Blend.place_perm ..)

/-- Merges two neighbouring runs. The start of the left run and the end of the right run that are
in place already are left there; what remains is merged from the end of the shorter part. -/
def joinRuns (lt : α → α → Except ε Bool) (threshold : Nat) (xs ys : List α) :
    Except ε (Nat × List α) := do
  match ys with
  | [] => return (threshold, xs)
  | y :: _ =>
    let m ← gallop .forward (fun x => do return !(← lt y x)) xs
    let (front, xs) := (xs.take m, xs.drop m)
    match xs.getLast? with
    | none => return (threshold, front ++ ys)
    | some x =>
      let n ← gallop .backward (fun y => do return !(← lt y x)) ys.reverse
      let (ys, back) := (ys.take (ys.length - n), ys.drop (ys.length - n))
      if xs.length ≤ ys.length then
        let (threshold, merged) ← blend .forward lt threshold xs ys
        return (threshold, front ++ merged ++ back)
      else
        let (threshold, merged) ← blend .backward lt threshold ys.reverse xs.reverse
        return (threshold, front ++ merged.reverse ++ back)

theorem joinRuns_perm {lt : α → α → Except ε Bool} {threshold : Nat} {xs ys : List α}
    {result : Nat × List α} (joined : joinRuns lt threshold xs ys = .ok result) :
    result.2.Perm (xs ++ ys) := by
  cases ys with
  | nil =>
    cases joined
    exact List.Perm.of_eq (List.append_nil xs).symm
  | cons y ys =>
    obtain ⟨m, _, joined⟩ := bind_eq_ok.mp joined
    dsimp only at joined
    have parts := List.take_append_drop m xs
    split at joined
    · next none =>
      cases joined
      have empty := List.getLast?_eq_none_iff.mp none
      rw [empty, List.append_nil] at parts
      rw [parts]
    · obtain ⟨n, _, joined⟩ := bind_eq_ok.mp joined
      have others := List.take_append_drop ((y :: ys).length - n) (y :: ys)
      generalize (y :: ys).take ((y :: ys).length - n) = near at joined others
      generalize (y :: ys).drop ((y :: ys).length - n) = back at joined others
      generalize xs.take m = front at joined parts
      generalize xs.drop m = rest at joined parts
      rw [← parts, ← others]
      have whole (merged : List α) (same : merged.Perm (rest ++ near)) :
          (front ++ merged ++ back).Perm (front ++ rest ++ (near ++ back)) := by
        rw [List.append_assoc, List.append_assoc, ← List.append_assoc rest]
        exact List.Perm.append_left _ (List.Perm.append_right _ same)
      split at joined
      · obtain ⟨⟨later, merged⟩, blended, joined⟩ := bind_eq_ok.mp joined
        cases joined
        exact whole merged ((blend_perm blended).trans List.perm_append_comm)
      · obtain ⟨⟨later, merged⟩, blended, joined⟩ := bind_eq_ok.mp joined
        cases joined
        refine whole merged.reverse ?_
        exact (List.reverse_perm merged).trans ((blend_perm blended).trans
          (List.Perm.append (List.reverse_perm rest) (List.reverse_perm near)))

end Sorting

end SortedCollections
