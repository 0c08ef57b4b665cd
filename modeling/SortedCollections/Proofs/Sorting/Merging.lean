import SortedCollections.Sorting.Merging
import SortedCollections.Proofs.Sorting.Insertion

/-!
# Merged runs are sorted

A blend keeps two invariants while it places items: what is placed stays below what is left of
either run, and the last item of the favoured run stays above all that is left of the other one.
Read as placed, favoured, other, the items keep their ties, since an item of the other run is only
placed when it is below all that is left of the favoured run.
-/
namespace SortedCollections

namespace Sorting

variable {ε α : Type} {P : α → Prop}

namespace Blend

variable {d : Direction} {lt : α → α → Except ε Bool} {before : α → α → Bool}

/-- The invariants of a blend in walking order. -/
structure Ordered (before : α → α → Bool) (P : α → Prop) (b : Blend α) : Prop where
  favoured : Sorted before (b.placed.reverse ++ b.favoured)
  other : Sorted before (b.placed.reverse ++ b.other)
  inside : ∀ x ∈ b.placed.reverse ++ (b.favoured ++ b.other), P x
  last : ∀ l, b.favoured.getLast? = some l → ∀ s ∈ b.other, before s l = true

/-- All items, those of the favoured run in front of those of the other one. -/
def inOrder (b : Blend α) : List α := b.placed.reverse ++ (b.favoured ++ b.other)

theorem reverse_placed_place (b : Blend α) (side : Side) (n : Nat) :
    (b.place side n).placed.reverse = b.placed.reverse ++ (b.left side).take n := by
  cases side <;> simp [place, List.reverseAux_eq]

/-- Items of the other run that are below the favoured run may be placed. -/
theorem place_other (order : Decides lt before P) {b : Blend α} (ordered : b.Ordered before P)
    {n : Nat} (below : ∀ s ∈ b.other.take n, ∀ f ∈ b.favoured, before s f = true) :
    (b.place .other n).Ordered before P ∧
      SameTies before P (b.place .other n).inOrder b.inOrder := by
  have placed := reverse_placed_place b .other n
  have others : b.placed.reverse ++ b.other.take n ++ b.other.drop n =
      b.placed.reverse ++ b.other := by
    rw [List.append_assoc, List.take_append_drop]
  have inFavoured (f : α) (mem : f ∈ b.favoured) : P f := ordered.inside f (by simp [mem])
  have inTaken (s : α) (mem : s ∈ b.other.take n) : P s :=
    ordered.inside s (by simp [List.mem_of_mem_take mem])
  refine ⟨⟨?_, ?_, ?_, ?_⟩, ?_⟩
  · rw [placed]
    have whole := List.pairwise_append.mp ordered.favoured
    have parts := ordered.other
    rw [← others] at parts
    refine Sorted.append (List.pairwise_append.mp parts).1 whole.2.1 ?_
    intro x hx f hf
    rcases List.mem_append.mp hx with hx | hx
    · exact whole.2.2 x hx f hf
    · exact order.asymm (inTaken x hx) (inFavoured f hf) (below x hx f hf)
  · rw [placed]
    show Sorted before (b.placed.reverse ++ b.other.take n ++ b.other.drop n)
    rw [others]
    exact ordered.other
  · rw [placed]
    intro x mem
    refine ordered.inside x ?_
    have drop : x ∈ b.other.drop n → x ∈ b.other := List.mem_of_mem_drop
    have take : x ∈ b.other.take n → x ∈ b.other := List.mem_of_mem_take
    simp only [left, place, List.mem_append] at mem ⊢
    tauto
  · intro l isLast s mem
    exact ordered.last l isLast s (List.mem_of_mem_drop mem)
  · rw [inOrder, placed]
    have moved : SameTies before P (b.other.take n ++ b.favoured) (b.favoured ++ b.other.take n) :=
      SameTies.append_comm order inTaken inFavoured below
    have all := (SameTies.refl b.placed.reverse).append
      (moved.append (SameTies.refl (b.other.drop n)))
    rw [List.append_assoc b.favoured, List.take_append_drop] at all
    simpa [inOrder, left, place] using all

/-- Items of the favoured run that are not above the other run may be placed, as long as some
are left. -/
theorem place_favoured {b : Blend α} (ordered : b.Ordered before P) {n : Nat}
    (below : ∀ f ∈ b.favoured.take n, ∀ s ∈ b.other, before s f = false)
    (short : n < b.favoured.length) :
    (b.place .favoured n).Ordered before P ∧ (b.place .favoured n).inOrder = b.inOrder := by
  have placed := reverse_placed_place b .favoured n
  have favoured : b.placed.reverse ++ b.favoured.take n ++ b.favoured.drop n =
      b.placed.reverse ++ b.favoured := by
    rw [List.append_assoc, List.take_append_drop]
  have same : (b.place .favoured n).inOrder = b.inOrder := by
    rw [inOrder, placed, inOrder]
    show b.placed.reverse ++ b.favoured.take n ++ (b.favoured.drop n ++ b.other) = _
    rw [← List.append_assoc, favoured, List.append_assoc]
  refine ⟨⟨?_, ?_, ?_, ?_⟩, same⟩
  · rw [placed]
    show Sorted before (b.placed.reverse ++ b.favoured.take n ++ b.favoured.drop n)
    rw [favoured]
    exact ordered.favoured
  · rw [placed]
    have whole := List.pairwise_append.mp ordered.other
    have parts := ordered.favoured
    rw [← favoured] at parts
    refine Sorted.append (List.pairwise_append.mp parts).1 whole.2.1 ?_
    intro x hx s hs
    rcases List.mem_append.mp hx with hx | hx
    · exact whole.2.2 x hx s hs
    · exact below x hx s hs
  · intro x mem
    have mem' : x ∈ b.inOrder := same ▸ mem
    exact ordered.inside x mem'
  · intro l isLast s mem
    refine ordered.last l ?_ s mem
    rw [← isLast]
    show _ = (b.favoured.drop n).getLast?
    rw [List.getLast?_drop, if_neg (by omega)]

theorem step_orders (order : Decides (d.beats lt) before P) {b : Blend α}
    (ordered : b.Ordered before P) (open_ : b.isSettled = false) :
    ∃ side next, b.step d lt = .ok (side, next) ∧ next.Ordered before P ∧
      SameTies before P next.inOrder b.inOrder := by
  obtain ⟨f, g, fs, s, ss, favoured, other⟩ := eq_of_not_settled open_
  have hf : P f := ordered.inside f (by simp [favoured])
  have hs : P s := ordered.inside s (by simp [other])
  have sortedFavoured := (List.pairwise_append.mp ordered.favoured).2.1
  have sortedOther := (List.pairwise_append.mp ordered.other).2.1
  rw [favoured, List.pairwise_cons] at sortedFavoured
  rw [other, List.pairwise_cons] at sortedOther
  cases wins : before s f with
  | true =>
    have placed := place_other order ordered (n := 1) (by
      intro x hx y hy
      rw [other, List.take_succ_cons, List.take_zero, List.mem_singleton] at hx
      subst hx
      have inside : P y := ordered.inside y (by simp [hy])
      rw [favoured] at hy
      rcases List.mem_cons.mp hy with rfl | hy
      · exact wins
      · exact order.less_of_less_of_not_less hs hf inside wins (sortedFavoured.1 y hy))
    refine ⟨.other, b.place .other 1, ?_, placed⟩
    rw [step, favoured, other]
    show (d.beats lt s f >>= _) = _
    rw [order.answers hs hf, wins]
    rfl
  | false =>
    have placed := place_favoured ordered (n := 1) (by
      intro x hx y hy
      rw [favoured, List.take_succ_cons, List.take_zero, List.mem_singleton] at hx
      subst hx
      have inside : P y := ordered.inside y (by simp [hy])
      rw [other] at hy
      rcases List.mem_cons.mp hy with rfl | hy
      · exact wins
      · exact order.not_less_trans hf hs inside wins (sortedOther.1 y hy)) (by simp [favoured])
    refine ⟨.favoured, b.place .favoured 1, ?_, placed.1, placed.2 ▸ SameTies.refl _⟩
    rw [step, favoured, other]
    show (d.beats lt s f >>= _) = _
    rw [order.answers hs hf, wins]
    rfl

/-- A stretch of the favoured run ends before its last item, which the other run is below. -/
theorem stretch_favoured (order : Decides (d.beats lt) before P) {b : Blend α}
    (ordered : b.Ordered before P) (open_ : b.isSettled = false) :
    ∃ n, b.stretch d lt .favoured = .ok n ∧ n < b.favoured.length ∧
      (∀ f ∈ b.favoured.take n, ∀ s ∈ b.other, before s f = false) ∧
      ∀ s ∈ b.other.take 1, ∀ f ∈ b.favoured.drop n, before s f = true := by
  obtain ⟨f, g, fs, s, ss, favoured, other⟩ := eq_of_not_settled open_
  have inFavoured (x : α) (mem : x ∈ b.favoured) : P x := ordered.inside x (by simp [mem])
  have inOther (x : α) (mem : x ∈ b.other) : P x := ordered.inside x (by simp [mem])
  have hs : P s := inOther s (by simp [other])
  have sortedFavoured := (List.pairwise_append.mp ordered.favoured).2.1
  have sortedOther := (List.pairwise_append.mp ordered.other).2.1
  have falling : b.favoured.Pairwise fun x y => (!before s y) = true → (!before s x) = true := by
    refine sortedFavoured.imp_of_mem ?_
    intro x y hx hy hyx hsy
    simp only [Bool.not_eq_true'] at hsy ⊢
    exact order.not_less_trans (inFavoured x hx) (inFavoured y hy) hs hyx hsy
  obtain ⟨front, rest, cut, pass, stop⟩ := exists_cut (fun y => !before s y) falling
  simp only [Bool.not_eq_true', Bool.not_eq_false'] at pass stop
  have answer (y : α) (mem : y ∈ b.favoured) :
      (do return !(← d.beats lt s y) : Except ε Bool) = .ok (!before s y) := by
    rw [order.answers hs (inFavoured y mem)]
    rfl
  refine ⟨front.length, ?_, ?_, ?_, ?_⟩
  · have found : b.stretch d lt .favoured =
        gallop d (fun y => do return !(← d.beats lt s y)) b.favoured := by
      simp only [stretch, other]
    rw [found, cut]
    apply gallop_append
    · intro y mem
      rw [answer y (by simp [cut, mem]), pass y mem]
      rfl
    · intro y mem
      rw [answer y (by simp [cut, mem]), stop y mem]
      rfl
  · obtain ⟨l, isLast⟩ : ∃ l, b.favoured.getLast? = some l := by
      cases h : b.favoured.getLast? with
      | none => rw [List.getLast?_eq_none_iff, favoured] at h; cases h
      | some l => exact ⟨l, rfl⟩
    have above : before s l = true := ordered.last l isLast s (by simp [other])
    by_contra whole
    have empty : rest = [] := by
      rw [cut, List.length_append] at whole
      exact List.length_eq_zero_iff.mp (by omega)
    rw [cut, empty, List.append_nil] at isLast
    rw [pass l (List.mem_of_getLast? isLast)] at above
    cases above
  · intro x hx y hy
    rw [cut, List.take_left] at hx
    rw [other] at hy sortedOther
    rcases List.mem_cons.mp hy with rfl | hy'
    · exact pass x hx
    · exact order.not_less_trans (inFavoured x (by simp [cut, hx])) hs
        (inOther y (by simp [other, hy'])) (pass x hx) ((List.pairwise_cons.mp sortedOther).1 y hy')
  · intro x hx y hy
    rw [other, List.take_succ_cons, List.take_zero, List.mem_singleton] at hx
    subst hx
    rw [cut, List.drop_left] at hy
    exact stop y hy

theorem stretch_other (order : Decides (d.beats lt) before P) {b : Blend α}
    (ordered : b.Ordered before P) (open_ : b.isSettled = false) :
    ∃ n, b.stretch d lt .other = .ok n ∧
      (∀ s ∈ b.other.take n, ∀ f ∈ b.favoured, before s f = true) ∧
      ∀ f ∈ b.favoured.take 1, ∀ s ∈ b.other.drop n, before s f = false := by
  obtain ⟨f, g, fs, s, ss, favoured, other⟩ := eq_of_not_settled open_
  have inFavoured (x : α) (mem : x ∈ b.favoured) : P x := ordered.inside x (by simp [mem])
  have inOther (x : α) (mem : x ∈ b.other) : P x := ordered.inside x (by simp [mem])
  have hf : P f := inFavoured f (by simp [favoured])
  have sortedFavoured := (List.pairwise_append.mp ordered.favoured).2.1
  have sortedOther := (List.pairwise_append.mp ordered.other).2.1
  have falling : b.other.Pairwise fun x y => before y f = true → before x f = true := by
    refine sortedOther.imp_of_mem ?_
    intro x y hx hy hyx hyf
    exact order.less_of_not_less_of_less (inOther x hx) (inOther y hy) hf hyx hyf
  obtain ⟨front, rest, cut, pass, stop⟩ := exists_cut (before · f) falling
  refine ⟨front.length, ?_, ?_, ?_⟩
  · have found : b.stretch d lt .other = gallop d (fun y => d.beats lt y f) b.other := by
      simp only [stretch, favoured]
    rw [found, cut]
    apply gallop_append
    · intro y mem
      rw [order.answers (inOther y (by simp [cut, mem])) hf, pass y mem]
    · intro y mem
      rw [order.answers (inOther y (by simp [cut, mem])) hf, stop y mem]
  · intro x hx y hy
    rw [cut, List.take_left] at hx
    rw [favoured] at hy sortedFavoured
    rcases List.mem_cons.mp hy with rfl | hy'
    · exact pass x hx
    · exact order.less_of_less_of_not_less (inOther x (by simp [cut, hx])) hf
        (inFavoured y (by simp [favoured, hy'])) (pass x hx)
        ((List.pairwise_cons.mp sortedFavoured).1 y hy')
  · intro x hx y hy
    rw [favoured, List.take_succ_cons, List.take_zero, List.mem_singleton] at hx
    subst hx
    rw [cut, List.drop_left] at hy
    exact stop y hy

theorem leap_orders (order : Decides (d.beats lt) before P) {b : Blend α} (side : Side)
    (ordered : b.Ordered before P) (open_ : b.isSettled = false) :
    ∃ n next, b.leap d lt side = .ok (n, next) ∧ next.Ordered before P ∧
      SameTies before P next.inOrder b.inOrder := by
  cases side with
  | favoured =>
    obtain ⟨n, found, short, pass, stop⟩ := stretch_favoured order ordered open_
    have first := place_favoured ordered pass short
    have ties : SameTies before P (b.place .favoured n).inOrder b.inOrder :=
      first.2 ▸ SameTies.refl _
    rw [leap, found]
    show ∃ m next, Except.ok (n, _) = _ ∧ _
    by_cases settled : (b.place .favoured n).isSettled
    · exact ⟨n, _, by rw [if_pos settled], first.1, ties⟩
    · have second := place_other order first.1 (n := 1) stop
      exact ⟨n, _, by rw [if_neg settled]; rfl, second.1, second.2.trans ties⟩
  | other =>
    obtain ⟨n, found, pass, stop⟩ := stretch_other order ordered open_
    have first := place_other order ordered pass
    rw [leap, found]
    show ∃ m next, Except.ok (n, _) = _ ∧ _
    by_cases settled : (b.place .other n).isSettled
    · exact ⟨n, _, by rw [if_pos settled], first⟩
    · obtain ⟨f, g, fs, s, ss, favoured, other⟩ :=
        eq_of_not_settled (Bool.eq_false_iff.mpr settled)
      have second := place_favoured first.1 (n := 1) stop (by rw [favoured]; simp)
      exact ⟨n, _, by rw [if_neg settled]; rfl, second.1, second.2 ▸ first.2⟩

theorem round_orders (order : Decides (d.beats lt) before P) {b : Blend α}
    (ordered : b.Ordered before P) (open_ : b.isSettled = false) :
    ∃ long next, b.round d lt = .ok (long, next) ∧ next.Ordered before P ∧
      SameTies before P next.inOrder b.inOrder := by
  obtain ⟨m, middle, first, orderedMiddle, tiesMiddle⟩ := leap_orders order d.left ordered open_
  rw [round, first]
  show ∃ long next, (if middle.isSettled then _ else _) = _ ∧ _
  by_cases settled : middle.isSettled
  · exact ⟨_, middle, by rw [if_pos settled]; rfl, orderedMiddle, tiesMiddle⟩
  · obtain ⟨n, next, second, orderedNext, tiesNext⟩ :=
      leap_orders order d.left.across orderedMiddle (Bool.eq_false_iff.mpr settled)
    exact ⟨_, next, by rw [if_neg settled, second]; rfl, orderedNext, tiesNext.trans tiesMiddle⟩

theorem settle_orders (order : Decides (d.beats lt) before P) {threshold : Nat} {pace : Pace}
    {b : Blend α} (ordered : b.Ordered before P) :
    ∃ later next, b.settle d lt threshold pace = .ok (later, next) ∧ next.isSettled = true ∧
      next.Ordered before P ∧ SameTies before P next.inOrder b.inOrder := by
  fun_induction Blend.settle d lt threshold pace b with
  | case1 threshold _ b settled => exact ⟨threshold, b, rfl, settled, ordered, SameTies.refl _⟩
  | case2 _ b open_ _ _ e stepped =>
    obtain ⟨side, next, same, _⟩ := step_orders order ordered (Bool.eq_false_iff.mpr open_)
    rw [stepped] at same
    cases same
  | case3 _ b open_ _ _ side next stepped _ ih =>
    obtain ⟨side', next', same, orderedNext, ties⟩ :=
      step_orders order ordered (Bool.eq_false_iff.mpr open_)
    rw [stepped] at same
    cases same
    obtain ⟨later, last, done, settled, orderedLast, tiesLast⟩ := ih orderedNext
    exact ⟨later, last, done, settled, orderedLast, tiesLast.trans ties⟩
  | case4 _ b open_ e rounded =>
    obtain ⟨long, next, same, _⟩ := round_orders order ordered (Bool.eq_false_iff.mpr open_)
    rw [rounded] at same
    cases same
  | case5 threshold b open_ long next rounded settled =>
    obtain ⟨long', next', same, orderedNext, ties⟩ :=
      round_orders order ordered (Bool.eq_false_iff.mpr open_)
    rw [rounded] at same
    cases same
    exact ⟨threshold, next, rfl, settled, orderedNext, ties⟩
  | case6 _ b open_ next _ rounded ih =>
    obtain ⟨long', next', same, orderedNext, ties⟩ :=
      round_orders order ordered (Bool.eq_false_iff.mpr open_)
    rw [rounded] at same
    cases same
    obtain ⟨later, last, done, settled, orderedLast, tiesLast⟩ := ih orderedNext
    exact ⟨later, last, done, settled, orderedLast, tiesLast.trans ties⟩
  | case7 _ b open_ long next rounded _ _ ih =>
    obtain ⟨long', next', same, orderedNext, ties⟩ :=
      round_orders order ordered (Bool.eq_false_iff.mpr open_)
    rw [rounded] at same
    cases same
    obtain ⟨later, last, done, settled, orderedLast, tiesLast⟩ := ih orderedNext
    exact ⟨later, last, done, settled, orderedLast, tiesLast.trans ties⟩

/-- A settled blend has all its items in order. -/
theorem sides_of_settled {b : Blend α} (settled : b.isSettled = true) :
    b.favoured = [] ∨ b.other = [] ∨ ∃ f, b.favoured = [f] := by
  obtain ⟨_, _ | ⟨f, _ | ⟨g, fs⟩⟩, _ | ⟨s, ss⟩⟩ := b
  all_goals cases settled
  all_goals simp

theorem items_sort (order : Decides lt before P) {b : Blend α} (ordered : b.Ordered before P)
    (settled : b.isSettled = true) : IsSortOf before P b.items b.inOrder := by
  have items : b.items = b.placed.reverse ++ (b.other ++ b.favoured) := by
    rw [Blend.items, List.reverseAux_eq]
  have inside : ∀ x ∈ b.items, P x := by
    intro x mem
    refine ordered.inside x ?_
    simp only [items, List.mem_append] at mem ⊢
    tauto
  have favoured := ordered.favoured
  have other := ordered.other
  refine ⟨?_, ?_, inside⟩
  · rw [items]
    rcases sides_of_settled settled with none | none | ⟨f, single⟩
    · simpa [none] using other
    · simpa [none] using favoured
    · rw [single] at favoured ⊢
      have whole := List.pairwise_append.mp favoured
      rw [← List.append_assoc]
      refine Sorted.append other (List.pairwise_singleton _ _) ?_
      intro x hx y hy
      rw [List.mem_singleton] at hy
      subst hy
      rcases List.mem_append.mp hx with hx | hx
      · exact whole.2.2 x hx y (by simp)
      · exact order.asymm (ordered.inside x (by simp [hx])) (ordered.inside y (by simp [single]))
          (ordered.last y (by rw [single]; rfl) x hx)
  · rw [items, inOrder]
    refine (SameTies.refl _).append ?_
    rcases sides_of_settled settled with none | none | ⟨f, single⟩
    · simpa [none] using SameTies.refl b.other
    · simpa [none] using SameTies.refl b.favoured
    · rw [single]
      refine SameTies.append_comm order ?_ ?_ ?_
      · intro x hx
        exact ordered.inside x (by simp only [List.mem_append]; exact Or.inr (Or.inr hx))
      · intro x hx
        exact ordered.inside x (by simp only [List.mem_append]; exact Or.inr (Or.inl (single ▸ hx)))
      · intro x hx y hy
        rw [List.mem_singleton] at hy
        subst hy
        exact ordered.last y (by rw [single]; rfl) x hx

end Blend

theorem blend_sorts {d : Direction} {lt : α → α → Except ε Bool} {before : α → α → Bool}
    (order : Decides (d.beats lt) before P) (threshold : Nat) {favoured other : List α}
    (sortedFavoured : Sorted before favoured) (sortedOther : Sorted before other)
    (inside : ∀ x ∈ favoured ++ other, P x)
    (first : ∀ s ∈ other.take 1, ∀ f ∈ favoured, before s f = true)
    (last : ∀ l, favoured.getLast? = some l → ∀ s ∈ other, before s l = true) :
    ∃ later ys, blend d lt threshold favoured other = .ok (later, ys) ∧
      IsSortOf before P ys (favoured ++ other) := by
  have start : Blend.Ordered before P ⟨[], favoured, other⟩ :=
    ⟨sortedFavoured, sortedOther, inside, last⟩
  have placed := Blend.place_other order start (n := 1) first
  obtain ⟨later, b, done, settled, ordered, ties⟩ :
      ∃ later next, Blend.settle d lt threshold .begin _ = .ok (later, next) ∧
        next.isSettled = true ∧ next.Ordered before P ∧ SameTies before P next.inOrder _ :=
    Blend.settle_orders order placed.1
  have sort := Blend.items_sort order ordered settled
  refine ⟨later, b.items, ?_, sort.sorted, sort.ties.trans (ties.trans placed.2), sort.inside⟩
  rw [blend, done]
  rfl

variable {lt : α → α → Except ε Bool} {less : α → α → Bool}

theorem Sorted.reverse {xs : List α} (sorted : Sorted less xs) :
    Sorted (fun a b => less b a) xs.reverse :=
  List.pairwise_reverse.mpr sorted

/-- Two runs are merged alike from either end. The first item of the right run is below the whole
left run, and the last item of the left run is above the whole right run. -/
theorem blend_either_sorts (order : Decides lt less P) (threshold : Nat) {xs ys : List α} {x y : α}
    (sortedLeft : Sorted less (xs ++ [x])) (sortedRight : Sorted less (y :: ys))
    (insideLeft : ∀ a ∈ xs ++ [x], P a) (insideRight : ∀ a ∈ y :: ys, P a)
    (first : ∀ a ∈ xs ++ [x], less y a = true) (last : ∀ a ∈ y :: ys, less a x = true) :
    (∃ later zs, blend .forward lt threshold (xs ++ [x]) (y :: ys) = .ok (later, zs) ∧
      IsSortOf less P zs (xs ++ [x] ++ y :: ys)) ∧
    ∃ later zs, blend .backward lt threshold (y :: ys).reverse (xs ++ [x]).reverse =
      .ok (later, zs) ∧ IsSortOf less P zs.reverse (xs ++ [x] ++ y :: ys) := by
  have inside : ∀ a ∈ xs ++ [x] ++ y :: ys, P a := by
    intro a mem
    rcases List.mem_append.mp mem with mem | mem
    · exact insideLeft a mem
    · exact insideRight a mem
  constructor
  · refine blend_sorts (d := .forward) order threshold sortedLeft sortedRight inside ?_ ?_
    · intro s hs f hf
      rw [List.take_succ_cons, List.take_zero, List.mem_singleton] at hs
      subst hs
      exact first f hf
    · intro l isLast s hs
      rw [List.getLast?_append, List.getLast?_singleton, Option.some_or] at isLast
      cases isLast
      exact last s hs
  · have reversed : (y :: ys).reverse ++ (xs ++ [x]).reverse = (xs ++ [x] ++ y :: ys).reverse :=
      List.reverse_append.symm
    obtain ⟨later, zs, blended, sort⟩ := blend_sorts (d := .backward) order.flip threshold
      (Sorted.reverse sortedRight) (Sorted.reverse sortedLeft) (by
        intro a mem
        rw [reversed, List.mem_reverse] at mem
        exact inside a mem) (by
        intro s hs f hf
        rw [List.reverse_append, List.reverse_singleton, List.singleton_append,
          List.take_succ_cons, List.take_zero, List.mem_singleton] at hs
        subst hs
        exact last f (List.mem_reverse.mp hf)) (by
        intro l isLast s hs
        rw [List.getLast?_reverse, List.head?_cons] at isLast
        cases isLast
        exact first s (List.mem_reverse.mp hs))
    refine ⟨later, zs, blended, List.pairwise_reverse.mpr sort.sorted, ?_, ?_⟩
    · have ties := sort.ties.flip.reverse
      rwa [reversed, List.reverse_reverse] at ties
    · intro a mem
      exact sort.inside a (List.mem_reverse.mp mem)

/-- Galloping finds the items at the front of a sorted list that an item is not below. -/
theorem gallop_below (d : Direction) (order : Decides lt less P) {xs : List α} {y : α}
    (sorted : Sorted less xs) (inside : ∀ a ∈ xs, P a) (hy : P y) :
    ∃ front rest, xs = front ++ rest ∧ (∀ a ∈ front, less y a = false) ∧
      (∀ a ∈ rest, less y a = true) ∧
      gallop d (fun a => do return !(← lt y a)) xs = .ok front.length := by
  have falling : xs.Pairwise fun a b => (!less y b) = true → (!less y a) = true := by
    refine sorted.imp_of_mem ?_
    intro a b ha hb hba hyb
    simp only [Bool.not_eq_true'] at hyb ⊢
    exact order.not_less_trans (inside a ha) (inside b hb) hy hba hyb
  obtain ⟨front, rest, rfl, pass, stop⟩ := exists_cut (fun a => !less y a) falling
  simp only [Bool.not_eq_true', Bool.not_eq_false'] at pass stop
  refine ⟨front, rest, rfl, pass, stop, ?_⟩
  apply gallop_append
  · intro a mem
    rw [order.answers hy (inside a (by simp [mem])), pass a mem]
    rfl
  · intro a mem
    rw [order.answers hy (inside a (by simp [mem])), stop a mem]
    rfl

/-- Galloping from the end finds the items of a sorted list that are not below an item. -/
theorem gallop_above (order : Decides lt less P) {ys : List α} {x : α} (sorted : Sorted less ys)
    (inside : ∀ a ∈ ys, P a) (hx : P x) :
    ∃ near back, ys = near ++ back ∧ (∀ a ∈ near, less a x = true) ∧
      (∀ a ∈ back, less a x = false) ∧
      gallop .backward (fun a => do return !(← lt a x)) ys.reverse = .ok back.length := by
  obtain ⟨front, rest, cut, pass, stop, found⟩ := gallop_below .backward order.flip
    (Sorted.reverse sorted) (fun a mem => inside a (List.mem_reverse.mp mem)) hx
  refine ⟨rest.reverse, front.reverse, ?_, ?_, ?_, ?_⟩
  · rw [← List.reverse_append, ← cut, List.reverse_reverse]
  · intro a mem
    exact stop a (List.mem_reverse.mp mem)
  · intro a mem
    exact pass a (List.mem_reverse.mp mem)
  · rw [List.length_reverse]
    exact found

/-- A left run that is in place already stays as it is. -/
theorem joinRuns_in_place {threshold : Nat} {xs ys : List α} {y : α}
    (galloped : gallop .forward (fun a => do return !(← lt y a)) xs = .ok xs.length) :
    joinRuns lt threshold xs (y :: ys) = .ok (threshold, xs ++ y :: ys) := by
  rw [joinRuns, galloped]
  show (pure xs.length >>= _) = _
  rw [pure_bind, List.drop_length, List.take_length]
  rfl

/-- What the gallops leave of the two runs is blended from the end of the shorter part. -/
theorem joinRuns_galloped {threshold : Nat} {front rest near back ys : List α} {x y : α}
    (cut : y :: ys = y :: near ++ back)
    (galloped : gallop .forward (fun a => do return !(← lt y a)) (front ++ (rest ++ [x])) =
      .ok front.length)
    (gallopedBack : gallop .backward (fun a => do return !(← lt a x)) (y :: ys).reverse =
      .ok back.length) :
    joinRuns lt threshold (front ++ (rest ++ [x])) (y :: ys) =
      if (rest ++ [x]).length ≤ (y :: near).length then do
        let (threshold, merged) ← blend .forward lt threshold (rest ++ [x]) (y :: near)
        return (threshold, front ++ merged ++ back)
      else do
        let (threshold, merged) ← blend .backward lt threshold (y :: near).reverse
          (rest ++ [x]).reverse
        return (threshold, front ++ merged.reverse ++ back) := by
  have parts : (y :: ys).take ((y :: ys).length - back.length) = y :: near ∧
      (y :: ys).drop ((y :: ys).length - back.length) = back := by
    rw [cut, List.length_append, Nat.add_sub_cancel]
    exact ⟨List.take_left, List.drop_left⟩
  rw [joinRuns, galloped]
  show (pure front.length >>= _) = _
  rw [pure_bind, List.drop_left, List.take_left, List.getLast?_append, List.getLast?_singleton,
    Option.some_or]
  show (gallop .backward _ (y :: ys).reverse >>= _) = _
  rw [gallopedBack]
  show (pure back.length >>= _) = _
  rw [pure_bind, parts.1, parts.2]

/-- Sorting the middle sorts the whole, if what stands in front and behind is in place. -/
theorem IsSortOf.of_middle (order : Decides lt less P) {front rest near back merged : List α}
    (sortedLeft : Sorted less (front ++ rest)) (sortedRight : Sorted less (near ++ back))
    (insideLeft : ∀ a ∈ front ++ rest, P a) (insideRight : ∀ a ∈ near ++ back, P a)
    (below : ∀ a ∈ front, ∀ b ∈ near ++ back, less b a = false)
    (above : ∀ a ∈ rest, ∀ b ∈ back, less b a = false)
    (sort : IsSortOf less P merged (rest ++ near)) :
    IsSortOf less P (front ++ merged ++ back) (front ++ rest ++ (near ++ back)) := by
  have partsLeft := List.pairwise_append.mp sortedLeft
  have partsRight := List.pairwise_append.mp sortedRight
  have same : front ++ rest ++ (near ++ back) = front ++ (rest ++ near) ++ back := by
    simp only [List.append_assoc]
  rw [same]
  refine sort.between partsLeft.1 partsRight.2.1 (fun a mem => insideLeft a (by simp [mem]))
    (fun a mem => insideRight a (by simp [mem])) ?_ ?_
  · intro a ha b hb
    rcases List.mem_append.mp hb with hb | hb
    · rcases List.mem_append.mp (sort.mem order hb) with hb | hb
      · exact partsLeft.2.2 a ha b hb
      · exact below a ha b (List.mem_append_left _ hb)
    · exact below a ha b (List.mem_append_right _ hb)
  · intro a ha b hb
    rcases List.mem_append.mp (sort.mem order ha) with ha | ha
    · exact above a ha b hb
    · exact partsRight.2.2 a ha b hb

/-- Neighbouring sorted runs become one, and items that tie keep their order. -/
theorem joinRuns_sorts (order : Decides lt less P) (threshold : Nat) {xs ys : List α}
    (sortedLeft : Sorted less xs) (sortedRight : Sorted less ys) (insideLeft : ∀ a ∈ xs, P a)
    (insideRight : ∀ a ∈ ys, P a) :
    ∃ later zs, joinRuns lt threshold xs ys = .ok (later, zs) ∧ IsSortOf less P zs (xs ++ ys) := by
  cases ys with
  | nil =>
    refine ⟨threshold, xs, rfl, sortedLeft, ?_, insideLeft⟩
    rw [List.append_nil]
    exact SameTies.refl xs
  | cons y ys =>
    have hy : P y := insideRight y (by simp)
    have aboveHead (b : α) (mem : b ∈ y :: ys) : less b y = false := by
      rcases List.mem_cons.mp mem with rfl | mem
      · exact order.irrefl hy
      · exact (List.pairwise_cons.mp sortedRight).1 b mem
    obtain ⟨front, rest, rfl, pass, stop, galloped⟩ :=
      gallop_below .forward order sortedLeft insideLeft hy
    have below (a : α) (ha : a ∈ front) (b : α) (hb : b ∈ y :: ys) : less b a = false :=
      order.not_less_trans (insideLeft a (by simp [ha])) hy (insideRight b hb) (pass a ha)
        (aboveHead b hb)
    rcases List.eq_nil_or_concat' rest with rfl | ⟨rest, x, rfl⟩
    · rw [List.append_nil] at sortedLeft insideLeft galloped ⊢
      refine ⟨threshold, front ++ y :: ys, joinRuns_in_place galloped,
        Sorted.append sortedLeft sortedRight below, SameTies.refl _, fun a mem => ?_⟩
      rcases List.mem_append.mp mem with mem | mem
      · exact insideLeft a mem
      · exact insideRight a mem
    · have hx : P x := insideLeft x (by simp)
      have sortedRest := (List.pairwise_append.mp sortedLeft).2.1
      obtain ⟨near, back, cut, passBack, stopBack, gallopedBack⟩ :=
        gallop_above order sortedRight insideRight hx
      -- The head of the right run is below the last item of the left one, so it is not in place.
      obtain ⟨near, rfl⟩ : ∃ tail, near = y :: tail := by
        cases near with
        | nil =>
          have inBack : y ∈ back := by
            rw [List.nil_append] at cut
            rw [← cut]
            exact List.mem_cons_self
          have above := stop x (by simp)
          rw [stopBack y inBack] at above
          cases above
        | cons z near =>
          rw [List.cons_append, List.cons.injEq] at cut
          exact ⟨near, by rw [cut.1]⟩
      rw [joinRuns_galloped cut galloped gallopedBack]
      rw [cut] at sortedRight insideRight below ⊢
      have above (a : α) (ha : a ∈ rest ++ [x]) (b : α) (hb : b ∈ back) : less b a = false := by
        have notAbove : less x a = false := by
          rcases List.mem_append.mp ha with mem | mem
          · exact (List.pairwise_append.mp sortedRest).2.2 a mem x (by simp)
          · rw [List.mem_singleton.mp mem]
            exact order.irrefl hx
        exact order.not_less_trans (insideLeft a (by simp [ha])) hx
          (insideRight b (List.mem_append_right _ hb)) notAbove (stopBack b hb)
      have whole {merged : List α} (sort : IsSortOf less P merged (rest ++ [x] ++ y :: near)) :=
        IsSortOf.of_middle order sortedLeft sortedRight insideLeft insideRight below above sort
      have blended := blend_either_sorts order threshold sortedRest
        (List.pairwise_append.mp sortedRight).1 (fun a mem => insideLeft a (by simp [mem]))
        (fun a mem => insideRight a (List.mem_append_left _ mem)) stop passBack
      split
      · obtain ⟨later, merged, done, sort⟩ := blended.1
        exact ⟨later, front ++ merged ++ back, by rw [done]; rfl, whole sort⟩
      · obtain ⟨later, merged, done, sort⟩ := blended.2
        exact ⟨later, front ++ merged.reverse ++ back, by rw [done]; rfl, whole sort⟩

end Sorting

end SortedCollections
