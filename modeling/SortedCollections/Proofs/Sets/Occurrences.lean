import SortedCollections.Proofs.Restoring

/-!
# Which occurrence of a key stays

An item that is kept of those with an equal key is told by its place in the list as it came: no later
place, or no earlier one, holds an item with an equal key. Since sorting is stable, these are just the
places whose items make up the result, one for every key. Reading the list backwards turns the earlier
places into the later ones.
-/
namespace SortedCollections

variable {ε α κ : Type}

namespace Keep

/-- The choice made by who reads the list backwards. -/
def opposite : Keep → Keep
  | .first => .last
  | .last => .first

/-- Does what stands at the place `q` go before an equal item at the place `p`? -/
def Outranks : Keep → Nat → Nat → Prop
  | .first, q, p => q < p
  | .last, q, p => p < q

/-- The item `x` at the place `p` is the one that the choice keeps of the items that are the same. -/
def Prescribes (keep : Keep) (same : α → α → Bool) (xs : List α) (p : Nat) (x : α) : Prop :=
  xs[p]? = some x ∧ ∀ q y, xs[q]? = some y → keep.Outranks q p → same x y = false

variable {keep : Keep} {same same' : α → α → Bool} {xs : List α} {x y : α} {p q : Nat}

theorem outranks_or_eq (keep : Keep) (p q : Nat) :
    keep.Outranks p q ∨ p = q ∨ keep.Outranks q p := by
  cases keep with
  | first => exact Nat.lt_trichotomy p q
  | last => exact (Nat.lt_trichotomy q p).imp_right (Or.imp_left Eq.symm)

/-- Backwards the places change sides. -/
theorem outranks_opposite (hp : p < xs.length) (hq : q < xs.length)
    (before : keep.opposite.Outranks q (xs.length - 1 - p)) :
    keep.Outranks (xs.length - 1 - q) p := by
  cases keep with
  | first =>
    have behind : xs.length - 1 - p < q := before
    show xs.length - 1 - q < p
    omega
  | last =>
    have behind : q < xs.length - 1 - p := before
    show p < xs.length - 1 - q
    omega

theorem of_reverse (keep : Keep) (xs : List α) : keep.opposite.of xs.reverse = keep.of xs := by
  cases keep with
  | first => exact List.getLast?_reverse
  | last => exact List.head?_reverse

theorem stays_reverse : keep.opposite.Stays same xs.reverse x ↔ keep.Stays same xs x := by
  rw [Stays, Stays, List.filter_reverse, of_reverse]

theorem getElem?_backwards (found : xs[p]? = some x) : xs.reverse[xs.length - 1 - p]? = some x := by
  obtain ⟨bound, _⟩ := List.getElem?_eq_some_iff.mp found
  have place : xs.length - 1 - (xs.length - 1 - p) = p := by omega
  rw [List.getElem?_reverse (by omega), place, found]

theorem Prescribes.reverse (prescribed : keep.Prescribes same xs p x) :
    keep.opposite.Prescribes same xs.reverse (xs.length - 1 - p) x := by
  obtain ⟨found, unmatched⟩ := prescribed
  refine ⟨getElem?_backwards found, fun q y foundY before => ?_⟩
  have back := getElem?_backwards foundY
  rw [List.reverse_reverse, List.length_reverse] at back
  obtain ⟨hp, _⟩ := List.getElem?_eq_some_iff.mp found
  obtain ⟨hq, _⟩ := List.getElem?_eq_some_iff.mp foundY
  rw [List.length_reverse] at hq
  exact unmatched _ y back (outranks_opposite hp hq before)

/-- The first of the items that are the same stands at the only place that a search stops at. -/
theorem first_stays_iff (self : same x x = true) :
    Keep.first.Stays same xs x ↔ ∃ p, Keep.first.Prescribes same xs p x := by
  rw [Stays, of, List.head?_filter, List.find?_eq_some_iff_getElem]
  constructor
  · rintro ⟨_, p, hp, found, unmatched⟩
    refine ⟨p, List.getElem?_eq_some_iff.mpr ⟨hp, found⟩, fun q y foundY before => ?_⟩
    obtain ⟨hq, rfl⟩ := List.getElem?_eq_some_iff.mp foundY
    simpa using unmatched q before
  · rintro ⟨p, found, unmatched⟩
    obtain ⟨hp, found⟩ := List.getElem?_eq_some_iff.mp found
    refine ⟨self, p, hp, found, fun q before => ?_⟩
    rw [unmatched q _ (List.getElem?_eq_getElem (by omega)) before]
    rfl

/-- What stays of the items that are the same is the one at the place that the choice prescribes. -/
theorem stays_iff (self : same x x = true) :
    keep.Stays same xs x ↔ ∃ p, keep.Prescribes same xs p x := by
  cases keep with
  | first => exact first_stays_iff self
  | last =>
    rw [← stays_reverse, opposite, first_stays_iff self]
    constructor
    · rintro ⟨p, prescribed⟩
      have back := prescribed.reverse
      rw [List.reverse_reverse] at back
      exact ⟨_, back⟩
    · rintro ⟨p, prescribed⟩
      exact ⟨_, prescribed.reverse⟩

/-- Of two places with equal items at most one is prescribed. -/
theorem Prescribes.place_unique (prescribed : keep.Prescribes same xs p x)
    (prescribed' : keep.Prescribes same xs q y) (twins : same x y = true) (twins' : same y x = true) :
    p = q := by
  rcases keep.outranks_or_eq p q with before | place | before
  · rw [prescribed'.2 p x prescribed.1 before] at twins'
    cases twins'
  · exact place
  · rw [prescribed.2 q y prescribed'.1 before] at twins
    cases twins

end Keep

/-- Of an increasing list at most one item passes the test, and it is the one that a search finds. -/
theorem PicksOne.filter_eq {less : α → α → Bool} {P : α → Prop} {test : α → Bool} {xs : List α}
    (picks : PicksOne less P test) (kept : IncreasingOn less P xs) :
    xs.filter test = (xs.find? test).toList := by
  induction xs with
  | nil => rfl
  | cons x xs ih =>
    obtain ⟨hx, above, rest⟩ := kept.of_cons
    cases hit : test x with
    | true =>
      have empty : xs.filter test = [] := by
        rw [ih rest, picks.find?_of_above hx rest.inside above hit, Option.toList_none]
      rw [List.filter_cons_of_pos hit, empty, List.find?_cons, hit, Option.toList_some]
    | false =>
      rw [List.filter_cons_of_neg (by simp [hit]), ih rest, List.find?_cons, hit]

section Keyed

variable {cmp : Comparison ε κ} {key : α → Except ε κ} {P : κ → Prop} {xs ys : List α}

/-- The places whose items make up a list, in the order of the list. -/
def Places (xs : List α) (ps : List Nat) (ys : List α) : Prop :=
  List.Forall₂ (fun p y => xs[p]? = some y) ps ys

/-- Items that each stand at some place are the items of a list of places. -/
theorem exists_places {stands : Nat → α → Prop} (placed : ∀ y ∈ ys, ∃ p, xs[p]? = some y ∧ stands p y) :
    ∃ ps, Places xs ps ys ∧ ∀ p ∈ ps, ∃ y ∈ ys, xs[p]? = some y ∧ stands p y := by
  induction ys with
  | nil => exact ⟨[], .nil, by simp⟩
  | cons y ys ih =>
    obtain ⟨p, found, here⟩ := placed y (by simp)
    obtain ⟨ps, rest, stand⟩ := ih fun z mem => placed z (.tail _ mem)
    refine ⟨p :: ps, .cons found rest, List.forall_mem_cons.mpr ⟨⟨y, by simp, found, here⟩, ?_⟩⟩
    intro q mem
    obtain ⟨z, memZ, at_q⟩ := stand q mem
    exact ⟨z, .tail _ memZ, at_q⟩

theorem Places.exists_of_mem {ps : List Nat} (places : Places xs ps ys) {y : α} (mem : y ∈ ys) :
    ∃ p ∈ ps, xs[p]? = some y := by
  induction places with
  | nil => cases mem
  | cons found _ ih =>
    rcases List.mem_cons.mp mem with rfl | mem
    · exact ⟨_, by simp, found⟩
    · obtain ⟨p, memP, found⟩ := ih mem
      exact ⟨p, .tail _ memP, found⟩

/-- What sorting a list and keeping one item of each key has to come to. -/
structure KeepsPrescribed (cmp : Comparison ε κ) (key : α → Except ε κ) (keep : Keep)
    (xs ys : List α) : Prop where
  increasing : Increasing (cmp.on key).less ys
  checked : isStrictlySorted cmp key ys = .ok true
  /-- The items are those at the places that the choice prescribes. -/
  places : ∃ ps, Places xs ps ys ∧
    ∀ p, p ∈ ps ↔ ∃ x, keep.Prescribes (cmp.on key).same xs p x
  /-- Every key of the list occurs exactly once. -/
  once : ∀ x ∈ xs, (ys.filter ((cmp.on key).same x)).length = 1
  fromInput : ∀ y ∈ ys, y ∈ xs
  /-- The opposite choice makes the same of the list backwards. -/
  backwards : sortDedup cmp key keep.opposite xs.reverse = .ok ys
  /-- Once more, with either choice, changes nothing. -/
  again : ∀ keep', sortDedup cmp key keep' ys = .ok ys

theorem sortDedup_places (ordered : cmp.OrderedOn P) {keep : Keep}
    (inside : ∀ x ∈ xs, Comparison.KeyIn key P x)
    (members : ∀ y, y ∈ ys ↔ keep.Stays (cmp.on key).same xs y) :
    ∃ ps, Places xs ps ys ∧ ∀ p, p ∈ ps ↔ ∃ x, keep.Prescribes (cmp.on key).same xs p x := by
  have keyed := ordered.on key
  have alike {x y : α} (hx : x ∈ xs) (hy : y ∈ xs) :
      (cmp.on key).same x y = tied (cmp.on key).less x y := keyed.same_eq (inside x hx) (inside y hy)
  have self {x : α} (hx : x ∈ xs) : (cmp.on key).same x x = true := by
    rw [alike hx hx, keyed.decides.tied_self (inside x hx)]
  have placed : ∀ y ∈ ys, ∃ p, xs[p]? = some y ∧ keep.Prescribes (cmp.on key).same xs p y := by
    intro y mem
    have stays := (members y).mp mem
    obtain ⟨p, prescribed⟩ := (Keep.stays_iff (self stays.mem)).mp stays
    exact ⟨p, prescribed.1, prescribed⟩
  obtain ⟨ps, places, stand⟩ := exists_places placed
  refine ⟨ps, places, fun p => ⟨fun mem => ?_, ?_⟩⟩
  · obtain ⟨y, _, _, prescribed⟩ := stand p mem
    exact ⟨y, prescribed⟩
  · rintro ⟨x, prescribed⟩
    have memX := List.mem_of_getElem? prescribed.1
    have kept := (members x).mpr ((Keep.stays_iff (self memX)).mpr ⟨p, prescribed⟩)
    obtain ⟨q, memQ, found⟩ := places.exists_of_mem kept
    obtain ⟨y, _, foundY, prescribedY⟩ := stand q memQ
    have same : y = x := Option.some.inj (foundY.symm.trans found)
    rw [same] at prescribedY
    rwa [prescribed.place_unique prescribedY (self memX) (self memX)]

/-- Sorting a list and keeping one item of each key keeps for each key the item at the place that the
choice prescribes, and no other item. -/
theorem sortDedup_prescribed (ordered : cmp.OrderedOn P) (keep : Keep)
    (inside : ∀ x ∈ xs, Comparison.KeyIn key P x) :
    ∃ ys, sortDedup cmp key keep xs = .ok ys ∧ KeepsPrescribed cmp key keep xs ys := by
  have keyed := ordered.on key
  obtain ⟨ys, done, kept, stays⟩ := sortDedup_stays ordered keep inside
  have members (y : α) := (stays y).trans (Keep.stays_same keyed inside)
  refine ⟨ys, done, kept.increasing, ?_, sortDedup_places ordered inside members, fun x mem => ?_,
    fun y mem => ((stays y).mp mem).mem, ?_,
    fun keep' => sortDedup_increasing ordered keep' kept.inside kept.increasing⟩
  · rw [isStrictlySorted_eq ordered kept.inside, decide_eq_true kept.increasing]
  · have hx := inside x mem
    have agree : ys.filter ((cmp.on key).same x) = ys.filter (tied (cmp.on key).less x) :=
      List.filter_congr fun y memY => keyed.same_eq hx (kept.inside y memY)
    obtain ⟨y, staysY, same⟩ := keep.exists_stays keyed.decides inside mem
    have picks := keyed.decides.picksOne hx
    rw [agree, picks.filter_eq kept, picks.find?_of_mem kept ((stays y).mpr staysY) same]
    rfl
  · obtain ⟨zs, doneBack, keptBack, staysBack⟩ :=
      sortDedup_stays ordered keep.opposite fun x mem => inside x (List.mem_reverse.mp mem)
    rw [doneBack, keptBack.ext keyed.decides kept fun y => ?_]
    rw [staysBack y, Keep.stays_reverse, stays y]

/-- Of entries with an equal key the first is kept. -/
theorem sortDedup_prescribed_entries :
    ∃ ys, sortDedup (.natural : Comparison Empty Nat) (fun e : Nat × Nat => .ok e.1) .first
        [(3, 0), (1, 1), (3, 2), (1, 3)] = .ok ys ∧
      KeepsPrescribed (.natural : Comparison Empty Nat) (fun e : Nat × Nat => .ok e.1) .first
        [(3, 0), (1, 1), (3, 2), (1, 3)] ys :=
  sortDedup_prescribed Comparison.natural_ordered .first fun e _ => ⟨e.1, rfl, trivial⟩

end Keyed

end SortedCollections
