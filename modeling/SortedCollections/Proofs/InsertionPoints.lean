import SortedCollections.Proofs.Sets.Deduplication

/-!
# Where a value belongs in a window

A search asks about the items of its window and about no others, so it ends in the same way in every
list that answers alike there, whatever stands outside. Where the keys of the window increase it ends at
the first key that is not less than the value, and the value is found exactly if that key is equal to it.
-/
namespace SortedCollections

variable {ε α α' κ κ' : Type} {cmp : Comparison ε κ} {key : α → Except ε κ} {data : List α} {value : κ}
  {cmp' : Comparison ε κ'} {key' : α' → Except ε κ'} {data' : List α'} {value' : κ'} {lo hi : Nat}

/-- A question about the item at a position. -/
def askedAt (question : α → Except ε Bool) (data : List α) (p : Nat) : Except (Fault ε) Bool := do
  Fault.lift (question (← itemAt data p))

/-- Asked about the positions of a window, two lists give the same answers. They may hold items of
different kinds, and outside the window they have nothing in common. -/
structure AnswersAlike (cmp : Comparison ε κ) (key : α → Except ε κ) (data : List α) (value : κ)
    (cmp' : Comparison ε κ') (key' : α' → Except ε κ') (data' : List α') (value' : κ') (lo hi : Nat) :
    Prop where
  below : ∀ p, lo ≤ p → p < hi →
    askedAt (keyBelow cmp key value) data p = askedAt (keyBelow cmp' key' value') data' p
  above : ∀ p, lo ≤ p → p < hi →
    askedAt (keyAbove cmp key value) data p = askedAt (keyAbove cmp' key' value') data' p

theorem AnswersAlike.narrow {lo' hi' : Nat} (low : lo ≤ lo') (high : hi' ≤ hi)
    (alike : AnswersAlike cmp key data value cmp' key' data' value' lo hi) :
    AnswersAlike cmp key data value cmp' key' data' value' lo' hi' where
  below p from_lo before := alike.below p (by omega) (by omega)
  above p from_lo before := alike.above p (by omega) (by omega)

/-- A failure on the way is the failure of the whole. -/
theorem Fault.lift_bind {β γ : Type} (first : Except ε β) (second : β → Except ε γ) :
    Fault.lift (first >>= second) = (do Fault.lift (second (← Fault.lift first))) := by
  cases first <;> rfl

/-- A round of the search asks about the middle item. -/
theorem bisect_of_lt (less : lo < hi) :
    bisect cmp key data value lo hi = (do
      if ← askedAt (keyBelow cmp key value) data ((lo + hi) / 2) then
        bisect cmp key data value ((lo + hi) / 2 + 1) hi
      else
        bisect cmp key data value lo ((lo + hi) / 2)) := by
  rw [bisect, if_pos less]
  simp only [askedAt, keyBelow, Fault.lift_bind, bind_assoc]

theorem tiesAt_eq (p : Nat) :
    tiesAt cmp key data value p = (do return !(← askedAt (keyAbove cmp key value) data p)) := by
  simp only [tiesAt, askedAt, keyAbove, Fault.lift_bind, bind_assoc]

theorem bisect_congr (alike : AnswersAlike cmp key data value cmp' key' data' value' lo hi) :
    bisect cmp key data value lo hi = bisect cmp' key' data' value' lo hi := by
  induction span : hi - lo using Nat.strongRecOn generalizing lo hi with
  | ind n ih =>
    by_cases less : lo < hi
    · rw [bisect_of_lt less, bisect_of_lt less, alike.below _ (by omega) (by omega)]
      refine bind_congr fun below => ?_
      cases below with
      | true => exact ih _ (by omega) (alike.narrow (by omega) (Nat.le_refl hi)) rfl
      | false => exact ih _ (by omega) (alike.narrow (Nat.le_refl lo) (by omega)) rfl
    · rw [bisect, if_neg less, bisect, if_neg less]

/-- A search looks at no item outside its window. -/
theorem findIn_congr (window : lo ≤ hi)
    (alike : AnswersAlike cmp key data value cmp' key' data' value' lo hi) :
    findIn cmp key data value lo hi = findIn cmp' key' data' value' lo hi := by
  rw [findIn, findIn, bisect_congr alike]
  cases searched : bisect cmp' key' data' value' lo hi with
  | error e => rfl
  | ok i =>
    have bounds := bisect_bounds window searched
    show (if i = hi then _ else _) = (if i = hi then _ else _)
    by_cases last : i = hi
    · rw [if_pos last, if_pos last]
    · rw [if_neg last, if_neg last, tiesAt_eq, tiesAt_eq, alike.above i bounds.1 (by omega)]

/-- Bounds that are not negative are used as they are. -/
theorem search_natCast : search cmp key data value lo hi = findIn cmp key data value lo hi := by
  have stop : (if (hi : Int) = -1 then data.length else (hi : Int).toNat) = hi := by
    rw [if_neg (by omega), Int.toNat_natCast]
  rw [search, if_neg (by omega), stop, Int.toNat_natCast, findIn]
  simp only [Int.natCast_inj]

def KeyAt (key : α → Except ε κ) (data : List α) (p : Nat) (k : κ) : Prop :=
  ∃ x, data[p]? = some x ∧ key x = .ok k

namespace KeyAt

variable {p : Nat} {k : κ}

theorem below (keyed : KeyAt key data p k) :
    askedAt (keyBelow cmp key value) data p = Fault.lift (cmp.lt k value) := by
  obtain ⟨x, item, keyed⟩ := keyed
  rw [askedAt, itemAt_eq_ok.mpr item]
  show Fault.lift (keyBelow cmp key value x) = _
  rw [keyBelow, keyed]
  rfl

theorem above (keyed : KeyAt key data p k) :
    askedAt (keyAbove cmp key value) data p = Fault.lift (cmp.lt value k) := by
  obtain ⟨x, item, keyed⟩ := keyed
  rw [askedAt, itemAt_eq_ok.mpr item]
  show Fault.lift (keyAbove cmp key value x) = _
  rw [keyAbove, keyed]
  rfl

end KeyAt

/-- The keys of the positions from `lo` on and before `hi`, in order. -/
structure WindowKeys (key : α → Except ε κ) (data : List α) (lo hi : Nat) (ks : List κ) : Prop where
  length : ks.length = hi - lo
  keyAt : ∀ p k, lo ≤ p → p < hi → (KeyAt key data p k ↔ ks[p - lo]? = some k)

theorem exists_windowKeys {P : κ → Prop} (inside : hi ≤ data.length)
    (kept : IncreasingOn (cmp.on key).less (Comparison.KeyIn key P) ((data.take hi).drop lo)) :
    ∃ ks, WindowKeys key data lo hi ks ∧ IncreasingOn cmp.less P ks := by
  obtain ⟨pairs, _, items, keyed⟩ := exists_withKeys kept.inside
  have length : pairs.length = hi - lo := by
    rw [← List.length_map Prod.snd, items, List.length_drop, List.length_take, Nat.min_eq_left inside]
  refine ⟨pairs.map Prod.fst, ⟨by rw [List.length_map, length], fun p k low high => ?_⟩, ?_, ?_⟩
  · have item : data[p]? = (pairs[p - lo]?).map Prod.snd := by
      rw [← List.getElem?_map, items, List.getElem?_drop, List.getElem?_take_of_lt (by omega)]
      congr 1
      omega
    have bound : p - lo < pairs.length := by omega
    rw [KeyAt, item, List.getElem?_map, List.getElem?_eq_getElem bound]
    have read := (keyed _ (List.getElem_mem bound)).1
    simp [read]
  · have increasing := kept.increasing
    rw [← items] at increasing
    refine List.pairwise_map.mpr ((List.pairwise_map.mp increasing).imp_of_mem ?_)
    intro a b memA memB less
    rwa [← less_on (keyed a memA).1 (keyed b memB).1]
  · rw [List.forall_mem_map]
    exact fun pair mem => (keyed pair mem).2

/-- A search of a window is a search of its keys. -/
theorem WindowKeys.findIn_eq {ks : List κ} (keys : WindowKeys key data lo hi ks) (window : lo ≤ hi) :
    findIn cmp key data value lo hi =
      (fun found => (lo + found.1, found.2)) <$> findIn cmp .ok ks value 0 ks.length := by
  have length := keys.length
  have keyed (p : Nat) (high : p < ks.length) :
      KeyAt key (data.drop lo) p ks[p] ∧ KeyAt (.ok : κ → Except ε κ) ks p ks[p] := by
    have place : lo + p - lo = p := by omega
    have item : ks[p]? = some ks[p] := List.getElem?_eq_getElem high
    have there := (keys.keyAt (lo + p) ks[p] (by omega) (by omega)).mpr (by rw [place, item])
    rw [KeyAt, List.getElem?_drop]
    exact ⟨there, ks[p], item, rfl⟩
  have alike : AnswersAlike cmp key (data.drop lo) value cmp .ok ks value 0 ks.length :=
    ⟨fun p _ high => by rw [(keyed p high).1.below, (keyed p high).2.below],
      fun p _ high => by rw [(keyed p high).1.above, (keyed p high).2.above]⟩
  have stop : lo + ks.length = hi := by omega
  rw [← findIn_congr (Nat.zero_le _) alike, ← stop]
  exact findIn_shift fun i _ => (itemAt_drop data lo i).symm

/-- The position `i` is where a value belongs in a window, and `found` says whether a key there is equal
to it. -/
structure BelongsAt (cmp : Comparison ε κ) (key : α → Except ε κ) (data : List α) (value : κ)
    (lo hi i : Nat) (found : Bool) : Prop where
  within : lo ≤ i ∧ i ≤ hi
  below : ∀ p, lo ≤ p → p < i → ∃ k, KeyAt key data p k ∧ cmp.lt k value = .ok true
  notBelow : ∀ p, i ≤ p → p < hi → ∃ k, KeyAt key data p k ∧ cmp.lt k value = .ok false
  hit : found = true ↔ ∃ p k, lo ≤ p ∧ p < hi ∧ KeyAt key data p k ∧ cmp.eq k value = .ok true
  /-- A key that is equal to the value is the one at `i`. -/
  here : ∀ p k, lo ≤ p → p < hi → KeyAt key data p k → cmp.eq k value = .ok true → p = i

/-- In an increasing list only the first item behind the cut ties with the item that it is cut for. -/
theorem place_of_tied {lt : α → α → Except ε Bool} {less : α → α → Bool} {P : α → Prop}
    (order : Decides lt less P) {lows highs : List α} {x y : α} {i : Nat} (hx : P x)
    (kept : IncreasingOn less P (lows ++ highs)) (below : ∀ z ∈ lows, less z x = true)
    (above : ∀ z ∈ highs, less z x = false) (item : (lows ++ highs)[i]? = some y)
    (twins : tied less x y = true) : i = lows.length := by
  by_cases early : i < lows.length
  · rw [List.getElem?_append_left early] at item
    rw [(tied_of_less (below y (List.mem_of_getElem? item))).2] at twins
    cases twins
  rw [List.getElem?_append_right (by omega)] at item
  obtain ⟨n, behind⟩ : ∃ n, i - lows.length = n := ⟨_, rfl⟩
  rw [behind] at item
  cases n with
  | zero => omega
  | succ n =>
    cases highs with
    | nil => cases item
    | cons z highs =>
      -- The first item behind the cut would be less than `y`, and so than `x`.
      have mem : y ∈ highs := List.mem_of_getElem? item
      have increasing := (List.pairwise_append.mp kept.increasing).2.1
      have less_zy := (List.pairwise_cons.mp increasing).1 y mem
      rw [← order.less_of_tied_right hx (kept.inside y (by simp [mem])) (kept.inside z (by simp)) twins,
        above z (by simp)] at less_zy
      cases less_zy

/-- Where increasing keys are cut for the value, there it belongs. -/
theorem WindowKeys.belongsAt {P : κ → Prop} (ordered : cmp.OrderedOn P) (hv : P value)
    {lows highs : List κ} (keys : WindowKeys key data lo hi (lows ++ highs)) (window : lo ≤ hi)
    (kept : IncreasingOn cmp.less P (lows ++ highs))
    (below : ∀ k ∈ lows, cmp.less k value = true) (above : ∀ k ∈ highs, cmp.less k value = false) :
    BelongsAt cmp key data value lo hi (lo + lows.length)
      (hasTie cmp.less (lows ++ highs) value) := by
  have length := keys.length
  rw [List.length_append] at length
  have equal {k : κ} (mem : k ∈ lows ++ highs) :
      cmp.eq k value = .ok true ↔ tied cmp.less value k = true := by
    rw [tied_comm]
    exact ordered.eq_iff (kept.inside k mem) hv
  refine ⟨by omega, fun p low high => ?_, fun p low high => ?_, ?_, fun p k low high keyed twins => ?_⟩
  · have bound : p - lo < lows.length := by omega
    have mem := List.getElem_mem bound
    refine ⟨lows[p - lo], (keys.keyAt p _ low (by omega)).mpr ?_, ?_⟩
    · rw [List.getElem?_append_left bound, List.getElem?_eq_getElem bound]
    · rw [ordered.lt_eq (kept.inside _ (List.mem_append_left _ mem)) hv, below _ mem]
  · have bound : p - lo - lows.length < highs.length := by omega
    have mem := List.getElem_mem bound
    refine ⟨highs[p - lo - lows.length], (keys.keyAt p _ (by omega) high).mpr ?_, ?_⟩
    · rw [List.getElem?_append_right (by omega), List.getElem?_eq_getElem bound]
    · rw [ordered.lt_eq (kept.inside _ (List.mem_append_right _ mem)) hv, above _ mem]
  · rw [hasTie_eq_true]
    constructor
    · rintro ⟨k, mem, twins⟩
      obtain ⟨i, bound, item⟩ := List.mem_iff_getElem.mp mem
      rw [List.length_append] at bound
      refine ⟨lo + i, k, by omega, by omega, (keys.keyAt _ k (by omega) (by omega)).mpr ?_,
        (equal mem).mpr twins⟩
      rw [Nat.add_sub_cancel_left]
      exact List.getElem?_eq_some_iff.mpr ⟨_, item⟩
    · rintro ⟨p, k, low, high, keyed, twins⟩
      have mem := List.mem_of_getElem? ((keys.keyAt p k low high).mp keyed)
      exact ⟨k, mem, (equal mem).mp twins⟩
  · have item := (keys.keyAt p k low high).mp keyed
    have place := place_of_tied ordered.decides hv kept below above item
      ((equal (List.mem_of_getElem? item)).mp twins)
    omega

/-- A search of a window whose keys increase finds where the value belongs. It does not matter what
stands outside the window, nor whether it could be compared: a search of anything else that answers alike
within the window ends in the same way. -/
theorem window_search_ends {P : κ → Prop} (ordered : cmp.OrderedOn P) (hv : P value)
    (window : lo ≤ hi) (inside : hi ≤ data.length)
    (kept : IncreasingOn (cmp.on key).less (Comparison.KeyIn key P) ((data.take hi).drop lo)) :
    ∃ i found, findIn cmp key data value lo hi = .ok (i, found) ∧
      search cmp key data value lo hi = .ok (i, found) ∧
      BelongsAt cmp key data value lo hi i found ∧
      ∀ {α' κ' : Type} {cmp' : Comparison ε κ'} {key' : α' → Except ε κ'} {data' : List α'}
        {value' : κ'}, AnswersAlike cmp key data value cmp' key' data' value' lo hi →
        search cmp' key' data' value' lo hi = .ok (i, found) := by
  obtain ⟨ks, keys, keptKeys⟩ := exists_windowKeys inside kept
  obtain ⟨lows, highs, rfl, below, above, searched⟩ :=
    SortedSet.find_cut (s := ⟨ks⟩) ordered keptKeys hv
  have found : findIn cmp key data value lo hi =
      .ok (lo + lows.length, hasTie cmp.less (lows ++ highs) value) := by
    rw [keys.findIn_eq window, ordered.decides.hasTie_cut hv keptKeys below above]
    show _ <$> SortedSet.find cmp ⟨lows ++ highs⟩ value = _
    rw [searched]
    rfl
  refine ⟨_, _, found, search_natCast.trans found,
    keys.belongsAt ordered hv window keptKeys below above, fun alike => ?_⟩
  rw [search_natCast, ← findIn_congr window alike, found]

/-- Digits between numbers that cannot be compared: the five behind the window is not found. -/
theorem equal_digit_behind_window :
    let digits : Comparison Unit Nat :=
      ⟨fun a b => if a < 10 ∧ b < 10 then .ok (decide (a < b)) else .error (),
        fun a b => if a < 10 ∧ b < 10 then .ok (decide (a = b)) else .error ()⟩
    findIn digits .ok [50, 1, 3, 5, 60] 5 1 3 = .ok (3, false) ∧
      BelongsAt digits .ok [50, 1, 3, 5, 60] 5 1 3 3 false := by
  intro digits
  have ordered : digits.OrderedOn (· < 10) := by
    refine Comparison.orderedOn_of_rank id (fun a b ha hb => ?_) fun a b ha hb => ?_
    · exact if_pos ⟨ha, hb⟩
    · exact if_pos ⟨ha, hb⟩
  have kept : IncreasingOn (digits.on .ok).less
      (Comparison.KeyIn (.ok : Nat → Except Unit Nat) (· < 10)) (([50, 1, 3, 5, 60].take 3).drop 1) := by
    refine ⟨by decide, fun x mem => ⟨x, rfl, ?_⟩⟩
    revert x
    decide
  have five : 5 < 10 := by decide
  obtain ⟨i, found, searched, _, belongs, _⟩ :=
    window_search_ends ordered five (by decide) (by decide) kept
  have answer : findIn digits .ok [50, 1, 3, 5, 60] 5 1 3 = .ok (3, false) := by
    with_unfolding_all rfl
  cases searched.symm.trans answer
  exact ⟨answer, belongs⟩

end SortedCollections
