import Mathlib.Data.Fintype.EquivFin
import SortedCollections.Proofs.Window
import SortedCollections.SortedSet

/-!
# Members of increasing lists

A strictly increasing list stands for the set of all that ties with one of its items. Searching,
adding and removing an item all cut the list where the item belongs: what is less stands before the
cut, and if something ties with the item it is the first thing behind it.
-/
namespace SortedCollections

variable {ε α β : Type}

/-- Does an item of the list tie with `x`? -/
def hasTie (less : α → α → Bool) (xs : List α) (x : α) : Bool := xs.any (tied less x)

/-- Strictly increasing, with all items in the domain `P`. -/
structure IncreasingOn (less : α → α → Bool) (P : α → Prop) (xs : List α) : Prop where
  increasing : Increasing less xs
  inside : ∀ x ∈ xs, P x

/-- Where two orders agree, what increases by one of them increases by the other. -/
theorem IncreasingOn.congr {less less' : α → α → Bool} {P Q : α → Prop} {xs : List α}
    (kept : IncreasingOn less P xs) (inside : ∀ x ∈ xs, Q x)
    (agree : ∀ x y, Q x → Q y → less' x y = less x y) : IncreasingOn less' Q xs := by
  refine ⟨kept.increasing.imp_of_mem fun memX memY below => ?_, inside⟩
  rw [agree _ _ (inside _ memX) (inside _ memY)]
  exact below

theorem IncreasingOn.of_cons {less : α → α → Bool} {P : α → Prop} {x : α} {xs : List α}
    (increasing : IncreasingOn less P (x :: xs)) :
    P x ∧ (∀ y ∈ xs, less x y = true) ∧ IncreasingOn less P xs := by
  obtain ⟨above, rest⟩ := List.pairwise_cons.mp increasing.increasing
  exact ⟨increasing.inside x (by simp), above, rest, fun y mem => increasing.inside y (.tail _ mem)⟩

@[simp] theorem hasTie_nil (less : α → α → Bool) (x : α) : hasTie less [] x = false := rfl

@[simp] theorem hasTie_cons (less : α → α → Bool) (y : α) (ys : List α) (x : α) :
    hasTie less (y :: ys) x = (tied less x y || hasTie less ys x) := by
  simp [hasTie]

@[simp] theorem hasTie_append (less : α → α → Bool) (xs ys : List α) (x : α) :
    hasTie less (xs ++ ys) x = (hasTie less xs x || hasTie less ys x) := by
  simp [hasTie]

theorem hasTie_eq_true {less : α → α → Bool} {xs : List α} {x : α} :
    hasTie less xs x = true ↔ ∃ y ∈ xs, tied less x y = true := by
  rw [hasTie, List.any_eq_true]

theorem hasTie_eq_false {less : α → α → Bool} {xs : List α} {x : α} :
    hasTie less xs x = false ↔ ∀ y ∈ xs, tied less x y = false := by
  simp only [hasTie, List.any_eq_false, Bool.not_eq_true]

theorem tied_of_less {less : α → α → Bool} {a b : α} (less_ab : less a b = true) :
    tied less a b = false ∧ tied less b a = false := by
  simp [tied, less_ab]

theorem hasTie_of_below {less : α → α → Bool} {xs : List α} {x : α}
    (below : ∀ y ∈ xs, less y x = true) : hasTie less xs x = false := by
  rw [hasTie_eq_false]
  exact fun y mem => (tied_of_less (below y mem)).2

theorem hasTie_of_above {less : α → α → Bool} {xs : List α} {x : α}
    (above : ∀ y ∈ xs, less x y = true) : hasTie less xs x = false := by
  rw [hasTie_eq_false]
  exact fun y mem => (tied_of_less (above y mem)).1

namespace Decides

variable {lt : α → α → Except ε Bool} {less : α → α → Bool} {P : α → Prop}

theorem less_of_tied (order : Decides lt less P) {a b c : α} (ha : P a) (hb : P b) (hc : P c)
    (same : tied less a b = true) : less a c = less b c := by
  simp only [tied, Bool.and_eq_true, Bool.not_eq_true'] at same
  rw [Bool.eq_iff_iff]
  exact ⟨order.less_of_not_less_of_less hb ha hc same.1,
    order.less_of_not_less_of_less ha hb hc same.2⟩

theorem less_of_tied_right (order : Decides lt less P) {a b c : α} (ha : P a) (hb : P b) (hc : P c)
    (same : tied less a b = true) : less c a = less c b := by
  simp only [tied, Bool.and_eq_true, Bool.not_eq_true'] at same
  rw [Bool.eq_iff_iff]
  exact ⟨fun less_ca => order.less_of_less_of_not_less hc ha hb less_ca same.2,
    fun less_cb => order.less_of_less_of_not_less hc hb ha less_cb same.1⟩

/-- What ties with one of two items that tie ties with the other. -/
theorem tied_congr (order : Decides lt less P) {a b c : α} (ha : P a) (hb : P b) (hc : P c)
    (same : tied less a b = true) : tied less a c = tied less b c := by
  rw [tied, tied, order.less_of_tied ha hb hc same, order.less_of_tied_right ha hb hc same]

theorem hasTie_congr (order : Decides lt less P) {xs : List α} {a b : α}
    (inside : ∀ x ∈ xs, P x) (ha : P a) (hb : P b) (same : tied less a b = true) :
    hasTie less xs a = hasTie less xs b := by
  induction xs with
  | nil => rfl
  | cons x xs ih =>
    rw [hasTie_cons, hasTie_cons, order.tied_congr ha hb (inside x (by simp)) same,
      ih fun y mem => inside y (by simp [mem])]

/-- Of two parts of an increasing list, the items in front are less than those behind. -/
theorem hasTie_cut (order : Decides lt less P) {lows highs : List α} {x : α} (hx : P x)
    (ordered : IncreasingOn less P (lows ++ highs)) (below : ∀ y ∈ lows, less y x = true)
    (above : ∀ y ∈ highs, less y x = false) :
    hasTie less (lows ++ highs) x = highs.head?.any (tied less x) := by
  rw [hasTie_append, hasTie_of_below below, Bool.false_or]
  cases highs with
  | nil => rfl
  | cons z highs =>
    have increasing := (List.pairwise_append.mp ordered.increasing).2.1
    obtain ⟨behind, _⟩ := List.pairwise_cons.mp increasing
    have hz := ordered.inside z (by simp)
    have rest : hasTie less highs x = false := by
      refine hasTie_of_above fun y mem => ?_
      exact order.less_of_not_less_of_less hx hz (ordered.inside y (by simp [mem]))
        (above z (by simp)) (behind y mem)
    simp [rest]

end Decides

theorem hasTie_eq_isSome (less : α → α → Bool) (xs : List α) (x : α) :
    hasTie less xs x = (xs.find? (tied less x)).isSome := by
  rw [List.isSome_find?]
  rfl

/-- A test that items pass which tie with one another, and no others. -/
structure PicksOne (less : α → α → Bool) (P : α → Prop) (test : α → Bool) : Prop where
  apart : ∀ {x y}, P x → P y → less x y = true → test x = true → test y = false
  together : ∀ {x y}, P x → P y → tied less x y = true → test x = test y

theorem Decides.picksOne {lt : α → α → Except ε Bool} {less : α → α → Bool} {P : α → Prop}
    (order : Decides lt less P) {k : α} (hk : P k) : PicksOne less P (tied less k) where
  apart hx hy less_xy twin := order.not_tied_of_less hx hy hk less_xy twin
  together {x y} hx hy same := by
    rw [tied_comm less k x, tied_comm less k y]
    exact order.tied_congr hx hy hk same

namespace PicksOne

variable {less : α → α → Bool} {P : α → Prop} {test : α → Bool} {xs : List α} {x y : α}

/-- The same test of something that the items hold. -/
theorem comap (picks : PicksOne less P test) (f : β → α) :
    PicksOne (fun a b => less (f a) (f b)) (fun b => P (f b)) fun b => test (f b) where
  apart hx hy := picks.apart hx hy
  together hx hy := picks.together hx hy

theorem find?_of_above (picks : PicksOne less P test) (hx : P x) (inside : ∀ y ∈ xs, P y)
    (above : ∀ y ∈ xs, less x y = true) (hit : test x = true) : xs.find? test = none := by
  rw [List.find?_eq_none]
  intro y mem
  rw [picks.apart hx (inside y mem) (above y mem) hit]
  exact Bool.false_ne_true

/-- At most one item of an increasing list passes. -/
theorem find?_of_mem (picks : PicksOne less P test) (kept : IncreasingOn less P xs) (mem : y ∈ xs)
    (hit : test y = true) : xs.find? test = some y := by
  induction xs with
  | nil => cases mem
  | cons x xs ih =>
    obtain ⟨hx, above, rest⟩ := kept.of_cons
    rcases List.mem_cons.mp mem with rfl | mem
    · rw [List.find?_cons, hit]
    · have miss : test x = false := by
        by_contra first
        have single := picks.apart hx (rest.inside y mem) (above y mem) (by simpa using first)
        rw [hit] at single
        cases single
      rw [List.find?_cons, miss]
      exact ih rest mem

/-- Dropping items of an increasing list drops them for a search, too. -/
theorem find?_filter (picks : PicksOne less P test) (keeps : α → Bool)
    (kept : IncreasingOn less P xs) :
    (xs.filter keeps).find? test = (xs.find? test).filter keeps := by
  cases found : xs.find? test with
  | none =>
    rw [List.find?_eq_none] at found
    exact List.find?_eq_none.mpr fun x mem => found x (List.mem_filter.mp mem).1
  | some x =>
    have mem := List.mem_of_find?_eq_some found
    have hit := List.find?_some found
    cases keep : keeps x with
    | true =>
      have sub : IncreasingOn less P (xs.filter keeps) :=
        ⟨kept.increasing.sublist List.filter_sublist,
          fun y mem => kept.inside y (List.mem_filter.mp mem).1⟩
      rw [picks.find?_of_mem sub (List.mem_filter.mpr ⟨mem, keep⟩) hit, Option.filter_some,
        if_pos keep]
    | false =>
      rw [Option.filter_some, if_neg (by simp [keep]), List.find?_eq_none]
      intro y memY hitY
      have same := picks.find?_of_mem kept (List.mem_filter.mp memY).1 hitY
      rw [found, Option.some.injEq] at same
      rw [← same, List.mem_filter, keep] at memY
      cases memY.2

end PicksOne

section Comparison

variable {cmp : Comparison ε α} {P : α → Prop}

/-- Is `x` equal to one of the items? -/
def Comparison.among (cmp : Comparison ε α) (items : List α) (x : α) : Bool :=
  items.any (cmp.same x)

/-- The domain has no end: whatever items are listed, it holds something that is equal to none of
them. -/
def Comparison.Endless (cmp : Comparison ε α) (P : α → Prop) : Prop :=
  ∀ items : List α, (∀ x ∈ items, P x) → ∃ x, P x ∧ cmp.among items x = false

theorem Comparison.natural_endless : (natural : Comparison ε Nat).Endless fun _ => True := by
  intro items _
  obtain ⟨x, fresh⟩ := Infinite.exists_notMem_finset items.toFinset
  refine ⟨x, trivial, ?_⟩
  rw [among, List.any_eq_false]
  intro y mem same
  have equal : x = y := by simpa [Comparison.same, natural, ofDecision] using same
  exact fresh (List.mem_toFinset.mpr (equal ▸ mem))

namespace Comparison.OrderedOn

theorem among_eq (ordered : cmp.OrderedOn P) {items : List α} {x : α} (inside : ∀ y ∈ items, P y)
    (hx : P x) : cmp.among items x = hasTie cmp.less items x := by
  induction items with
  | nil => rfl
  | cons y items ih =>
    rw [hasTie_cons, ← ih fun z mem => inside z (.tail _ mem),
      ← ordered.same_eq hx (inside y (by simp))]
    rfl

/-- Keys of the domain are equal exactly if they tie. -/
theorem eq_iff (ordered : cmp.OrderedOn P) {x y : α} (hx : P x) (hy : P y) {answer : Bool} :
    cmp.eq x y = .ok answer ↔ tied cmp.less x y = answer := by
  rw [ordered.eq_eq hx hy, ordered.same_eq hx hy, Except.ok.injEq]

/-- An increasing list is empty exactly if nothing ties with its items. -/
theorem isEmpty_iff (ordered : cmp.OrderedOn P) {items : List α} (inside : ∀ y ∈ items, P y) :
    items.isEmpty = true ↔ ∀ x, P x → hasTie cmp.less items x = false := by
  cases items with
  | nil => simp
  | cons y items =>
    have hy := inside y (by simp)
    have twin := ordered.decides.tied_self hy
    constructor
    · intro empty
      cases empty
    · intro none
      have absent := none y hy
      rw [hasTie_cons, twin] at absent
      cases absent

end Comparison.OrderedOn

theorem keyIn_self {x : α} : Comparison.KeyIn (Except.ok : α → Except ε α) P x ↔ P x := by
  constructor
  · rintro ⟨y, same, inside⟩
    cases same
    exact inside
  · exact fun inside => ⟨x, rfl, inside⟩

/-- Items that are their own keys increase as their keys do. -/
theorem increasingOn_self {xs : List α} :
    IncreasingOn (cmp.on .ok).less (Comparison.KeyIn (ε := ε) .ok P) xs ↔
      IncreasingOn cmp.less P xs := by
  constructor
  · exact fun kept => ⟨kept.increasing, fun x mem => keyIn_self.mp (kept.inside x mem)⟩
  · exact fun kept => ⟨kept.increasing, fun x mem => keyIn_self.mpr (kept.inside x mem)⟩

end Comparison

namespace SortedSet

variable {cmp : Comparison ε α} {P : α → Prop} {s : SortedSet α} {x : α}

/-- An item is found where the list is cut into what is less and what is not. -/
theorem find_cut (ordered : cmp.OrderedOn P) (increasing : IncreasingOn cmp.less P s.items)
    (hx : P x) :
    ∃ lows highs, s.items = lows ++ highs ∧ (∀ y ∈ lows, cmp.less y x = true) ∧
      (∀ y ∈ highs, cmp.less y x = false) ∧
      s.find cmp x = .ok (lows.length, highs.head?.any (tied cmp.less x)) := by
  obtain ⟨lows, highs, items, below, above⟩ :=
    exists_cut_increasing ordered.decides increasing.increasing increasing.inside hx
  refine ⟨lows, highs, items, below, above, ?_⟩
  have inside : ∀ y ∈ lows ++ highs, Comparison.KeyIn (ε := ε) .ok P y :=
    fun y mem => ⟨y, rfl, increasing.inside y (items ▸ mem)⟩
  rw [find, SortedCollections.find, items]
  exact findIn_increasing ordered rfl hx inside below above

theorem contains_eq (ordered : cmp.OrderedOn P) (increasing : IncreasingOn cmp.less P s.items)
    (hx : P x) : s.contains cmp x = hasTie cmp.less s.items x := by
  obtain ⟨lows, highs, items, below, above, found⟩ := find_cut ordered increasing hx
  have cut := ordered.decides.hasTie_cut hx (items ▸ increasing) below above
  rw [contains, found, items, cut]

/-- Behind the cut stands what is greater than the item, after its twin if there is one. -/
theorem above_cut (ordered : cmp.OrderedOn P) {lows highs : List α}
    (increasing : IncreasingOn cmp.less P (lows ++ highs)) (hx : P x)
    (above : ∀ y ∈ highs, cmp.less y x = false) :
    ∀ y ∈ highs.drop (highs.head?.any (tied cmp.less x)).toNat, cmp.less x y = true := by
  have order := ordered.decides
  cases highs with
  | nil => simp
  | cons z highs =>
    have behind := (List.pairwise_cons.mp (List.pairwise_append.mp increasing.increasing).2.1).1
    have hz := increasing.inside z (by simp)
    have notLess := above z (by simp)
    have rest : ∀ y ∈ highs, cmp.less x y = true := fun y mem =>
      order.less_of_not_less_of_less hx hz (increasing.inside y (by simp [mem])) notLess
        (behind y mem)
    cases same : tied cmp.less x z with
    | true =>
      simp only [List.head?_cons, Option.any_some, same, Bool.toNat_true, List.drop_succ_cons,
        List.drop_zero]
      exact rest
    | false =>
      have less : cmp.less x z = true := by simpa [tied, notLess] using same
      simp only [List.head?_cons, Option.any_some, same, Bool.toNat_false, List.drop_zero]
      intro y mem
      rcases List.mem_cons.mp mem with rfl | mem
      · exact less
      · exact rest y mem

/-- An item between what is less and what is greater. -/
theorem increasing_between {lows highs : List α}
    (increasing : IncreasingOn cmp.less P (lows ++ highs)) (hx : P x)
    (below : ∀ y ∈ lows, cmp.less y x = true) (above : ∀ y ∈ highs, cmp.less x y = true) :
    IncreasingOn cmp.less P (lows ++ x :: highs) := by
  obtain ⟨front, back, across⟩ := List.pairwise_append.mp increasing.increasing
  refine ⟨List.pairwise_append.mpr ⟨front, List.pairwise_cons.mpr ⟨above, back⟩, ?_⟩, ?_⟩
  · intro y memY z memZ
    rcases List.mem_cons.mp memZ with rfl | memZ
    · exact below y memY
    · exact across y memY z memZ
  · intro y mem
    rcases List.mem_append.mp mem with mem | mem
    · exact increasing.inside y (by simp [mem])
    · rcases List.mem_cons.mp mem with rfl | mem
      · exact hx
      · exact increasing.inside y (by simp [mem])

theorem increasing_drop {lows highs : List α} (n : Nat)
    (increasing : IncreasingOn cmp.less P (lows ++ highs)) :
    IncreasingOn cmp.less P (lows ++ highs.drop n) := by
  have sub : (lows ++ highs.drop n).Sublist (lows ++ highs) :=
    (List.Sublist.refl lows).append (List.drop_sublist n highs)
  exact ⟨increasing.increasing.sublist sub, fun y mem => increasing.inside y (sub.subset mem)⟩

/-- Without the twin there are the items that do not tie with the item. -/
theorem mem_beside_twin (ordered : cmp.OrderedOn P) {lows highs : List α}
    (increasing : IncreasingOn cmp.less P (lows ++ highs)) (hx : P x)
    (below : ∀ y ∈ lows, cmp.less y x = true) (above : ∀ y ∈ highs, cmp.less y x = false) {y : α} :
    y ∈ lows ++ highs.drop (highs.head?.any (tied cmp.less x)).toNat ↔
      y ∈ lows ++ highs ∧ tied cmp.less x y = false := by
  have behind := above_cut ordered increasing hx above
  constructor
  · intro mem
    rcases List.mem_append.mp mem with mem | mem
    · exact ⟨by simp [mem], (tied_of_less (below y mem)).2⟩
    · exact ⟨by simp [List.mem_of_mem_drop mem], (tied_of_less (behind y mem)).1⟩
  · rintro ⟨mem, apart⟩
    rcases List.mem_append.mp mem with mem | mem
    · simp [mem]
    · refine List.mem_append_right lows ?_
      cases highs with
      | nil => cases mem
      | cons z highs =>
        rcases List.mem_cons.mp mem with rfl | mem
        · simp [apart]
        · cases same : tied cmp.less x z <;> simp [same, mem]

/-- An item takes the place of its twin, if there is one, or is put at the cut. -/
theorem put_at_cut (test : α → Bool) (lows highs : List α) (x : α) :
    (if highs.head?.any test then (lows ++ highs).set lows.length x
      else (lows ++ highs).take lows.length ++ x :: (lows ++ highs).drop lows.length) =
      lows ++ x :: highs.drop (highs.head?.any test).toNat := by
  rw [List.take_left, List.drop_left]
  cases highs with
  | nil => rfl
  | cons z highs =>
    rw [List.set_append_right _ _ (Nat.le_refl _), Nat.sub_self, List.head?_cons, Option.any_some]
    cases test z <;> rfl

theorem erase_at_cut (test : α → Bool) (lows highs : List α) :
    (if highs.head?.any test then (lows ++ highs).eraseIdx lows.length else lows ++ highs) =
      lows ++ highs.drop (highs.head?.any test).toNat := by
  cases highs with
  | nil => rfl
  | cons z highs =>
    rw [List.eraseIdx_append_of_length_le (Nat.le_refl _), Nat.sub_self, List.head?_cons,
      Option.any_some]
    cases test z <;> rfl

/-- The list cut where an item belongs. The others are the items of the list that do not tie with it;
in order they are what stands before the cut and what stands behind it and its twin. -/
structure CutAt (cmp : Comparison ε α) (P : α → Prop) (s : SortedSet α) (x : α) (lows highs : List α)
    (found : Bool) : Prop where
  whole : s.items = lows ++ highs
  search : s.find cmp x = .ok (lows.length, found)
  hit : found = hasTie cmp.less s.items x
  put : (if found then s.items.set lows.length x
      else s.items.take lows.length ++ x :: s.items.drop lows.length) =
    lows ++ x :: highs.drop found.toNat
  erase : (if found then s.items.eraseIdx lows.length else s.items) = lows ++ highs.drop found.toNat
  others : ∀ y, y ∈ lows ++ highs.drop found.toNat ↔ y ∈ s.items ∧ tied cmp.less x y = false
  increasingPut : IncreasingOn cmp.less P (lows ++ x :: highs.drop found.toNat)
  increasingErase : IncreasingOn cmp.less P (lows ++ highs.drop found.toNat)

theorem exists_cutAt (ordered : cmp.OrderedOn P) (increasing : IncreasingOn cmp.less P s.items)
    (hx : P x) : ∃ lows highs found, s.CutAt cmp P x lows highs found := by
  obtain ⟨lows, highs, whole, below, above, search⟩ := find_cut ordered increasing hx
  have hit := ordered.decides.hasTie_cut hx (whole ▸ increasing) below above
  rw [whole] at increasing
  have rest := increasing_drop (highs.head?.any (tied cmp.less x)).toNat increasing
  have behind := above_cut ordered increasing hx above
  exact ⟨lows, highs, _, {
    whole
    search
    hit := whole ▸ hit.symm
    put := whole ▸ put_at_cut (tied cmp.less x) lows highs x
    erase := whole ▸ erase_at_cut (tied cmp.less x) lows highs
    others := fun y => whole ▸ mem_beside_twin ordered increasing hx below above
    increasingPut := increasing_between rest hx below behind
    increasingErase := rest }⟩

/-- Adding an item puts it in the place of the one that ties with it and keeps the others. -/
theorem insert_items (ordered : cmp.OrderedOn P) (increasing : IncreasingOn cmp.less P s.items)
    (hx : P x) :
    ∃ t, s.insert cmp x = .ok t ∧ IncreasingOn cmp.less P t.items ∧
      ∀ y, y ∈ t.items ↔ y = x ∨ y ∈ s.items ∧ tied cmp.less x y = false := by
  obtain ⟨lows, highs, found, cut⟩ := exists_cutAt ordered increasing hx
  refine ⟨⟨lows ++ x :: highs.drop found.toNat⟩, ?_, cut.increasingPut, fun y => ?_⟩
  · rw [insert, cut.search, ← cut.put]
    rfl
  · rw [← cut.others y, List.mem_append, List.mem_cons, List.mem_append]
    exact or_left_comm

/-- Removing an item keeps those that do not tie with it. There is no answer if they are all. -/
theorem erase?_items (ordered : cmp.OrderedOn P) (increasing : IncreasingOn cmp.less P s.items)
    (hx : P x) :
    ∃ t : SortedSet α, s.erase? cmp x = .ok (if hasTie cmp.less s.items x then some t else none) ∧
      s.discard cmp x = .ok t ∧ IncreasingOn cmp.less P t.items ∧
      ∀ y, y ∈ t.items ↔ y ∈ s.items ∧ tied cmp.less x y = false := by
  obtain ⟨lows, highs, found, cut⟩ := exists_cutAt ordered increasing hx
  refine ⟨⟨lows ++ highs.drop found.toNat⟩, ?_, ?_, cut.increasingErase, cut.others⟩
  · rw [erase?, cut.search, ← cut.erase, ← cut.hit]
    cases found <;> rfl
  · rw [discard, cut.search, ← cut.erase]
    cases found <;> rfl

/-- Adding an item makes it a member and changes nothing else. -/
theorem insert_members (ordered : cmp.OrderedOn P) (increasing : IncreasingOn cmp.less P s.items)
    (hx : P x) :
    ∃ t, s.insert cmp x = .ok t ∧ IncreasingOn cmp.less P t.items ∧
      ∀ y, P y → hasTie cmp.less t.items y = (tied cmp.less y x || hasTie cmp.less s.items y) := by
  obtain ⟨t, done, kept, items⟩ := insert_items ordered increasing hx
  refine ⟨t, done, kept, fun y hy => ?_⟩
  rw [Bool.eq_iff_iff, Bool.or_eq_true, hasTie_eq_true, hasTie_eq_true]
  constructor
  · rintro ⟨z, mem, twin⟩
    rcases (items z).mp mem with rfl | ⟨mem, _⟩
    · exact .inl twin
    · exact .inr ⟨z, mem, twin⟩
  · rintro (same | ⟨z, mem, twin⟩)
    · exact ⟨x, (items x).mpr (.inl rfl), same⟩
    · cases apart : tied cmp.less x z with
      | false => exact ⟨z, (items z).mpr (.inr ⟨mem, apart⟩), twin⟩
      | true =>
        refine ⟨x, (items x).mpr (.inl rfl), ?_⟩
        rw [tied_comm, ordered.decides.tied_congr hx (increasing.inside z mem) hy apart, tied_comm]
        exact twin

/-- Removing an item leaves everything but what ties with it. -/
theorem discard_members (ordered : cmp.OrderedOn P) (increasing : IncreasingOn cmp.less P s.items)
    (hx : P x) :
    ∃ t, s.discard cmp x = .ok t ∧ IncreasingOn cmp.less P t.items ∧
      ∀ y, P y → hasTie cmp.less t.items y = (!tied cmp.less y x && hasTie cmp.less s.items y) := by
  obtain ⟨t, _, done, kept, items⟩ := erase?_items ordered increasing hx
  refine ⟨t, done, kept, fun y hy => ?_⟩
  rw [Bool.eq_iff_iff, Bool.and_eq_true, Bool.not_eq_true', hasTie_eq_true, hasTie_eq_true]
  have apart_iff {z : α} (mem : z ∈ s.items) (twin : tied cmp.less y z = true) :
      tied cmp.less x z = false ↔ tied cmp.less y x = false := by
    rw [tied_comm, ← ordered.decides.tied_congr hy (increasing.inside z mem) hx twin]
  constructor
  · rintro ⟨z, mem, twin⟩
    obtain ⟨mem, apart⟩ := (items z).mp mem
    exact ⟨(apart_iff mem twin).mp apart, z, mem, twin⟩
  · rintro ⟨apart, z, mem, twin⟩
    exact ⟨z, (items z).mpr ⟨mem, (apart_iff mem twin).mpr apart⟩, twin⟩

end SortedSet

end SortedCollections
