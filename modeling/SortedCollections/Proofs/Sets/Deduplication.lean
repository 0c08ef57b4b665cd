import SortedCollections.Proofs.Sets.Members
import SortedCollections.Proofs.Sorting.Stable

/-!
# Increasing lists out of arbitrary ones

In a sorted list the items that tie stand side by side. Taking the list apart into runs of equal
items therefore leaves runs each of which is less than the next and holds all that tie with its head.
One item of each run stays: the first or the last of those that tie, in the order of the list.
-/
namespace SortedCollections

variable {ε α β κ : Type} {lt : α → α → Except ε Bool} {less : α → α → Bool} {P : α → Prop}

/-- The order of what the items are mapped to. -/
theorem Decides.comap {lt : α → α → Except ε Bool} {less : α → α → Bool} {P : α → Prop}
    (order : Decides lt less P) (f : β → α) :
    Decides (fun a b => lt (f a) (f b)) (fun a b => less (f a) (f b)) fun b => P (f b) where
  answers ha hb := order.answers ha hb
  asymm ha hb h := order.asymm ha hb h
  between ha hb hc h := order.between ha hb hc h

theorem Decides.filter_tied (order : Decides lt less P) {xs : List α} (inside : ∀ x ∈ xs, P x)
    {a b : α} (ha : P a) (hb : P b) (same : tied less a b = true) :
    xs.filter (tied less a) = xs.filter (tied less b) :=
  List.filter_congr fun x mem => order.tied_congr ha hb (inside x mem) same

namespace Keep

/-- The item that a choice keeps. -/
def of (keep : Keep) (xs : List α) : Option α :=
  match keep with
  | .first => xs.head?
  | .last => xs.getLast?

/-- Of the items that are the same as `x`, the choice keeps `x` itself. -/
def Stays (keep : Keep) (same : α → α → Bool) (xs : List α) (x : α) : Prop :=
  keep.of (xs.filter (same x)) = some x

theorem of_mem {keep : Keep} {xs : List α} {x : α} (kept : keep.of xs = some x) : x ∈ xs := by
  cases keep with
  | first => exact List.mem_of_head? kept
  | last => exact List.mem_of_getLast? kept

theorem exists_of (keep : Keep) {xs : List α} {x : α} (mem : x ∈ xs) :
    ∃ y, keep.of xs = some y := by
  have nonempty := List.ne_nil_of_mem mem
  cases keep with
  | first => exact ⟨_, List.head?_eq_some_head nonempty⟩
  | last => exact ⟨_, List.getLast?_eq_some_getLast nonempty⟩

theorem of_map (keep : Keep) (f : α → β) (xs : List α) : keep.of (xs.map f) = (keep.of xs).map f := by
  cases keep with
  | first => exact List.head?_map
  | last => exact List.getLast?_map

/-- A choice keeps of a run what it picks. -/
theorem of_run (keep : Keep) (run : Run α) : keep.of (run.head :: run.tail) = some (run.pick keep) := by
  cases keep with
  | first => rfl
  | last => simp [of, Run.pick, List.getLast?_cons]

namespace Stays

variable {keep : Keep} {same same' : α → α → Bool} {xs : List α} {x y : α}

theorem mem (stays : keep.Stays same xs x) : x ∈ xs :=
  List.mem_of_mem_filter (of_mem stays)

theorem congr (agree : ∀ y ∈ xs, same x y = same' x y) :
    keep.Stays same xs x ↔ keep.Stays same' xs x := by
  rw [Stays, Stays, List.filter_congr agree]

/-- Of items that tie only one stays. -/
theorem unique (order : Decides lt less P) (inside : ∀ z ∈ xs, P z)
    (stays : keep.Stays (tied less) xs x) (stays' : keep.Stays (tied less) xs y)
    (twins : tied less x y = true) : x = y := by
  have alike := order.filter_tied inside (inside x stays.mem) (inside y stays'.mem) twins
  rw [Stays, alike, stays'] at stays
  exact (Option.some.inj stays).symm

end Stays

/-- Items of an ordered domain are the same as they tie. -/
theorem stays_same {cmp : Comparison ε α} (ordered : cmp.OrderedOn P) {keep : Keep} {xs : List α}
    (inside : ∀ z ∈ xs, P z) {x : α} :
    keep.Stays (tied cmp.less) xs x ↔ keep.Stays cmp.same xs x := by
  have agree (mem : x ∈ xs) : ∀ y ∈ xs, tied cmp.less x y = cmp.same x y :=
    fun y memY => (ordered.same_eq (inside x mem) (inside y memY)).symm
  exact ⟨fun stays => (Stays.congr (agree stays.mem)).mp stays,
    fun stays => (Stays.congr (agree stays.mem)).mpr stays⟩

/-- For every item one stays that ties with it. -/
theorem exists_stays (keep : Keep) (order : Decides lt less P) {xs : List α}
    (inside : ∀ z ∈ xs, P z) {x : α} (mem : x ∈ xs) :
    ∃ y, keep.Stays (tied less) xs y ∧ tied less x y = true := by
  obtain ⟨y, kept⟩ := keep.exists_of
    (List.mem_filter.mpr ⟨mem, order.tied_self (inside x mem)⟩)
  obtain ⟨memY, same⟩ := List.mem_filter.mp (of_mem kept)
  refine ⟨y, ?_, same⟩
  rw [Stays, ← order.filter_tied inside (inside x mem) (inside y memY) same]
  exact kept

end Keep

/-- A list taken apart into runs: the heads increase, and a run holds what ties with its head. -/
structure Grouped (less : α → α → Bool) (xs : List α) (runs : List (Run α)) : Prop where
  heads : Increasing less (runs.map Run.head)
  whole : ∀ run ∈ runs, run.head :: run.tail = xs.filter (tied less run.head)
  covered : ∀ x ∈ xs, ∃ run ∈ runs, tied less run.head x = true

namespace Grouped

variable {xs : List α} {runs : List (Run α)} {x y : α}

theorem head_mem (grouped : Grouped less xs runs) {run : Run α} (mem : run ∈ runs) :
    run.head ∈ xs := by
  have first : run.head ∈ run.head :: run.tail := List.mem_cons_self ..
  rw [grouped.whole run mem] at first
  exact List.mem_of_mem_filter first

/-- An item in front of greater ones is a run of its own. -/
theorem cons_less (order : Decides lt less P) (hx : P x) (grouped : Grouped less xs runs)
    (above : ∀ y ∈ xs, less x y = true) : Grouped less (x :: xs) (⟨x, []⟩ :: runs) where
  heads := by
    refine List.pairwise_cons.mpr ⟨?_, grouped.heads⟩
    rw [List.forall_mem_map]
    exact fun run mem => above run.head (grouped.head_mem mem)
  whole := by
    refine List.forall_mem_cons.mpr ⟨?_, fun run mem => ?_⟩
    · have apart : xs.filter (tied less x) = [] := by
        rw [List.filter_eq_nil_iff]
        intro y mem
        simp [(tied_of_less (above y mem)).1]
      rw [List.filter_cons, order.tied_self hx, apart]
      rfl
    · have apart := (tied_of_less (above run.head (grouped.head_mem mem))).2
      rw [List.filter_cons, apart, grouped.whole run mem]
      rfl
  covered := by
    refine List.forall_mem_cons.mpr ⟨⟨_, List.mem_cons_self .., order.tied_self hx⟩, fun y mem => ?_⟩
    obtain ⟨run, memRun, same⟩ := grouped.covered y mem
    exact ⟨run, .tail _ memRun, same⟩

/-- One more item that ties with the first belongs to its run. -/
theorem cons_tie (order : Decides lt less P) {tail : List α} (inside : ∀ z ∈ x :: xs, P z) (hy : P y)
    (same : tied less x y = true) (grouped : Grouped less (x :: xs) (⟨x, tail⟩ :: runs)) :
    Grouped less (x :: y :: xs) (⟨x, y :: tail⟩ :: runs) where
  heads := grouped.heads
  whole := by
    have hx := inside x (List.mem_cons_self ..)
    obtain ⟨first, rest⟩ := List.forall_mem_cons.mp grouped.whole
    refine List.forall_mem_cons.mpr ⟨?_, fun run mem => ?_⟩
    · rw [List.filter_cons, order.tied_self hx] at first
      rw [List.filter_cons, order.tied_self hx, List.filter_cons, same]
      exact congrArg (x :: y :: ·) (List.cons.inj first).2
    · have hr := inside run.head (grouped.head_mem (.tail _ mem))
      have twins : tied less run.head y = tied less run.head x := by
        rw [tied_comm, ← order.tied_congr hx hy hr same, tied_comm]
      have apart : tied less run.head x = false :=
        (tied_of_less ((List.pairwise_cons.mp grouped.heads).1 _ (List.mem_map_of_mem mem))).2
      rw [rest run mem, List.filter_cons, List.filter_cons, List.filter_cons, twins, apart]
      rfl
  covered := by
    obtain ⟨first, rest⟩ := List.forall_mem_cons.mp grouped.covered
    have widen {z : α} (found : ∃ run ∈ (⟨x, tail⟩ :: runs : List (Run α)), tied less run.head z = true) :
        ∃ run ∈ (⟨x, y :: tail⟩ :: runs : List (Run α)), tied less run.head z = true := by
      obtain ⟨run, mem, twin⟩ := found
      rcases List.mem_cons.mp mem with rfl | mem
      · exact ⟨_, List.mem_cons_self .., twin⟩
      · exact ⟨run, .tail _ mem, twin⟩
    refine List.forall_mem_cons.mpr ⟨widen first, List.forall_mem_cons.mpr ⟨?_, fun z mem => ?_⟩⟩
    · exact ⟨_, List.mem_cons_self .., same⟩
    · exact widen (rest z mem)

/-- The runs of a sorted list are runs of the list as it was: sorting keeps items that tie in their order. -/
theorem of_sort (order : Decides lt less P) {sorted : List α} (inside : ∀ z ∈ xs, P z)
    (sort : IsSortOf less P sorted xs) (grouped : Grouped less sorted runs) : Grouped less xs runs where
  heads := grouped.heads
  whole run mem := (grouped.whole run mem).trans (sort.ties _ (sort.inside _ (grouped.head_mem mem)))
  covered x mem := by
    have hx := inside x mem
    have found : x ∈ sorted.filter (tied less x) := by
      rw [sort.ties x hx]
      exact List.mem_filter.mpr ⟨mem, order.tied_self hx⟩
    exact grouped.covered x (List.mem_of_mem_filter found)

/-- What is picked of a run ties with its head. -/
theorem pick_tied (grouped : Grouped less xs runs) (keep : Keep) {run : Run α} (mem : run ∈ runs) :
    run.pick keep ∈ xs ∧ tied less run.head (run.pick keep) = true := by
  have picked := Keep.of_mem (keep.of_run run)
  rw [grouped.whole run mem] at picked
  exact List.mem_filter.mp picked

/-- One item is picked of each run: the one that the choice keeps of all that tie with it. -/
theorem mem_picks (order : Decides lt less P) (inside : ∀ z ∈ xs, P z)
    (grouped : Grouped less xs runs) (keep : Keep) :
    y ∈ runs.map (Run.pick keep) ↔ keep.Stays (tied less) xs y := by
  have stays {run : Run α} (mem : run ∈ runs) : keep.Stays (tied less) xs (run.pick keep) := by
    obtain ⟨memPick, twin⟩ := grouped.pick_tied keep mem
    rw [Keep.Stays, ← order.filter_tied inside (inside _ (grouped.head_mem mem))
      (inside _ memPick) twin, ← grouped.whole run mem, keep.of_run]
  constructor
  · intro mem
    obtain ⟨run, memRun, rfl⟩ := List.mem_map.mp mem
    exact stays memRun
  · intro staysY
    have hy := inside y staysY.mem
    obtain ⟨run, memRun, twin⟩ := grouped.covered y staysY.mem
    obtain ⟨memPick, twinPick⟩ := grouped.pick_tied keep memRun
    have same : tied less (run.pick keep) y = true := by
      rw [← order.tied_congr (inside _ (grouped.head_mem memRun)) (inside _ memPick) hy twinPick]
      exact twin
    rw [← (stays memRun).unique order inside staysY same]
    exact List.mem_map_of_mem memRun

theorem picks_increasing (order : Decides lt less P) (inside : ∀ z ∈ xs, P z)
    (grouped : Grouped less xs runs) (keep : Keep) :
    Increasing less (runs.map (Run.pick keep)) := by
  refine List.pairwise_map.mpr ((List.pairwise_map.mp grouped.heads).imp_of_mem ?_)
  intro r s memR memS below
  obtain ⟨memPickR, twinR⟩ := grouped.pick_tied keep memR
  obtain ⟨memPickS, twinS⟩ := grouped.pick_tied keep memS
  have hr := inside _ (grouped.head_mem memR)
  have hs := inside _ (grouped.head_mem memS)
  rw [← order.less_of_tied hr (inside _ memPickR) (inside _ memPickS) twinR,
    ← order.less_of_tied_right hs (inside _ memPickS) hr twinS]
  exact below

end Grouped

theorem Run.split_grouped {eq : α → α → Except ε Bool} (order : Decides lt less P)
    (answers : ∀ a b, P a → P b → eq a b = .ok (tied less a b)) {x : α} {xs : List α}
    (sorted : Sorted less (x :: xs)) (inside : ∀ y ∈ x :: xs, P y) :
    ∃ tail runs, split eq x xs = .ok (tail, runs) ∧ Grouped less (x :: xs) (⟨x, tail⟩ :: runs) := by
  induction xs generalizing x with
  | nil =>
    have empty : Grouped less ([] : List α) [] := ⟨List.Pairwise.nil, by simp, by simp⟩
    exact ⟨[], [], rfl, empty.cons_less order (inside x (by simp)) (by simp)⟩
  | cons y ys ih =>
    obtain ⟨hx, insideRest⟩ := List.forall_mem_cons.mp inside
    obtain ⟨hy, insideYs⟩ := List.forall_mem_cons.mp insideRest
    obtain ⟨above, sortedRest⟩ := List.pairwise_cons.mp sorted
    rw [split, answers x y hx hy]
    cases same : tied less x y with
    | true =>
      have sortedX : Sorted less (x :: ys) :=
        List.pairwise_cons.mpr ⟨fun z mem => above z (.tail _ mem), sortedRest.tail⟩
      have insideX := List.forall_mem_cons.mpr ⟨hx, insideYs⟩
      obtain ⟨tail, runs, done, grouped⟩ := ih sortedX insideX
      refine ⟨y :: tail, runs, ?_, grouped.cons_tie order insideX hy same⟩
      show (split eq x ys >>= _) = _
      rw [done]
      rfl
    | false =>
      have less_xy : less x y = true := by simpa [tied, above y (by simp)] using same
      obtain ⟨tail, runs, done, grouped⟩ := ih sortedRest insideRest
      refine ⟨[], ⟨y, tail⟩ :: runs, ?_, grouped.cons_less order hx ?_⟩
      · show (split eq y ys >>= _) = _
        rw [done]
        rfl
      · -- Nothing in a sorted list is less than the item before it.
        refine List.forall_mem_cons.mpr ⟨less_xy, fun z mem => ?_⟩
        exact order.less_of_less_of_not_less hx hy (insideYs z mem) less_xy
          ((List.pairwise_cons.mp sortedRest).1 z mem)

/-- The runs of a sorted list. -/
theorem Run.all_grouped {eq : α → α → Except ε Bool} (order : Decides lt less P)
    (answers : ∀ a b, P a → P b → eq a b = .ok (tied less a b)) {xs : List α}
    (sorted : Sorted less xs) (inside : ∀ x ∈ xs, P x) :
    ∃ runs, all eq xs = .ok runs ∧ Grouped less xs runs := by
  cases xs with
  | nil => exact ⟨[], rfl, List.Pairwise.nil, by simp, by simp⟩
  | cons x xs =>
    obtain ⟨tail, runs, done, grouped⟩ := split_grouped order answers sorted inside
    refine ⟨⟨x, tail⟩ :: runs, ?_, grouped⟩
    show (split eq x xs >>= _) = _
    rw [done]
    rfl

section Keyed

variable {cmp : Comparison ε κ} {key : α → Except ε κ} {P : κ → Prop}

/-- The keys of items that all have one. -/
theorem exists_withKeys {xs : List α} (inside : ∀ x ∈ xs, Comparison.KeyIn key P x) :
    ∃ pairs, withKeys key xs = .ok pairs ∧ pairs.map Prod.snd = xs ∧
      ∀ pair ∈ pairs, key pair.2 = .ok pair.1 ∧ P pair.1 := by
  induction xs with
  | nil => exact ⟨[], rfl, rfl, by simp⟩
  | cons x xs ih =>
    obtain ⟨k, hk, inP⟩ := inside x (by simp)
    obtain ⟨pairs, done, items, keyed⟩ := ih fun y mem => inside y (.tail _ mem)
    refine ⟨(k, x) :: pairs, ?_, by rw [List.map_cons, items], ?_⟩
    · rw [withKeys] at done ⊢
      rw [List.mapM_cons, hk, done]
      rfl
    · intro pair mem
      rcases List.mem_cons.mp mem with rfl | mem
      · exact ⟨hk, inP⟩
      · exact keyed pair mem

theorem less_on {x y : α} {k l : κ} (hx : key x = .ok k) (hy : key y = .ok l) :
    (cmp.on key).less x y = cmp.less k l := by
  rw [Comparison.less, Comparison.less]
  simp only [Comparison.on, hx, hy]
  rfl

theorem tied_on {x y : α} {k l : κ} (hx : key x = .ok k) (hy : key y = .ok l) :
    tied (cmp.on key).less x y = tied cmp.less k l := by
  rw [tied, tied, less_on hx hy, less_on hy hx]

/-- Items tie as their keys do. -/
theorem filter_keyed {pairs : List (κ × α)} (keyed : ∀ pair ∈ pairs, key pair.2 = .ok pair.1) {z : α}
    {k : κ} (hz : key z = .ok k) :
    (pairs.map Prod.snd).filter (tied (cmp.on key).less z) =
      (pairs.filter (tied (fun a b => cmp.less a.1 b.1) (k, z))).map Prod.snd := by
  rw [List.filter_map]
  exact congrArg _ (List.filter_congr fun pair mem => tied_on hz (keyed pair mem))

/-- An item that stays does so with its key. -/
theorem stays_keyed {keep : Keep} {pairs : List (κ × α)}
    (keyed : ∀ pair ∈ pairs, key pair.2 = .ok pair.1) {y : α} :
    keep.Stays (tied (cmp.on key).less) (pairs.map Prod.snd) y ↔
      ∃ pair, keep.Stays (tied fun a b : κ × α => cmp.less a.1 b.1) pairs pair ∧ pair.2 = y := by
  constructor
  · intro stays
    obtain ⟨pair, mem, rfl⟩ := List.mem_map.mp stays.mem
    rw [Keep.Stays, filter_keyed keyed (keyed pair mem), Keep.of_map] at stays
    obtain ⟨twin, kept, same⟩ := Option.map_eq_some_iff.mp stays
    have keyTwin := keyed twin (List.mem_of_mem_filter (Keep.of_mem kept))
    rw [same, keyed pair mem, Except.ok.injEq] at keyTwin
    have whole : twin = pair := Prod.ext keyTwin.symm same
    rw [whole] at kept
    exact ⟨pair, kept, rfl⟩
  · rintro ⟨pair, stays, rfl⟩
    rw [Keep.Stays, filter_keyed keyed (keyed pair stays.mem), Keep.of_map]
    exact congrArg (Option.map Prod.snd) stays

/-- Sorting by key sorts the items together with their keys. -/
theorem sortByKey_sorts (ordered : cmp.OrderedOn P) {xs : List α}
    (inside : ∀ x ∈ xs, Comparison.KeyIn key P x) :
    ∃ pairs sorted, sortByKey cmp key xs = .ok sorted ∧ pairs.map Prod.snd = xs ∧
      (∀ pair ∈ pairs, key pair.2 = .ok pair.1 ∧ P pair.1) ∧
      IsSortOf (fun a b : κ × α => cmp.less a.1 b.1) (fun pair => P pair.1) sorted pairs := by
  obtain ⟨pairs, done, items, keyed⟩ := exists_withKeys inside
  have order := (ordered.decides).comap (Prod.fst : κ × α → κ)
  obtain ⟨sorted, sorts, sort⟩ := stableSort_sorts order fun pair mem => (keyed pair mem).2
  refine ⟨pairs, sorted, ?_, items, keyed, sort⟩
  rw [sortByKey, done]
  show Fault.liftSort (stableSort _ pairs) = _
  rw [sorts]
  rfl

/-- The runs of the sorted items, with their keys, are runs of the items as they came: sorting is stable. -/
theorem sortByKey_runs (ordered : cmp.OrderedOn P) {xs : List α}
    (inside : ∀ x ∈ xs, Comparison.KeyIn key P x) :
    ∃ pairs sorted runs, sortByKey cmp key xs = .ok sorted ∧
      Run.all (fun a b => cmp.eq a.1 b.1) sorted = .ok runs ∧ pairs.map Prod.snd = xs ∧
      (∀ pair ∈ pairs, key pair.2 = .ok pair.1 ∧ P pair.1) ∧
      Grouped (fun a b : κ × α => cmp.less a.1 b.1) pairs runs := by
  obtain ⟨pairs, sorted, done, items, keyed, sort⟩ := sortByKey_sorts ordered inside
  have order := (ordered.decides).comap (Prod.fst : κ × α → κ)
  have answers : ∀ p q : κ × α, P p.1 → P q.1 →
      cmp.eq p.1 q.1 = .ok (tied (fun a b : κ × α => cmp.less a.1 b.1) p q) := fun p q hp hq => by
    rw [ordered.eq_eq hp hq, ordered.same_eq hp hq]
    rfl
  obtain ⟨runs, split, grouped⟩ := Run.all_grouped order answers sort.sorted sort.inside
  exact ⟨pairs, sorted, runs, done, split, items, keyed,
    grouped.of_sort order (fun pair mem => (keyed pair mem).2) sort⟩

/-- Sorting by key and keeping one item of each run makes an increasing list of the items that the
choice keeps of those that tie with them. -/
theorem sortDedup_stays (ordered : cmp.OrderedOn P) (keep : Keep) {xs : List α}
    (inside : ∀ x ∈ xs, Comparison.KeyIn key P x) :
    ∃ ys, sortDedup cmp key keep xs = .ok ys ∧
      IncreasingOn (cmp.on key).less (Comparison.KeyIn key P) ys ∧
      ∀ y, y ∈ ys ↔ keep.Stays (tied (cmp.on key).less) xs y := by
  obtain ⟨pairs, sorted, runs, done, split, items, keyed, grouped⟩ := sortByKey_runs ordered inside
  have order := (ordered.decides).comap (Prod.fst : κ × α → κ)
  have insidePairs : ∀ pair ∈ pairs, P pair.1 := fun pair mem => (keyed pair mem).2
  have picks : ∀ pair, pair ∈ runs.map (Run.pick keep) ↔
      keep.Stays (tied fun a b : κ × α => cmp.less a.1 b.1) pairs pair :=
    fun _ => grouped.mem_picks order insidePairs keep
  have keyedPicks : ∀ pair ∈ runs.map (Run.pick keep), key pair.2 = .ok pair.1 ∧ P pair.1 :=
    fun pair mem => keyed pair ((picks pair).mp mem).mem
  refine ⟨(runs.map (Run.pick keep)).map Prod.snd, ?_, ⟨?_, ?_⟩, fun y => ?_⟩
  · rw [sortDedup, done]
    show ((Fault.lift (Run.all _ sorted) >>= _) : Except (Fault ε) (List α)) = _
    rw [split, List.map_map]
    rfl
  · refine List.pairwise_map.mpr ((grouped.picks_increasing order insidePairs keep).imp_of_mem ?_)
    intro p q memP memQ less
    rw [less_on (keyedPicks p memP).1 (keyedPicks q memQ).1]
    exact less
  · rw [List.forall_mem_map]
    exact fun pair mem => ⟨pair.1, keyedPicks pair mem⟩
  · rw [← items, stays_keyed fun pair mem => (keyed pair mem).1, List.mem_map]
    exact exists_congr fun pair => and_congr_left fun _ => picks pair

theorem isStrictlySorted_go (ordered : cmp.OrderedOn P) {x : α} {k : κ} (hx : key x = .ok k)
    (hk : P k) {xs : List α} (inside : ∀ y ∈ xs, Comparison.KeyIn key P y) :
    isStrictlySorted.go cmp key k xs = .ok (decide (Increasing (cmp.on key).less (x :: xs))) := by
  have order := (ordered.on key).decides
  induction xs generalizing x k with
  | nil => simp [isStrictlySorted.go, Increasing]
  | cons y xs ih =>
    have insideX : Comparison.KeyIn key P x := ⟨k, hx, hk⟩
    have insideY := inside y (by simp)
    obtain ⟨l, hy, hl⟩ := insideY
    rw [isStrictlySorted.go, hy]
    show (cmp.lt k l >>= _) = _
    rw [ordered.lt_eq hk hl, ← less_on hx hy]
    cases less : (cmp.on key).less x y with
    | false =>
      have broken : ¬Increasing (cmp.on key).less (x :: y :: xs) := by
        intro increasing
        have first := (List.pairwise_cons.mp increasing).1 y (by simp)
        rw [less] at first
        cases first
      rw [decide_eq_false broken]
      rfl
    | true =>
      show isStrictlySorted.go cmp key l xs = _
      rw [ih hy hl fun z mem => inside z (.tail _ mem)]
      congr 1
      refine decide_eq_decide.mpr ⟨fun increasing => ?_, List.Pairwise.tail⟩
      refine List.pairwise_cons.mpr ⟨fun z mem => ?_, increasing⟩
      rcases List.mem_cons.mp mem with rfl | mem
      · exact less
      · exact order.trans insideX ⟨l, hy, hl⟩ (inside z (.tail _ mem)) less
          ((List.pairwise_cons.mp increasing).1 z mem)

/-- On an ordered domain it is enough to compare neighbours. -/
theorem isStrictlySorted_eq (ordered : cmp.OrderedOn P) {xs : List α}
    (inside : ∀ x ∈ xs, Comparison.KeyIn key P x) :
    isStrictlySorted cmp key xs = .ok (decide (Increasing (cmp.on key).less xs)) := by
  cases xs with
  | nil => rfl
  | cons x xs =>
    obtain ⟨k, hx, hk⟩ := inside x (by simp)
    rw [isStrictlySorted, hx]
    exact isStrictlySorted_go ordered hx hk fun y mem => inside y (.tail _ mem)

end Keyed

/-- If one item stays of those that tie, the same ties are left. -/
theorem hasTie_of_stays (order : Decides lt less P) {keep : Keep} {xs ys : List α}
    (inside : ∀ x ∈ xs, P x) (members : ∀ y, y ∈ ys ↔ keep.Stays (tied less) xs y) {z : α} (hz : P z) :
    hasTie less ys z = hasTie less xs z := by
  rw [Bool.eq_iff_iff, hasTie, hasTie, List.any_eq_true, List.any_eq_true]
  constructor
  · rintro ⟨y, mem, same⟩
    exact ⟨y, ((members y).mp mem).mem, same⟩
  · rintro ⟨x, mem, same⟩
    obtain ⟨y, stays, twin⟩ := keep.exists_stays order inside mem
    refine ⟨y, (members y).mpr stays, ?_⟩
    rw [order.tied_congr hz (inside x mem) (inside y stays.mem) same]
    exact twin

/-- The set of a list in any order holds the last of each equal items. -/
theorem SortedSet.ofList_stays {cmp : Comparison ε α} (ordered : cmp.OrderedOn P) {items : List α}
    (inside : ∀ x ∈ items, P x) :
    ∃ s, SortedSet.ofList cmp items = .ok s ∧ IncreasingOn cmp.less P s.items ∧
      ∀ x, x ∈ s.items ↔ Keep.last.Stays (tied cmp.less) items x := by
  obtain ⟨ys, done, kept, members⟩ :=
    sortDedup_stays ordered .standard fun x mem => keyIn_self.mpr (inside x mem)
  refine ⟨⟨ys⟩, ?_, increasingOn_self.mp kept, members⟩
  rw [SortedSet.ofList, done]
  rfl

/-- The set of a list in any order has the members of the list. -/
theorem SortedSet.ofList_members {cmp : Comparison ε α} (ordered : cmp.OrderedOn P) {items : List α}
    (inside : ∀ x ∈ items, P x) :
    ∃ s, SortedSet.ofList cmp items = .ok s ∧ IncreasingOn cmp.less P s.items ∧
      ∀ x, P x → hasTie cmp.less s.items x = hasTie cmp.less items x := by
  obtain ⟨s, done, kept, members⟩ := ofList_stays ordered inside
  exact ⟨s, done, kept, fun x hx => hasTie_of_stays ordered.decides inside members hx⟩

end SortedCollections
