import SortedCollections.CofiniteSet
import SortedCollections.Proofs.Maps.Canonical
import SortedCollections.Proofs.Sets.Elements

/-!
# Lists that come back

A container is restored from the list that it was saved as. A list in order is taken as it is, any
other one is sorted, and both are what creating the container out of the list comes to: on a list in
order, sorting and keeping one of each equal items changes nothing. So a list that must be in order is
refused exactly if creating the container would store another list, and a container whose list is in
order, and none of whose values equals its default, comes back as it was.
-/
namespace SortedCollections

variable {ε α κ ν : Type}

section Keyed

variable {cmp : Comparison ε κ} {key : α → Except ε κ} {P : κ → Prop} {xs : List α}

/-- Items of an increasing list tie only with themselves. -/
theorem IncreasingOn.eq_of_tied {lt : α → α → Except ε Bool} {less : α → α → Bool} {Q : α → Prop}
    (order : Decides lt less Q) (kept : IncreasingOn less Q xs) {x y : α} (memX : x ∈ xs)
    (memY : y ∈ xs) (same : tied less x y = true) : x = y := by
  have picks := order.picksOne (kept.inside x memX)
  have first := picks.find?_of_mem kept memX (order.tied_self (kept.inside x memX))
  have second := picks.find?_of_mem kept memY same
  exact Option.some.inj (first.symm.trans second)

/-- Sorting a list that is in order and keeping one of each equal items changes nothing. -/
theorem sortDedup_increasing (ordered : cmp.OrderedOn P) (keep : Keep)
    (inside : ∀ x ∈ xs, Comparison.KeyIn key P x) (increasing : Increasing (cmp.on key).less xs) :
    sortDedup cmp key keep xs = .ok xs := by
  have order := (ordered.on key).decides
  obtain ⟨ys, done, kept, stays⟩ := sortDedup_stays ordered keep inside
  have whole : IncreasingOn (cmp.on key).less (Comparison.KeyIn key P) xs := ⟨increasing, inside⟩
  rw [done, kept.ext order whole fun x => ?_]
  rw [stays x]
  refine ⟨Keep.Stays.mem, fun mem => ?_⟩
  obtain ⟨y, stays, same⟩ := keep.exists_stays order inside mem
  rwa [whole.eq_of_tied order mem stays.mem same]

/-- Sorting makes the list as it came exactly if that was in order, which comparing neighbours
tells. -/
theorem exists_sortDedup_checked (ordered : cmp.OrderedOn P) (keep : Keep)
    (inside : ∀ x ∈ xs, Comparison.KeyIn key P x) :
    ∃ ys inOrder, sortDedup cmp key keep xs = .ok ys ∧
      isStrictlySorted cmp key xs = .ok inOrder ∧ (inOrder = true ↔ ys = xs) := by
  obtain ⟨ys, done, kept, _⟩ := sortDedup_stays ordered keep inside
  refine ⟨ys, _, done, isStrictlySorted_eq ordered inside, ?_⟩
  rw [decide_eq_true_eq]
  constructor
  · intro increasing
    exact Except.ok.inj (done.symm.trans (sortDedup_increasing ordered keep inside increasing))
  · rintro rfl
    exact kept.increasing

end Keyed

section Sets

variable {cmp : Comparison ε α} {P : α → Prop} {items : List α}

/-- Either a list is in order, and then the set made of it stores just that list, or it is not, and then
the set stores another one. -/
theorem SortedSet.exists_ofList_checked (ordered : cmp.OrderedOn P) (inside : ∀ x ∈ items, P x) :
    ∃ s inOrder, ofList cmp items = .ok s ∧ isStrictlySorted cmp .ok items = .ok inOrder ∧
      (inOrder = true ↔ s.items = items) := by
  obtain ⟨ys, inOrder, done, asked, same⟩ :=
    exists_sortDedup_checked ordered .standard fun x mem => keyIn_self.mpr (inside x mem)
  exact ⟨⟨ys⟩, inOrder, by rw [ofList, done]; rfl, asked, same⟩

theorem SortedSet.restore_eq_ofList (ordered : cmp.OrderedOn P) (inside : ∀ x ∈ items, P x) :
    restore cmp items = ofList cmp items := by
  obtain ⟨s, inOrder, done, asked, same⟩ := exists_ofList_checked ordered inside
  rw [restore, asked]
  cases inOrder with
  | false => rfl
  | true =>
    rw [done]
    exact congrArg (fun items => Except.ok (SortedSet.mk items)) (same.mp rfl).symm

theorem CofiniteSet.restore_eq_ofList (ordered : cmp.OrderedOn P) (inside : ∀ x ∈ items, P x)
    (negated : Bool) : restore cmp items negated = ofList cmp items negated := by
  rw [restore, ofList, SortedSet.restore_eq_ofList ordered inside]

/-- A list that must be in order is taken exactly if the set of the list would store it unchanged. -/
theorem SortedSet.ofSorted?_answers (ordered : cmp.OrderedOn P) (inside : ∀ x ∈ items, P x) :
    ∃ s, ofList cmp items = .ok s ∧ (s.items = items ∧ ofSorted? cmp items = .ok (some s) ∨
      s.items ≠ items ∧ ofSorted? cmp items = .ok none) := by
  obtain ⟨s, inOrder, done, asked, same⟩ := exists_ofList_checked ordered inside
  refine ⟨s, done, ?_⟩
  rw [ofSorted?, asked]
  cases inOrder with
  | false => exact .inr ⟨fun unchanged => Bool.false_ne_true (same.mpr unchanged), rfl⟩
  | true =>
    have unchanged := same.mp rfl
    exact .inl ⟨unchanged, congrArg (fun items => Except.ok (some (SortedSet.mk items))) unchanged.symm⟩

end Sets

section Maps

variable {cmp : Comparison ε κ} {P : κ → Prop} {entries : List (κ × ν)}

theorem SortedMap.exists_ofList_checked (ordered : cmp.OrderedOn P) (inside : ∀ e ∈ entries, P e.1) :
    ∃ m inOrder, ofList cmp entries = .ok m ∧ isStrictlySorted cmp key entries = .ok inOrder ∧
      (inOrder = true ↔ m.entries = entries) := by
  obtain ⟨ys, inOrder, done, asked, same⟩ :=
    exists_sortDedup_checked ordered .standard fun e mem => keyIn_entry.mpr (inside e mem)
  exact ⟨⟨ys⟩, inOrder, by rw [ofList, done]; rfl, asked, same⟩

theorem SortedMap.restore_eq_ofList (ordered : cmp.OrderedOn P) (inside : ∀ e ∈ entries, P e.1) :
    restore cmp entries = ofList cmp entries := by
  obtain ⟨m, inOrder, done, asked, same⟩ := exists_ofList_checked ordered inside
  rw [restore, asked]
  cases inOrder with
  | false => rfl
  | true =>
    rw [done]
    exact congrArg (fun entries => Except.ok (SortedMap.mk entries)) (same.mp rfl).symm

/-- A list that must be in order is taken exactly if the map of the list would store it unchanged. -/
theorem SortedMap.ofSorted?_answers (ordered : cmp.OrderedOn P) (inside : ∀ e ∈ entries, P e.1) :
    ∃ m, ofList cmp entries = .ok m ∧ (m.entries = entries ∧ ofSorted? cmp entries = .ok (some m) ∨
      m.entries ≠ entries ∧ ofSorted? cmp entries = .ok none) := by
  obtain ⟨m, inOrder, done, asked, same⟩ := exists_ofList_checked ordered inside
  refine ⟨m, done, ?_⟩
  rw [ofSorted?, asked]
  cases inOrder with
  | false => exact .inr ⟨fun unchanged => Bool.false_ne_true (same.mpr unchanged), rfl⟩
  | true =>
    have unchanged := same.mp rfl
    exact .inl
      ⟨unchanged, congrArg (fun entries => Except.ok (some (SortedMap.mk entries))) unchanged.symm⟩

/-- The values are stripped of the default in the same way, if equality answers, and fail alike. -/
theorem DefaultMap.restore_eq_ofList (ordered : cmp.OrderedOn P) (eq : ν → ν → Except ε Bool)
    (inside : ∀ e ∈ entries, P e.1) (d : ν) :
    restore cmp eq entries d = (do ofEntries eq (← SortedMap.ofList cmp entries) d) := by
  rw [restore, SortedMap.restore_eq_ofList ordered inside]

end Maps

/-- Restoring a container from a list is creating it out of the list, and a list that must be in order
is taken exactly if creating the container would store it unchanged. -/
structure EntersAlike (cmp : Comparison ε κ) (eq : ν → ν → Except ε Bool) (keys : List κ)
    (entries : List (κ × ν)) (negated : Bool) (d : ν) : Prop where
  set : SortedSet.restore cmp keys = SortedSet.ofList cmp keys
  map : SortedMap.restore cmp entries = SortedMap.ofList cmp entries
  cofinite : CofiniteSet.restore cmp keys negated = CofiniteSet.ofList cmp keys negated
  defaultMap : DefaultMap.restore cmp eq entries d =
    do DefaultMap.ofEntries eq (← SortedMap.ofList cmp entries) d
  sortedSet : ∃ s, SortedSet.ofList cmp keys = .ok s ∧
    (s.items = keys ∧ SortedSet.ofSorted? cmp keys = .ok (some s) ∨
      s.items ≠ keys ∧ SortedSet.ofSorted? cmp keys = .ok none)
  sortedMap : ∃ m, SortedMap.ofList cmp entries = .ok m ∧
    (m.entries = entries ∧ SortedMap.ofSorted? cmp entries = .ok (some m) ∨
      m.entries ≠ entries ∧ SortedMap.ofSorted? cmp entries = .ok none)

theorem entersAlike {cmp : Comparison ε κ} {P : κ → Prop} (ordered : cmp.OrderedOn P)
    (eq : ν → ν → Except ε Bool) {keys : List κ} (insideKeys : ∀ k ∈ keys, P k)
    {entries : List (κ × ν)} (inside : ∀ e ∈ entries, P e.1) (negated : Bool) (d : ν) :
    EntersAlike cmp eq keys entries negated d where
  set := SortedSet.restore_eq_ofList ordered insideKeys
  map := SortedMap.restore_eq_ofList ordered inside
  cofinite := CofiniteSet.restore_eq_ofList ordered insideKeys negated
  defaultMap := DefaultMap.restore_eq_ofList ordered eq inside d
  sortedSet := SortedSet.ofSorted?_answers ordered insideKeys
  sortedMap := SortedMap.ofSorted?_answers ordered inside

theorem SortedSet.restore_items {cmp : Comparison ε α} {P : α → Prop} (ordered : cmp.OrderedOn P)
    {s : SortedSet α} (kept : IncreasingOn cmp.less P s.items) : restore cmp s.items = .ok s := by
  have keyed := increasingOn_self (ε := ε).mpr kept
  rw [restore_eq_ofList ordered kept.inside, ofList,
    sortDedup_increasing ordered .standard keyed.inside keyed.increasing]
  rfl

section Entries

variable {cmp : Comparison ε κ} {P : κ → Prop}

theorem SortedMap.restore_entries_self (ordered : cmp.OrderedOn P) {m : SortedMap κ ν}
    (kept : EntriesOn cmp.less P m.entries) : restore cmp m.entries = .ok m := by
  have keyed := entriesOn_keyed.mpr kept
  rw [restore_eq_ofList ordered kept.inside, ofList,
    sortDedup_increasing ordered .standard keyed.inside keyed.increasing]
  rfl

/-- A map in canonical form loses no entry. -/
theorem DefaultMap.restore_canonical_self (ordered : cmp.OrderedOn P) {eq : ν → ν → Except ε Bool}
    {Q : ν → Prop} {m : DefaultMap κ ν} (canonical : m.Canonical cmp eq P Q) :
    restore cmp eq m.entries.entries m.default = .ok m := by
  have differs : m.entries.entries.filterM (fun e => do return !(← eq e.2 m.default)) =
      .ok m.entries.entries := by
    have stays : ∀ e ∈ m.entries.entries, (do return !(← eq e.2 m.default) : Except ε Bool) =
        .ok ((fun _ => true) e) := fun e mem => by rw [canonical.stripped e mem]; rfl
    rw [filterM_eq_filter stays, List.filter_true]
  rw [restore, SortedMap.restore_entries_self ordered canonical.kept]
  show ofEntries eq m.entries m.default = _
  rw [ofEntries, normalize, SortedMap.retain, differs]
  rfl

end Entries

end SortedCollections
