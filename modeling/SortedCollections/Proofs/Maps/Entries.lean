import SortedCollections.Proofs.Merge.Pairing
import SortedCollections.Proofs.Sets.Deduplication
import SortedCollections.SortedMap

/-!
# Entries in the order of their keys

A map whose keys increase gives a key the value of the one entry whose key ties with it. Searching
asks about keys alone, so a map is searched like the set of its keys; setting and removing a key cut
the entries where the key belongs.
-/
namespace SortedCollections

variable {ε α β κ ν : Type}

/-- Entries whose keys strictly increase and lie in the domain `P`. -/
abbrev EntriesOn (less : κ → κ → Bool) (P : κ → Prop) (entries : List (κ × ν)) : Prop :=
  IncreasingOn (fun e f => less e.1 f.1) (fun e => P e.1) entries

/-- The value of a key: that of the entry whose key ties with it. -/
def valueOf (less : κ → κ → Bool) (entries : List (κ × ν)) (k : κ) : Option ν :=
  (entries.find? fun e => tied less k e.1).map Prod.snd

theorem entriesOn_keys {less : κ → κ → Bool} {P : κ → Prop} {entries : List (κ × ν)} :
    EntriesOn less P entries ↔ IncreasingOn less P (entries.map Prod.fst) := by
  constructor
  · intro kept
    refine ⟨List.pairwise_map.mpr kept.increasing, fun k mem => ?_⟩
    obtain ⟨e, memE, rfl⟩ := List.mem_map.mp mem
    exact kept.inside e memE
  · exact fun kept => ⟨List.pairwise_map.mp kept.increasing,
      fun e mem => kept.inside e.1 (List.mem_map_of_mem mem)⟩

theorem keyIn_entry {P : κ → Prop} {e : κ × ν} :
    Comparison.KeyIn (SortedMap.key : κ × ν → Except ε κ) P e ↔ P e.1 := by
  constructor
  · rintro ⟨k, same, inside⟩
    cases same
    exact inside
  · exact fun inside => ⟨e.1, rfl, inside⟩

/-- Entries increase as the items of a merge do. -/
theorem entriesOn_keyed {cmp : Comparison ε κ} {P : κ → Prop} {entries : List (κ × ν)} :
    IncreasingOn (cmp.on SortedMap.key).less (Comparison.KeyIn (ε := ε) SortedMap.key P) entries ↔
      EntriesOn cmp.less P entries :=
  ⟨fun kept => ⟨kept.increasing, fun e mem => keyIn_entry.mp (kept.inside e mem)⟩,
    fun kept => ⟨kept.increasing, fun e mem => keyIn_entry.mpr (kept.inside e mem)⟩⟩

section Order

variable {cmp : Comparison ε κ} {P : κ → Prop} {entries : List (κ × ν)} {k : κ}

theorem picksOne_key (ordered : cmp.OrderedOn P) (hk : P k) :
    PicksOne (fun e f : κ × ν => cmp.less e.1 f.1) (fun e => P e.1) fun e => tied cmp.less k e.1 :=
  (ordered.decides.picksOne hk).comap Prod.fst

theorem valueOf_of_mem (ordered : cmp.OrderedOn P) (kept : EntriesOn cmp.less P entries) (hk : P k)
    {e : κ × ν} (mem : e ∈ entries) (same : tied cmp.less k e.1 = true) :
    valueOf cmp.less entries k = some e.2 := by
  rw [valueOf, (picksOne_key ordered hk).find?_of_mem kept mem same]
  rfl

theorem valueOf_eq_some (ordered : cmp.OrderedOn P) (kept : EntriesOn cmp.less P entries) (hk : P k)
    {v : ν} :
    valueOf cmp.less entries k = some v ↔ ∃ e ∈ entries, tied cmp.less k e.1 = true ∧ e.2 = v := by
  constructor
  · intro value
    obtain ⟨e, found, rfl⟩ := Option.map_eq_some_iff.mp value
    exact ⟨e, List.mem_of_find?_eq_some found, (List.find?_eq_some_iff_append.mp found).1, rfl⟩
  · rintro ⟨e, mem, same, rfl⟩
    exact valueOf_of_mem ordered kept hk mem same

/-- Entries with the same value for a key, if they have the same entries that tie with it. -/
theorem valueOf_congr (ordered : cmp.OrderedOn P) {entries' : List (κ × ν)}
    (kept : EntriesOn cmp.less P entries) (kept' : EntriesOn cmp.less P entries') (hk : P k)
    (same : ∀ e, tied cmp.less k e.1 = true → (e ∈ entries ↔ e ∈ entries')) :
    valueOf cmp.less entries k = valueOf cmp.less entries' k := by
  ext v
  rw [valueOf_eq_some ordered kept hk, valueOf_eq_some ordered kept' hk]
  constructor
  · rintro ⟨e, mem, tie, rfl⟩
    exact ⟨e, (same e tie).mp mem, tie, rfl⟩
  · rintro ⟨e, mem, tie, rfl⟩
    exact ⟨e, (same e tie).mpr mem, tie, rfl⟩

theorem valueOf_eq_none {less : κ → κ → Bool} (apart : ∀ e ∈ entries, tied less k e.1 = false) :
    valueOf less entries k = none := by
  rw [valueOf, List.find?_eq_none.mpr fun e mem => by rw [apart e mem]; exact Bool.false_ne_true]
  rfl

/-- Keys that tie have the same value. -/
theorem valueOf_tied (ordered : cmp.OrderedOn P) (kept : EntriesOn cmp.less P entries) {j : κ}
    (hj : P j) (hk : P k) (same : tied cmp.less j k = true) :
    valueOf cmp.less entries j = valueOf cmp.less entries k := by
  ext v
  rw [valueOf_eq_some ordered kept hj, valueOf_eq_some ordered kept hk]
  refine exists_congr fun e => and_congr_right fun mem => ?_
  rw [ordered.decides.tied_congr hj hk (kept.inside e mem) same]

/-- An entry in place of another one with the same key. -/
theorem valueOf_insert (ordered : cmp.OrderedOn P) {entries' : List (κ × ν)} {v : ν}
    (kept : EntriesOn cmp.less P entries) (kept' : EntriesOn cmp.less P entries') (hk : P k)
    (members : ∀ e, e ∈ entries' ↔ e = (k, v) ∨ e ∈ entries ∧ tied cmp.less k e.1 = false)
    {j : κ} (hj : P j) :
    valueOf cmp.less entries' j =
      if tied cmp.less j k then some v else valueOf cmp.less entries j := by
  cases same : tied cmp.less j k with
  | true => exact valueOf_of_mem ordered kept' hj ((members (k, v)).mpr (.inl rfl)) same
  | false =>
    refine valueOf_congr ordered kept' kept hj fun e tie => ⟨fun mem => ?_, fun mem => ?_⟩
    · rcases (members e).mp mem with rfl | ⟨mem, _⟩
      · cases same.symm.trans tie
      · exact mem
    · refine (members e).mpr (.inr ⟨mem, ?_⟩)
      rw [tied_comm, ← ordered.decides.tied_congr hj (kept.inside e mem) hk tie, same]

/-- No entry any more. -/
theorem valueOf_erase (ordered : cmp.OrderedOn P) {entries' : List (κ × ν)}
    (kept : EntriesOn cmp.less P entries) (kept' : EntriesOn cmp.less P entries') (hk : P k)
    (members : ∀ e, e ∈ entries' ↔ e ∈ entries ∧ tied cmp.less k e.1 = false) {j : κ} (hj : P j) :
    valueOf cmp.less entries' j =
      if tied cmp.less j k then none else valueOf cmp.less entries j := by
  cases same : tied cmp.less j k with
  | true =>
    rw [valueOf_tied ordered kept' hj hk same]
    exact valueOf_eq_none fun e mem => ((members e).mp mem).2
  | false =>
    refine valueOf_congr ordered kept' kept hj fun e tie => ⟨fun mem => ((members e).mp mem).1, ?_⟩
    intro mem
    refine (members e).mpr ⟨mem, ?_⟩
    rw [tied_comm, ← ordered.decides.tied_congr hj (kept.inside e mem) hk tie, same]

end Order

namespace SortedMap

variable {cmp : Comparison ε κ} {P : κ → Prop} {m : SortedMap κ ν} {k : κ}

/-- Where a key belongs: the entries with lesser keys and the others. -/
structure Cut (cmp : Comparison ε κ) (P : κ → Prop) (m : SortedMap κ ν) (k : κ)
    (lows highs : List (κ × ν)) : Prop where
  entries : m.entries = lows ++ highs
  below : ∀ e ∈ lows, cmp.less e.1 k = true
  above : ∀ e ∈ highs, cmp.less e.1 k = false
  found : m.find cmp k = .ok (lows.length, highs.head?.any fun e => tied cmp.less k e.1)

theorem exists_cut (ordered : cmp.OrderedOn P) (kept : EntriesOn cmp.less P m.entries) (hk : P k) :
    ∃ lows highs, m.Cut cmp P k lows highs := by
  obtain ⟨entries⟩ := m
  cases entries with
  | nil => exact ⟨[], [], rfl, by simp, by simp, findIn_append_nil (by simp)⟩
  | cons e entries =>
    -- The key, with some value, is an item that the entries can be compared with.
    have keyed := entriesOn_keyed.mpr kept
    have insideKey : Comparison.KeyIn (ε := ε) SortedMap.key P (k, e.2) := ⟨k, rfl, hk⟩
    obtain ⟨lows, highs, items, below, above⟩ := exists_cut_increasing (ordered.on _).decides
      keyed.increasing keyed.inside insideKey
    refine ⟨lows, highs, items, below, above, ?_⟩
    have inside : ∀ f ∈ lows ++ highs, Comparison.KeyIn (ε := ε) SortedMap.key P f :=
      fun f mem => keyed.inside f (items ▸ mem)
    have whole : e :: entries = lows ++ highs := items
    show SortedCollections.find cmp SortedMap.key (e :: entries) k = _
    rw [SortedCollections.find, whole]
    exact findIn_increasing ordered (x := (k, e.2)) rfl hk inside below above

namespace Cut

variable {lows highs : List (κ × ν)}

/-- The entries on both sides of the cut but that of the key itself. -/
theorem mem_others (ordered : cmp.OrderedOn P) (kept : EntriesOn cmp.less P m.entries) (hk : P k)
    (cut : m.Cut cmp P k lows highs) {e : κ × ν} :
    e ∈ lows ++ highs.drop (highs.head?.any fun e => tied cmp.less k e.1).toNat ↔
      e ∈ m.entries ∧ tied cmp.less k e.1 = false := by
  rw [cut.entries] at kept ⊢
  exact SortedSet.mem_beside_twin (ordered.on SortedMap.key) (x := (k, e.2))
    (entriesOn_keyed.mpr kept) (keyIn_entry.mpr hk) cut.below cut.above

theorem others_kept (kept : EntriesOn cmp.less P m.entries) (cut : m.Cut cmp P k lows highs) (n : Nat) :
    EntriesOn cmp.less P (lows ++ highs.drop n) := by
  rw [cut.entries] at kept
  exact entriesOn_keyed.mp (SortedSet.increasing_drop n (entriesOn_keyed.mpr kept))

/-- The key with a new value at the cut. -/
theorem between_kept (ordered : cmp.OrderedOn P) (kept : EntriesOn cmp.less P m.entries) (hk : P k)
    (cut : m.Cut cmp P k lows highs) (v : ν) :
    EntriesOn cmp.less P
      (lows ++ (k, v) :: highs.drop (highs.head?.any fun e => tied cmp.less k e.1).toNat) := by
  have inside : Comparison.KeyIn (ε := ε) SortedMap.key P (k, v) := keyIn_entry.mpr hk
  have others := entriesOn_keyed.mpr
    (cut.others_kept kept (highs.head?.any fun e => tied cmp.less k e.1).toNat)
  rw [cut.entries] at kept
  exact entriesOn_keyed.mp (SortedSet.increasing_between others inside cut.below
    (SortedSet.above_cut (ordered.on SortedMap.key) (entriesOn_keyed.mpr kept) inside cut.above))

end Cut

/-- What is found at the cut is the value of the key. -/
theorem Cut.value (ordered : cmp.OrderedOn P) (kept : EntriesOn cmp.less P m.entries) (hk : P k)
    {lows highs : List (κ × ν)} (cut : m.Cut cmp P k lows highs) :
    (if highs.head?.any fun e => tied cmp.less k e.1 then m.valueAt lows.length else none) =
      valueOf cmp.less m.entries k := by
  have others := fun e => cut.mem_others ordered kept hk (e := e)
  cases highs with
  | nil =>
    refine (valueOf_eq_none fun e mem => ((others e).mp ?_).2).symm
    rw [cut.entries] at mem
    exact mem
  | cons f highs =>
    cases same : tied cmp.less k f.1 with
    | true =>
      have mem : f ∈ m.entries := by simp [cut.entries]
      rw [valueOf_of_mem ordered kept hk mem same]
      simp [valueAt, cut.entries, same]
    | false =>
      have miss : (f :: highs).head?.any (fun e => tied cmp.less k e.1) = false := same
      rw [miss] at others ⊢
      refine (valueOf_eq_none fun e mem => ((others e).mp ?_).2).symm
      rw [cut.entries] at mem
      exact mem

/-- A key is found exactly if it has a value. -/
theorem Cut.hit (ordered : cmp.OrderedOn P) (kept : EntriesOn cmp.less P m.entries) (hk : P k)
    {lows highs : List (κ × ν)} (cut : m.Cut cmp P k lows highs) :
    (highs.head?.any fun e => tied cmp.less k e.1) = (valueOf cmp.less m.entries k).isSome := by
  rw [← cut.value ordered kept hk]
  cases highs with
  | nil => rfl
  | cons f highs => cases same : tied cmp.less k f.1 <;> simp [valueAt, cut.entries, same]

/-- A key has the value of its entry. -/
theorem get?_eq (ordered : cmp.OrderedOn P) (kept : EntriesOn cmp.less P m.entries) (hk : P k) :
    m.get? cmp k = .ok (valueOf cmp.less m.entries k) := by
  obtain ⟨lows, highs, cut⟩ := exists_cut ordered kept hk
  rw [← cut.value ordered kept hk, get?, cut.found]
  rfl

theorem lookup?_eq (ordered : cmp.OrderedOn P) (kept : EntriesOn cmp.less P m.entries) (hk : P k) :
    m.lookup? cmp k = valueOf cmp.less m.entries k := by
  rw [lookup?, get?_eq ordered kept hk]

theorem contains_eq (ordered : cmp.OrderedOn P) (kept : EntriesOn cmp.less P m.entries) (hk : P k) :
    m.contains cmp k = (valueOf cmp.less m.entries k).isSome := by
  obtain ⟨lows, highs, cut⟩ := exists_cut ordered kept hk
  rw [← cut.hit ordered kept hk, contains, cut.found]

/-- Giving a key a value replaces its entry and leaves those of other keys. -/
theorem insert_entries (ordered : cmp.OrderedOn P) (kept : EntriesOn cmp.less P m.entries) (hk : P k)
    (v : ν) :
    ∃ n, m.insert cmp k v = .ok (valueOf cmp.less m.entries k, n) ∧ EntriesOn cmp.less P n.entries ∧
      ∀ e, e ∈ n.entries ↔ e = (k, v) ∨ e ∈ m.entries ∧ tied cmp.less k e.1 = false := by
  obtain ⟨lows, highs, cut⟩ := exists_cut ordered kept hk
  have placed := SortedSet.put_at_cut (fun e => tied cmp.less k e.1) lows highs (k, v)
  refine ⟨⟨lows ++ (k, v) :: highs.drop (highs.head?.any fun e => tied cmp.less k e.1).toNat⟩, ?_,
    cut.between_kept ordered kept hk v, fun e => ?_⟩
  · rw [← cut.value ordered kept hk, insert, cut.found, ← placed, cut.entries]
    show (if highs.head?.any _ = true then _ else _) = _
    cases highs.head?.any fun e => tied cmp.less k e.1 <;> rfl
  · rw [← cut.mem_others ordered kept hk, List.mem_append, List.mem_cons, List.mem_append]
    exact or_left_comm

/-- Removing a key leaves the entries of other keys. There is no answer if they are all. -/
theorem erase?_entries (ordered : cmp.OrderedOn P) (kept : EntriesOn cmp.less P m.entries)
    (hk : P k) :
    ∃ n, m.erase? cmp k = .ok (if (valueOf cmp.less m.entries k).isSome then some n else none) ∧
      ((valueOf cmp.less m.entries k).isSome = false → n = m) ∧ EntriesOn cmp.less P n.entries ∧
      ∀ e, e ∈ n.entries ↔ e ∈ m.entries ∧ tied cmp.less k e.1 = false := by
  obtain ⟨lows, highs, cut⟩ := exists_cut ordered kept hk
  refine ⟨⟨lows ++ highs.drop (highs.head?.any fun e => tied cmp.less k e.1).toNat⟩, ?_, ?_,
    cut.others_kept kept _, fun e => cut.mem_others ordered kept hk⟩
  · rw [← cut.hit ordered kept hk, ← SortedSet.erase_at_cut, erase?, cut.found, cut.entries]
    cases highs.head?.any fun e => tied cmp.less k e.1 <;> rfl
  · rw [← cut.hit ordered kept hk]
    intro miss
    rw [miss]
    exact congrArg SortedMap.mk cut.entries.symm

/-- The map of a list's pairs holds the last of each pairs with equal keys. -/
theorem ofList_stays (ordered : cmp.OrderedOn P) {entries : List (κ × ν)}
    (inside : ∀ e ∈ entries, P e.1) :
    ∃ m, ofList cmp entries = .ok m ∧ EntriesOn cmp.less P m.entries ∧
      ∀ e, e ∈ m.entries ↔ Keep.last.Stays (fun e f => tied cmp.less e.1 f.1) entries e := by
  obtain ⟨ys, done, kept, members⟩ :=
    sortDedup_stays ordered .standard fun e mem => keyIn_entry.mpr (inside e mem)
  exact ⟨⟨ys⟩, by rw [ofList, done]; rfl, entriesOn_keyed.mp kept, members⟩

/-- The map of a list's pairs has increasing keys, with entries of the list. -/
theorem ofList_entries (ordered : cmp.OrderedOn P) {entries : List (κ × ν)}
    (inside : ∀ e ∈ entries, P e.1) :
    ∃ m, ofList cmp entries = .ok m ∧ EntriesOn cmp.less P m.entries ∧
      ∀ e ∈ m.entries, e ∈ entries := by
  obtain ⟨m, done, kept, members⟩ := ofList_stays ordered inside
  exact ⟨m, done, kept, fun e mem => ((members e).mp mem).mem⟩

theorem restore_entries (ordered : cmp.OrderedOn P) {entries : List (κ × ν)}
    (inside : ∀ e ∈ entries, P e.1) :
    ∃ m, restore cmp entries = .ok m ∧ EntriesOn cmp.less P m.entries ∧
      ∀ e ∈ m.entries, e ∈ entries := by
  have keyed : ∀ e ∈ entries, Comparison.KeyIn (ε := ε) SortedMap.key P e :=
    fun e mem => keyIn_entry.mpr (inside e mem)
  rw [restore, isStrictlySorted_eq ordered keyed]
  by_cases sorted : Increasing (cmp.on SortedMap.key).less entries
  · rw [decide_eq_true sorted]
    exact ⟨⟨entries⟩, rfl, entriesOn_keyed.mp ⟨sorted, keyed⟩, fun _ => id⟩
  · rw [decide_eq_false sorted]
    exact ofList_entries ordered inside

end SortedMap

/-- The entry of an item: its key with what is made of it, if anything. -/
def entryOf (key : β → κ) (made : β → Except ε (Option ν)) (p : β) :
    Except ε (Option (κ × ν)) := do
  return (← made p).map (Prod.mk (key p))

theorem entryOf_answers {key : β → κ} {made : β → Except ε (Option ν)} {p : β} :
    (∃ e, entryOf key made p = .ok e) ↔ ∃ v, made p = .ok v := by
  rw [entryOf]
  cases made p with
  | error cause =>
    constructor
    · rintro ⟨_, done⟩
      cases done
    · rintro ⟨_, done⟩
      cases done
  | ok v => exact ⟨fun _ => ⟨v, rfl⟩, fun _ => ⟨_, rfl⟩⟩

theorem entryOf_eq_some {key : β → κ} {made : β → Except ε (Option ν)} {p : β} {e : κ × ν} :
    entryOf key made p = .ok (some e) ↔ key p = e.1 ∧ made p = .ok (some e.2) := by
  rw [entryOf]
  obtain ⟨k, v⟩ := e
  cases made p with
  | error cause =>
    constructor
    · intro done
      cases done
    · rintro ⟨_, done⟩
      cases done
  | ok w =>
    show (Except.ok (w.map (Prod.mk (key p))) : Except ε _) = _ ↔ _
    cases w <;> simp

section Order

variable {cmp : Comparison ε κ} {P : κ → Prop} {key : β → κ} {made : β → Except ε (Option ν)}
  {ps : List β} {entries : List (κ × ν)}

theorem mem_entriesOf (done : ps.filterMapM (entryOf key made) = .ok entries) {e : κ × ν} :
    e ∈ entries ↔ ∃ p ∈ ps, key p = e.1 ∧ made p = .ok (some e.2) := by
  obtain ⟨_, rfl⟩ := filterMapM_eq_ok.mp done
  simp only [List.mem_filterMap, given_eq_some, entryOf_eq_some]

/-- The entries of items in the order of their keys. -/
theorem entriesOf_kept
    (kept : IncreasingOn (fun p q => cmp.less (key p) (key q)) (fun p => P (key p)) ps)
    (done : ps.filterMapM (entryOf key made) = .ok entries) : EntriesOn cmp.less P entries := by
  constructor
  · obtain ⟨_, rfl⟩ := filterMapM_eq_ok.mp done
    refine kept.increasing.filterMap _ fun p q less e fromP f fromQ => ?_
    obtain ⟨sameP, _⟩ := entryOf_eq_some.mp (given_eq_some.mp fromP)
    obtain ⟨sameQ, _⟩ := entryOf_eq_some.mp (given_eq_some.mp fromQ)
    show cmp.less e.1 f.1 = true
    rw [← sameP, ← sameQ]
    exact less
  · intro e mem
    obtain ⟨p, memP, same, _⟩ := (mem_entriesOf done).mp mem
    exact same ▸ kept.inside p memP

/-- The value of a key is what is made of the item that has the key. -/
theorem valueOf_entriesOf (ordered : cmp.OrderedOn P)
    (kept : IncreasingOn (fun p q => cmp.less (key p) (key q)) (fun p => P (key p)) ps)
    (done : ps.filterMapM (entryOf key made) = .ok entries) {k : κ} (hk : P k) {p : β}
    (found : ps.find? (fun p => tied cmp.less k (key p)) = some p) :
    made p = .ok (valueOf cmp.less entries k) := by
  have picks := (ordered.decides.picksOne hk).comap key
  have keptEntries := entriesOf_kept kept done
  have memP := List.mem_of_find?_eq_some found
  obtain ⟨v, answer⟩ := entryOf_answers.mp ((filterMapM_eq_ok.mp done).1 p memP)
  rw [answer]
  refine congrArg Except.ok (Option.ext fun w => ?_)
  rw [valueOf_eq_some ordered keptEntries hk]
  constructor
  · rintro rfl
    exact ⟨(key p, w), (mem_entriesOf done).mpr ⟨p, memP, rfl, answer⟩,
      (List.find?_eq_some_iff_append.mp found).1, rfl⟩
  · rintro ⟨e, mem, tie, rfl⟩
    obtain ⟨q, memQ, same, answerQ⟩ := (mem_entriesOf done).mp mem
    rw [← same] at tie
    have only := picks.find?_of_mem kept memQ tie
    rw [found, Option.some.injEq] at only
    rw [← only, answer] at answerQ
    exact Except.ok.inj answerQ

theorem valueOf_entriesOf_none (done : ps.filterMapM (entryOf key made) = .ok entries) {k : κ}
    (missing : ps.find? (fun p => tied cmp.less k (key p)) = none) :
    valueOf cmp.less entries k = none := by
  refine valueOf_eq_none fun e mem => ?_
  obtain ⟨p, memP, same, _⟩ := (mem_entriesOf done).mp mem
  rw [← same]
  simpa using List.find?_eq_none.mp missing p memP

end Order

end SortedCollections
