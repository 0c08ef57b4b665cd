import SortedCollections.Proofs.Maps.Program
import SortedCollections.Proofs.Merge.Pointwise
import SortedCollections.Proofs.Values.Integers

/-!
# Maps with a default that describe the same function

In canonical form a function is stored in one way only, up to equal keys and values. The domain of the
keys has no end, so some key is stored in neither of two maps and tells their defaults; the stored keys
are those whose values differ from the default; and two increasing lists with the same members agree
item by item. Comparing what is stored is therefore comparing functions, and a law that values obey
under every key holds for whole maps.
-/
namespace SortedCollections

variable {ε α ι κ ν : Type}

/-- Two questions have the same answers on a domain. -/
def AgreeOn (P : α → Prop) (same same' : α → α → Except ε Bool) : Prop :=
  ∀ x y, P x → P y → same x y = same' x y

/-- Keys and values are equal pair by pair. -/
def EntriesAlike (cmp : Comparison ε κ) (eq : ν → ν → Except ε Bool) (xs ys : List (κ × ν)) : Prop :=
  List.Forall₂ (fun e f => cmp.eq e.1 f.1 = .ok true ∧ eq e.2 f.2 = .ok true) xs ys

section Entries

variable {cmp : Comparison ε κ} {eq : ν → ν → Except ε Bool} {P : κ → Prop} {Q : ν → Prop}
  {sameKey : κ → κ → Except ε Bool} {sameValue : ν → ν → Except ε Bool} {xs ys : List (κ × ν)}

theorem entriesAlike_cons {e f : κ × ν} : EntriesAlike cmp eq (e :: xs) (f :: ys) ↔
    (cmp.eq e.1 f.1 = .ok true ∧ eq e.2 f.2 = .ok true) ∧ EntriesAlike cmp eq xs ys :=
  List.forall₂_cons

theorem SortedMap.sameEntries_eq_true (length : xs.length = ys.length) :
    SortedMap.sameEntries cmp.eq eq xs ys = .ok true ↔ EntriesAlike cmp eq xs ys := by
  induction xs generalizing ys with
  | nil =>
    cases ys with
    | nil => exact iff_of_true rfl .nil
    | cons f ys => cases length
  | cons e xs ih =>
    cases ys with
    | nil => cases length
    | cons f ys =>
      rw [entriesAlike_cons, ← ih (Nat.succ.inj length), SortedMap.sameEntries]
      cases cmp.eq e.1 f.1 with
      | error failure => simp [bind, Except.bind]
      | ok sameKeys =>
        cases sameKeys with
        | false => simp [bind, Except.bind, pure, Except.pure]
        | true =>
          cases eq e.2 f.2 with
          | error failure => simp [bind, Except.bind]
          | ok sameValues => cases sameValues <;> simp [bind, Except.bind, pure, Except.pure]

/-- Two maps are found equal exactly if their entries are equal pair by pair. -/
theorem SortedMap.isEqual_eq_true {m n : SortedMap κ ν} :
    m.isEqual cmp.eq eq n = .ok true ↔ EntriesAlike cmp eq m.entries n.entries := by
  rw [SortedMap.isEqual]
  by_cases length : m.entries.length = n.entries.length
  · rw [if_pos length]
    exact sameEntries_eq_true length
  · rw [if_neg length]
    exact iff_of_false (by rintro ⟨⟩) fun alike => length alike.length_eq

/-- A key is stored in both lists, with equal values, or in neither. -/
theorem EntriesAlike.values (ordered : cmp.OrderedOn P) (alike : EntriesAlike cmp eq xs ys)
    (insideX : ∀ e ∈ xs, P e.1) (insideY : ∀ e ∈ ys, P e.1) {k : κ} (hk : P k) :
    (valueOf cmp.less xs k = none ∧ valueOf cmp.less ys k = none) ∨
      ∃ v w, valueOf cmp.less xs k = some v ∧ valueOf cmp.less ys k = some w ∧ eq v w = .ok true := by
  induction alike with
  | nil => exact .inl ⟨rfl, rfl⟩
  | @cons e f xs ys first rest ih =>
    have he := insideX e (by simp)
    have hf := insideY f (by simp)
    have keys : tied cmp.less e.1 f.1 = true := (ordered.eq_iff he hf).mp first.1
    have twins : tied cmp.less k e.1 = tied cmp.less k f.1 := by
      rw [tied_comm cmp.less k e.1, tied_comm cmp.less k f.1]
      exact ordered.decides.tied_congr he hf hk keys
    cases tie : tied cmp.less k e.1 with
    | true =>
      refine .inr ⟨e.2, f.2, ?_, ?_, first.2⟩
      · rw [valueOf, List.find?_cons, tie]
        rfl
      · rw [valueOf, List.find?_cons, ← twins, tie]
        rfl
    | false =>
      have skipX : valueOf cmp.less (e :: xs) k = valueOf cmp.less xs k := by
        rw [valueOf, List.find?_cons, tie, valueOf]
      have skipY : valueOf cmp.less (f :: ys) k = valueOf cmp.less ys k := by
        rw [valueOf, List.find?_cons, ← twins, tie, valueOf]
      rw [skipX, skipY]
      exact ih (fun e mem => insideX e (.tail _ mem)) fun e mem => insideY e (.tail _ mem)

/-- Going through two lists of equal length finds out whether they agree. -/
theorem SortedMap.sameEntries_answers (ordered : cmp.OrderedOn P) (equivalence : EquivalenceOn eq Q)
    (keys : AgreeOn P sameKey cmp.eq) (values : AgreeOn Q sameValue eq)
    (insideX : ∀ e ∈ xs, P e.1 ∧ Q e.2) (insideY : ∀ e ∈ ys, P e.1 ∧ Q e.2)
    (length : xs.length = ys.length) :
    ∃ answer, SortedMap.sameEntries sameKey sameValue xs ys = .ok answer ∧
      (answer = true ↔ EntriesAlike cmp eq xs ys) := by
  induction xs generalizing ys with
  | nil =>
    cases ys with
    | nil => exact ⟨true, rfl, iff_of_true rfl .nil⟩
    | cons f ys => cases length
  | cons e xs ih =>
    cases ys with
    | nil => cases length
    | cons f ys =>
      obtain ⟨hk, hv⟩ := insideX e (by simp)
      obtain ⟨hj, hw⟩ := insideY f (by simp)
      obtain ⟨sameKeys, askedKeys⟩ := ordered.eq_answers e.1 f.1 hk hj
      obtain ⟨sameValues, askedValues⟩ := equivalence.answers e.2 f.2 hv hw
      obtain ⟨rest, askedRest, iff⟩ := ih (fun e mem => insideX e (.tail _ mem))
        (fun e mem => insideY e (.tail _ mem)) (Nat.succ.inj length)
      rw [entriesAlike_cons, askedKeys, askedValues, SortedMap.sameEntries,
        keys e.1 f.1 hk hj, values e.2 f.2 hv hw, askedKeys]
      cases sameKeys with
      | false => exact ⟨false, rfl, by simp⟩
      | true =>
        show ∃ answer, ((eq e.2 f.2 >>= fun same => _) : Except ε Bool) = .ok answer ∧ _
        rw [askedValues]
        cases sameValues with
        | false => exact ⟨false, rfl, by simp⟩
        | true => exact ⟨rest, askedRest, by simpa using iff⟩

theorem SortedMap.isEqual_answers (ordered : cmp.OrderedOn P) (equivalence : EquivalenceOn eq Q)
    (keys : AgreeOn P sameKey cmp.eq) (values : AgreeOn Q sameValue eq) {m n : SortedMap κ ν}
    (insideM : ∀ e ∈ m.entries, P e.1 ∧ Q e.2) (insideN : ∀ e ∈ n.entries, P e.1 ∧ Q e.2) :
    ∃ answer, m.isEqual sameKey sameValue n = .ok answer ∧
      (answer = true ↔ EntriesAlike cmp eq m.entries n.entries) := by
  rw [SortedMap.isEqual]
  by_cases length : m.entries.length = n.entries.length
  · rw [if_pos length]
    exact sameEntries_answers ordered equivalence keys values insideM insideN length
  · rw [if_neg length]
    exact ⟨false, rfl, iff_of_false Bool.false_ne_true fun alike => length alike.length_eq⟩

end Entries

namespace DefaultMap

variable {cmp : Comparison ε κ} {eq : ν → ν → Except ε Bool} {P : κ → Prop} {Q : ν → Prop}
  {sameKey : κ → κ → Except ε Bool} {sameDefault sameValue : ν → ν → Except ε Bool}
  {a b m : DefaultMap κ ν}

/-- Two maps give equal values to every key. -/
def SameFunction (cmp : Comparison ε κ) (eq : ν → ν → Except ε Bool) (P : κ → Prop)
    (a b : DefaultMap κ ν) : Prop :=
  ∀ k, P k → eq (a.get cmp k) (b.get cmp k) = .ok true

/-- Two maps store the same: equal defaults, and entries that are equal pair by pair. -/
structure StoredAlike (cmp : Comparison ε κ) (eq : ν → ν → Except ε Bool) (a b : DefaultMap κ ν) :
    Prop where
  default : eq a.default b.default = .ok true
  entries : EntriesAlike cmp eq a.entries.entries b.entries.entries

theorem Canonical.inside (canonical : m.Canonical cmp eq P Q) :
    ∀ e ∈ m.entries.entries, P e.1 ∧ Q e.2 :=
  fun e mem => ⟨canonical.kept.inside e mem, canonical.values e mem⟩

/-- The questions by which two maps are compared are answered like those about their keys and values:
lists may know an item for the same without asking, and nested maps ask with fewer levels left. -/
structure Faithful (cmp : Comparison ε κ) (eq : ν → ν → Except ε Bool) (P : κ → Prop) (Q : ν → Prop)
    (sameKey : κ → κ → Except ε Bool) (sameDefault sameValue : ν → ν → Except ε Bool) : Prop where
  keys : AgreeOn P sameKey cmp.eq
  defaults : AgreeOn Q sameDefault eq
  values : AgreeOn Q sameValue eq

/-- Asking whether two maps are equal finds out whether they store the same. -/
theorem isEqual_answers (ordered : cmp.OrderedOn P) (equivalence : EquivalenceOn eq Q)
    (faithful : Faithful cmp eq P Q sameKey sameDefault sameValue) (ha : a.Canonical cmp eq P Q)
    (hb : b.Canonical cmp eq P Q) :
    ∃ answer, a.isEqual sameKey sameDefault sameValue b = .ok answer ∧
      (answer = true ↔ StoredAlike cmp eq a b) := by
  obtain ⟨sameDefaults, asked⟩ := equivalence.answers a.default b.default ha.default hb.default
  rw [isEqual, faithful.defaults _ _ ha.default hb.default, asked]
  cases sameDefaults with
  | false =>
    refine ⟨false, rfl, iff_of_false Bool.false_ne_true fun alike => ?_⟩
    cases asked.symm.trans alike.default
  | true =>
    obtain ⟨answer, done, iff⟩ :=
      SortedMap.isEqual_answers ordered equivalence faithful.keys faithful.values ha.inside hb.inside
    exact ⟨answer, done, iff.trans ⟨fun entries => ⟨asked, entries⟩, StoredAlike.entries⟩⟩

/-- Maps that store the same describe the same function. -/
theorem StoredAlike.sameFunction (ordered : cmp.OrderedOn P) (ha : a.Canonical cmp eq P Q)
    (hb : b.Canonical cmp eq P Q) (alike : StoredAlike cmp eq a b) : SameFunction cmp eq P a b := by
  intro k hk
  rw [get_eq ordered ha.kept hk, get_eq ordered hb.kept hk]
  rcases alike.entries.values ordered ha.kept.inside hb.kept.inside hk with
    ⟨left, right⟩ | ⟨v, w, left, right, same⟩
  · rw [left, right]
    exact alike.default
  · rw [left, right]
    exact same

/-- A key that no entry ties with has the default. -/
theorem get_of_fresh (ordered : cmp.OrderedOn P) (canonical : m.Canonical cmp eq P Q) {k : κ}
    (hk : P k) (fresh : hasTie cmp.less m.entries.keys k = false) : m.get cmp k = m.default := by
  rw [get_eq ordered canonical.kept hk, valueOf_eq_none fun e mem => ?_]
  · rfl
  · rw [hasTie, List.any_eq_false] at fresh
    simpa using fresh e.1 (List.mem_map_of_mem mem)

/-- Some key is stored in neither of two maps. -/
theorem exists_fresh (ordered : cmp.OrderedOn P) (endless : cmp.Endless P)
    (ha : a.Canonical cmp eq P Q) (hb : b.Canonical cmp eq P Q) :
    ∃ k, P k ∧ a.get cmp k = a.default ∧ b.get cmp k = b.default := by
  have inside : ∀ k ∈ a.entries.keys ++ b.entries.keys, P k := fun k mem =>
    (List.mem_append.mp mem).elim ((entriesOn_keys.mp ha.kept).inside k)
      ((entriesOn_keys.mp hb.kept).inside k)
  obtain ⟨k, hk, fresh⟩ := endless _ inside
  rw [ordered.among_eq inside hk, hasTie_append, Bool.or_eq_false_iff] at fresh
  exact ⟨k, hk, get_of_fresh ordered ha hk fresh.1, get_of_fresh ordered hb hk fresh.2⟩

theorem get_stored (ordered : cmp.OrderedOn P) (canonical : m.Canonical cmp eq P Q) {e : κ × ν}
    (mem : e ∈ m.entries.entries) {k : κ} (hk : P k) (same : tied cmp.less k e.1 = true) :
    m.get cmp k = e.2 := by
  rw [get_eq ordered canonical.kept hk, valueOf_of_mem ordered canonical.kept hk mem same]
  rfl

theorem SameFunction.symm (ordered : cmp.OrderedOn P) (equivalence : EquivalenceOn eq Q)
    (ha : a.Canonical cmp eq P Q) (hb : b.Canonical cmp eq P Q) (same : SameFunction cmp eq P a b) :
    SameFunction cmp eq P b a :=
  fun k hk =>
    equivalence.symm _ _ (ha.inside_get ordered hk) (hb.inside_get ordered hk) (same k hk)

/-- A map stores the keys that the other one stores: their values differ from the default. -/
theorem SameFunction.stored (ordered : cmp.OrderedOn P) (equivalence : EquivalenceOn eq Q)
    (ha : a.Canonical cmp eq P Q) (hb : b.Canonical cmp eq P Q) (same : SameFunction cmp eq P a b)
    (defaults : eq a.default b.default = .ok true) {k : κ} (hk : P k)
    (stored : hasTie cmp.less a.entries.keys k = true) :
    hasTie cmp.less b.entries.keys k = true := by
  by_contra missing
  obtain ⟨j, memKeys, tie⟩ := List.any_eq_true.mp stored
  obtain ⟨e, mem, rfl⟩ := List.mem_map.mp memKeys
  have value := same k hk
  rw [get_stored ordered ha mem hk tie, get_of_fresh ordered hb hk (by simpa using missing)] at value
  have hv := ha.values e mem
  have back := equivalence.symm _ _ ha.default hb.default defaults
  cases (ha.stripped e mem).symm.trans
    (equivalence.trans _ _ _ hv hb.default ha.default value back)

/-- Maps that describe the same function store the same. -/
theorem SameFunction.storedAlike (ordered : cmp.OrderedOn P) (endless : cmp.Endless P)
    (equivalence : EquivalenceOn eq Q) (ha : a.Canonical cmp eq P Q) (hb : b.Canonical cmp eq P Q)
    (same : SameFunction cmp eq P a b) : StoredAlike cmp eq a b := by
  obtain ⟨k, hk, defaultA, defaultB⟩ := exists_fresh ordered endless ha hb
  have defaults := same k hk
  rw [defaultA, defaultB] at defaults
  have back := equivalence.symm _ _ ha.default hb.default defaults
  have members (j : κ) (hj : P j) :
      hasTie cmp.less a.entries.keys j = hasTie cmp.less b.entries.keys j :=
    Bool.eq_iff_iff.mpr ⟨same.stored ordered equivalence ha hb defaults hj,
      (same.symm ordered equivalence ha hb).stored ordered equivalence hb ha back hj⟩
  have ties := forall₂_tied ordered.decides (entriesOn_keys.mp ha.kept) (entriesOn_keys.mp hb.kept)
    members
  rw [List.forall₂_map_left_iff, List.forall₂_map_right_iff, List.forall₂_iff_zip] at ties
  refine ⟨defaults, List.forall₂_iff_zip.mpr ⟨ties.1, fun {e f} mem => ?_⟩⟩
  obtain ⟨memA, memB⟩ := List.of_mem_zip mem
  have he := ha.kept.inside e memA
  have tie := ties.2 mem
  have value := same e.1 he
  rw [get_stored ordered ha memA he (ordered.decides.tied_self he),
    get_stored ordered hb memB he tie] at value
  exact ⟨(ordered.eq_iff he (hb.kept.inside f memB)).mpr tie, value⟩

/-- Asking whether two maps are equal finds out whether they describe the same function. -/
theorem isEqual_iff_sameFunction (ordered : cmp.OrderedOn P) (endless : cmp.Endless P)
    (equivalence : EquivalenceOn eq Q)
    (faithful : Faithful cmp eq P Q sameKey sameDefault sameValue) (ha : a.Canonical cmp eq P Q)
    (hb : b.Canonical cmp eq P Q) :
    ∃ answer, a.isEqual sameKey sameDefault sameValue b = .ok answer ∧
      (answer = true ↔ SameFunction cmp eq P a b) := by
  obtain ⟨answer, done, iff⟩ := isEqual_answers ordered equivalence faithful ha hb
  exact ⟨answer, done, iff.trans ⟨StoredAlike.sameFunction ordered ha hb,
    SameFunction.storedAlike ordered endless equivalence ha hb⟩⟩

/-- A map stores nothing exactly if it gives equal values to all keys. -/
theorem isConstant_iff (ordered : cmp.OrderedOn P) (endless : cmp.Endless P)
    (equivalence : EquivalenceOn eq Q) (canonical : m.Canonical cmp eq P Q) :
    m.isConstant = true ↔ ∀ j k, P j → P k → eq (m.get cmp j) (m.get cmp k) = .ok true := by
  rw [isConstant, List.isEmpty_iff]
  constructor
  · intro empty j k hj hk
    have fresh (i : κ) : hasTie cmp.less m.entries.keys i = false := by
      rw [SortedMap.keys, empty]
      rfl
    rw [get_of_fresh ordered canonical hj (fresh j), get_of_fresh ordered canonical hk (fresh k)]
    exact equivalence.refl _ canonical.default
  · intro same
    refine List.eq_nil_iff_forall_not_mem.mpr fun e mem => ?_
    obtain ⟨j, hj, default, _⟩ := exists_fresh ordered endless canonical canonical
    have he := canonical.kept.inside e mem
    have value := same e.1 j he hj
    rw [get_stored ordered canonical mem he (ordered.decides.tied_self he), default] at value
    cases (canonical.stripped e mem).symm.trans value

/-- Maps that are made of equal values key by key are equal. -/
theorem KeyByKey.isEqual (ordered : cmp.OrderedOn P) (endless : cmp.Endless P)
    (equivalence : EquivalenceOn eq Q)
    (faithful : Faithful cmp eq P Q sameKey sameDefault sameValue)
    {valueA valueB : κ → Except ε ν} {defaultA defaultB : Except ε ν} {storedA storedB : List κ}
    {madeA madeB : Except (Fault ε) (DefaultMap κ ν)}
    (left : KeyByKey cmp eq P Q valueA defaultA storedA madeA)
    (right : KeyByKey cmp eq P Q valueB defaultB storedB madeB)
    (law : ∀ k v w, P k → valueA k = .ok v → valueB k = .ok w → eq v w = .ok true)
    (doneA : madeA = .ok a) (doneB : madeB = .ok b) :
    a.isEqual sameKey sameDefault sameValue b = .ok true := by
  have ha := left.canonical a doneA
  have hb := right.canonical b doneB
  obtain ⟨answer, asked, iff⟩ :=
    isEqual_iff_sameFunction ordered endless equivalence faithful ha hb
  rw [asked]
  refine congrArg Except.ok (iff.mpr fun k hk => ?_)
  obtain ⟨v, valueV, hv, sameV⟩ := left.agrees a doneA k hk
  obtain ⟨w, valueW, hw, sameW⟩ := right.agrees b doneB k hk
  have insideA := ha.inside_get ordered hk
  have insideB := hb.inside_get ordered hk
  have vw := equivalence.trans _ _ _ insideA hv hw sameV (law k v w hk valueV valueW)
  exact equivalence.trans _ _ _ insideA hw insideB vw (equivalence.symm _ _ insideB hw sameW)

/-- A function of values returns, and stays in the domain. -/
def TotalOn (Q : ν → Prop) (g : ν → Except ε ν) : Prop := ∀ v, Q v → ∃ w, g v = .ok w ∧ Q w

theorem TotalOn.closed {g : ν → Except ε ν} (total : TotalOn Q g) (v w : ν) (hv : Q v)
    (made : g v = .ok w) : Q w := by
  obtain ⟨w', made', hw⟩ := total v hv
  cases made'.symm.trans made
  exact hw

/-- All values can be changed by a function that returns for all of them. -/
theorem exists_mapValues (ordered : cmp.OrderedOn P) (equivalence : EquivalenceOn eq Q)
    (canonical : m.Canonical cmp eq P Q) {g : ν → Except ε ν} (total : TotalOn Q g) :
    ∃ n, m.mapValues eq g = .ok n := by
  have returns (v : ν) (hv : Q v) : ∃ w, g v = .ok w := (total v hv).imp fun _ made => made.1
  refine (canonical.mapValues ordered equivalence total.closed).returns_iff.mpr
    ⟨returns _ canonical.default, fun k mem => returns _ ?_⟩
  exact canonical.inside_get ordered ((entriesOn_keys.mp canonical.kept).inside k mem)

/-- Changing all values by a function, and then by one that undoes it, gives an equal map. -/
theorem mapValues_undo (ordered : cmp.OrderedOn P) (endless : cmp.Endless P)
    (equivalence : EquivalenceOn eq Q) (canonical : m.Canonical cmp eq P Q) {g h : ν → Except ε ν}
    (totalG : TotalOn Q g) (totalH : TotalOn Q h)
    (congruent : ∀ v w x y, Q v → Q w → eq v w = .ok true → h v = .ok x → h w = .ok y →
      eq x y = .ok true)
    (undoes : ∀ v w x, Q v → g v = .ok w → h w = .ok x → eq x v = .ok true) {n : DefaultMap κ ν}
    (done : m.mapValues eq g = .ok n) :
    ∃ n', n.mapValues eq h = .ok n' ∧ ∀ {sameKey sameDefault sameValue},
      Faithful cmp eq P Q sameKey sameDefault sameValue →
      n'.isEqual sameKey sameDefault sameValue m = .ok true := by
  have first := canonical.mapValues ordered equivalence totalG.closed
  have between := first.canonical n done
  have second := between.mapValues ordered equivalence totalH.closed
  obtain ⟨n', done'⟩ := exists_mapValues ordered equivalence between totalH
  have after := second.canonical n' done'
  refine ⟨n', done', fun faithful => ?_⟩
  obtain ⟨answer, asked, iff⟩ :=
    isEqual_iff_sameFunction ordered endless equivalence faithful after canonical
  refine asked.trans (congrArg Except.ok (iff.mpr fun k hk => ?_))
  obtain ⟨w, madeW, hw, sameW⟩ := first.agrees n done k hk
  obtain ⟨x, madeX, hx, sameX⟩ := second.agrees n' done' k hk
  obtain ⟨y, madeY, hy⟩ := totalH w hw
  have insideM := canonical.inside_get ordered hk
  have insideN := between.inside_get ordered hk
  have insideN' := after.inside_get ordered hk
  have xy := congruent _ w x y insideN hw sameW madeX madeY
  have back := undoes _ w y insideM madeW madeY
  exact equivalence.trans _ _ _ insideN' hy insideM
    (equivalence.trans _ _ _ insideN' hx hy sameX xy) back

theorem negateBelow_total (levels : Nat) : TotalOn Value.IsInteger (Value.negateBelow (levels + 1)) := by
  rintro v ⟨a, hv⟩
  exact ⟨.int (-a), Value.negateBelow_int levels hv, -a, rfl⟩

/-- The sign of a map is changed by changing the sign of its values, for which as many levels are left
as the map is deep. -/
theorem negate_eq (m : DefaultMap Value Value) : ∃ levels, Value.negate (.ofDefaultMap m) = do
    return .ofDefaultMap
      (← Failure.lift (m.mapValues Value.same (Value.negateBelow (levels + 1)))) := by
  refine ⟨max (Value.depthOfEntries m.entries.entries) m.default.depth, ?_⟩
  rw [Value.negate, Value.ofDefaultMap, Value.depth]
  rfl

/-- Changing the sign twice gives an equal map, if all values are whole numbers. -/
theorem negate_negate {P : Value → Prop} (ordered : Value.order.OrderedOn P)
    (endless : Value.order.Endless P) {m : DefaultMap Value Value}
    (canonical : m.Canonical Value.order Value.same P Value.IsInteger) :
    ∃ n n', Value.negate (.ofDefaultMap m) = .ok (.ofDefaultMap n) ∧
      Value.negate (.ofDefaultMap n) = .ok (.ofDefaultMap n') ∧
      ∀ sameKey sameDefault sameValue,
        Faithful Value.order Value.same P Value.IsInteger sameKey sameDefault sameValue →
        n'.isEqual sameKey sameDefault sameValue m = .ok true := by
  obtain ⟨levels, first⟩ := negate_eq m
  obtain ⟨n, done⟩ := exists_mapValues ordered Value.integers_equivalence canonical
    (negateBelow_total levels)
  obtain ⟨levels', second⟩ := negate_eq n
  obtain ⟨n', done', same⟩ := mapValues_undo ordered endless Value.integers_equivalence canonical
    (negateBelow_total levels) (negateBelow_total levels')
    (by
      rintro v w x y ⟨a, hv⟩ ⟨b, hw⟩ same madeX madeY
      rw [Value.same_int hv hw, Except.ok.injEq, decide_eq_true_iff] at same
      cases (Value.negateBelow_int levels' hv).symm.trans madeX
      cases (Value.negateBelow_int levels' hw).symm.trans madeY
      rw [same]
      exact Value.integers_equivalence.refl _ ⟨-b, rfl⟩)
    (by
      rintro v w x ⟨a, hv⟩ madeW madeX
      cases (Value.negateBelow_int levels hv).symm.trans madeW
      cases (Value.negateBelow_int levels' rfl).symm.trans madeX
      rw [Value.same_int rfl hv, decide_eq_true (Int.neg_neg a)])
    done
  refine ⟨n, n', ?_, ?_, fun _ _ _ => same⟩
  · rw [first, done]
    rfl
  · rw [second, done']
    rfl

/-- What is stored in the maps that have names, and what they are equal to. -/
structure Unique (cmp : Comparison ε κ) (eq : ν → ν → Except ε Bool) (P : κ → Prop) (Q : ν → Prop)
    (sameKey : κ → κ → Except ε Bool) (sameDefault sameValue : ν → ν → Except ε Bool)
    (maps : ι → DefaultMap κ ν) : Prop where
  /-- Two maps are equal exactly if they give equal values to every key. -/
  equal : ∀ a b, ∃ answer, (maps a).isEqual sameKey sameDefault sameValue (maps b) = .ok answer ∧
    (answer = true ↔ SameFunction cmp eq P (maps a) (maps b))
  /-- Then their defaults are equal, and what they store is equal pair by pair. -/
  stored : ∀ a b, SameFunction cmp eq P (maps a) (maps b) → StoredAlike cmp eq (maps a) (maps b)
  constant : ∀ a, (maps a).isConstant = true ↔
    ∀ j k, P j → P k → eq ((maps a).get cmp j) ((maps a).get cmp k) = .ok true

/-- Maps in canonical form that a program has worked on are stored in one way only: equality of what
they store is equality of the functions that they describe. Therefore laws of values hold for maps:
maps that are made key by key of equal values are equal, and so are a map and what changing its signs
twice makes of it, if its values are whole numbers. -/
theorem default_maps_unique [DecidableEq ι] [Inhabited κ] [Inhabited ν] (ordered : cmp.OrderedOn P)
    (endless : cmp.Endless P) (equivalence : EquivalenceOn eq Q)
    (faithful : Faithful cmp eq P Q sameKey sameDefault sameValue)
    (program : List (Command ε ι κ ν)) (inside : ∀ command ∈ program, command.action.Inside cmp P Q)
    {maps : ι → DefaultMap κ ν} (canonical : ∀ name, (maps name).Canonical cmp eq P Q) :
    Unique cmp eq P Q sameKey sameDefault sameValue (runProgram cmp eq program maps) ∧
    (∀ (valueA valueB : κ → Except ε ν) defaultA defaultB storedA storedB madeA madeB,
      KeyByKey cmp eq P Q valueA defaultA storedA madeA →
      KeyByKey cmp eq P Q valueB defaultB storedB madeB →
      (∀ k v w, P k → valueA k = .ok v → valueB k = .ok w → eq v w = .ok true) →
      ∀ a b, madeA = .ok a → madeB = .ok b →
        a.isEqual sameKey sameDefault sameValue b = .ok true) ∧
    ∀ (P : Value → Prop) (m : DefaultMap Value Value), Value.order.OrderedOn P →
      Value.order.Endless P → m.Canonical Value.order Value.same P Value.IsInteger →
      ∃ n n', Value.negate (.ofDefaultMap m) = .ok (.ofDefaultMap n) ∧
        Value.negate (.ofDefaultMap n) = .ok (.ofDefaultMap n') ∧
        ∀ sameKey sameDefault sameValue,
          Faithful Value.order Value.same P Value.IsInteger sameKey sameDefault sameValue →
          n'.isEqual sameKey sameDefault sameValue m = .ok true := by
  have after := runProgram_canonical ordered program inside canonical
  refine ⟨⟨fun a b => ?_, fun a b => ?_, fun a => ?_⟩, ?_, ?_⟩
  · exact isEqual_iff_sameFunction ordered endless equivalence faithful (after a) (after b)
  · exact SameFunction.storedAlike ordered endless equivalence (after a) (after b)
  · exact isConstant_iff ordered endless equivalence (after a)
  · intro valueA valueB defaultA defaultB storedA storedB madeA madeB left right law a b doneA doneB
    exact left.isEqual ordered endless equivalence faithful right law doneA doneB
  · intro P m ordered endless canonical
    exact negate_negate ordered endless canonical

/-- Two ways to the same map, and a map of whole numbers that changes its sign twice. -/
theorem same_map_by_two_ways :
    let cmp : Comparison Empty Nat := .natural
    let maps := runProgram cmp cmp.eq
      [⟨true, .create [(3, 1), (1, 0), (3, 2)] 0⟩, ⟨false, .set 1 4⟩, ⟨false, .set 3 2⟩,
        ⟨false, .reset 1⟩]
      fun _ : Bool => .constant 0
    let m : DefaultMap Value Value := ⟨⟨[(.int 1, .int 5)]⟩, .int 0⟩
    SameFunction cmp cmp.eq (fun _ => True) (maps true) (maps false) ∧
      ∃ n n', Value.negate (.ofDefaultMap m) = .ok (.ofDefaultMap n) ∧
        Value.negate (.ofDefaultMap n) = .ok (.ofDefaultMap n') ∧
        n'.isEqual Value.order.eq Value.same Value.order.eq m = .ok true := by
  intro cmp maps m
  have faithful : Faithful cmp cmp.eq (fun _ => True) (fun _ => True) cmp.eq cmp.eq cmp.eq :=
    ⟨fun _ _ _ _ => rfl, fun _ _ _ _ => rfl, fun _ _ _ _ => rfl⟩
  obtain ⟨unique, _, negation⟩ := default_maps_unique Comparison.natural_ordered
    Comparison.natural_endless natural_equivalence faithful
    [⟨true, .create [(3, 1), (1, 0), (3, 2)] 0⟩, ⟨false, .set 1 4⟩, ⟨false, .set 3 2⟩,
      ⟨false, .reset 1⟩]
    (by simp [Action.Inside]) fun _ : Bool => constant_canonical (v := 0) trivial
  obtain ⟨answer, asked, iff⟩ := unique.equal true false
  have equal : (maps true).isEqual cmp.eq cmp.eq cmp.eq (maps false) = .ok true := by decide +kernel
  have yes : answer = true := Except.ok.inj (asked.symm.trans equal)
  have canonical : m.Canonical Value.order Value.same Value.IsInteger Value.IsInteger := by
    refine ⟨⟨by simp [m, Increasing], ?_⟩, ⟨0, rfl⟩, ?_, ?_⟩
    · simpa [m] using ⟨1, rfl⟩
    · simpa [m] using ⟨5, rfl⟩
    · simpa [m] using Value.same_int (a := 5) (b := 0) rfl rfl
  obtain ⟨n, n', first, second, same⟩ :=
    negation Value.IsInteger m Value.integers_ordered Value.integers_endless canonical
  refine ⟨iff.mp yes, n, n', first, second, same _ _ _ ⟨fun _ _ _ _ => rfl, fun _ _ _ _ => rfl, ?_⟩⟩
  rintro v w ⟨a, hv⟩ ⟨b, hw⟩
  rw [Value.order_eq hv hw, Value.same_int hv hw]

end DefaultMap

end SortedCollections
