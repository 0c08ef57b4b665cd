import SortedCollections.Proofs.Maps.Uniqueness
import SortedCollections.Proofs.Values.Keys
import SortedCollections.Proofs.Values.Membership

/-!
# Two ways to compare maps

Two sorted maps are compared entry by entry. Two dictionaries are compared by looking up the keys of one
in the other. Both find out whether the keys are the same and the values of equal keys are equal, even if
the keys of the one have no order among those of the other: equal keys are ordered alike. Where the
second comparison has an answer the first one has it too; but the first one may be done before it comes
to two values for which equality has no answer.
-/
namespace SortedCollections

namespace Value

variable {parts : Parts} {P Q : Value → Prop} {k v : Value} {e f : Value × Value}
  {entries front rest m n : List (Value × Value)} {r : Bool}

theorem depth_le_depthOfEntries (mem : e ∈ entries) :
    e.1.depth ≤ depthOfEntries entries ∧ e.2.depth ≤ depthOfEntries entries := by
  induction entries with
  | nil => cases mem
  | cons f entries ih =>
    rw [depthOfEntries]
    rcases List.mem_cons.mp mem with rfl | mem
    · omega
    · have := ih mem
      omega

theorem key_depth_lt_of_mem {levels : Nat} (deep : depthOfEntries entries < levels) :
    ∀ e ∈ entries, e.1.depth < levels :=
  fun _ mem => (depth_le_depthOfEntries mem).1.trans_lt deep

/-- Two entries have equal keys and equal values. -/
def Parts.AlikeEntries (parts : Parts) (e f : Value × Value) : Prop :=
  parts.alike e.1 f.1 = .ok true ∧ parts.alike e.2 f.2 = .ok true

/-- Two maps have the same keys and give equal values to them. -/
structure Parts.SameMap (parts : Parts) (m n : List (Value × Value)) : Prop where
  left : ∀ e ∈ m, ∃ f ∈ n, parts.AlikeEntries e f
  right : ∀ f ∈ n, ∃ e ∈ m, parts.AlikeEntries e f

/-- Entries that are equal pair by pair. -/
abbrev Parts.EntriesAlike (parts : Parts) (m n : List (Value × Value)) : Prop :=
  SortedCollections.EntriesAlike parts.comparison parts.alike m n

theorem Parts.EntriesAlike.sameMap (alike : parts.EntriesAlike m n) : parts.SameMap m n := by
  induction alike with
  | nil => exact ⟨by simp, by simp⟩
  | @cons e f m n first _ ih =>
    constructor
    · rintro g (_ | ⟨_, mem⟩)
      · exact ⟨f, by simp, first⟩
      · obtain ⟨h, memH, same⟩ := ih.left g mem
        exact ⟨h, by simp [memH], same⟩
    · rintro g (_ | ⟨_, mem⟩)
      · exact ⟨e, by simp, first⟩
      · obtain ⟨h, memH, same⟩ := ih.right g mem
        exact ⟨h, by simp [memH], same⟩

/-- Sorted maps are found equal exactly if their entries are equal pair by pair. -/
theorem isEqual_iff_entriesAlike (parts : Parts) (m n : List (Value × Value)) :
    SortedMap.isEqual parts.alike parts.alike ⟨m⟩ ⟨n⟩ = .ok true ↔ parts.EntriesAlike m n :=
  @SortedMap.isEqual_eq_true _ _ _ parts.comparison parts.alike ⟨m⟩ ⟨n⟩

theorem of_valueIn (found : parts.valueIn k entries = .ok (some v)) :
    ∃ f ∈ entries, parts.alike f.1 k = .ok true ∧ f.2 = v := by
  induction entries with
  | nil => cases found
  | cons f entries ih =>
    rw [Parts.valueIn] at found
    obtain ⟨same, asked, found⟩ := bind_eq_ok.mp found
    cases same with
    | true =>
      cases found
      exact ⟨f, by simp, asked, rfl⟩
    | false =>
      obtain ⟨g, mem, same⟩ := ih found
      exact ⟨g, by simp [mem], same⟩

theorem valueIn_answers (answers : ∀ f ∈ entries, ∃ r, parts.alike f.1 k = .ok r) :
    ∃ value, parts.valueIn k entries = .ok value := by
  induction entries with
  | nil => exact ⟨_, rfl⟩
  | cons f entries ih =>
    obtain ⟨same, asked⟩ := answers f (by simp)
    rw [Parts.valueIn, asked]
    cases same with
    | true => exact ⟨_, rfl⟩
    | false => exact ih fun g mem => answers g (by simp [mem])

theorem sameDict_go_eq_true : Parts.sameDict.go parts n m = .ok true ↔
    ∀ e ∈ m, ∃ v, parts.valueIn e.1 n = .ok (some v) ∧ parts.alike e.2 v = .ok true := by
  induction m with
  | nil => simp [Parts.sameDict.go]
  | cons e m ih =>
    rw [List.forall_mem_cons, ← ih, Parts.sameDict.go]
    cases parts.valueIn e.1 n with
    | error failure => simp [bind, Except.bind]
    | ok value =>
      cases value with
      | none => simp [bind, Except.bind, pure, Except.pure]
      | some v =>
        cases asked : parts.alike e.2 v with
        | error failure => simp [bind, Except.bind, asked]
        | ok same => cases same <;> simp [bind, Except.bind, pure, Except.pure, asked]

/-- Going through a dictionary has an answer if looking up each key has one, and comparing each value with
what was found. -/
theorem sameDict_go_answers (answers : ∀ e ∈ m, ∃ value, parts.valueIn e.1 n = .ok value ∧
      ∀ v, value = some v → ∃ r, parts.alike e.2 v = .ok r) :
    ∃ r, Parts.sameDict.go parts n m = .ok r := by
  induction m with
  | nil => exact ⟨_, rfl⟩
  | cons e m ih =>
    obtain ⟨value, found, compared⟩ := answers e (by simp)
    rw [Parts.sameDict.go, found]
    cases value with
    | none => exact ⟨false, rfl⟩
    | some v =>
      obtain ⟨equal, asked⟩ := compared v rfl
      show ∃ r, parts.alike e.2 v >>= _ = .ok r
      rw [asked]
      cases equal with
      | false => exact ⟨false, rfl⟩
      | true => exact ih fun f mem => answers f (.tail _ mem)

theorem sameDict_eq_true : parts.sameDict m n = .ok true ↔ m.length = n.length ∧
    ∀ e ∈ m, ∃ v, parts.valueIn e.1 n = .ok (some v) ∧ parts.alike e.2 v = .ok true := by
  rw [Parts.sameDict, ← sameDict_go_eq_true]
  by_cases length : m.length = n.length
  · rw [if_pos length, and_iff_right length]
  · rw [if_neg length]
    simp [length]

section Ordered

variable (ordered : parts.comparison.OrderedOn P)
include ordered

/-- A dictionary gives a key the value of the entry whose key ties with it. -/
theorem valueIn_eq (inside : ∀ e ∈ entries, P e.1) (hk : P k) :
    parts.valueIn k entries = .ok (valueOf parts.comparison.less entries k) := by
  induction entries with
  | nil => rfl
  | cons e entries ih =>
    have rest := ih fun f mem => inside f (.tail _ mem)
    rw [Parts.valueIn, alike_eq ordered (inside e (by simp)) hk, valueOf, List.find?_cons,
      tied_comm parts.comparison.less k]
    cases tied parts.comparison.less e.1 k with
    | true => rfl
    | false => exact rest

theorem alike_iff_tied (hk : P k) (hv : P v) :
    parts.alike k v = .ok true ↔ tied parts.comparison.less k v = true :=
  ordered.eq_iff hk hv

section Maps

variable (hm : EntriesOn parts.comparison.less P m) (hn : EntriesOn parts.comparison.less P n)
include hm hn

theorem sameMap_iff_entriesAlike : parts.SameMap m n ↔ parts.EntriesAlike m n := by
  refine ⟨fun same => ?_, Parts.EntriesAlike.sameMap⟩
  refine forall₂_of_find? (ordered.decides.comap Prod.fst) hm hn fun e he => ?_
  have picks := picksOne_key ordered (ν := Value) he
  have together {g h : Value × Value} (memG : g ∈ m) (memH : h ∈ n) (alike : parts.AlikeEntries g h) :
      tied parts.comparison.less e.1 g.1 = tied parts.comparison.less e.1 h.1 := by
    have hg := hm.inside g memG
    have hh := hn.inside h memH
    exact picks.together hg hh ((alike_iff_tied ordered hg hh).mp alike.1)
  show Option.Rel parts.AlikeEntries (m.find? fun g => tied parts.comparison.less e.1 g.1)
    (n.find? fun h => tied parts.comparison.less e.1 h.1)
  cases found : m.find? fun g => tied parts.comparison.less e.1 g.1 with
  | some g =>
    have memG := List.mem_of_find?_eq_some found
    have tie := List.find?_some found
    obtain ⟨h, memH, alike⟩ := same.left g memG
    rw [picks.find?_of_mem hn memH ((together memG memH alike).symm.trans tie)]
    exact .some alike
  | none =>
    have apart := List.find?_eq_none.mp found
    have nothing : n.find? (fun h => tied parts.comparison.less e.1 h.1) = Option.none := by
      refine List.find?_eq_none.mpr fun h memH tie => ?_
      obtain ⟨g, memG, alike⟩ := same.right h memH
      exact apart g memG ((together memG memH alike).trans tie)
    rw [nothing]
    exact .none

/-- An entry of one map whose key is equal to that of an entry of the other one, and whose value is
equal to what the other map has under the key, is equal to that entry. -/
theorem eq_of_alikeEntries (he : e ∈ m) (hf : f ∈ n) (tie : tied parts.comparison.less e.1 f.1 = true)
    (left : ∀ e ∈ m, ∃ f ∈ n, parts.AlikeEntries e f) : parts.AlikeEntries e f := by
  obtain ⟨g, mem, alike⟩ := left e he
  have inside := hm.inside e he
  have picks := picksOne_key ordered (ν := Value) inside
  have found := picks.find?_of_mem hn mem ((alike_iff_tied ordered inside (hn.inside g mem)).mp alike.1)
  obtain rfl := Option.some.inj (found.symm.trans (picks.find?_of_mem hn hf tie))
  exact alike

/-- The keys of a map all have equals in another map. -/
theorem within_keys (left : ∀ e ∈ m, ∃ f ∈ n, parts.alike e.1 f.1 = .ok true) :
    Within parts.comparison.less (m.map Prod.fst) (n.map Prod.fst) := by
  intro k mem
  obtain ⟨e, memE, rfl⟩ := List.mem_map.mp mem
  obtain ⟨f, memF, same⟩ := left e memE
  exact hasTie_eq_true.mpr ⟨f.1, List.mem_map_of_mem memF,
    (alike_iff_tied ordered (hm.inside e memE) (hn.inside f memF)).mp same⟩

/-- Of maps of equal length, the entries of one need to be looked up in the other only. -/
theorem sameMap_iff_left : parts.SameMap m n ↔
    m.length = n.length ∧ ∀ e ∈ m, ∃ f ∈ n, parts.AlikeEntries e f := by
  have order := ordered.decides
  have keysM := entriesOn_keys.mp hm
  have keysN := entriesOn_keys.mp hn
  constructor
  · intro same
    exact ⟨((sameMap_iff_entriesAlike ordered hm hn).mp same).length_eq, same.left⟩
  · rintro ⟨length, left⟩
    have forth := within_keys ordered hm hn fun e mem => by
      obtain ⟨f, memF, alike⟩ := left e mem
      exact ⟨f, memF, alike.1⟩
    have back := within_of_length order keysM keysN forth (by simpa using length)
    refine ⟨left, fun f memF => ?_⟩
    obtain ⟨k, memK, tie⟩ := hasTie_eq_true.mp (back f.1 (List.mem_map_of_mem memF))
    obtain ⟨e, memE, rfl⟩ := List.mem_map.mp memK
    rw [tied_comm] at tie
    exact ⟨e, memE, eq_of_alikeEntries ordered hm hn memE memF tie left⟩

theorem sameDict_iff_sameMap : parts.sameDict m n = .ok true ↔ parts.SameMap m n := by
  rw [sameDict_eq_true, sameMap_iff_left ordered hm hn]
  refine and_congr_right fun _ => forall₂_congr fun e mem => ?_
  have inside := hm.inside e mem
  rw [valueIn_eq ordered hn.inside inside]
  constructor
  · rintro ⟨v, found, same⟩
    obtain ⟨f, memF, tie, rfl⟩ :=
      (valueOf_eq_some ordered hn inside).mp (Except.ok.inj found)
    exact ⟨f, memF, (alike_iff_tied ordered inside (hn.inside f memF)).mpr tie, same⟩
  · rintro ⟨f, memF, alike⟩
    have tie := (alike_iff_tied ordered inside (hn.inside f memF)).mp alike.1
    exact ⟨f.2, congrArg Except.ok (valueOf_of_mem ordered hn inside memF tie), alike.2⟩

end Maps

/-- Behind lesser keys a dictionary finds the key that is equal. -/
theorem valueIn_append (inside : ∀ g ∈ front, P g.1) (hf : P f.1) (hk : P k)
    (below : ∀ g ∈ front, parts.comparison.less g.1 f.1 = true)
    (same : parts.alike f.1 k = .ok true) :
    parts.valueIn k (front ++ f :: rest) = .ok (some f.2) := by
  induction front with
  | nil =>
    rw [List.nil_append, Parts.valueIn, same]
    rfl
  | cons g front ih =>
    have hg := inside g (by simp)
    have tie := (alike_iff_tied ordered hf hk).mp same
    have apart : parts.alike g.1 k = .ok false := by
      rw [alike_eq ordered hg hk, tied_comm, ← ordered.decides.tied_congr hf hk hg tie,
        (tied_of_less (below g (by simp))).2]
    rw [List.cons_append, Parts.valueIn, apart]
    exact ih (fun h mem => inside h (by simp [mem])) fun h mem => below h (by simp [mem])

/-- Where looking up keys has an answer, going through two lists of entries has one. -/
theorem sameEntries_answers_of_go (front : List (Value × Value)) (length : m.length = rest.length)
    (insideM : ∀ e ∈ m, P e.1) (insideFront : ∀ g ∈ front, P g.1)
    (closed : ∀ e ∈ m, ∀ f ∈ rest, parts.alike e.1 f.1 = .ok true → P f.1)
    (answers : ∀ e ∈ m, ∀ f ∈ rest, ∃ r, parts.alike e.1 f.1 = .ok r)
    (increasing : Increasing (fun e f => parts.comparison.less e.1 f.1) (front ++ rest))
    (went : Parts.sameDict.go parts (front ++ rest) m = .ok r) :
    ∃ r, SortedMap.sameEntries parts.alike parts.alike m rest = .ok r := by
  induction m generalizing front rest with
  | nil => exact ⟨_, rfl⟩
  | cons e m ih =>
    cases rest with
    | nil => cases length
    | cons f rest =>
      obtain ⟨same, asked⟩ := answers e (by simp) f (by simp)
      rw [SortedMap.sameEntries, asked]
      cases same with
      | false => exact ⟨false, rfl⟩
      | true =>
        have he := insideM e (by simp)
        have hf := closed e (by simp) f (by simp) asked
        have below : ∀ g ∈ front, parts.comparison.less g.1 f.1 = true := fun g mem =>
          (List.pairwise_append.mp increasing).2.2 g mem f (by simp)
        have back : parts.alike f.1 e.1 = .ok true := by
          rw [alike_iff_tied ordered hf he, tied_comm]
          exact (alike_iff_tied ordered he hf).mp asked
        rw [Parts.sameDict.go, valueIn_append ordered insideFront hf he below back] at went
        obtain ⟨_, found, went⟩ := bind_eq_ok.mp went
        cases found
        obtain ⟨sameValues, askedValues, went⟩ := bind_eq_ok.mp went
        show ∃ r, (parts.alike e.2 f.2 >>= _) = .ok r
        rw [askedValues]
        cases sameValues with
        | false => exact ⟨false, rfl⟩
        | true =>
          have whole : front ++ [f] ++ rest = front ++ f :: rest := by simp
          rw [← whole] at increasing went
          refine ih _ (Nat.succ.inj length) (fun g mem => insideM g (by simp [mem])) ?_
            (fun g memG h memH => closed g (by simp [memG]) h (by simp [memH]))
            (fun g memG h memH => answers g (by simp [memG]) h (by simp [memH])) increasing went
          intro g mem
          rcases List.mem_append.mp mem with mem | mem
          · exact insideFront g mem
          · obtain rfl := List.mem_singleton.mp mem
            exact hf

end Ordered

/-- A new key is put behind the others. -/
theorem put_fresh (fresh : ∀ f ∈ entries, parts.alike f.1 e.1 = .ok false) :
    Parts.dictOf.put parts e entries = .ok (entries ++ [e]) := by
  induction entries with
  | nil => rfl
  | cons f entries ih =>
    rw [Parts.dictOf.put, fresh f (by simp)]
    show (Parts.dictOf.put parts e entries >>= _) = _
    rw [ih fun g mem => fresh g (.tail _ mem)]
    rfl

section Listed

variable (ordered : parts.comparison.OrderedOn P) (hashable : ∀ x, P x → x.IsHashable)
include ordered hashable

theorem foldlM_put_increasing (front : List (Value × Value))
    (kept : EntriesOn parts.comparison.less P (front ++ rest)) :
    rest.foldlM (fun dict entry => do
      entry.1.requireHashable
      Parts.dictOf.put parts entry dict) front = .ok (front ++ rest) := by
  induction rest generalizing front with
  | nil => rw [List.append_nil]; rfl
  | cons e rest ih =>
    have he := kept.inside e (by simp)
    have fresh : ∀ f ∈ front, parts.alike f.1 e.1 = .ok false := by
      intro f mem
      have below := (List.pairwise_append.mp kept.increasing).2.2 f mem e (by simp)
      rw [alike_eq ordered (kept.inside f (by simp [mem])) he, (tied_of_less below).1]
    have whole : front ++ [e] ++ rest = front ++ e :: rest := by simp
    rw [← whole] at kept ⊢
    rw [List.foldlM_cons, requireHashable, hashable e.1 he]
    show (Parts.dictOf.put parts e front >>= _) = _
    rw [put_fresh fresh]
    exact ih _ kept

/-- The dictionary of entries in order of their keys lists just these. -/
theorem dictOf_increasing (kept : EntriesOn parts.comparison.less P entries) :
    parts.dictOf entries = .ok entries :=
  foldlM_put_increasing ordered hashable [] kept

end Listed

/-- The keys of a map are ordered among themselves, and can be keys of a dictionary. -/
structure Keyed (P : Value → Prop) (m : List (Value × Value)) : Prop where
  ordered : order.OrderedOn P
  hashable : ∀ x, P x → x.IsHashable
  kept : EntriesOn order.less P m

section Levels

variable {levels : Nat}

theorem Keyed.inside (keyed : Keyed P m) (deep : ∀ e ∈ m, e.1.depth < levels) :
    EntriesOn (partsBelow levels).comparison.less (fun x => P x ∧ x.depth < levels) m := by
  refine entriesOn_keys.mpr (increasing_inside keyed.hashable (entriesOn_keys.mp keyed.kept) ?_)
  intro k mem
  obtain ⟨e, memE, rfl⟩ := List.mem_map.mp mem
  exact deep e memE

theorem Keyed.keyBelow (keyed : Keyed P m) (deep : ∀ e ∈ m, e.1.depth < levels) (mem : e ∈ m) :
    e.1.KeyBelow levels :=
  ⟨keyed.hashable _ (keyed.kept.inside e mem), deep e mem⟩

/-- What is equal to a key inside containers is equal to it at all, whichever is on the left. -/
theorem Keyed.equal (keyed : Keyed P m) (deep : ∀ e ∈ m, e.1.depth < levels) (mem : e ∈ m)
    (key : k.KeyBelow levels) (same : (partsBelow levels).alike e.1 k = .ok true) :
    EqualsSome P k ∧ (partsBelow levels).alike k e.1 = .ok true := by
  have inside := keyed.kept.inside e mem
  have own := keyed.keyBelow deep mem
  have equal : order.eq e.1 k = .ok true :=
    (comparison_inside own.hashable key.hashable own.deep key.deep).2.symm.trans same
  refine ⟨⟨key.hashable, e.1, inside, equal⟩, ?_⟩
  exact (comparison_inside key.hashable own.hashable key.deep own.deep).2.trans
    (eq_symm keyed.ordered keyed.hashable inside key.hashable equal)

/-- Maps of which one has equals of all keys of the other have keys of one domain. -/
theorem Keyed.common (keyedM : Keyed P m) (keyedN : Keyed Q n)
    (deepM : ∀ e ∈ m, e.1.depth < levels) (deepN : ∀ f ∈ n, f.1.depth < levels)
    (met : ∀ f ∈ n, ∃ e ∈ m, (partsBelow levels).alike e.1 f.1 = .ok true) :
    Keyed (EqualsSome P) m ∧ Keyed (EqualsSome P) n := by
  have ordered := equalsSome_ordered keyedM.ordered keyedM.hashable
  refine ⟨⟨ordered, fun _ => And.left, keyedM.kept.increasing, fun e mem => ?_⟩,
    ⟨ordered, fun _ => And.left, keyedN.kept.increasing, fun f mem => ?_⟩⟩
  · exact equalsSome_self keyedM.ordered keyedM.hashable (keyedM.kept.inside e mem)
  · obtain ⟨e, memE, same⟩ := met f mem
    exact (keyedM.equal deepM memE (keyedN.keyBelow deepN mem) same).1

theorem Keyed.common_of_sameMap (keyedM : Keyed P m) (keyedN : Keyed Q n)
    (deepM : ∀ e ∈ m, e.1.depth < levels) (deepN : ∀ f ∈ n, f.1.depth < levels)
    (same : (partsBelow levels).SameMap m n) : Keyed (EqualsSome P) m ∧ Keyed (EqualsSome P) n :=
  keyedM.common keyedN deepM deepN fun f mem => by
    obtain ⟨e, memE, alike⟩ := same.right f mem
    exact ⟨e, memE, alike.1⟩

section Two

variable (keyedM : Keyed P m) (keyedN : Keyed Q n) (deepM : ∀ e ∈ m, e.1.depth < levels)
  (deepN : ∀ f ∈ n, f.1.depth < levels)
include keyedM keyedN deepM deepN

/-- Sorted maps are found equal exactly if they have the same keys with equal values. -/
theorem isEqual_iff_sameMap :
    SortedMap.isEqual (partsBelow levels).alike (partsBelow levels).alike ⟨m⟩ ⟨n⟩ = .ok true ↔
      (partsBelow levels).SameMap m n := by
  rw [isEqual_iff_entriesAlike]
  refine ⟨Parts.EntriesAlike.sameMap, fun same => ?_⟩
  obtain ⟨commonM, commonN⟩ := keyedM.common_of_sameMap keyedN deepM deepN same
  have ordered := ordered_inside commonM.hashable commonM.ordered levels
  exact (sameMap_iff_entriesAlike ordered (commonM.inside deepM) (commonN.inside deepN)).mp same

/-- Dictionaries are found equal exactly if they have the same keys with equal values. -/
theorem sameDict_iff : (partsBelow levels).sameDict m n = .ok true ↔
    (partsBelow levels).SameMap m n := by
  constructor
  · intro asked
    obtain ⟨commonN, commonM⟩ := keyedN.common keyedM deepN deepM fun e mem => by
      obtain ⟨v, found, _⟩ := (sameDict_eq_true.mp asked).2 e mem
      obtain ⟨f, memF, same, _⟩ := of_valueIn found
      exact ⟨f, memF, same⟩
    have ordered := ordered_inside commonM.hashable commonM.ordered levels
    exact (sameDict_iff_sameMap ordered (commonM.inside deepM) (commonN.inside deepN)).mp asked
  · intro same
    obtain ⟨commonM, commonN⟩ := keyedM.common_of_sameMap keyedN deepM deepN same
    have ordered := ordered_inside commonM.hashable commonM.ordered levels
    exact (sameDict_iff_sameMap ordered (commonM.inside deepM) (commonN.inside deepN)).mpr same

theorem isEqual_answers_of_sameDict (asked : (partsBelow levels).sameDict m n = .ok r) :
    ∃ r, SortedMap.isEqual (partsBelow levels).alike (partsBelow levels).alike ⟨m⟩ ⟨n⟩ = .ok r := by
  rw [SortedMap.isEqual]
  by_cases length : m.length = n.length
  · rw [if_pos length]
    rw [Parts.sameDict, if_pos length] at asked
    have ordered := ordered_inside (fun _ => And.left)
      (equalsSome_ordered keyedM.ordered keyedM.hashable) levels
    refine sameEntries_answers_of_go ordered [] length (fun e mem => ?_) (by simp)
      (fun e memE f memF same => ?_) (fun e memE f memF => ?_) (keyedN.inside deepN).increasing asked
    · exact ⟨equalsSome_self keyedM.ordered keyedM.hashable (keyedM.kept.inside e mem), deepM e mem⟩
    · exact ⟨(keyedM.equal deepM memE (keyedN.keyBelow deepN memF) same).1, deepN f memF⟩
    · exact alike_answers (keyedM.keyBelow deepM memE) (keyedN.keyBelow deepN memF)
  · rw [if_neg length]
    exact ⟨false, rfl⟩

/-- Where looking up keys answers, going through the entries answers the same. -/
theorem isEqual_of_sameDict (asked : (partsBelow levels).sameDict m n = .ok r) :
    SortedMap.isEqual (partsBelow levels).alike (partsBelow levels).alike ⟨m⟩ ⟨n⟩ = .ok r := by
  obtain ⟨r', asked'⟩ := isEqual_answers_of_sameDict keyedM keyedN deepM deepN asked
  have found := isEqual_iff_sameMap keyedM keyedN deepM deepN
  rw [← sameDict_iff keyedM keyedN deepM deepN, asked, asked', Except.ok.injEq, Except.ok.injEq]
    at found
  rw [asked', Bool.eq_iff_iff.mpr found]

/-- Looking up keys answers if equality of values does, where the keys are equal. -/
theorem sameDict_answers (answers : ∀ e ∈ m, ∀ f ∈ n, (partsBelow levels).alike e.1 f.1 = .ok true →
      ∃ r, (partsBelow levels).alike e.2 f.2 = .ok r) :
    ∃ r, (partsBelow levels).sameDict m n = .ok r := by
  rw [Parts.sameDict]
  by_cases length : m.length = n.length
  · rw [if_pos length]
    refine sameDict_go_answers fun e memE => ?_
    have keyE := keyedM.keyBelow deepM memE
    obtain ⟨value, found⟩ := valueIn_answers fun f memF =>
      alike_answers (keyedN.keyBelow deepN memF) keyE
    refine ⟨value, found, ?_⟩
    rintro v rfl
    obtain ⟨f, memF, same, rfl⟩ := of_valueIn found
    exact answers e memE f memF (keyedN.equal deepN memF keyE same).2
  · rw [if_neg length]
    exact ⟨false, rfl⟩

end Two

end Levels

end Value

end SortedCollections
