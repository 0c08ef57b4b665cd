import SortedCollections.DefaultMap
import SortedCollections.Proofs.Maps.Entries
import SortedCollections.Proofs.Merge.InPlace
import SortedCollections.Proofs.Merge.Joins

/-!
# Maps with a default in their canonical form

A map in canonical form stores its keys in increasing order and no value that equals the default.
Every operation keeps this form. Those on whole maps work on pieces, entries of one map or pairings of
two, in the order of their keys: each piece that does not give the new default again makes one entry,
so a stored key has the value of its piece and all other keys have the new default.
-/
namespace SortedCollections

variable {ε β κ ν : Type}

/-- Equality of values answers on the domain `Q`, and is an equivalence there. -/
structure EquivalenceOn (eq : ν → ν → Except ε Bool) (Q : ν → Prop) : Prop where
  answers : ∀ a b, Q a → Q b → ∃ r, eq a b = .ok r
  refl : ∀ a, Q a → eq a a = .ok true
  symm : ∀ a b, Q a → Q b → eq a b = .ok true → eq b a = .ok true
  trans : ∀ a b c, Q a → Q b → Q c → eq a b = .ok true → eq b c = .ok true → eq a c = .ok true

theorem natural_equivalence :
    EquivalenceOn (Comparison.natural : Comparison ε Nat).eq fun _ => True where
  answers _ _ _ _ := ⟨_, rfl⟩
  refl _ _ := congrArg Except.ok (decide_eq_true rfl)
  symm a b _ _ same := by
    have equal : a = b := by simpa [Comparison.natural, Comparison.ofDecision] using same
    rw [equal] at same ⊢
    exact same
  trans a b c _ _ _ first second := by
    have equal : a = b := by simpa [Comparison.natural, Comparison.ofDecision] using first
    rw [equal]
    exact second

/-- The values of a function of two values stay in the domain. -/
def ClosedOn (Q : ν → Prop) (f : ν → ν → Except ε ν) : Prop :=
  ∀ x y v, Q x → Q y → f x y = .ok v → Q v

namespace DefaultMap

variable {cmp : Comparison ε κ} {eq : ν → ν → Except ε Bool} {P : κ → Prop} {Q : ν → Prop}

/-- Keys increase, and no stored value equals the default. -/
structure Canonical (cmp : Comparison ε κ) (eq : ν → ν → Except ε Bool) (P : κ → Prop) (Q : ν → Prop)
    (m : DefaultMap κ ν) : Prop where
  kept : EntriesOn cmp.less P m.entries.entries
  default : Q m.default
  values : ∀ e ∈ m.entries.entries, Q e.2
  stripped : ∀ e ∈ m.entries.entries, eq e.2 m.default = .ok false

theorem get_eq (ordered : cmp.OrderedOn P) {m : DefaultMap κ ν}
    (kept : EntriesOn cmp.less P m.entries.entries) {k : κ} (hk : P k) :
    m.get cmp k = (valueOf cmp.less m.entries.entries k).getD m.default := by
  rw [get, SortedMap.lookup?_eq ordered kept hk]

namespace Canonical

variable {m : DefaultMap κ ν} {k : κ} {v : ν}

theorem inside_valueOf (ordered : cmp.OrderedOn P) (canonical : m.Canonical cmp eq P Q) (hk : P k)
    (stored : valueOf cmp.less m.entries.entries k = some v) : Q v := by
  obtain ⟨e, mem, _, rfl⟩ := (valueOf_eq_some ordered canonical.kept hk).mp stored
  exact canonical.values e mem

/-- The value of a key is in the domain, stored or not. -/
theorem inside_get (ordered : cmp.OrderedOn P) (canonical : m.Canonical cmp eq P Q) (hk : P k) :
    Q (m.get cmp k) := by
  rw [get_eq ordered canonical.kept hk]
  cases stored : valueOf cmp.less m.entries.entries k with
  | none => exact canonical.default
  | some v => exact canonical.inside_valueOf ordered hk stored

end Canonical

theorem get_constant (v : ν) (k : κ) : (constant v).get cmp k = v := by
  have found : (SortedMap.empty : SortedMap κ ν).find cmp k = .ok (0, false) :=
    findIn_append_nil (by simp [SortedMap.empty])
  rw [get, constant, SortedMap.lookup?, SortedMap.get?, found]
  rfl

theorem constant_canonical {v : ν} (hv : Q v) : (constant v).Canonical cmp eq P Q where
  kept := ⟨List.Pairwise.nil, by simp [constant, SortedMap.empty]⟩
  default := hv
  values := by simp [constant, SortedMap.empty]
  stripped := by simp [constant, SortedMap.empty]

/-- Entries that equal the default are dropped. -/
theorem ofEntries_canonical {entries : SortedMap κ ν} {v : ν} {m : DefaultMap κ ν}
    (kept : EntriesOn cmp.less P entries.entries) (values : ∀ e ∈ entries.entries, Q e.2) (hv : Q v)
    (done : ofEntries eq entries v = .ok m) : m.Canonical cmp eq P Q := by
  obtain ⟨rest, retained, made⟩ := bind_eq_ok.mp done
  cases made
  obtain ⟨left, asked, made⟩ := bind_eq_ok.mp retained
  cases made
  obtain ⟨sub, pass⟩ := of_filterM (Fault.lift_eq_ok.mp asked)
  refine ⟨⟨kept.increasing.sublist sub, fun e mem => kept.inside e (sub.subset mem)⟩, hv,
    fun e mem => values e (sub.subset mem), fun e mem => ?_⟩
  obtain ⟨isDefault, answer, differs⟩ := bind_eq_ok.mp (pass e mem)
  cases isDefault with
  | false => exact answer
  | true => cases differs

theorem ofList_canonical (ordered : cmp.OrderedOn P) {entries : List (κ × ν)} {v : ν}
    {m : DefaultMap κ ν} (inside : ∀ e ∈ entries, P e.1 ∧ Q e.2) (hv : Q v)
    (done : (do ofEntries eq (← SortedMap.ofList cmp entries) v) = .ok m) :
    m.Canonical cmp eq P Q := by
  obtain ⟨sorted, made, kept, origin⟩ :=
    SortedMap.ofList_entries ordered fun e mem => (inside e mem).1
  rw [made] at done
  exact ofEntries_canonical kept (fun e mem => (inside e (origin e mem)).2) hv done

theorem restore_canonical (ordered : cmp.OrderedOn P) {entries : List (κ × ν)} {v : ν}
    {m : DefaultMap κ ν} (inside : ∀ e ∈ entries, P e.1 ∧ Q e.2) (hv : Q v)
    (done : restore cmp eq entries v = .ok m) : m.Canonical cmp eq P Q := by
  obtain ⟨sorted, made, kept, origin⟩ :=
    SortedMap.restore_entries ordered fun e mem => (inside e mem).1
  rw [restore, made] at done
  exact ofEntries_canonical kept (fun e mem => (inside e (origin e mem)).2) hv done

/-- A key that is given the default loses its entry. -/
theorem reset_entries (ordered : cmp.OrderedOn P) {m : DefaultMap κ ν} {k : κ}
    (kept : EntriesOn cmp.less P m.entries.entries) (hk : P k) :
    ∃ n, m.reset cmp k = { m with entries := n } ∧ EntriesOn cmp.less P n.entries ∧
      ∀ e, e ∈ n.entries ↔ e ∈ m.entries.entries ∧ tied cmp.less k e.1 = false := by
  obtain ⟨n, erased, absent, keptN, members⟩ := SortedMap.erase?_entries ordered kept hk
  refine ⟨n, ?_, keptN, members⟩
  rw [reset, erased]
  cases stored : (valueOf cmp.less m.entries.entries k).isSome with
  | true => rfl
  | false =>
    rw [absent stored]
    rfl

namespace Canonical

variable {m : DefaultMap κ ν} {k : κ} {v : ν}

/-- A key that is given the default has it, and the other keys keep their values. -/
theorem reset (ordered : cmp.OrderedOn P) (canonical : m.Canonical cmp eq P Q) (hk : P k) :
    (m.reset cmp k).Canonical cmp eq P Q ∧ (m.reset cmp k).default = m.default ∧
      (m.reset cmp k).get cmp k = m.default ∧
      ∀ j, P j → cmp.eq j k = .ok false → (m.reset cmp k).get cmp j = m.get cmp j := by
  obtain ⟨n, whole, kept, members⟩ := reset_entries ordered canonical.kept hk
  have value {j : κ} (hj : P j) : ({ m with entries := n } : DefaultMap κ ν).get cmp j =
      (if tied cmp.less j k then none else valueOf cmp.less m.entries.entries j).getD m.default := by
    rw [get_eq ordered kept hj, valueOf_erase ordered canonical.kept kept hk members hj]
  rw [whole]
  refine ⟨⟨kept, canonical.default, fun e mem => canonical.values e ((members e).mp mem).1,
    fun e mem => canonical.stripped e ((members e).mp mem).1⟩, rfl, ?_, fun j hj other => ?_⟩
  · rw [value hk, ordered.decides.tied_self hk]
    rfl
  · rw [ordered.eq_iff hj hk] at other
    rw [value hj, other, get_eq ordered canonical.kept hj]
    rfl

/-- A value that is stored differs from the default. -/
theorem of_set (ordered : cmp.OrderedOn P) (canonical : m.Canonical cmp eq P Q) (hk : P k) (hv : Q v)
    {n : DefaultMap κ ν} (done : m.set cmp eq k v = .ok n) : n.Canonical cmp eq P Q := by
  obtain ⟨isDefault, asked, stored⟩ := bind_eq_ok.mp done
  cases isDefault with
  | true =>
    cases stored
    exact (canonical.reset ordered hk).1
  | false =>
    obtain ⟨rest, inserted, kept, members⟩ := SortedMap.insert_entries ordered canonical.kept hk v
    obtain ⟨made, insertedAs, last⟩ := bind_eq_ok.mp stored
    cases inserted.symm.trans insertedAs
    cases last
    refine ⟨kept, canonical.default, fun e mem => ?_, fun e mem => ?_⟩
    · rcases (members e).mp mem with rfl | ⟨mem, _⟩
      · exact hv
      · exact canonical.values e mem
    · rcases (members e).mp mem with rfl | ⟨mem, _⟩
      · exact Fault.lift_eq_ok.mp asked
      · exact canonical.stripped e mem

/-- A key that is given a value has an equal one, and the other keys keep theirs. -/
theorem set (ordered : cmp.OrderedOn P) (equivalence : EquivalenceOn eq Q)
    (canonical : m.Canonical cmp eq P Q) (hk : P k) (hv : Q v) :
    ∃ n, m.set cmp eq k v = .ok n ∧ n.default = m.default ∧ eq (n.get cmp k) v = .ok true ∧
      ∀ j, P j → cmp.eq j k = .ok false → n.get cmp j = m.get cmp j := by
  obtain ⟨isDefault, answer⟩ := equivalence.answers v m.default hv canonical.default
  rw [DefaultMap.set, answer]
  cases isDefault with
  | true =>
    obtain ⟨_, default, value, others⟩ := canonical.reset ordered hk
    refine ⟨m.reset cmp k, rfl, default, ?_, others⟩
    rw [value]
    exact equivalence.symm v m.default hv canonical.default answer
  | false =>
    obtain ⟨n, inserted, kept, members⟩ := SortedMap.insert_entries ordered canonical.kept hk v
    have value {j : κ} (hj : P j) : ({ m with entries := n } : DefaultMap κ ν).get cmp j =
        (if tied cmp.less j k then some v else valueOf cmp.less m.entries.entries j).getD m.default :=
      by rw [get_eq ordered kept hj, valueOf_insert ordered canonical.kept kept hk members hj]
    refine ⟨{ m with entries := n }, ?_, rfl, ?_, fun j hj other => ?_⟩
    · rw [inserted]
      rfl
    · rw [value hk, ordered.decides.tied_self hk]
      exact equivalence.refl v hv
    · rw [ordered.eq_iff hj hk] at other
      rw [value hj, other, get_eq ordered canonical.kept hj]
      rfl

end Canonical

/-- A map is made key by key: every key, stored or not, has a value equal to that of a function. It is
made exactly if the function returns for the keys that were stored, and the new default is one. -/
structure KeyByKey (cmp : Comparison ε κ) (eq : ν → ν → Except ε Bool) (P : κ → Prop) (Q : ν → Prop)
    (value : κ → Except ε ν) (default : Except ε ν) (stored : List κ)
    (made : Except (Fault ε) (DefaultMap κ ν)) : Prop where
  returns_iff : (∃ m, made = .ok m) ↔
    (∃ d, default = .ok d) ∧ ∀ k ∈ stored, ∃ v, value k = .ok v
  canonical : ∀ m, made = .ok m → m.Canonical cmp eq P Q
  default : ∀ m, made = .ok m → default = .ok m.default
  agrees : ∀ m, made = .ok m →
    ∀ k, P k → ∃ v, value k = .ok v ∧ Q v ∧ eq (m.get cmp k) v = .ok true

/-- A value, unless it equals the default. -/
def unlessDefault (eq : ν → ν → Except ε Bool) (default : ν) (made : Except ε ν) :
    Except ε (Option ν) := do
  let value ← made
  if ← eq value default then return none else return some value

/-- The map of the new default and of the entries that are made of pieces. -/
def assemble (eq : ν → ν → Except ε Bool) (key : β → κ) (made : β → Except ε ν)
    (default : Except ε ν) (ps : List β) : Except (Fault ε) (DefaultMap κ ν) := do
  let d ← Fault.lift default
  let entries ← Fault.lift (ps.filterMapM (entryOf key fun p => unlessDefault eq d (made p)))
  return ⟨⟨entries⟩, d⟩

theorem assemble_eq_ok {key : β → κ} {made : β → Except ε ν} {default : Except ε ν} {ps : List β}
    {m : DefaultMap κ ν} :
    assemble eq key made default ps = .ok m ↔ default = .ok m.default ∧
      ps.filterMapM (entryOf key fun p => unlessDefault eq m.default (made p)) =
        .ok m.entries.entries := by
  rw [assemble, bind_eq_ok]
  constructor
  · rintro ⟨d, first, rest⟩
    obtain ⟨entries, second, last⟩ := bind_eq_ok.mp rest
    cases last
    exact ⟨Fault.lift_eq_ok.mp first, Fault.lift_eq_ok.mp second⟩
  · rintro ⟨first, second⟩
    exact ⟨m.default, Fault.lift_eq_ok.mpr first,
      bind_eq_ok.mpr ⟨m.entries.entries, Fault.lift_eq_ok.mpr second, rfl⟩⟩

section Stripped

variable {d v : ν} {made : Except ε ν} {stored : Option ν}

theorem unlessDefault_answers (equivalence : EquivalenceOn eq Q) (hd : Q d)
    (closed : ∀ v, made = .ok v → Q v) :
    (∃ stored, unlessDefault eq d made = .ok stored) ↔ ∃ v, made = .ok v := by
  constructor
  · rintro ⟨stored, answer⟩
    obtain ⟨v, returns, _⟩ := bind_eq_ok.mp answer
    exact ⟨v, returns⟩
  · rintro ⟨v, rfl⟩
    obtain ⟨isDefault, asked⟩ := equivalence.answers v d (closed v rfl) hd
    refine ⟨if isDefault then none else some v, ?_⟩
    show (eq v d >>= fun isDefault => _) = _
    rw [asked]
    cases isDefault <;> rfl

/-- A value that is stored differs from the default. -/
theorem differs_unlessDefault (answer : unlessDefault eq d made = .ok (some v)) :
    made = .ok v ∧ eq v d = .ok false := by
  obtain ⟨v', returns, rest⟩ := bind_eq_ok.mp answer
  obtain ⟨isDefault, asked, kept⟩ := bind_eq_ok.mp rest
  cases isDefault with
  | true => cases kept
  | false =>
    cases kept
    exact ⟨returns, asked⟩

/-- A value that is left out is equal to the default. -/
theorem eq_unlessDefault (equivalence : EquivalenceOn eq Q) (hd : Q d)
    (closed : ∀ v, made = .ok v → Q v) (answer : unlessDefault eq d made = .ok stored) :
    ∃ v, made = .ok v ∧ Q v ∧ eq (stored.getD d) v = .ok true := by
  obtain ⟨v, returns, rest⟩ := bind_eq_ok.mp answer
  obtain ⟨isDefault, asked, kept⟩ := bind_eq_ok.mp rest
  have hv := closed v returns
  refine ⟨v, returns, hv, ?_⟩
  cases isDefault with
  | true =>
    cases kept
    exact equivalence.symm v d hv hd asked
  | false =>
    cases kept
    exact equivalence.refl v hv

end Stripped

/-- Pieces in increasing order of their keys, from which a map gets its values: a key that has a piece
gets what is made of it, any other key the default. -/
structure Pieces (cmp : Comparison ε κ) (P : κ → Prop) (Q : ν → Prop) (key : β → κ)
    (made : β → Except ε ν) (value : κ → Except ε ν) (default : Except ε ν) (stored : List κ)
    (ps : List β) : Prop where
  kept : IncreasingOn (fun p q => cmp.less (key p) (key q)) (fun p => P (key p)) ps
  value_eq : ∀ k, P k →
    value k = ((ps.find? fun p => tied cmp.less k (key p)).map made).getD default
  key_stored : ∀ p ∈ ps, key p ∈ stored
  stored_inside : ∀ k ∈ stored, P k
  made_closed : ∀ p ∈ ps, ∀ v, made p = .ok v → Q v
  default_closed : ∀ d, default = .ok d → Q d

namespace Pieces

variable {key : β → κ} {made : β → Except ε ν} {value : κ → Except ε ν} {default : Except ε ν}
  {stored : List κ} {ps : List β} {m : DefaultMap κ ν}

theorem canonical (pieces : Pieces cmp P Q key made value default stored ps)
    (assembled : assemble eq key made default ps = .ok m) : m.Canonical cmp eq P Q := by
  obtain ⟨first, done⟩ := assemble_eq_ok.mp assembled
  have hd := pieces.default_closed m.default first
  refine ⟨entriesOf_kept pieces.kept done, hd, fun e mem => ?_, fun e mem => ?_⟩
  · obtain ⟨p, memP, _, answer⟩ := (mem_entriesOf done).mp mem
    exact pieces.made_closed p memP e.2 (differs_unlessDefault answer).1
  · obtain ⟨p, _, _, answer⟩ := (mem_entriesOf done).mp mem
    exact (differs_unlessDefault answer).2

theorem agrees (ordered : cmp.OrderedOn P) (equivalence : EquivalenceOn eq Q)
    (pieces : Pieces cmp P Q key made value default stored ps)
    (assembled : assemble eq key made default ps = .ok m) {k : κ} (hk : P k) :
    ∃ v, value k = .ok v ∧ Q v ∧ eq (m.get cmp k) v = .ok true := by
  obtain ⟨first, done⟩ := assemble_eq_ok.mp assembled
  have hd := pieces.default_closed m.default first
  rw [pieces.value_eq k hk, get_eq ordered (entriesOf_kept pieces.kept done) hk]
  cases found : ps.find? fun p => tied cmp.less k (key p) with
  | none =>
    rw [valueOf_entriesOf_none done found]
    exact ⟨m.default, first, hd, equivalence.refl m.default hd⟩
  | some p =>
    exact eq_unlessDefault equivalence hd (pieces.made_closed p (List.mem_of_find?_eq_some found))
      (valueOf_entriesOf ordered pieces.kept done hk found)

theorem returns_iff (ordered : cmp.OrderedOn P) (equivalence : EquivalenceOn eq Q)
    (pieces : Pieces cmp P Q key made value default stored ps) :
    (∃ m, assemble eq key made default ps = .ok m) ↔
      (∃ d, default = .ok d) ∧ ∀ k ∈ stored, ∃ v, value k = .ok v := by
  constructor
  · rintro ⟨m, assembled⟩
    refine ⟨⟨m.default, (assemble_eq_ok.mp assembled).1⟩, fun k mem => ?_⟩
    obtain ⟨v, returns, _⟩ := pieces.agrees ordered equivalence assembled (pieces.stored_inside k mem)
    exact ⟨v, returns⟩
  · rintro ⟨⟨d, first⟩, returns⟩
    have hd := pieces.default_closed d first
    have answers : ∀ p ∈ ps, ∃ e,
        entryOf key (fun p => unlessDefault eq d (made p)) p = .ok e := by
      intro p mem
      have hk := pieces.kept.inside p mem
      have found := ((ordered.decides.picksOne hk).comap key).find?_of_mem pieces.kept mem
        (ordered.decides.tied_self hk)
      obtain ⟨v, value⟩ := returns (key p) (pieces.key_stored p mem)
      rw [pieces.value_eq (key p) hk, found] at value
      exact entryOf_answers.mpr
        ((unlessDefault_answers equivalence hd (pieces.made_closed p mem)).mpr ⟨v, value⟩)
    have done := filterMapM_eq_ok.mpr ⟨answers, rfl⟩
    exact ⟨⟨⟨_⟩, d⟩, assemble_eq_ok.mpr ⟨first, done⟩⟩

/-- A map assembled of pieces is made key by key. -/
theorem keyByKey (ordered : cmp.OrderedOn P) (equivalence : EquivalenceOn eq Q)
    (pieces : Pieces cmp P Q key made value default stored ps) :
    KeyByKey cmp eq P Q value default stored (assemble eq key made default ps) where
  returns_iff := pieces.returns_iff ordered equivalence
  canonical _ assembled := pieces.canonical assembled
  default _ assembled := (assemble_eq_ok.mp assembled).1
  agrees _ assembled _ hk := pieces.agrees ordered equivalence assembled hk

end Pieces

/-- The value of what one side has of a pairing, or the default of that side. -/
def sideValue (default : ν) (side : Option (κ × ν)) : ν := (side.map Prod.snd).getD default

/-- An outer join of plain pairs makes an entry of every pairing. -/
theorem joinPairing_outer (f : Policy.JoinFunction ε κ ν) (p : Pairing (κ × ν)) :
    Policy.joinPairing .outer .plain f p =
      entryOf (fun p : Pairing (κ × ν) => p.item.1)
        (fun p => f p.item.1 (p.left?.map Prod.snd) (p.right?.map Prod.snd)) p := by
  cases p <;> rfl

variable {a b : DefaultMap κ ν} {f : ν → ν → Except ε ν}

theorem combine_eq (ordered : cmp.OrderedOn P) (ha : a.Canonical cmp eq P Q)
    (hb : b.Canonical cmp eq P Q) :
    a.combine cmp eq f b = assemble eq (fun p : Pairing (κ × ν) => p.item.1)
      (fun p => f (sideValue a.default p.left?) (sideValue b.default p.right?))
      (f a.default b.default)
      (pairings (fun e f => cmp.less e.1 f.1) a.entries.entries b.entries.entries) := by
  rw [combine, assemble]
  refine bind_congr fun d => ?_
  have joined := (Policy.join_itemwise .outer .plain (fun _ left right =>
      Policy.Pointwise.value (ε := ε) ⟨eq, f, a.default, b.default, d⟩ (left.getD a.default)
        (right.getD b.default))).merge_pairings ordered (entriesOn_keyed.mpr ha.kept)
    (entriesOn_keyed.mpr hb.kept)
  rw [funext (joinPairing_outer _)] at joined
  show (merge cmp ⟨SortedMap.key, .join .outer .plain _⟩ _ _ >>= _) = _
  rw [joined]
  rfl

/-- What a side has of a pairing is in the domain, and so is its default. -/
theorem sideValue_inside {m : DefaultMap κ ν} (canonical : m.Canonical cmp eq P Q)
    {side : Option (κ × ν)} (mem : ∀ e, side = some e → e ∈ m.entries.entries) :
    Q (sideValue m.default side) := by
  cases side with
  | none => exact canonical.default
  | some e => exact canonical.values e (mem e rfl)

theorem combine_pieces (ordered : cmp.OrderedOn P) (ha : a.Canonical cmp eq P Q)
    (hb : b.Canonical cmp eq P Q) (closed : ClosedOn Q f) :
    Pieces cmp P Q (fun p : Pairing (κ × ν) => p.item.1)
      (fun p => f (sideValue a.default p.left?) (sideValue b.default p.right?))
      (fun k => f (a.get cmp k) (b.get cmp k)) (f a.default b.default)
      (a.entries.keys ++ b.entries.keys)
      (pairings (fun e f => cmp.less e.1 f.1) a.entries.entries b.entries.entries) := by
  have order := ordered.decides.comap (Prod.fst : κ × ν → κ)
  refine ⟨pairings_increasing order ha.kept hb.kept, fun k hk => ?_, fun p mem => ?_,
    fun k mem => ?_, fun p mem v => ?_, fun d => closed _ _ d ha.default hb.default⟩
  · have found := find?_pairings order (picksOne_key ordered hk) ha.kept hb.kept
    rw [get_eq ordered ha.kept hk, get_eq ordered hb.kept hk, valueOf, valueOf, found]
    cases a.entries.entries.find? fun e => tied cmp.less k e.1 <;>
      cases b.entries.entries.find? fun e => tied cmp.less k e.1 <;> rfl
  · exact List.mem_append.mpr
      ((mem_pairings mem).imp List.mem_map_of_mem List.mem_map_of_mem)
  · rcases List.mem_append.mp mem with mem | mem
    · exact (entriesOn_keys.mp ha.kept).inside k mem
    · exact (entriesOn_keys.mp hb.kept).inside k mem
  · exact closed _ _ v (sideValue_inside ha fun e => mem_of_left? mem)
      (sideValue_inside hb fun e => mem_of_right? mem)

/-- Two maps are combined key by key. -/
theorem Canonical.combine (ordered : cmp.OrderedOn P) (equivalence : EquivalenceOn eq Q)
    (ha : a.Canonical cmp eq P Q) (hb : b.Canonical cmp eq P Q) (closed : ClosedOn Q f) :
    KeyByKey cmp eq P Q (fun k => f (a.get cmp k) (b.get cmp k)) (f a.default b.default)
      (a.entries.keys ++ b.entries.keys) (a.combine cmp eq f b) := by
  rw [combine_eq ordered ha hb]
  exact (combine_pieces ordered ha hb closed).keyByKey ordered equivalence

variable {m : DefaultMap κ ν} {g : ν → Except ε ν}

theorem mapValues_eq (g : ν → Except ε ν) (m : DefaultMap κ ν) :
    mapValues eq g m =
      assemble eq Prod.fst (fun e => g e.2) (g m.default) m.entries.entries := by
  have entry (d : ν) : (fun e : κ × ν => do
      let value ← g e.2
      if ← eq value d then return none else return some (e.1, value)) =
      entryOf Prod.fst fun e => unlessDefault eq d (g e.2) := by
    funext e
    rw [entryOf, unlessDefault, bind_assoc]
    refine bind_congr fun value => ?_
    rw [bind_assoc]
    refine bind_congr fun isDefault => ?_
    cases isDefault <;> rfl
  rw [mapValues, assemble]
  refine bind_congr fun d => ?_
  rw [entry]

theorem mapValues_pieces (ordered : cmp.OrderedOn P) (canonical : m.Canonical cmp eq P Q)
    (closed : ∀ v w, Q v → g v = .ok w → Q w) :
    Pieces cmp P Q Prod.fst (fun e => g e.2) (fun k => g (m.get cmp k)) (g m.default) m.entries.keys
      m.entries.entries := by
  refine ⟨canonical.kept, fun k hk => ?_, fun e => List.mem_map_of_mem,
    (entriesOn_keys.mp canonical.kept).inside, fun e mem v => closed e.2 v (canonical.values e mem),
    fun d => closed m.default d canonical.default⟩
  rw [get_eq ordered canonical.kept hk, valueOf]
  cases m.entries.entries.find? fun e => tied cmp.less k e.1 <;> rfl

/-- All values of a map are changed, those of the keys that are not stored like the others. -/
theorem Canonical.mapValues (ordered : cmp.OrderedOn P) (equivalence : EquivalenceOn eq Q)
    (canonical : m.Canonical cmp eq P Q) (closed : ∀ v w, Q v → g v = .ok w → Q w) :
    KeyByKey cmp eq P Q (fun k => g (m.get cmp k)) (g m.default) m.entries.keys
      (m.mapValues eq g) := by
  rw [mapValues_eq]
  exact (mapValues_pieces ordered canonical closed).keyByKey ordered equivalence

/-- Combining in place changes the map to what combining would make a new map of. After a fault the map
is as it was. -/
theorem combineInPlace_eq [Inhabited κ] [Inhabited ν] (f : ν → ν → Except ε ν)
    (other : Option (DefaultMap κ ν)) (a : DefaultMap κ ν) :
    combineInPlace cmp eq f other a = changedTo a (a.combine cmp eq f (other.getD a)) := by
  rw [combineInPlace, combine]
  cases f a.default (other.getD a).default with
  | error e => rfl
  | ok d =>
    simp only [SortedMap.mergeEntries, mergeInPlace_eq]
    show _ = changedTo a (merge cmp (pointwise eq f a (other.getD a) d) _ _ >>= _)
    cases merge cmp (pointwise eq f a (other.getD a) d) a.entries.entries
      (other.getD a).entries.entries <;> rfl

end DefaultMap

end SortedCollections
