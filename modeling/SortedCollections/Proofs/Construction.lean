import SortedCollections.CofiniteSet
import SortedCollections.Proofs.Maps.Canonical
import SortedCollections.Proofs.Sets.Elements

/-!
# Building containers at once and one by one

A container that is built out of a list at once sorts the list, keeps the last of each run of equal
items and, if it has a default, drops what equals it. Put into an empty container one by one, each item
takes the place of the one equal to it. Both leave the last of equal items, in increasing order, and so
the very same list.
-/
namespace SortedCollections

variable {ε α κ ν σ : Type}

/-- The last of equal items of a longer list. -/
theorem Keep.stays_cons {lt : α → α → Except ε Bool} {less : α → α → Bool} {P : α → Prop}
    (order : Decides lt less P) {x y : α} {xs : List α} (hx : P x) :
    Keep.last.Stays (tied less) (x :: xs) y ↔
      Keep.last.Stays (tied less) xs y ∨ y = x ∧ hasTie less xs y = false := by
  have ends (found : List α) : (x :: found).getLast? = some y ↔
      found.getLast? = some y ∨ y = x ∧ found = [] := by
    cases found with
    | nil => simp [eq_comm]
    | cons z zs => simp [List.getLast?_cons]
  rw [Stays, Stays, List.filter_cons]
  cases same : tied less y x with
  | true =>
    have none_iff : xs.filter (tied less y) = [] ↔ hasTie less xs y = false := by
      rw [List.filter_eq_nil_iff, hasTie_eq_false]
      simp only [Bool.not_eq_true]
    rw [if_pos rfl, ← none_iff]
    exact ends _
  | false =>
    rw [if_neg Bool.false_ne_true]
    refine ⟨.inl, fun kept => kept.elim id ?_⟩
    rintro ⟨rfl, _⟩
    rw [order.tied_self hx] at same
    cases same

/-- Each item that is put in takes the place of what ties with it, or leaves nothing there if it is not
admitted. In the end there is the last of those that tie, as far as it is admitted, and what was there
before and ties with none. -/
theorem foldlM_put {lt : α → α → Except ε Bool} {less : α → α → Bool} {P : α → Prop}
    (order : Decides lt less P) {items : σ → List α} {put : σ → α → Except (Fault ε) σ}
    {Holds : σ → Prop} {Fits Admitted : α → Prop} (inside : ∀ x, Fits x → P x)
    (put_items : ∀ s x, Holds s → Fits x → ∃ t, put s x = .ok t ∧ Holds t ∧
      ∀ y, y ∈ items t ↔ y = x ∧ Admitted y ∨ y ∈ items s ∧ tied less x y = false)
    {xs : List α} (fits : ∀ x ∈ xs, Fits x) {s : σ} (holds : Holds s) :
    ∃ t, xs.foldlM put s = .ok t ∧ Holds t ∧
      ∀ y, y ∈ items t ↔
        Keep.last.Stays (tied less) xs y ∧ Admitted y ∨ y ∈ items s ∧ hasTie less xs y = false := by
  induction xs generalizing s with
  | nil => exact ⟨s, rfl, holds, fun y => by simp [Keep.Stays, Keep.of]⟩
  | cons x xs ih =>
    obtain ⟨fitsFirst, fitsRest⟩ := List.forall_mem_cons.mp fits
    obtain ⟨t, first, holds, membersFirst⟩ := put_items s x holds fitsFirst
    obtain ⟨u, rest, holds, members⟩ := ih fitsRest holds
    refine ⟨u, ?_, holds, fun y => ?_⟩
    · rw [List.foldlM_cons, first]
      exact rest
    · rw [members y, membersFirst y, Keep.stays_cons order (inside x fitsFirst), hasTie_cons,
        tied_comm less y x, Bool.or_eq_false_iff]
      tauto

namespace SortedSet

variable {cmp : Comparison ε α} {P : α → Prop} {items : List α}

theorem ofList_eq_foldlM (ordered : cmp.OrderedOn P) (inside : ∀ x ∈ items, P x) :
    ∃ s, ofList cmp items = .ok s ∧ items.foldlM (insert cmp) .empty = .ok s := by
  obtain ⟨s, built, kept, stays⟩ := ofList_stays ordered inside
  have put_items (s : SortedSet α) (x : α) (kept : IncreasingOn cmp.less P s.items) (hx : P x) :
      ∃ t, s.insert cmp x = .ok t ∧ IncreasingOn cmp.less P t.items ∧
        ∀ y, y ∈ t.items ↔ y = x ∧ True ∨ y ∈ s.items ∧ tied cmp.less x y = false := by
    obtain ⟨t, done, kept, members⟩ := insert_items ordered kept hx
    exact ⟨t, done, kept, fun y => by rw [members y, and_true]⟩
  have nothing : IncreasingOn cmp.less P (empty : SortedSet α).items :=
    ⟨List.Pairwise.nil, by simp [empty]⟩
  obtain ⟨t, put, keptT, members⟩ :=
    foldlM_put ordered.decides (fun _ => id) put_items inside nothing
  refine ⟨s, built, ?_⟩
  have same : t.items = s.items := keptT.ext ordered.decides kept fun y => by
    rw [members y, stays y, and_true]
    simp [empty]
  rw [put, show t = s from congrArg mk same]

end SortedSet

namespace CofiniteSet

variable {cmp : Comparison ε α}

/-- Adding to a finite set and discarding from a cofinite one store an item. -/
theorem foldlM_store (negated : Bool) (items : List α) (s : SortedSet α) :
    items.foldlM (if negated then CofiniteSet.discard cmp else insert cmp) ⟨s, negated⟩ =
      do return ⟨← items.foldlM (SortedSet.insert cmp) s, negated⟩ := by
  induction items generalizing s with
  | nil => rfl
  | cons x items ih =>
    have stored : (if negated then CofiniteSet.discard cmp else insert cmp) ⟨s, negated⟩ x =
        do return ⟨← s.insert cmp x, negated⟩ := by
      cases negated <;> rfl
    rw [List.foldlM_cons, List.foldlM_cons, stored]
    cases s.insert cmp x with
    | error e => rfl
    | ok t => exact ih t

theorem ofList_eq_foldlM {P : α → Prop} (ordered : cmp.OrderedOn P) {items : List α}
    (inside : ∀ x ∈ items, P x) (negated : Bool) :
    ∃ s, ofList cmp items negated = .ok s ∧
      items.foldlM (if negated then CofiniteSet.discard cmp else insert cmp) (.constant negated) = .ok s := by
  obtain ⟨s, built, put⟩ := SortedSet.ofList_eq_foldlM ordered inside
  refine ⟨⟨s, negated⟩, by rw [ofList, built]; rfl, ?_⟩
  rw [constant, foldlM_store, put]
  rfl

end CofiniteSet

section Maps

variable {cmp : Comparison ε κ} {P : κ → Prop} {entries : List (κ × ν)}

def SortedMap.put (cmp : Comparison ε κ) (m : SortedMap κ ν) (e : κ × ν) :
    Except (Fault ε) (SortedMap κ ν) := do
  return (← m.insert cmp e.1 e.2).2

theorem SortedMap.put_entries (ordered : cmp.OrderedOn P) {m : SortedMap κ ν}
    (kept : EntriesOn cmp.less P m.entries) {e : κ × ν} (inside : P e.1) :
    ∃ n, m.put cmp e = .ok n ∧ EntriesOn cmp.less P n.entries ∧
      ∀ f, f ∈ n.entries ↔ f = e ∨ f ∈ m.entries ∧ tied cmp.less e.1 f.1 = false := by
  obtain ⟨n, inserted, kept, members⟩ := insert_entries ordered kept inside e.2
  exact ⟨n, by rw [put, inserted]; rfl, kept, members⟩

theorem SortedMap.ofList_eq_foldlM (ordered : cmp.OrderedOn P) (inside : ∀ e ∈ entries, P e.1) :
    ∃ m, ofList cmp entries = .ok m ∧ entries.foldlM (put cmp) .empty = .ok m := by
  obtain ⟨m, built, kept, stays⟩ := ofList_stays ordered inside
  have order := ordered.decides.comap (Prod.fst : κ × ν → κ)
  have put_items (m : SortedMap κ ν) (e : κ × ν) (kept : EntriesOn cmp.less P m.entries) (he : P e.1) :
      ∃ n, m.put cmp e = .ok n ∧ EntriesOn cmp.less P n.entries ∧
        ∀ f, f ∈ n.entries ↔ f = e ∧ True ∨ f ∈ m.entries ∧ tied cmp.less e.1 f.1 = false := by
    obtain ⟨n, done, kept, members⟩ := put_entries ordered kept he
    exact ⟨n, done, kept, fun f => by rw [members f, and_true]⟩
  have nothing : EntriesOn cmp.less P (empty : SortedMap κ ν).entries :=
    ⟨List.Pairwise.nil, by simp [empty]⟩
  obtain ⟨n, put, keptN, members⟩ := foldlM_put order (fun _ => id) put_items inside nothing
  refine ⟨m, built, ?_⟩
  have same : n.entries = m.entries := keptN.ext order kept fun f => by
    rw [members f, stays f, and_true]
    simp only [empty, List.not_mem_nil, false_and, or_false]
    rfl
  rw [put, show n = m from congrArg mk same]

namespace DefaultMap

variable {eq : ν → ν → Except ε Bool} {d : ν}

/-- A value equal to the default leaves its key without an entry, any other one is stored. -/
theorem set_entries (ordered : cmp.OrderedOn P) {m : DefaultMap κ ν}
    (kept : EntriesOn cmp.less P m.entries.entries) {e : κ × ν} (inside : P e.1)
    (answers : ∃ r, eq e.2 m.default = .ok r) :
    ∃ n, m.set cmp eq e.1 e.2 = .ok n ∧
      (EntriesOn cmp.less P n.entries.entries ∧ n.default = m.default) ∧
      ∀ f, f ∈ n.entries.entries ↔ f = e ∧ eq f.2 m.default = .ok false ∨
        f ∈ m.entries.entries ∧ tied cmp.less e.1 f.1 = false := by
  obtain ⟨isDefault, answer⟩ := answers
  rw [set, answer]
  cases isDefault with
  | true =>
    obtain ⟨n, whole, kept, members⟩ := reset_entries ordered kept inside
    refine ⟨{ m with entries := n }, ?_, ⟨kept, rfl⟩, fun f => ?_⟩
    · rw [← whole]
      rfl
    · rw [members f]
      refine ⟨.inr, fun stored => stored.elim ?_ id⟩
      rintro ⟨rfl, differs⟩
      rw [answer] at differs
      cases differs
  | false =>
    obtain ⟨n, inserted, kept, members⟩ := SortedMap.insert_entries ordered kept inside e.2
    refine ⟨{ m with entries := n }, ?_, ⟨kept, rfl⟩, fun f => ?_⟩
    · rw [inserted]
      rfl
    · rw [members f]
      refine or_congr_left ⟨?_, And.left⟩
      rintro rfl
      exact ⟨rfl, answer⟩

/-- Setting keys comes to an end only if equality answers for all values. -/
theorem answers_of_foldlM {m n : DefaultMap κ ν}
    (done : entries.foldlM (fun m e => m.set cmp eq e.1 e.2) m = .ok n) :
    ∀ e ∈ entries, ∃ r, eq e.2 m.default = .ok r := by
  induction entries generalizing m with
  | nil => simp
  | cons e entries ih =>
    rw [List.foldlM_cons] at done
    obtain ⟨t, first, rest⟩ := bind_eq_ok.mp done
    obtain ⟨isDefault, answer, stored⟩ := bind_eq_ok.mp first
    have same : t.default = m.default := by
      cases isDefault with
      | true =>
        cases stored
        rw [reset]
        cases erased : m.entries.erase? cmp e.1 with
        | error cause => rfl
        | ok found => cases found <;> rfl
      | false =>
        obtain ⟨inserted, _, made⟩ := bind_eq_ok.mp stored
        cases made
        rfl
    refine List.forall_mem_cons.mpr ⟨⟨isDefault, Fault.lift_eq_ok.mp answer⟩, ?_⟩
    rw [← same]
    exact ih rest

/-- The entries that stay of a list, without those that equal the default. -/
theorem ofList_entries (ordered : cmp.OrderedOn P) (inside : ∀ e ∈ entries, P e.1)
    (answers : ∀ e ∈ entries, ∃ r, eq e.2 d = .ok r) :
    ∃ m, (do ofEntries eq (← SortedMap.ofList cmp entries) d) = .ok m ∧
      (EntriesOn cmp.less P m.entries.entries ∧ m.default = d) ∧
      ∀ e, e ∈ m.entries.entries ↔
        Keep.last.Stays (fun e f => tied cmp.less e.1 f.1) entries e ∧ eq e.2 d = .ok false := by
  obtain ⟨whole, built, kept, stays⟩ := SortedMap.ofList_stays ordered inside
  let differs (e : κ × ν) : Bool := (eq e.2 d).toOption == some false
  have differs_iff {e : κ × ν} : differs e = true ↔ eq e.2 d = .ok false := by
    cases answer : eq e.2 d <;> simp [differs, answer, Except.toOption]
  have retained : whole.entries.filterM (fun e => do return !(← eq e.2 d)) =
      .ok (whole.entries.filter differs) := by
    refine filterM_eq_filter fun e mem => ?_
    obtain ⟨r, answer⟩ := answers e ((stays e).mp mem).mem
    cases r <;> simp [differs, answer, Except.toOption]
  refine ⟨⟨⟨whole.entries.filter differs⟩, d⟩, ?_, ⟨⟨?_, ?_⟩, rfl⟩, fun e => ?_⟩
  · rw [built]
    show ofEntries eq whole d = _
    rw [ofEntries, normalize, SortedMap.retain, retained]
    rfl
  · exact kept.increasing.sublist List.filter_sublist
  · exact fun e mem => kept.inside e (List.mem_of_mem_filter mem)
  · rw [List.mem_filter, differs_iff, stays e]

/-- Setting the keys of a list one by one makes the map of the list, if equality answers for every
value. -/
theorem ofList_eq_foldlM (ordered : cmp.OrderedOn P) (inside : ∀ e ∈ entries, P e.1)
    (answers : ∀ e ∈ entries, ∃ r, eq e.2 d = .ok r) :
    ∃ m, (do ofEntries eq (← SortedMap.ofList cmp entries) d) = .ok m ∧
      entries.foldlM (fun m e => m.set cmp eq e.1 e.2) (constant d) = .ok m := by
  have order := ordered.decides.comap (Prod.fst : κ × ν → κ)
  obtain ⟨n, built, ⟨kept, default⟩, stays⟩ := ofList_entries ordered inside answers
  have put_items (m : DefaultMap κ ν) (e : κ × ν)
      (holds : EntriesOn cmp.less P m.entries.entries ∧ m.default = d)
      (fits : P e.1 ∧ ∃ r, eq e.2 d = .ok r) :
      ∃ n, m.set cmp eq e.1 e.2 = .ok n ∧
        (EntriesOn cmp.less P n.entries.entries ∧ n.default = d) ∧
        ∀ f, f ∈ n.entries.entries ↔ f = e ∧ eq f.2 d = .ok false ∨
          f ∈ m.entries.entries ∧ tied cmp.less e.1 f.1 = false := by
    obtain ⟨keptM, rfl⟩ := holds
    exact set_entries ordered keptM fits.1 fits.2
  have nothing : EntriesOn cmp.less P (constant d : DefaultMap κ ν).entries.entries ∧
      (constant d : DefaultMap κ ν).default = d :=
    ⟨⟨List.Pairwise.nil, by simp [constant, SortedMap.empty]⟩, rfl⟩
  obtain ⟨m, put, ⟨keptM, defaultM⟩, members⟩ := foldlM_put order (fun _ => And.left) put_items
    (fun e mem => ⟨inside e mem, answers e mem⟩) nothing
  refine ⟨n, built, ?_⟩
  have same : m.entries.entries = n.entries.entries := keptM.ext order kept fun f => by
    rw [members f, stays f]
    simp only [constant, SortedMap.empty, List.not_mem_nil, false_and, or_false]
    rfl
  obtain ⟨⟨ms⟩, dm⟩ := m
  obtain ⟨⟨ns⟩, dn⟩ := n
  cases same
  cases default
  cases defaultM
  exact put

/-- Setting the keys of a list one by one makes the map of the list, if equality answers for every
value, and fails otherwise. -/
theorem foldlM_set_iff (ordered : cmp.OrderedOn P) (inside : ∀ e ∈ entries, P e.1)
    {m : DefaultMap κ ν} :
    entries.foldlM (fun m e => m.set cmp eq e.1 e.2) (constant d) = .ok m ↔
      (∀ e ∈ entries, ∃ r, eq e.2 d = .ok r) ∧
        (do ofEntries eq (← SortedMap.ofList cmp entries) d) = .ok m := by
  constructor
  · intro done
    have answers : ∀ e ∈ entries, ∃ r, eq e.2 d = .ok r := answers_of_foldlM done
    obtain ⟨n, built, put⟩ := ofList_eq_foldlM ordered inside answers
    rw [put, Except.ok.injEq] at done
    exact ⟨answers, done ▸ built⟩
  · rintro ⟨answers, built⟩
    obtain ⟨n, built', put⟩ := ofList_eq_foldlM ordered inside answers
    rw [built', Except.ok.injEq] at built
    rw [put, built]

/-- What a map with a default is made of asks equality only of the values that stay. -/
theorem ofList_congr (ordered : cmp.OrderedOn P) (inside : ∀ e ∈ entries, P e.1)
    {eq' : ν → ν → Except ε Bool}
    (same : ∀ e, Keep.last.Stays (fun e f => tied cmp.less e.1 f.1) entries e → eq' e.2 d = eq e.2 d) :
    (do ofEntries eq' (← SortedMap.ofList cmp entries) d) =
      (do ofEntries eq (← SortedMap.ofList cmp entries) d) := by
  obtain ⟨whole, built, _, stays⟩ := SortedMap.ofList_stays ordered inside
  rw [built]
  show ofEntries eq' whole d = ofEntries eq whole d
  have retained : whole.entries.filterM (fun e => do return !(← eq' e.2 d)) =
      whole.entries.filterM fun e => do return !(← eq e.2 d) :=
    filterM_congr fun e mem => by rw [same e ((stays e).mp mem)]
  simp only [ofEntries, normalize, SortedMap.retain, retained]

/-- A map with a default is created at once exactly if equality answers for the values that stay. -/
theorem exists_ofList_iff (ordered : cmp.OrderedOn P) (inside : ∀ e ∈ entries, P e.1) :
    (∃ m, (do ofEntries eq (← SortedMap.ofList cmp entries) d) = .ok m) ↔
      ∀ e, Keep.last.Stays (fun e f => tied cmp.less e.1 f.1) entries e → ∃ r, eq e.2 d = .ok r := by
  obtain ⟨whole, built, _, stays⟩ := SortedMap.ofList_stays ordered inside
  have made : (∃ m, ofEntries eq whole d = .ok m) ↔
      ∃ kept, whole.entries.filterM (fun e => do return !(← eq e.2 d)) = .ok kept := by
    rw [ofEntries, normalize, SortedMap.retain]
    cases whole.entries.filterM (fun e => do return !(← eq e.2 d)) <;>
      simp [bind, Except.bind, pure, Except.pure]
  have answered (e : κ × ν) : (∃ r, (do return !(← eq e.2 d)) = Except.ok (ε := ε) r) ↔
      ∃ r, eq e.2 d = .ok r := by
    cases eq e.2 d <;> simp [bind, Except.bind, pure, Except.pure]
  rw [built]
  show (∃ m, ofEntries eq whole d = .ok m) ↔ _
  rw [made, exists_filterM_iff]
  simp only [answered, stays]

/-- Equality fails for a value that is to be set. -/
theorem set_failed {m : DefaultMap κ ν} {e : κ × ν} {cause : ε}
    (failed : eq e.2 m.default = .error cause) : m.set cmp eq e.1 e.2 = .error (.raised cause) := by
  rw [set, failed]
  rfl

/-- Setting the keys of a list one by one keeps the default. -/
theorem foldlM_set (ordered : cmp.OrderedOn P) (inside : ∀ e ∈ entries, P e.1)
    (answers : ∀ e ∈ entries, ∃ r, eq e.2 d = .ok r) :
    ∃ m, entries.foldlM (fun m e => m.set cmp eq e.1 e.2) (constant d) = .ok m ∧ m.default = d := by
  obtain ⟨m, built, put⟩ := ofList_eq_foldlM ordered inside answers
  obtain ⟨n, built', ⟨_, default⟩, _⟩ := ofList_entries ordered inside answers
  rw [built, Except.ok.injEq] at built'
  exact ⟨m, put, built' ▸ default⟩

/-- Setting the keys of a list one by one ends with the first value for which equality fails. -/
theorem foldlM_set_failed (ordered : cmp.OrderedOn P) {before after : List (κ × ν)} {e : κ × ν}
    (inside : ∀ f ∈ before, P f.1) (answers : ∀ f ∈ before, ∃ r, eq f.2 d = .ok r) {cause : ε}
    (failed : eq e.2 d = .error cause) :
    (before ++ e :: after).foldlM (fun m e => m.set cmp eq e.1 e.2) (constant d) =
      .error (.raised cause) := by
  obtain ⟨m, put, rfl⟩ := foldlM_set ordered inside answers
  rw [List.foldlM_append, put]
  show (e :: after).foldlM (fun m e => m.set cmp eq e.1 e.2) m = _
  rw [List.foldlM_cons, set_failed failed]
  rfl

end DefaultMap

/-- Every kind of container that is built out of a list is the one that is made by putting in the items
of the list one after the other. -/
structure BuiltOneByOne (cmp : Comparison ε κ) (eq : ν → ν → Except ε Bool) (keys : List κ)
    (entries : List (κ × ν)) (d : ν) : Prop where
  set : ∃ s, SortedSet.ofList cmp keys = .ok s ∧ keys.foldlM (SortedSet.insert cmp) .empty = .ok s
  map : ∃ m, SortedMap.ofList cmp entries = .ok m ∧ entries.foldlM (SortedMap.put cmp) .empty = .ok m
  finite : ∃ s, CofiniteSet.ofList cmp keys false = .ok s ∧
    keys.foldlM (CofiniteSet.insert cmp) .empty = .ok s
  cofinite : ∃ s, CofiniteSet.ofList cmp keys true = .ok s ∧
    keys.foldlM (CofiniteSet.discard cmp) .all = .ok s
  defaultMap : ∀ m, entries.foldlM (fun m e => DefaultMap.set cmp eq m e.1 e.2) (DefaultMap.constant d) =
      .ok m ↔
    (∀ e ∈ entries, ∃ r, eq e.2 d = .ok r) ∧
      (do DefaultMap.ofEntries eq (← SortedMap.ofList cmp entries) d) = .ok m
  /-- Setting keys one by one ends with the first value for which equality with the default fails. -/
  ends : ∀ before e after cause, entries = before ++ e :: after →
    (∀ f ∈ before, ∃ r, eq f.2 d = .ok r) → eq e.2 d = .error cause →
      entries.foldlM (fun m e => DefaultMap.set cmp eq m e.1 e.2) (DefaultMap.constant d) =
        .error (.raised cause)
  /-- The map that is made at once asks equality only of the values that stay. -/
  asked : ∀ eq' : ν → ν → Except ε Bool,
    (∀ e, Keep.last.Stays (fun e f => tied cmp.less e.1 f.1) entries e → eq' e.2 d = eq e.2 d) →
      (do DefaultMap.ofEntries eq' (← SortedMap.ofList cmp entries) d) =
        (do DefaultMap.ofEntries eq (← SortedMap.ofList cmp entries) d)
  /-- It is made if equality answers for them. -/
  made : (∃ m, (do DefaultMap.ofEntries eq (← SortedMap.ofList cmp entries) d) = .ok m) ↔
    ∀ e, Keep.last.Stays (fun e f => tied cmp.less e.1 f.1) entries e → ∃ r, eq e.2 d = .ok r

theorem builtOneByOne (ordered : cmp.OrderedOn P) (eq : ν → ν → Except ε Bool) {keys : List κ}
    (insideKeys : ∀ k ∈ keys, P k) (inside : ∀ e ∈ entries, P e.1) (d : ν) :
    BuiltOneByOne cmp eq keys entries d where
  set := SortedSet.ofList_eq_foldlM ordered insideKeys
  map := SortedMap.ofList_eq_foldlM ordered inside
  finite := CofiniteSet.ofList_eq_foldlM ordered insideKeys false
  cofinite := CofiniteSet.ofList_eq_foldlM ordered insideKeys true
  defaultMap _ := DefaultMap.foldlM_set_iff ordered inside
  ends := by
    rintro before e after cause rfl answers failed
    exact DefaultMap.foldlM_set_failed ordered (fun f mem => inside f (by simp [mem])) answers failed
  asked _ same := DefaultMap.ofList_congr ordered inside same
  made := DefaultMap.exists_ofList_iff ordered inside

end Maps

end SortedCollections
