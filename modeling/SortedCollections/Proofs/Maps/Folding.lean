import SortedCollections.Proofs.Maps.Merging

/-!
# Folding the values of equal keys

A list of pairs is made a map by folding the values of equal keys, from the first to the last. Sorting
brings the pairs of a key together and keeps them in their order, so it makes no difference whether
the pairs are sorted and each run is folded, or the pairs are taken into a map one by one as they come,
if all values can be folded. If some cannot, the sorted pairs tell which: those of the least such key.
-/
namespace SortedCollections

variable {ε α κ ν : Type}

section Folds

variable (cmp : Comparison ε κ) (f : ν → ν → Except ε ν) (entries : List (κ × ν)) (k : κ)

/-- A key as it stands first among the pairs, and its first value with the later ones folded in. -/
def foldAt : Option (κ × Except ε ν) :=
  match entries.filter fun e => cmp.same k e.1 with
  | [] => none
  | (first, value) :: later => some (first, (later.map Prod.snd).foldlM f value)

/-- The keys of the pairs as they stand first, each with the fold of its values. -/
def folds : Inquiry ε κ ν := fun k answer =>
  ∃ folded, foldAt cmp f entries k = some (k, folded) ∧ some <$> folded = answer

/-- One more pair: its value is folded in behind those of its key. -/
theorem foldAt_append (e : κ × ν) :
    foldAt cmp f (entries ++ [e]) k =
      if cmp.same k e.1 then
        some ((foldAt cmp f entries k).elim (e.1, .ok e.2) fun g => (g.1, do f (← g.2) e.2))
      else
        foldAt cmp f entries k := by
  rw [foldAt, foldAt, List.filter_append, List.filter_singleton]
  cases cmp.same k e.1 with
  | false => simp
  | true =>
    cases entries.filter fun e => cmp.same k e.1 with
    | nil => rfl
    | cons first later =>
      simp only [cond_true, List.cons_append, List.map_append, List.map_cons, List.map_nil,
        List.foldlM_append, List.foldlM_cons, List.foldlM_nil, if_true, Option.elim_some]
      refine congrArg (fun folded => some (first.1, folded)) (bind_congr fun value => ?_)
      exact bind_pure _

end Folds

section Absorbing

variable (cmp : Comparison ε κ) (f : ν → ν → Except ε ν)

/-- Takes a pair into a map. An absent key is added with its value; to the value of a present key the
new value is folded, and the key stays as it is stored. -/
def absorb (e : κ × ν) : List (κ × ν) → Except ε (List (κ × ν))
  | [] => .ok [e]
  | g :: rest => do
    if ← cmp.eq g.1 e.1 then
      return (g.1, ← f g.2 e.2) :: rest
    else
      return g :: (← absorb e rest)

def absorbAll (entries : List (κ × ν)) : Except ε (List (κ × ν)) :=
  entries.foldlM (fun map e => absorb cmp f e map) []

end Absorbing

variable {cmp : Comparison ε κ} {P : κ → Prop} {f : ν → ν → Except ε ν} {entries map : List (κ × ν)}
  {e : κ × ν} {k : κ}

namespace Comparison.OrderedOn

theorem same_self (ordered : cmp.OrderedOn P) (hk : P k) : cmp.same k k = true := by
  rw [ordered.same_eq hk hk, ordered.decides.tied_self hk]

theorem same_comm (ordered : cmp.OrderedOn P) {j : κ} (hj : P j) (hk : P k) :
    cmp.same j k = cmp.same k j := by
  rw [ordered.same_eq hj hk, ordered.same_eq hk hj, tied_comm]

/-- Equal keys are equal to the same keys. -/
theorem same_congr (ordered : cmp.OrderedOn P) {j l : κ} (hj : P j) (hk : P k) (hl : P l)
    (equal : cmp.same j k = true) : cmp.same j l = cmp.same k l := by
  rw [ordered.same_eq hj hk] at equal
  rw [ordered.same_eq hj hl, ordered.same_eq hk hl, ordered.decides.tied_congr hj hk hl equal]

end Comparison.OrderedOn

/-- Equal keys are folded alike. -/
theorem foldAt_congr (ordered : cmp.OrderedOn P) (inside : ∀ e ∈ entries, P e.1) {j : κ} (hj : P j)
    (hk : P k) (equal : cmp.same j k = true) : foldAt cmp f entries j = foldAt cmp f entries k := by
  have alike : (entries.filter fun e => cmp.same j e.1) = entries.filter fun e => cmp.same k e.1 :=
    List.filter_congr fun e mem => ordered.same_congr hj hk (inside e mem) equal
  rw [foldAt, foldAt, alike]

/-- What is folded belongs to a key of the pairs that is equal to the one asked for. -/
theorem mem_of_foldAt {first : κ} {folded : Except ε ν}
    (found : foldAt cmp f entries k = some (first, folded)) :
    ∃ e ∈ entries, e.1 = first ∧ cmp.same k first = true := by
  rw [foldAt] at found
  cases filtered : entries.filter fun e => cmp.same k e.1 with
  | nil =>
    rw [filtered] at found
    cases found
  | cons e later =>
    rw [filtered] at found
    cases found
    have mem : e ∈ entries.filter fun e => cmp.same k e.1 := by
      rw [filtered]
      exact List.mem_cons_self ..
    obtain ⟨mem, equal⟩ := List.mem_filter.mp mem
    exact ⟨e, mem, rfl, equal⟩

/-- Among the folds are those of all keys. -/
theorem folds_of_foldAt (ordered : cmp.OrderedOn P) (inside : ∀ e ∈ entries, P e.1) (hk : P k)
    {first : κ} {folded : Except ε ν} (found : foldAt cmp f entries k = some (first, folded)) :
    folds cmp f entries first (some <$> folded) := by
  obtain ⟨e, mem, rfl, equal⟩ := mem_of_foldAt found
  exact ⟨folded, by rw [← foldAt_congr ordered inside hk (inside e mem) equal, found], rfl⟩

def entryAt (cmp : Comparison ε κ) (map : List (κ × ν)) (k : κ) : Option (κ × ν) :=
  map.find? fun g => cmp.same k g.1

/-- A map with one entry for each key of the pairs: the key as it stands first, with the fold of its
values. -/
structure Collects (cmp : Comparison ε κ) (P : κ → Prop) (f : ν → ν → Except ε ν)
    (entries map : List (κ × ν)) : Prop where
  inside : ∀ g ∈ map, P g.1
  apart : map.Pairwise fun g h => cmp.same g.1 h.1 = false
  folded : ∀ k, P k → (entryAt cmp map k).map (fun g => (g.1, .ok g.2)) = foldAt cmp f entries k

/-- A key has no entry where all keys are apart from an equal one. -/
theorem entryAt_eq_none (ordered : cmp.OrderedOn P) (inside : ∀ g ∈ map, P g.1) (he : P e.1) (hk : P k)
    (equal : cmp.same k e.1 = true) (apart : ∀ g ∈ map, cmp.same g.1 e.1 = false) :
    entryAt cmp map k = none := by
  refine List.find?_eq_none.mpr fun g mem => ?_
  have hg := inside g mem
  rw [ordered.same_congr hk he hg equal, ordered.same_comm he hg, apart g mem]
  exact Bool.false_ne_true

/-- An entry behind others with keys apart from it is the one of the keys equal to it, and makes no
difference to other keys. -/
theorem entryAt_behind (ordered : cmp.OrderedOn P) {front back : List (κ × ν)} {g : κ × ν}
    (inside : ∀ h ∈ front, P h.1) (hg : P g.1) (he : P e.1) (hk : P k)
    (apart : ∀ h ∈ front, cmp.same h.1 e.1 = false) (equal : cmp.same g.1 e.1 = true) :
    entryAt cmp (front ++ g :: back) k =
      if cmp.same k e.1 then some g else entryAt cmp (front ++ back) k := by
  have here : cmp.same k g.1 = cmp.same k e.1 := by
    rw [ordered.same_comm hk hg, ordered.same_congr hg he hk equal, ordered.same_comm he hk]
  rw [entryAt, entryAt, List.find?_append, List.find?_append, List.find?_cons, here]
  cases same : cmp.same k e.1 with
  | false => rfl
  | true =>
    have none : entryAt cmp front k = none := entryAt_eq_none ordered inside he hk same apart
    rw [entryAt] at none
    rw [none]
    rfl

/-- An entry is that of the keys equal to its own. -/
theorem entryAt_of_mem (ordered : cmp.OrderedOn P) (inside : ∀ g ∈ map, P g.1)
    (apart : map.Pairwise fun g h => cmp.same g.1 h.1 = false) {g : κ × ν} (mem : g ∈ map) (hk : P k)
    (equal : cmp.same k g.1 = true) : entryAt cmp map k = some g := by
  obtain ⟨front, back, rfl⟩ := List.append_of_mem mem
  have others := (List.pairwise_append.mp apart).2.2
  have hg := inside g mem
  rw [entryAt_behind ordered (fun h memH => inside h (List.mem_append_left _ memH)) hg hg hk
    (fun h memH => others h memH g (List.mem_cons_self ..)) (ordered.same_self hg), equal]
  rfl

/-- Two maps with these entries differ only in the order of the entries. -/
theorem Collects.perm (ordered : cmp.OrderedOn P) {map' : List (κ × ν)}
    (collects : Collects cmp P f entries map) (collects' : Collects cmp P f entries map') :
    map.Perm map' := by
  have distinct {map : List (κ × ν)} (collects : Collects cmp P f entries map) : map.Nodup := by
    refine collects.apart.imp_of_mem ?_
    rintro g h mem _ apart rfl
    rw [ordered.same_self (collects.inside g mem)] at apart
    cases apart
  have sub {map map' : List (κ × ν)} (collects : Collects cmp P f entries map)
      (collects' : Collects cmp P f entries map') {g : κ × ν} (mem : g ∈ map) : g ∈ map' := by
    have folded := collects'.folded g.1 (collects.inside g mem)
    have hg := collects.inside g mem
    rw [← collects.folded g.1 hg, entryAt_of_mem ordered collects.inside collects.apart mem hg
      (ordered.same_self hg)] at folded
    obtain ⟨h, found, same⟩ := Option.map_eq_some_iff.mp folded
    have whole : h = g :=
      Prod.ext (Prod.mk.inj same).1 (Except.ok.inj (Prod.mk.inj same).2)
    exact whole ▸ List.mem_of_find?_eq_some found
  exact (List.perm_ext_iff_of_nodup (distinct collects) (distinct collects')).mpr fun g =>
    ⟨sub collects collects', sub collects' collects⟩

/-- All folds of a map that holds them are answered. -/
theorem Collects.succeeds (inside : ∀ e ∈ entries, P e.1)
    (collects : Collects cmp P f entries map) : (folds cmp f entries).Succeeds := by
  rintro k answer ⟨folded, found, rfl⟩
  obtain ⟨e, mem, rfl, equal⟩ := mem_of_foldAt found
  rw [← collects.folded e.1 (inside e mem)] at found
  obtain ⟨g, _, same⟩ := Option.map_eq_some_iff.mp found
  rw [← (Prod.mk.inj same).2]
  exact ⟨_, rfl⟩

/-- A pair is taken in at the end, or at the first entry whose key is equal. -/
theorem absorb_eq (ordered : cmp.OrderedOn P) (inside : ∀ g ∈ map, P g.1) (he : P e.1) :
    ((∀ g ∈ map, cmp.same g.1 e.1 = false) ∧ absorb cmp f e map = .ok (map ++ [e])) ∨
    ∃ front g back, map = front ++ g :: back ∧ (∀ h ∈ front, cmp.same h.1 e.1 = false) ∧
      cmp.same g.1 e.1 = true ∧
      absorb cmp f e map = do return front ++ (g.1, ← f g.2 e.2) :: back := by
  induction map with
  | nil => exact .inl ⟨by simp, rfl⟩
  | cons g rest ih =>
    obtain ⟨hg, insideRest⟩ := List.forall_mem_cons.mp inside
    rw [absorb, ordered.eq_eq hg he]
    cases equal : cmp.same g.1 e.1 with
    | true => exact .inr ⟨[], g, rest, rfl, by simp, equal, rfl⟩
    | false =>
      rcases ih insideRest with ⟨apart, absorbed⟩ | ⟨front, h, back, rfl, apart, same, absorbed⟩
      · refine .inl ⟨List.forall_mem_cons.mpr ⟨equal, apart⟩, ?_⟩
        show (do return g :: (← absorb cmp f e rest)) = _
        rw [absorbed]
        rfl
      · refine .inr ⟨g :: front, h, back, rfl, List.forall_mem_cons.mpr ⟨equal, apart⟩, same, ?_⟩
        show (do return g :: (← absorb cmp f e (front ++ h :: back))) = _
        rw [absorbed]
        cases f h.2 e.2 <;> rfl

/-- A pair with a new key is added. -/
theorem Collects.add (ordered : cmp.OrderedOn P) (he : P e.1) (collects : Collects cmp P f entries map)
    (apart : ∀ g ∈ map, cmp.same g.1 e.1 = false) :
    Collects cmp P f (entries ++ [e]) (map ++ [e]) where
  inside := List.forall_mem_append.mpr ⟨collects.inside, by simpa using he⟩
  apart := List.pairwise_append.mpr
    ⟨collects.apart, List.pairwise_singleton _ _, by simpa using apart⟩
  folded k hk := by
    rw [foldAt_append, ← collects.folded k hk,
      entryAt_behind ordered collects.inside he he hk apart (ordered.same_self he), List.append_nil]
    cases same : cmp.same k e.1 with
    | false => rfl
    | true =>
      rw [entryAt_eq_none ordered collects.inside he hk same apart]
      rfl

section Present

variable {front back : List (κ × ν)} {g : κ × ν}

theorem Collects.entryAt_eq (ordered : cmp.OrderedOn P) (he : P e.1)
    (collects : Collects cmp P f entries (front ++ g :: back))
    (apart : ∀ h ∈ front, cmp.same h.1 e.1 = false) (equal : cmp.same g.1 e.1 = true) (hk : P k)
    (v : ν) :
    entryAt cmp (front ++ (g.1, v) :: back) k =
      if cmp.same k e.1 then some (g.1, v) else entryAt cmp (front ++ back) k := by
  obtain ⟨insideFront, insideBehind⟩ := List.forall_mem_append.mp collects.inside
  exact entryAt_behind ordered insideFront (insideBehind g (List.mem_cons_self ..)) he hk apart equal

/-- The fold of a present key with one more value. -/
theorem Collects.foldAt_present (ordered : cmp.OrderedOn P) (he : P e.1)
    (collects : Collects cmp P f entries (front ++ g :: back))
    (apart : ∀ h ∈ front, cmp.same h.1 e.1 = false) (equal : cmp.same g.1 e.1 = true) (hk : P k) :
    foldAt cmp f (entries ++ [e]) k =
      if cmp.same k e.1 then some (g.1, f g.2 e.2)
      else (entryAt cmp (front ++ back) k).map fun g => (g.1, .ok g.2) := by
  rw [foldAt_append, ← collects.folded k hk, collects.entryAt_eq ordered he apart equal hk g.2]
  cases cmp.same k e.1 <;> rfl

/-- A value is folded into the entry of its key. -/
theorem Collects.replace (ordered : cmp.OrderedOn P) (he : P e.1)
    (collects : Collects cmp P f entries (front ++ g :: back))
    (apart : ∀ h ∈ front, cmp.same h.1 e.1 = false) (equal : cmp.same g.1 e.1 = true) {w : ν}
    (made : f g.2 e.2 = .ok w) :
    Collects cmp P f (entries ++ [e]) (front ++ (g.1, w) :: back) where
  inside := by
    obtain ⟨insideFront, insideBehind⟩ := List.forall_mem_append.mp collects.inside
    exact List.forall_mem_append.mpr ⟨insideFront, List.forall_mem_cons.mpr
      (List.forall_mem_cons.mp insideBehind)⟩
  apart := by
    have keys : (front ++ (g.1, w) :: back).map Prod.fst = (front ++ g :: back).map Prod.fst := by
      rw [List.map_append, List.map_append, List.map_cons, List.map_cons]
    have apart : ((front ++ (g.1, w) :: back).map Prod.fst).Pairwise fun j l => cmp.same j l = false := by
      rw [keys]
      exact List.pairwise_map.mpr collects.apart
    exact List.pairwise_map.mp apart
  folded k hk := by
    rw [collects.foldAt_present ordered he apart equal hk, made,
      collects.entryAt_eq ordered he apart equal hk w]
    cases cmp.same k e.1 <;> rfl

end Present

/-- What one pair does to a map that holds the folds: it holds the folds with this pair, unless the value
cannot be folded in; then the fold of the key fails for the same cause. -/
theorem absorb_collects (ordered : cmp.OrderedOn P) (he : P e.1)
    (collects : Collects cmp P f entries map) :
    (∃ map', absorb cmp f e map = .ok map' ∧ Collects cmp P f (entries ++ [e]) map') ∨
    ∃ k cause, P k ∧ absorb cmp f e map = .error cause ∧
      foldAt cmp f (entries ++ [e]) k = some (k, .error cause) := by
  rcases absorb_eq (f := f) ordered collects.inside he with
    ⟨apart, absorbed⟩ | ⟨front, g, back, rfl, apart, equal, absorbed⟩
  · exact .inl ⟨_, absorbed, collects.add ordered he apart⟩
  · cases made : f g.2 e.2 with
    | ok w =>
      rw [made] at absorbed
      exact .inl ⟨_, absorbed, collects.replace ordered he apart equal made⟩
    | error cause =>
      rw [made] at absorbed
      have hg := collects.inside g (by simp)
      refine .inr ⟨g.1, cause, hg, absorbed, ?_⟩
      rw [collects.foldAt_present ordered he apart equal hg, equal, made]
      rfl

/-- A fold that has failed stays so. -/
theorem foldAt_failed {cause : ε} {first : κ} (failed : foldAt cmp f entries k = some (first, .error cause)) :
    foldAt cmp f (entries ++ [e]) k = some (first, .error cause) := by
  rw [foldAt_append, failed]
  cases cmp.same k e.1 <;> rfl

/-- Pairs that are taken in one by one are folded key by key. If the fold of some key fails, they cannot
all be taken in. -/
theorem absorbAll_collects (ordered : cmp.OrderedOn P) (inside : ∀ e ∈ entries, P e.1) :
    (∃ map, absorbAll cmp f entries = .ok map ∧ Collects cmp P f entries map) ∨
    ∃ k cause other, P k ∧ absorbAll cmp f entries = .error other ∧
      foldAt cmp f entries k = some (k, .error cause) := by
  induction entries using List.reverseRecOn with
  | nil => exact .inl ⟨[], rfl, by simp, List.Pairwise.nil, fun _ _ => rfl⟩
  | append_singleton entries e ih =>
    obtain ⟨insideFront, he⟩ := List.forall_mem_append.mp inside
    have whole : absorbAll cmp f (entries ++ [e]) =
        (do absorb cmp f e (← absorbAll cmp f entries)) := by
      rw [absorbAll, List.foldlM_append, absorbAll]
      refine bind_congr fun map => ?_
      rw [List.foldlM_cons]
      exact bind_pure _
    rw [whole]
    rcases ih insideFront with ⟨map, absorbed, collects⟩ | ⟨k, cause, other, hk, absorbed, failed⟩
    · rw [absorbed]
      rcases absorb_collects ordered (he e (by simp)) collects with
        ⟨map', done, collects'⟩ | ⟨k, cause, hk, done, failed⟩
      · exact .inl ⟨map', done, collects'⟩
      · exact .inr ⟨k, cause, cause, hk, done, failed⟩
    · rw [absorbed]
      exact .inr ⟨k, cause, other, hk, rfl, foldAt_failed failed⟩

section Runs

variable {view : PairView ε α κ ν} {key : α → Except ε κ} {pairOf : α → κ × ν} {items : List α}
  {pairs : List (κ × α)} {runs : List (Run (κ × α))}

/-- Reads an item and folds its value in. -/
def Run.foldIn (view : PairView ε α κ ν) (f : ν → ν → Except ε ν) (value : ν) (pair : κ × α) :
    Except ε ν := do
  f value (← view.read pair.2).2

/-- The values of a run, read and folded from left to right. -/
def Run.fold (view : PairView ε α κ ν) (f : ν → ν → Except ε ν) (run : Run (κ × α)) : Except ε ν := do
  run.tail.foldlM (foldIn view f) (← view.read run.head.2).2

/-- The entry of a run: the key of its head with the folded value. -/
def Run.entry (view : PairView ε α κ ν) (f : ν → ν → Except ε ν) :
    Run (κ × α) → Except ε (Option (κ × ν)) :=
  entryOf (fun run => run.head.1) fun run => some <$> run.fold view f

/-- The entries of a run and of those behind it. -/
theorem Run.entries_cons (run : Run (κ × α)) :
    (run :: runs).filterMapM (entry view f) = (do
      let folded ← run.fold view f
      return (run.head.1, folded) :: (← runs.filterMapM (entry view f))) := by
  rw [List.filterMapM_cons, entry, entryOf]
  cases run.fold view f <;> rfl

/-- The values behind the head of a run are folded before the next run is read. -/
theorem foldRuns_eq {head : κ × α} {rest tail : List (κ × α)} (value : ν)
    (split : Run.split (fun a b => cmp.eq a.1 b.1) head rest = .ok (tail, runs)) :
    foldRuns cmp view f head.1 value rest = (do
      let folded ← tail.foldlM (Run.foldIn view f) value
      return (head.1, folded) :: (← runs.filterMapM (Run.entry view f))) := by
  induction rest generalizing head tail runs value with
  | nil =>
    cases split
    rfl
  | cons pair rest ih =>
    obtain ⟨equal, asked, split⟩ := bind_eq_ok.mp split
    have asked : cmp.eq head.1 pair.1 = .ok equal := asked
    rw [foldRuns, asked]
    cases equal with
    | true =>
      obtain ⟨⟨tail', runs'⟩, inner, made⟩ := bind_eq_ok.mp split
      cases made
      show (do foldRuns cmp view f head.1 (← f value (← view.read pair.2).2) rest) = _
      simp only [List.foldlM_cons, Run.foldIn, bind_assoc, ih _ inner]
    | false =>
      obtain ⟨⟨tail', runs'⟩, inner, made⟩ := bind_eq_ok.mp split
      cases made
      show (do return (head.1, value) :: (← foldRuns cmp view f pair.1 (← view.read pair.2).2 rest)) = _
      simp only [ih _ inner, Run.entries_cons, Run.fold, List.foldlM_nil, pure_bind, bind_assoc]

/-- Sorting pairs by key and folding the values of equal keys is folding run by run. -/
theorem foldValues_eq {sorted : List (κ × α)}
    (split : Run.all (fun a b => cmp.eq a.1 b.1) sorted = .ok runs) :
    foldValues cmp view f sorted = runs.filterMapM (Run.entry view f) := by
  cases sorted with
  | nil =>
    cases split
    rfl
  | cons pair rest =>
    obtain ⟨⟨tail, runs'⟩, inner, made⟩ := bind_eq_ok.mp split
    cases made
    rw [foldValues, Run.entries_cons, Run.fold, bind_assoc]
    exact bind_congr fun read => foldRuns_eq read.2 inner

/-- Folding items in that are read as pairs is folding the values of the pairs. -/
theorem foldlM_foldIn {tail : List (κ × α)}
    (read : ∀ pair ∈ tail, view.read pair.2 = .ok (pairOf pair.2)) (value : ν) :
    tail.foldlM (Run.foldIn view f) value =
      ((tail.map fun pair => pairOf pair.2).map Prod.snd).foldlM f value := by
  induction tail generalizing value with
  | nil => rfl
  | cons pair tail ih =>
    obtain ⟨first, rest⟩ := List.forall_mem_cons.mp read
    rw [List.map_cons, List.map_cons, List.foldlM_cons, List.foldlM_cons, Run.foldIn, first]
    exact bind_congr fun value => ih rest value

/-- The items are pairs: each has a key that lies in the domain, and is read as this key with a value. -/
def PairView.Reads (view : PairView ε α κ ν) (key : α → Except ε κ) (P : κ → Prop) (pairOf : α → κ × ν)
    (items : List α) : Prop :=
  ∀ x ∈ items, key x = .ok (pairOf x).1 ∧ view.read x = .ok (pairOf x) ∧ P (pairOf x).1

/-- The items with their keys, as they are sorted, and the runs that they fall into. -/
structure InRuns (cmp : Comparison ε κ) (view : PairView ε α κ ν) (P : κ → Prop) (pairOf : α → κ × ν)
    (pairs : List (κ × α)) (runs : List (Run (κ × α))) : Prop where
  read : ∀ pair ∈ pairs, view.read pair.2 = .ok (pairOf pair.2)
  key : ∀ pair ∈ pairs, (pairOf pair.2).1 = pair.1
  inside : ∀ pair ∈ pairs, P pair.1
  grouped : Grouped (fun a b : κ × α => cmp.less a.1 b.1) pairs runs

theorem exists_inRuns (ordered : cmp.OrderedOn P) (reads : view.Reads key P pairOf items) :
    ∃ pairs sorted runs, sortByKey cmp key items = .ok sorted ∧
      Run.all (fun a b => cmp.eq a.1 b.1) sorted = .ok runs ∧ pairs.map Prod.snd = items ∧
      InRuns cmp view P pairOf pairs runs := by
  obtain ⟨pairs, sorted, runs, done, split, rfl, keyed, grouped⟩ :=
    sortByKey_runs ordered fun x mem => ⟨_, (reads x mem).1, (reads x mem).2.2⟩
  have read := fun (pair : κ × α) mem => reads pair.2 (List.mem_map_of_mem mem)
  refine ⟨pairs, sorted, runs, done, split, rfl, fun pair mem => (read pair mem).2.1, fun pair mem => ?_,
    fun pair mem => (keyed pair mem).2, grouped⟩
  have same := (keyed pair mem).1
  rw [(read pair mem).1] at same
  exact Except.ok.inj same

namespace InRuns

variable {run : Run (κ × α)}

theorem readRun (inRuns : InRuns cmp view P pairOf pairs runs) (mem : run ∈ runs) :
    ∀ pair ∈ run.head :: run.tail, view.read pair.2 = .ok (pairOf pair.2) := by
  intro pair memPair
  rw [inRuns.grouped.whole run mem] at memPair
  exact inRuns.read pair (List.mem_of_mem_filter memPair)

theorem insidePairs (inRuns : InRuns cmp view P pairOf pairs runs) :
    ∀ e ∈ pairs.map fun pair => pairOf pair.2, P e.1 := by
  rw [List.forall_mem_map]
  intro pair mem
  rw [inRuns.key pair mem]
  exact inRuns.inside pair mem

/-- The pairs of a key that is equal to the head of a run are those of the run. -/
theorem filter_eq (inRuns : InRuns cmp view P pairOf pairs runs) (ordered : cmp.OrderedOn P)
    (mem : run ∈ runs) :
    ((pairs.map fun pair => pairOf pair.2).filter fun e => cmp.same run.head.1 e.1) =
      (run.head :: run.tail).map fun pair => pairOf pair.2 := by
  have hr := inRuns.inside _ (inRuns.grouped.head_mem mem)
  rw [inRuns.grouped.whole run mem, List.filter_map]
  refine congrArg _ (List.filter_congr fun pair memPair => ?_)
  show cmp.same run.head.1 (pairOf pair.2).1 = _
  rw [inRuns.key pair memPair, ordered.same_eq hr (inRuns.inside pair memPair)]
  rfl

/-- Folding a run is folding the values of the key of its head. -/
theorem foldAt_head (inRuns : InRuns cmp view P pairOf pairs runs) (ordered : cmp.OrderedOn P)
    (mem : run ∈ runs) :
    foldAt cmp f (pairs.map fun pair => pairOf pair.2) run.head.1 =
      some (run.head.1, run.fold view f) := by
  obtain ⟨readHead, readTail⟩ := List.forall_mem_cons.mp (inRuns.readRun mem)
  rw [foldAt, inRuns.filter_eq ordered mem, List.map_cons, Run.fold, readHead]
  exact congrArg some
    (Prod.ext (inRuns.key _ (inRuns.grouped.head_mem mem)) (foldlM_foldIn readTail _).symm)

/-- Every key that the pairs have is the key of a run. -/
theorem folds_iff (inRuns : InRuns cmp view P pairOf pairs runs) (ordered : cmp.OrderedOn P)
    {answer : Except ε (Option ν)} :
    folds cmp f (pairs.map fun pair => pairOf pair.2) k answer ↔
      ∃ run ∈ runs, run.head.1 = k ∧ some <$> run.fold view f = answer := by
  constructor
  · rintro ⟨folded, found, rfl⟩
    obtain ⟨e, mem, rfl, _⟩ := mem_of_foldAt found
    obtain ⟨pair, memPair, rfl⟩ := List.mem_map.mp mem
    rw [inRuns.key pair memPair] at found ⊢
    obtain ⟨run, memRun, twins⟩ := inRuns.grouped.covered pair memPair
    have hr := inRuns.inside _ (inRuns.grouped.head_mem memRun)
    have hp := inRuns.inside pair memPair
    have equal : cmp.same run.head.1 pair.1 = true := (ordered.same_eq hr hp).trans twins
    rw [← foldAt_congr ordered inRuns.insidePairs hr hp equal, inRuns.foldAt_head ordered memRun] at found
    obtain ⟨first, value⟩ := Prod.mk.inj (Option.some.inj found)
    exact ⟨run, memRun, first, by rw [value]⟩
  · rintro ⟨run, mem, rfl, rfl⟩
    exact ⟨_, inRuns.foldAt_head ordered mem, rfl⟩

theorem heads_increasing (inRuns : InRuns cmp view P pairOf pairs runs) :
    IncreasingOn (fun r s : Run (κ × α) => cmp.less r.head.1 s.head.1) (fun r => P r.head.1) runs :=
  ⟨List.pairwise_map.mp inRuns.grouped.heads,
    fun _ mem => inRuns.inside _ (inRuns.grouped.head_mem mem)⟩

end InRuns

theorem sortCombine_eq {sorted : List (κ × α)} (done : sortByKey cmp key items = .ok sorted)
    (split : Run.all (fun a b => cmp.eq a.1 b.1) sorted = .ok runs) :
    sortCombine cmp key view f items = Fault.lift (runs.filterMapM (Run.entry view f)) := by
  rw [sortCombine, done, ← foldValues_eq split]
  rfl

/-- Sorting pairs and folding each run makes the map of the folds of all keys, or fails as the fold of the
least key that cannot be folded. -/
theorem sortCombine_makes (ordered : cmp.OrderedOn P) (reads : view.Reads key P pairOf items) :
    (folds cmp f (items.map pairOf)).Makes cmp P
      (do return ⟨← sortCombine cmp key view f items⟩) := by
  obtain ⟨pairs, sorted, runs, done, split, rfl, inRuns⟩ := exists_inRuns ordered reads
  rw [sortCombine_eq done split, List.map_map]
  exact entriesOf_makes ordered inRuns.heads_increasing fun k answer => inRuns.folds_iff ordered

theorem entries_of_folds {value : Run (κ × α) → ν}
    (answers : ∀ run ∈ runs, run.fold view f = .ok (value run)) :
    runs.filterMapM (Run.entry view f) = .ok (runs.map fun run => (run.head.1, value run)) := by
  induction runs with
  | nil => rfl
  | cons run runs ih =>
    obtain ⟨first, rest⟩ := List.forall_mem_cons.mp answers
    rw [Run.entries_cons, first, ih rest]
    rfl

/-- If the right value wins, the last value is left. -/
theorem foldlM_preferRight {tail : List (κ × α)}
    (read : ∀ pair ∈ tail, view.read pair.2 = .ok (pairOf pair.2)) (head : κ × α) :
    tail.foldlM (Run.foldIn view MapRule.preferRight) (pairOf head.2).2 =
      .ok (pairOf (tail.getLastD head).2).2 := by
  induction tail generalizing head with
  | nil => rfl
  | cons pair tail ih =>
    obtain ⟨first, rest⟩ := List.forall_mem_cons.mp read
    rw [List.foldlM_cons, Run.foldIn, first, List.getLastD_cons]
    exact ih rest pair

/-- Where the right value wins, a run is folded to the value of the item that stays if the last one does. -/
theorem InRuns.fold_preferRight {run : Run (κ × α)} (inRuns : InRuns cmp view P pairOf pairs runs)
    (mem : run ∈ runs) :
    run.fold view MapRule.preferRight = .ok (pairOf (run.pick .last).2).2 := by
  obtain ⟨readHead, readTail⟩ := List.forall_mem_cons.mp (inRuns.readRun mem)
  rw [Run.fold, readHead]
  exact foldlM_preferRight readTail run.head

/-- Where the right value wins, folding the values of equal keys and keeping the last pair of each key
give the same values to equal keys. -/
theorem sortCombine_preferRight (ordered : cmp.OrderedOn P) (reads : view.Reads key P pairOf items) :
    ∃ ys xs, sortCombine cmp key view MapRule.preferRight items = .ok ys ∧
      sortDedup cmp key .last items = .ok xs ∧
      List.Forall₂ (fun e x => cmp.eq e.1 (pairOf x).1 = .ok true ∧ e.2 = (pairOf x).2) ys xs := by
  obtain ⟨pairs, sorted, runs, done, split, rfl, inRuns⟩ := exists_inRuns ordered reads
  refine ⟨runs.map fun run => (run.head.1, (pairOf (run.pick .last).2).2),
    runs.map fun run => (run.pick .last).2, ?_, ?_, ?_⟩
  · rw [sortCombine_eq done split, entries_of_folds fun run mem => inRuns.fold_preferRight mem]
    rfl
  · rw [sortDedup, done]
    show ((Fault.lift (Run.all _ sorted) >>= _) : Except (Fault ε) (List α)) = _
    rw [split]
    rfl
  · rw [List.forall₂_map_left_iff, List.forall₂_map_right_iff, List.forall₂_same]
    intro run mem
    obtain ⟨memPick, twins⟩ := inRuns.grouped.pick_tied .last mem
    have hr := inRuns.inside _ (inRuns.grouped.head_mem mem)
    rw [inRuns.key _ memPick, ordered.eq_eq hr (inRuns.inside _ memPick),
      ordered.same_eq hr (inRuns.inside _ memPick)]
    exact ⟨congrArg Except.ok twins, rfl⟩

end Runs

theorem Collects.of_tabulates (ordered : cmp.OrderedOn P) (inside : ∀ e ∈ entries, P e.1)
    (succeeds : (folds cmp f entries).Succeeds)
    (table : Tabulates cmp P map (folds cmp f entries).result) : Collects cmp P f entries map := by
  have kept := table.entriesOn
  have apart : map.Pairwise fun g h => cmp.same g.1 h.1 = false := by
    refine kept.increasing.imp_of_mem fun memG memH below => ?_
    rw [ordered.same_eq (kept.inside _ memG) (kept.inside _ memH)]
    exact (tied_of_less below).1
  refine ⟨kept.inside, apart, fun k hk => ?_⟩
  cases found : foldAt cmp f entries k with
  | none =>
    have missing : entryAt cmp map k = none := by
      refine List.find?_eq_none.mpr fun g mem equal => ?_
      obtain ⟨folded, there, _⟩ := (table.mem g).mp mem
      rw [← foldAt_congr ordered inside hk (kept.inside g mem) equal, found] at there
      cases there
    rw [missing]
    rfl
  | some fold =>
    obtain ⟨first, folded⟩ := fold
    obtain ⟨_, _, _, equal⟩ := mem_of_foldAt found
    have asked := folds_of_foldAt ordered inside hk found
    obtain ⟨made, answer⟩ := succeeds _ _ asked
    cases folded with
    | error cause => cases answer
    | ok w =>
      have mem : (first, w) ∈ map := (table.mem _).mpr asked
      rw [entryAt_of_mem ordered kept.inside apart mem hk equal]
      rfl

section Spec

variable {view : PairView ε α κ ν} {key : α → Except ε κ} {pairOf : α → κ × ν} {items : List α}
  {ys : List (κ × ν)}

theorem PairView.Reads.inside (reads : view.Reads key P pairOf items) :
    ∀ e ∈ items.map pairOf, P e.1 := by
  rw [List.forall_mem_map]
  exact fun x mem => (reads x mem).2.2

theorem sortCombine_collects (ordered : cmp.OrderedOn P) (reads : view.Reads key P pairOf items)
    (made : sortCombine cmp key view f items = .ok ys) :
    EntriesOn cmp.less P ys ∧ Collects cmp P f (items.map pairOf) ys := by
  rcases sortCombine_makes (f := f) ordered reads with ⟨succeeds, m, done, table⟩ | ⟨cause, _, failed⟩
  · rw [made] at done
    cases done
    exact ⟨table.entriesOn, .of_tabulates ordered reads.inside succeeds table⟩
  · rw [made] at failed
    cases failed

/-- Sorted pairs that are folded run by run are those that are taken in one by one, in the order of their
keys. -/
theorem sortCombine_eq_ok (ordered : cmp.OrderedOn P) (reads : view.Reads key P pairOf items) :
    sortCombine cmp key view f items = .ok ys ↔
      EntriesOn cmp.less P ys ∧ ∃ map, absorbAll cmp f (items.map pairOf) = .ok map ∧ ys.Perm map := by
  constructor
  · intro made
    obtain ⟨kept, collects⟩ := sortCombine_collects ordered reads made
    rcases absorbAll_collects (f := f) ordered reads.inside with
      ⟨map, absorbed, collects'⟩ | ⟨k, cause, _, _, _, failed⟩
    · exact ⟨kept, map, absorbed, collects.perm ordered collects'⟩
    · obtain ⟨_, answer⟩ := collects.succeeds reads.inside k _ ⟨_, failed, rfl⟩
      cases answer
  · rintro ⟨kept, map, absorbed, perm⟩
    rcases absorbAll_collects (f := f) ordered reads.inside with
      ⟨map', absorbed', collects⟩ | ⟨_, _, _, _, failed, _⟩
    · cases absorbed.symm.trans absorbed'
      rcases sortCombine_makes (f := f) ordered reads with ⟨_, m, done, _⟩ | ⟨_, fails, _⟩
      · obtain ⟨zs, made, same⟩ := bind_eq_ok.mp done
        obtain ⟨kept', collects'⟩ := sortCombine_collects ordered reads made
        have order := ordered.decides.comap (Prod.fst : κ × ν → κ)
        have members := perm.trans (collects.perm ordered collects')
        rw [made, kept.ext order kept' fun e => members.mem_iff]
      · exact absurd (collects.succeeds reads.inside) fails.not_succeeds
    · cases failed.symm.trans absorbed

/-- Pairs with keys under an order are made a map by sorting them and folding the values of equal keys.
The map has the keys in increasing order, each as it stands first among the pairs, with the left fold of
its values; that is the map of the pairs taken in one by one. It is not made if a fold fails, and then the
failure is that of the least key whose fold fails. Where the right value wins, this is the list of the last
pairs, up to equal keys. -/
theorem pairs_folded_by_key (ordered : cmp.OrderedOn P) (reads : view.Reads key P pairOf items)
    (f : ν → ν → Except ε ν) :
    (folds cmp f (items.map pairOf)).Makes cmp P
        (do return ⟨← sortCombine cmp key view f items⟩) ∧
      (∀ ys, sortCombine cmp key view f items = .ok ys → ∀ k, P k →
        (entryAt cmp ys k).map (fun g => (g.1, .ok g.2)) = foldAt cmp f (items.map pairOf) k) ∧
      (∀ ys, sortCombine cmp key view f items = .ok ys ↔
        EntriesOn cmp.less P ys ∧
          ∃ map, absorbAll cmp f (items.map pairOf) = .ok map ∧ ys.Perm map) ∧
      ∃ ys xs, sortCombine cmp key view MapRule.preferRight items = .ok ys ∧
        sortDedup cmp key .last items = .ok xs ∧
        List.Forall₂ (fun e x => cmp.eq e.1 (pairOf x).1 = .ok true ∧ e.2 = (pairOf x).2) ys xs := by
  refine ⟨sortCombine_makes ordered reads, fun ys made => ?_, fun ys => sortCombine_eq_ok ordered reads,
    sortCombine_preferRight ordered reads⟩
  exact (sortCombine_collects ordered reads made).2.folded

/-- Three keys of which two end in the same digit: the first of these stays, with both values. -/
theorem values_added_by_digit :
    let byDigit : Comparison Unit Nat :=
      .ofDecision (fun a b => decide (a % 10 < b % 10)) fun a b => decide (a % 10 = b % 10)
    let add (a b : Nat) : Except Unit Nat := .ok (a + b)
    sortCombine byDigit SortedMap.key .plain add [(2, 1), (11, 5), (12, 3)] = .ok [(11, 5), (2, 4)] ∧
      ∃ map, absorbAll byDigit add [(2, 1), (11, 5), (12, 3)] = .ok map ∧
        [(11, 5), (2, 4)].Perm map := by
  intro byDigit add
  have ordered : byDigit.OrderedOn fun _ => True :=
    Comparison.orderedOn_of_rank (· % 10) (fun _ _ _ _ => rfl) fun _ _ _ _ => rfl
  have reads : (PairView.plain : PairView Unit (Nat × Nat) Nat Nat).Reads SortedMap.key (fun _ => True) id
      [(2, 1), (11, 5), (12, 3)] := fun _ _ => ⟨rfl, rfl, trivial⟩
  have made : sortCombine byDigit SortedMap.key .plain add [(2, 1), (11, 5), (12, 3)] =
      .ok [(11, 5), (2, 4)] := by
    with_unfolding_all rfl
  exact ⟨made, (((pairs_folded_by_key ordered reads add).2.2.1 _).mp made).2⟩

end Spec

/-- The map of a list's pairs has increasing keys, also if the values of equal keys are folded. -/
theorem SortedMap.ofListCombining_entries (ordered : cmp.OrderedOn P) {entries : List (κ × ν)}
    (inside : ∀ e ∈ entries, P e.1) {m : SortedMap κ ν}
    (made : ofListCombining cmp f entries = .ok m) : EntriesOn cmp.less P m.entries := by
  have reads : (PairView.plain : PairView ε (κ × ν) κ ν).Reads SortedMap.key P id entries :=
    fun e mem => ⟨rfl, rfl, inside e mem⟩
  obtain ⟨ys, combined, same⟩ := bind_eq_ok.mp made
  cases same
  exact (sortCombine_collects ordered reads combined).1

end SortedCollections
