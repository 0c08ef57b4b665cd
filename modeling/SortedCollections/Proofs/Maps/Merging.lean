import SortedCollections.Proofs.Maps.Entries
import SortedCollections.Proofs.Merge.Joins
import SortedCollections.Proofs.Sets.Elements

/-!
# The entries that a map stores

A list of entries with strictly increasing keys is determined by which entries it holds, so a map, as
the set of its entries, has one such list if it has any. Each operation on sorted maps makes the list of
a map that can be said entry by entry. A merge asks its rule for every key of either side, in increasing
order, what the values on both sides become; the first failure is the failure of the merge.
-/
namespace SortedCollections

variable {ε β κ ν : Type}

/-- Does a join cover a key, by whether it is on the left and on the right? -/
def Join.covers : Join → Bool → Bool → Bool
  | .outer, onLeft, onRight => onLeft || onRight
  | .left, onLeft, _ => onLeft
  | .right, _, onRight => onRight
  | .inner, onLeft, onRight => onLeft && onRight

namespace MapRule

/-- What a rule gives a key with these values on the left and on the right, if anything. -/
def made : MapRule ε κ ν → κ → Option ν → Option ν → Except ε (Option ν)
  | .union f, _, some v, some w => some <$> f v w
  | .union _, _, left, right => .ok (left.or right)
  | .intersection f, _, some v, some w => some <$> f v w
  | .intersection _, _, _, _ => .ok none
  | .difference, _, left, right => .ok (if right.isSome then none else left)
  | .symmetricDifference, _, left, right =>
    .ok (if left.isSome && right.isSome then none else left.or right)
  | .join kind f, k, left, right =>
    if kind.covers left.isSome right.isSome then f k left right else .ok none

def ofPairing (rule : MapRule ε κ ν) (p : Pairing (κ × ν)) : Except ε (Option ν) :=
  rule.made p.item.1 (p.left?.map Prod.snd) (p.right?.map Prod.snd)

/-- The entry that a rule makes of a pairing. -/
def entry (rule : MapRule ε κ ν) : Pairing (κ × ν) → Except ε (Option (κ × ν)) :=
  entryOf (fun p => p.item.1) rule.ofPairing

/-- Combining the values of a tie is joining them. -/
theorem combineTie_eq {α : Type} (view : PairView ε α κ ν) (f : ν → ν → Except ε ν) :
    Policy.combineTie view f = Policy.joinTie view (union f).made := by
  rw [Policy.combineTie, Policy.joinTie]
  refine bind_congr fun pairs => ?_
  obtain ⟨⟨key, left⟩, _, right⟩ := pairs
  simp only [made]
  cases f left right <;> rfl

/-- An operation that asks a function has the policy of a rule and makes what the rule makes of a
pairing, if the function answers as `f`. -/
structure AskedBy {μ : Type} (rule : MapRule ε κ ν) (op : Asking ε κ ν μ)
    (f : Policy.JoinFunction ε κ ν) : Prop where
  policy : op.policy .plain f = rule.policy .plain
  makes : op.makes .plain f = rule.entry

section Asking

variable {μ : Type} (function : Question κ ν → EStateM ε μ (Option ν))

theorem union_askedBy (f : ν → ν → Except ε ν) :
    (union f).AskedBy (.union function) (union f).made where
  policy := by
    show Policy.mk _ _ (Policy.joinTie .plain (union f).made) = _
    rw [← combineTie_eq]
    rfl
  makes := by
    funext p
    cases p <;> rfl

theorem intersection_askedBy (f : ν → ν → Except ε ν) :
    (intersection f).AskedBy (.intersection function) (union f).made where
  policy := by
    show Policy.mk _ _ (Policy.joinTie .plain (union f).made) = _
    rw [← combineTie_eq]
    rfl
  makes := by
    funext p
    cases p <;> rfl

theorem join_askedBy (kind : Join) (f : Policy.JoinFunction ε κ ν) :
    (join kind f).AskedBy (.join kind function) f where
  policy := by cases kind <;> rfl
  makes := by
    funext p
    cases p <;> cases kind <;> rfl

end Asking

theorem AskedBy.itemwise {rule : MapRule ε κ ν} {op : Asking ε κ ν Unit}
    {f : Policy.JoinFunction ε κ ν} (askedBy : rule.AskedBy op f)
    (answers : AnswersAs op.function (Question.answerOf f)) :
    (rule.policy .plain).Itemwise rule.entry := by
  rw [← askedBy.policy, ← askedBy.makes]
  exact Asking.policy_itemwise answers ()

/-- A rule answers the items of a run one by one. -/
theorem itemwise (rule : MapRule ε κ ν) : (rule.policy .plain).Itemwise rule.entry := by
  cases rule with
  | union f => exact (union_askedBy _ f).itemwise (answered_answersAs _)
  | intersection f => exact (intersection_askedBy _ f).itemwise (answered_answersAs _)
  | difference =>
    have same : (SetRule.difference.pick : Pairing (κ × ν) → Except ε _) = difference.entry := by
      funext p
      cases p <;> rfl
    rw [← same]
    exact SetRule.difference.itemwise
  | symmetricDifference =>
    have same : (SetRule.symmetricDifference.pick : Pairing (κ × ν) → Except ε _) =
        symmetricDifference.entry := by
      funext p
      cases p <;> rfl
    rw [← same]
    exact SetRule.symmetricDifference.itemwise
  | join kind f => exact (join_askedBy _ kind f).itemwise (answered_answersAs _)

end MapRule

/-- The entries of a map in strictly increasing order of their keys, which lie in the domain `P`. -/
abbrev Tabulates (cmp : Comparison ε κ) (P : κ → Prop) (entries : List (κ × ν)) (map : Set (κ × ν)) :
    Prop :=
  Enumerates (cmp.on SortedMap.key) (Comparison.KeyIn (ε := ε) SortedMap.key P) entries map

namespace Comparison

variable (cmp : Comparison ε κ)

/-- A map has an entry whose key equals the given one. -/
def HasKey (map : Set (κ × ν)) (k : κ) : Prop := ∃ e ∈ map, cmp.same k e.1 = true

/-- A map gives a key a value. -/
def Gives (map : Set (κ × ν)) (k : κ) (v : ν) : Prop := ∃ e ∈ map, cmp.same k e.1 = true ∧ e.2 = v

/-- A map after a key was given a value. The key is stored anew. -/
def giving (k : κ) (v : ν) (map : Set (κ × ν)) : Set (κ × ν) :=
  fun e => e = (k, v) ∨ e ∈ map ∧ cmp.same k e.1 = false

/-- A map after a key was removed. -/
def withoutKey (k : κ) (map : Set (κ × ν)) : Set (κ × ν) :=
  fun e => e ∈ map ∧ cmp.same k e.1 = false

/-- The entries of a map whose keys are less than another one. -/
def notGreatestKey (map : Set (κ × ν)) : Set (κ × ν) :=
  fun e => e ∈ map ∧ ∃ f ∈ map, cmp.less e.1 f.1 = true

end Comparison

variable {cmp : Comparison ε κ} {P : κ → Prop} {entries : List (κ × ν)} {map : Set (κ × ν)} {k : κ}
  {v w : ν}

namespace Tabulates

theorem entriesOn (table : Tabulates cmp P entries map) : EntriesOn cmp.less P entries :=
  entriesOn_keyed.mp table.kept

theorem of_entriesOn (kept : EntriesOn cmp.less P entries)
    (mem : ∀ e, e ∈ entries ↔ e ∈ map) : Tabulates cmp P entries map :=
  ⟨entriesOn_keyed.mpr kept, mem⟩

theorem insideKey (table : Tabulates cmp P entries map) {e : κ × ν} (mem : e ∈ map) : P e.1 :=
  keyIn_entry.mp (table.inside mem)

theorem valueOf_iff (ordered : cmp.OrderedOn P) (table : Tabulates cmp P entries map) (hk : P k) :
    valueOf cmp.less entries k = some v ↔ cmp.Gives map k v := by
  rw [valueOf_eq_some ordered table.entriesOn hk]
  refine exists_congr fun e => ?_
  rw [table.mem e]
  exact and_congr_right fun mem => by rw [ordered.same_eq hk (table.insideKey mem)]

theorem valueOf_isSome (ordered : cmp.OrderedOn P) (table : Tabulates cmp P entries map) (hk : P k) :
    (valueOf cmp.less entries k).isSome = true ↔ cmp.HasKey map k := by
  rw [Option.isSome_iff_exists]
  constructor
  · rintro ⟨v, value⟩
    obtain ⟨e, mem, same, _⟩ := (table.valueOf_iff ordered hk).mp value
    exact ⟨e, mem, same⟩
  · rintro ⟨e, mem, same⟩
    exact ⟨e.2, (table.valueOf_iff ordered hk).mpr ⟨e, mem, same, rfl⟩⟩

/-- A key has a value or is not there. -/
theorem gives_or_missing (ordered : cmp.OrderedOn P) (table : Tabulates cmp P entries map) (hk : P k) :
    (∃ v, cmp.Gives map k v ∧ valueOf cmp.less entries k = some v) ∨
      ¬cmp.HasKey map k ∧ valueOf cmp.less entries k = none := by
  cases value : valueOf cmp.less entries k with
  | some v => exact .inl ⟨v, (table.valueOf_iff ordered hk).mp value, rfl⟩
  | none =>
    refine .inr ⟨fun has => ?_, rfl⟩
    have found := (table.valueOf_isSome ordered hk).mpr has
    rw [value] at found
    cases found

theorem withoutKey_of_missing (table : Tabulates cmp P entries map) (missing : ¬cmp.HasKey map k) :
    Tabulates cmp P entries (cmp.withoutKey k map) :=
  table.congr fun e => ⟨fun mem => ⟨mem, by
    rw [← Bool.not_eq_true]
    exact fun same => missing ⟨e, mem, same⟩⟩, And.left⟩

theorem apart_iff (ordered : cmp.OrderedOn P) (table : Tabulates cmp P entries map) (hk : P k)
    {e : κ × ν} : e ∈ entries ∧ tied cmp.less k e.1 = false ↔ e ∈ cmp.withoutKey k map := by
  rw [table.mem e]
  exact and_congr_right fun mem => by rw [ordered.same_eq hk (table.insideKey mem)]

end Tabulates

theorem Comparison.HasKey.of_gives (gives : cmp.Gives map k v) : cmp.HasKey map k := by
  obtain ⟨e, mem, same, _⟩ := gives
  exact ⟨e, mem, same⟩

namespace SortedMap

variable {m : SortedMap κ ν}

theorem insert_tabulates (ordered : cmp.OrderedOn P) (table : Tabulates cmp P m.entries map) (hk : P k)
    (v : ν) :
    ∃ n, m.insert cmp k v = .ok (valueOf cmp.less m.entries k, n) ∧
      Tabulates cmp P n.entries (cmp.giving k v map) := by
  obtain ⟨n, done, kept, members⟩ := insert_entries ordered table.entriesOn hk v
  exact ⟨n, done, .of_entriesOn kept fun e =>
    (members e).trans (or_congr_right (table.apart_iff ordered hk))⟩

theorem erase?_tabulates (ordered : cmp.OrderedOn P) (table : Tabulates cmp P m.entries map)
    (hk : P k) :
    (cmp.HasKey map k ∧ ∃ n, m.erase? cmp k = .ok (some n) ∧
        Tabulates cmp P n.entries (cmp.withoutKey k map)) ∨
      ¬cmp.HasKey map k ∧ m.erase? cmp k = .ok none := by
  obtain ⟨n, done, _, kept, members⟩ := erase?_entries ordered table.entriesOn hk
  rcases table.gives_or_missing ordered hk with ⟨v, gives, value⟩ | ⟨missing, value⟩
  · rw [value] at done
    exact .inl ⟨.of_gives gives, n, done, .of_entriesOn kept fun e =>
      (members e).trans (table.apart_iff ordered hk)⟩
  · rw [value] at done
    exact .inr ⟨missing, done⟩

theorem pop?_tabulates (ordered : cmp.OrderedOn P) (table : Tabulates cmp P m.entries map) (hk : P k) :
    (∃ v n, cmp.Gives map k v ∧ m.pop? cmp k = .ok (some (v, n)) ∧
        Tabulates cmp P n.entries (cmp.withoutKey k map)) ∨
      ¬cmp.HasKey map k ∧ m.pop? cmp k = .ok none := by
  rw [pop?, get?_eq ordered table.entriesOn hk]
  rcases table.gives_or_missing ordered hk with ⟨v, gives, value⟩ | ⟨missing, value⟩
  · rcases erase?_tabulates ordered table hk with ⟨_, n, done, after⟩ | ⟨missing, _⟩
    · refine .inl ⟨v, n, gives, ?_, after⟩
      rw [value, done]
      rfl
    · exact (missing (.of_gives gives)).elim
  · refine .inr ⟨missing, ?_⟩
    rw [value]
    rfl

theorem getOrInsert_tabulates (ordered : cmp.OrderedOn P) (table : Tabulates cmp P m.entries map)
    (hk : P k) (v : ν) :
    (∃ w, cmp.Gives map k w ∧ m.getOrInsert cmp k v = .ok (w, m)) ∨
      ¬cmp.HasKey map k ∧ ∃ n, m.getOrInsert cmp k v = .ok (v, n) ∧
        Tabulates cmp P n.entries (cmp.giving k v map) := by
  rw [getOrInsert, get?_eq ordered table.entriesOn hk]
  rcases table.gives_or_missing ordered hk with ⟨w, gives, value⟩ | ⟨missing, value⟩
  · refine .inl ⟨w, gives, ?_⟩
    rw [value]
    rfl
  · obtain ⟨n, done, after⟩ := insert_tabulates ordered table hk v
    refine .inr ⟨missing, n, ?_, after⟩
    rw [value, done]
    rfl

/-- The greatest key is the last one; what is left are the entries with lesser keys. -/
theorem popMax?_tabulates (ordered : cmp.OrderedOn P) (table : Tabulates cmp P m.entries map) :
    (map = ∅ ∧ m.popMax? = none ∧ Tabulates cmp P m.entries (cmp.notGreatestKey map)) ∨
      ∃ e n, m.popMax? = some (e, n) ∧ e ∈ map ∧
        (∀ f ∈ map, f = e ∨ cmp.less f.1 e.1 = true) ∧
        Tabulates cmp P n.entries (cmp.notGreatestKey map) := by
  have same : m.popMax? =
      (SortedSet.popMax? ⟨m.entries⟩).map fun popped => (popped.1, ⟨popped.2.items⟩) := by
    rw [popMax?, SortedSet.popMax?, Option.map_map]
    rfl
  rw [same]
  rcases SortedSet.popMax?_enumerates (ordered.on _) (s := ⟨m.entries⟩) table with
    ⟨empty, done, after⟩ | ⟨e, t, done, mem, greatest, after⟩
  · exact .inl ⟨empty, by rw [done]; rfl, after⟩
  · exact .inr ⟨e, ⟨t.items⟩, by rw [done]; rfl, mem, greatest, after⟩

end SortedMap

/-- The keys that are asked about, with the answers: what the key's value becomes, if anything, or a
failure. -/
abbrev Inquiry (ε κ ν : Type) : Type := κ → Except ε (Option ν) → Prop

namespace Inquiry

/-- All keys are answered. -/
def Succeeds (asked : Inquiry ε κ ν) : Prop := ∀ k answer, asked k answer → ∃ made, answer = .ok made

/-- The map of the answers. -/
def result (asked : Inquiry ε κ ν) : Set (κ × ν) := fun e => asked e.1 (.ok (some e.2))

/-- The least key that is not answered fails for this cause. -/
def FailsFirst (cmp : Comparison ε κ) (asked : Inquiry ε κ ν) (cause : ε) : Prop :=
  ∃ k, asked k (.error cause) ∧
    ∀ j answer, asked j answer → cmp.less j k = true → ∃ made, answer = .ok made

theorem FailsFirst.not_succeeds {asked : Inquiry ε κ ν} {cause : ε}
    (fails : asked.FailsFirst cmp cause) : ¬asked.Succeeds := by
  obtain ⟨k, failed, _⟩ := fails
  intro succeeds
  obtain ⟨_, answered⟩ := succeeds k _ failed
  cases answered

/-- An operation makes the map of the answers, or fails as the least key that is not answered does. -/
def Makes (cmp : Comparison ε κ) (P : κ → Prop) (asked : Inquiry ε κ ν)
    (made : Except (Fault ε) (SortedMap κ ν)) : Prop :=
  (asked.Succeeds ∧ ∃ m, made = .ok m ∧ Tabulates cmp P m.entries asked.result) ∨
    ∃ cause, asked.FailsFirst cmp cause ∧ made = .error (.raised cause)

end Inquiry

theorem entryOf_eq_error {key : β → κ} {made : β → Except ε (Option ν)} {p : β} {cause : ε} :
    entryOf key made p = .error cause ↔ made p = .error cause := by
  rw [entryOf]
  cases made p with
  | error other =>
    show (Except.error other : Except ε (Option (κ × ν))) = _ ↔ _
    rw [Except.error.injEq, Except.error.injEq]
  | ok v =>
    show (Except.ok (v.map (Prod.mk (key p))) : Except ε _) = _ ↔ _
    simp

/-- Pieces in increasing order of their keys are asked about one after the other. -/
theorem entriesOf_makes (ordered : cmp.OrderedOn P) {key : β → κ}
    {made : β → Except ε (Option ν)} {ps : List β} {asked : Inquiry ε κ ν}
    (kept : IncreasingOn (fun p q => cmp.less (key p) (key q)) (fun p => P (key p)) ps)
    (asks : ∀ k answer, asked k answer ↔ ∃ p ∈ ps, key p = k ∧ made p = answer) :
    asked.Makes cmp P (do return ⟨← Fault.lift (ps.filterMapM (entryOf key made))⟩) := by
  cases done : ps.filterMapM (entryOf key made) with
  | ok entries =>
    refine .inl ⟨fun k answer asked => ?_, ⟨entries⟩, rfl,
      .of_entriesOn (entriesOf_kept kept done) fun e => ?_⟩
    · obtain ⟨p, mem, rfl, rfl⟩ := (asks k answer).mp asked
      exact entryOf_answers.mp ((filterMapM_eq_ok.mp done).1 p mem)
    · exact (mem_entriesOf done).trans (asks e.1 (.ok (some e.2))).symm
  | error cause =>
    obtain ⟨front, p, back, rfl, failed, answered⟩ := filterMapM_eq_error.mp done
    refine .inr ⟨cause, ⟨key p, (asks _ _).mpr ⟨p, by simp, rfl, entryOf_eq_error.mp failed⟩, ?_⟩, rfl⟩
    intro j answer asked below
    obtain ⟨q, mem, rfl, rfl⟩ := (asks j answer).mp asked
    have hp := kept.inside p (by simp)
    rcases List.mem_append.mp mem with mem | mem
    · exact entryOf_answers.mp (answered q mem)
    · -- What comes later is not less.
      have notLess : cmp.less (key q) (key p) = false := by
        rcases List.mem_cons.mp mem with rfl | mem
        · exact ordered.decides.irrefl hp
        · have increasing := (List.pairwise_append.mp kept.increasing).2.1
          exact ordered.decides.asymm hp (kept.inside q (by simp [mem]))
            (List.rel_of_pairwise_cons increasing mem)
      rw [notLess] at below
      cases below

/-- The keys of two maps, with their values on the left and on the right. A key of both maps is stored
as the left one has it. -/
inductive Sides (cmp : Comparison ε κ) (left right : Set (κ × ν)) : κ → Option ν → Option ν → Prop where
  | left {k : κ} {v : ν} : (k, v) ∈ left → ¬cmp.HasKey right k → Sides cmp left right k (some v) none
  | right {k : κ} {w : ν} : (k, w) ∈ right → ¬cmp.HasKey left k → Sides cmp left right k none (some w)
  | both {k j : κ} {v w : ν} : (k, v) ∈ left → (j, w) ∈ right → cmp.same k j = true →
    Sides cmp left right k (some v) (some w)

/-- What a rule is asked about two maps. -/
def MapRule.asks (cmp : Comparison ε κ) (rule : MapRule ε κ ν) (left right : Set (κ × ν)) :
    Inquiry ε κ ν :=
  fun k answer => ∃ v w, Sides cmp left right k v w ∧ rule.made k v w = answer

section Merge

variable {xs ys : List (κ × ν)} {left right : Set (κ × ν)}

theorem Tabulates.missing_iff (ordered : cmp.OrderedOn P) (table : Tabulates cmp P xs left) {e : κ × ν}
    (inside : P e.1) :
    hasTie (cmp.on SortedMap.key).less xs e = false ↔ ¬cmp.HasKey left e.1 := by
  rw [← Bool.not_eq_true]
  exact not_congr (table.hasTie_iff (ordered.on _) (keyIn_entry.mpr inside))

/-- The sides of a key are those of a pairing. -/
theorem sides_iff (ordered : cmp.OrderedOn P) (hx : Tabulates cmp P xs left)
    (hy : Tabulates cmp P ys right) {a b : Option ν} :
    Sides cmp left right k a b ↔ ∃ p ∈ pairings (cmp.on SortedMap.key).less xs ys,
      p.item.1 = k ∧ p.left?.map Prod.snd = a ∧ p.right?.map Prod.snd = b := by
  have order := (ordered.on (SortedMap.key : κ × ν → Except ε κ)).decides
  constructor
  · intro sides
    cases sides with
    | @left v mem missing =>
      have apart := (hy.missing_iff ordered (e := (k, v)) (hx.insideKey mem)).mpr missing
      exact ⟨.left (k, v), (left_mem_pairings order hx.kept hy.kept).mpr ⟨(hx.mem _).mpr mem, apart⟩,
        rfl, rfl, rfl⟩
    | @right w mem missing =>
      have apart := (hx.missing_iff ordered (e := (k, w)) (hy.insideKey mem)).mpr missing
      exact ⟨.right (k, w), (right_mem_pairings order hx.kept hy.kept).mpr ⟨(hy.mem _).mpr mem, apart⟩,
        rfl, rfl, rfl⟩
    | @both j v w memLeft memRight same =>
      rw [ordered.same_eq (hx.insideKey memLeft) (hy.insideKey memRight)] at same
      exact ⟨.tie (k, v) (j, w), (tie_mem_pairings order hx.kept hy.kept).mpr
        ⟨(hx.mem _).mpr memLeft, (hy.mem _).mpr memRight, same⟩, rfl, rfl, rfl⟩
  · rintro ⟨p, mem, rfl, rfl, rfl⟩
    cases p with
    | left x =>
      obtain ⟨memX, apart⟩ := (left_mem_pairings order hx.kept hy.kept).mp mem
      have memLeft := (hx.mem x).mp memX
      exact .left memLeft ((hy.missing_iff ordered (hx.insideKey memLeft)).mp apart)
    | right y =>
      obtain ⟨memY, apart⟩ := (right_mem_pairings order hx.kept hy.kept).mp mem
      have memRight := (hy.mem y).mp memY
      exact .right memRight ((hx.missing_iff ordered (hy.insideKey memRight)).mp apart)
    | tie x y =>
      obtain ⟨memX, memY, twins⟩ := (tie_mem_pairings order hx.kept hy.kept).mp mem
      have memLeft := (hx.mem x).mp memX
      have memRight := (hy.mem y).mp memY
      exact .both memLeft memRight
        ((ordered.same_eq (hx.insideKey memLeft) (hy.insideKey memRight)).trans twins)

theorem MapRule.asks_iff (ordered : cmp.OrderedOn P) (rule : MapRule ε κ ν)
    (hx : Tabulates cmp P xs left) (hy : Tabulates cmp P ys right) {answer : Except ε (Option ν)} :
    rule.asks cmp left right k answer ↔ ∃ p ∈ pairings (cmp.on SortedMap.key).less xs ys,
      p.item.1 = k ∧ rule.ofPairing p = answer := by
  constructor
  · rintro ⟨a, b, sides, rfl⟩
    obtain ⟨p, mem, rfl, rfl, rfl⟩ := (sides_iff ordered hx hy).mp sides
    exact ⟨p, mem, rfl, rfl⟩
  · rintro ⟨p, mem, rfl, rfl⟩
    exact ⟨_, _, (sides_iff ordered hx hy).mpr ⟨p, mem, rfl, rfl, rfl⟩, rfl⟩

/-- Equal keys are both in a map or both not. -/
theorem Tabulates.hasKey_congr (ordered : cmp.OrderedOn P) (table : Tabulates cmp P xs left) {j : κ}
    (hj : P j) (hk : P k) (same : cmp.same j k = true) : cmp.HasKey left j ↔ cmp.HasKey left k := by
  rw [ordered.same_eq hj hk] at same
  rw [← table.valueOf_isSome ordered hj, ← table.valueOf_isSome ordered hk,
    valueOf_tied ordered table.entriesOn hj hk same]

theorem Tabulates.gives_congr (ordered : cmp.OrderedOn P) (table : Tabulates cmp P xs left) {j : κ}
    (hj : P j) (hk : P k) (same : cmp.same j k = true) : cmp.Gives left j v ↔ cmp.Gives left k v := by
  rw [ordered.same_eq hj hk] at same
  rw [← table.valueOf_iff ordered hj, ← table.valueOf_iff ordered hk,
    valueOf_tied ordered table.entriesOn hj hk same]

/-- A map gives a key a value, or does not have it. -/
def Comparison.At (cmp : Comparison ε κ) (map : Set (κ × ν)) (k : κ) : Option ν → Prop
  | some v => cmp.Gives map k v
  | none => ¬cmp.HasKey map k

/-- A key has the values of the stored key that is equal to it. -/
theorem exists_sides_iff (ordered : cmp.OrderedOn P) (hx : Tabulates cmp P xs left)
    (hy : Tabulates cmp P ys right) (hk : P k) {a b : Option ν} :
    (∃ j, cmp.same k j = true ∧ Sides cmp left right j a b) ↔
      cmp.At left k a ∧ cmp.At right k b ∧ (a.isSome || b.isSome) = true := by
  constructor
  · rintro ⟨j, same, sides⟩
    cases sides with
    | @left v mem missing =>
      have hj := hx.insideKey mem
      exact ⟨⟨_, mem, same, rfl⟩, (hy.hasKey_congr ordered hk hj same).not.mpr missing, rfl⟩
    | @right w mem missing =>
      have hj := hy.insideKey mem
      exact ⟨(hx.hasKey_congr ordered hk hj same).not.mpr missing, ⟨_, mem, same, rfl⟩, rfl⟩
    | @both i v w memLeft memRight twins =>
      have hj := hx.insideKey memLeft
      have hi := hy.insideKey memRight
      have gives : cmp.Gives right j w := ⟨_, memRight, twins, rfl⟩
      exact ⟨⟨_, memLeft, same, rfl⟩, (hy.gives_congr ordered hk hj same).mpr gives, rfl⟩
  · rintro ⟨atLeft, atRight, some⟩
    cases a with
    | none =>
      cases b with
      | none => cases some
      | some w =>
        obtain ⟨e, mem, same, rfl⟩ := atRight
        have missing := (hx.hasKey_congr ordered hk (hy.insideKey mem) same).not.mp atLeft
        exact ⟨e.1, same, .right mem missing⟩
    | some v =>
      obtain ⟨e, mem, same, rfl⟩ := atLeft
      have hj := hx.insideKey mem
      cases b with
      | none =>
        have missing := (hy.hasKey_congr ordered hk hj same).not.mp atRight
        exact ⟨e.1, same, .left mem missing⟩
      | some w =>
        obtain ⟨f, memRight, twins, rfl⟩ := (hy.gives_congr ordered hk hj same).mp atRight
        exact ⟨e.1, same, .both mem memRight twins⟩

theorem Tabulates.at_iff (ordered : cmp.OrderedOn P) (table : Tabulates cmp P xs left) (hk : P k)
    {a : Option ν} : cmp.At left k a ↔ valueOf cmp.less xs k = a := by
  cases a with
  | some v => exact (table.valueOf_iff ordered hk).symm
  | none =>
    rw [← Option.not_isSome_iff_eq_none, table.valueOf_isSome ordered hk]
    exact Iff.rfl

/-- The value of a key after a merge whose rule does not depend on the key itself. -/
theorem MapRule.gives_result (ordered : cmp.OrderedOn P) {rule : MapRule ε κ ν}
    (keyless : ∀ j a b, rule.made j a b = rule.made k a b) (hx : Tabulates cmp P xs left)
    (hy : Tabulates cmp P ys right) (hk : P k) :
    cmp.Gives (rule.asks cmp left right).result k v ↔
      rule.made k (valueOf cmp.less xs k) (valueOf cmp.less ys k) = .ok (some v) ∧
        ((valueOf cmp.less xs k).isSome || (valueOf cmp.less ys k).isSome) = true := by
  have sides {a b : Option ν} := exists_sides_iff ordered hx hy hk (a := a) (b := b)
  constructor
  · rintro ⟨e, ⟨a, b, side, made⟩, same, rfl⟩
    obtain ⟨atLeft, atRight, some⟩ := sides.mp ⟨e.1, same, side⟩
    rw [keyless] at made
    rw [(hx.at_iff ordered hk).mp atLeft, (hy.at_iff ordered hk).mp atRight]
    exact ⟨made, some⟩
  · rintro ⟨made, some⟩
    obtain ⟨j, same, side⟩ :=
      sides.mpr ⟨(hx.at_iff ordered hk).mpr rfl, (hy.at_iff ordered hk).mpr rfl, some⟩
    exact ⟨(j, v), ⟨_, _, side, (keyless j _ _).trans made⟩, same, rfl⟩

/-- What the merges that are given no function make of the values of a key. -/
structure MergedValues (cmp : Comparison ε κ) (left right : Set (κ × ν)) (k : κ) (v : ν) : Prop where
  /-- The value on the right wins. -/
  union :
    cmp.Gives ((MapRule.union MapRule.preferRight : MapRule ε κ ν).asks cmp left right).result k v ↔
      cmp.Gives right k v ∨ cmp.Gives left k v ∧ ¬cmp.HasKey right k
  /-- The value on the right stays. -/
  intersection :
    cmp.Gives ((MapRule.intersection MapRule.preferRight : MapRule ε κ ν).asks cmp left right).result k v ↔
      cmp.Gives right k v ∧ cmp.HasKey left k
  difference : cmp.Gives ((MapRule.difference : MapRule ε κ ν).asks cmp left right).result k v ↔
    cmp.Gives left k v ∧ ¬cmp.HasKey right k
  symmetricDifference :
    cmp.Gives ((MapRule.symmetricDifference : MapRule ε κ ν).asks cmp left right).result k v ↔
      cmp.Gives left k v ∧ ¬cmp.HasKey right k ∨ cmp.Gives right k v ∧ ¬cmp.HasKey left k

theorem mergedValues (ordered : cmp.OrderedOn P) (hx : Tabulates cmp P xs left)
    (hy : Tabulates cmp P ys right) (hk : P k) (v : ν) : MergedValues cmp left right k v := by
  have given {rule : MapRule ε κ ν} (keyless : ∀ j a b, rule.made j a b = rule.made k a b) :=
    MapRule.gives_result ordered keyless hx hy hk (v := v)
  constructor
  all_goals
    rw [given fun _ a b => by cases a <;> cases b <;> rfl]
    simp only [← hx.valueOf_iff ordered hk, ← hy.valueOf_iff ordered hk,
      ← hx.valueOf_isSome ordered hk, ← hy.valueOf_isSome ordered hk]
    generalize valueOf cmp.less xs k = a, valueOf cmp.less ys k = b
    cases a <;> cases b <;> simp [MapRule.made, MapRule.preferRight]

/-- A merge makes the map of what its rule answers for the keys of either side. -/
theorem merge_makes (ordered : cmp.OrderedOn P) (rule : MapRule ε κ ν)
    (hx : Tabulates cmp P xs left) (hy : Tabulates cmp P ys right) :
    (rule.asks cmp left right).Makes cmp P (do return ⟨← merge cmp rule.operation xs ys⟩) := by
  have order := (ordered.on (SortedMap.key : κ × ν → Except ε κ)).decides
  have increasing := pairings_increasing order hx.kept hy.kept
  have merged : merge cmp rule.operation xs ys = _ :=
    rule.itemwise.merge_pairings ordered hx.kept hy.kept
  rw [merged]
  exact entriesOf_makes ordered
    ⟨increasing.increasing, fun p mem => keyIn_entry.mp (increasing.inside p mem)⟩
    fun k answer => rule.asks_iff ordered hx hy

end Merge

/-- Where the value on the right wins, no key fails. -/
theorem MapRule.union_preferRight_succeeds (left right : Set (κ × ν)) :
    ((MapRule.union preferRight : MapRule ε κ ν).asks cmp left right).Succeeds := by
  rintro k answer ⟨v, w, sides, rfl⟩
  cases sides with
  | left => exact ⟨_, rfl⟩
  | right => exact ⟨_, rfl⟩
  | both => exact ⟨_, rfl⟩

/-- What a test is asked about a map: a key that passes keeps its value. -/
def testing (test : κ → ν → Except ε Bool) (map : Set (κ × ν)) : Inquiry ε κ ν :=
  fun k answer => ∃ v, (k, v) ∈ map ∧ (do return if ← test k v then some v else none) = answer

namespace SortedMap

variable {m : SortedMap κ ν}

theorem merged_makes (ordered : cmp.OrderedOn P) (rule : MapRule ε κ ν)
    {operand : Operand ε (κ × ν)}
    (inside : operand.Inside (cmp.on key) (Comparison.KeyIn (ε := ε) key P))
    (table : Tabulates cmp P m.entries map) :
    (rule.asks cmp map (operand.members (cmp.on key) map)).Makes cmp P (m.merged cmp rule operand) := by
  obtain ⟨ys, resolved, right⟩ := Operand.resolve_keyed ordered inside table
  rw [merged, resolved]
  exact merge_makes ordered rule table right

theorem retain_makes (ordered : cmp.OrderedOn P) (test : κ → ν → Except ε Bool)
    (table : Tabulates cmp P m.entries map) :
    (testing test map).Makes cmp P (m.retain test) := by
  have pieces : (fun e : κ × ν => do return if ← test e.1 e.2 then some e else none) =
      entryOf Prod.fst fun e => do return if ← test e.1 e.2 then some e.2 else none := by
    funext e
    rw [entryOf]
    cases test e.1 e.2 with
    | error cause => rfl
    | ok passes => cases passes <;> rfl
  rw [retain, filterM_eq_filterMapM, pieces]
  refine entriesOf_makes ordered table.entriesOn fun k answer => ?_
  constructor
  · rintro ⟨v, mem, rfl⟩
    exact ⟨(k, v), (table.mem _).mpr mem, rfl, rfl⟩
  · rintro ⟨e, mem, rfl, rfl⟩
    exact ⟨e.2, (table.mem e).mp mem, rfl⟩

end SortedMap

end SortedCollections
