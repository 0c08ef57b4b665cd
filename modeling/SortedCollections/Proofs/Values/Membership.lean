import SortedCollections.Proofs.Sets.Inclusion
import SortedCollections.Proofs.Values.Levels

/-!
# Unordered sets of ordered keys

An unordered set is asked for an item by equality alone. If the items are ordered, equality is the tie
of the order, so what an unordered set answers is said by the same words as what a sorted list answers,
and a set is related to it as to the sorted list of its items.
-/
namespace SortedCollections

/-- How a set is related to another one, by whether it lies within that and the other way round. -/
def Relation.ofInclusion (relation : Relation) (below above : Prop) : Prop :=
  match relation with
  | .le => below
  | .lt => below ∧ ¬above
  | .ge => above
  | .gt => above ∧ ¬below

theorem Relation.ofInclusion_congr (relation : Relation) {below above below' above' : Prop}
    (first : below ↔ below') (second : above ↔ above') :
    relation.ofInclusion below above ↔ relation.ofInclusion below' above' := by
  rw [propext first, propext second]

theorem mapError_eq_ok {α ε : Type} {question : Except ε α} {f : ε → ε} {r : α} :
    question.mapError f = .ok r ↔ question = .ok r := by
  cases question with
  | error e => exact iff_of_false (by rintro ⟨⟩) (by rintro ⟨⟩)
  | ok a => exact Iff.rfl

namespace Value

/-- A question about values is answered, and with yes exactly if `p` holds. -/
def Answered (question : Except Failure Bool) (p : Prop) : Prop :=
  ∃ answer, question = .ok answer ∧ (answer = true ↔ p)

namespace Answered

variable {question : Except Failure Bool} {p q : Prop}

theorem congr (answered : Answered question p) (same : p ↔ q) : Answered question q := by
  obtain ⟨answer, asked, iff⟩ := answered
  exact ⟨answer, asked, iff.trans same⟩

theorem lift {question : Except (Fault Failure) Bool} (answers : Answers question p) :
    Answered (Failure.lift question) p := by
  obtain ⟨answer, asked, iff⟩ := answers
  exact ⟨answer, by rw [asked]; rfl, iff⟩

theorem mapError (answered : Answered question p) (f : Failure → Failure) :
    Answered (question.mapError f) p := by
  obtain ⟨answer, asked, iff⟩ := answered
  exact ⟨answer, by rw [asked]; rfl, iff⟩

/-- A question that is asked only on a condition. -/
theorem guard (answered : Answered question p) (c : Prop) [Decidable c] :
    Answered (if c then question else .ok false) (c ∧ p) := by
  obtain ⟨answer, asked, iff⟩ := answered
  by_cases holds : c
  · exact ⟨answer, by rw [if_pos holds, asked], iff.trans (and_iff_right holds).symm⟩
  · exact ⟨false, if_neg holds, by simp [holds]⟩

/-- Two questions about the same have the same answer. -/
theorem unique {other : Except Failure Bool} (answered : Answered question p)
    (answered' : Answered other p) :
    ∃ answer, question = .ok answer ∧ other = .ok answer ∧ (answer = true ↔ p) := by
  obtain ⟨answer, asked, iff⟩ := answered
  obtain ⟨answer', asked', iff'⟩ := answered'
  have same : answer' = answer := Bool.eq_iff_iff.mpr (iff'.trans iff.symm)
  rw [same] at asked'
  exact ⟨answer, asked, asked', iff⟩

end Answered

theorem allPass_answered {test : Value → Except Failure Bool} {xs : List Value} {passes : Value → Prop}
    (each : ∀ x ∈ xs, Answered (test x) (passes x)) :
    Answered (allPass test xs) (∀ x ∈ xs, passes x) := by
  induction xs with
  | nil => exact ⟨true, rfl, by simp⟩
  | cons x xs ih =>
    obtain ⟨answer, asked, iff⟩ := each x (by simp)
    obtain ⟨rest, askedRest, iffRest⟩ := ih fun y mem => each y (.tail _ mem)
    rw [List.forall_mem_cons, allPass, asked]
    cases answer with
    | false => exact ⟨false, rfl, by simp [← iff]⟩
    | true => exact ⟨rest, askedRest, by simp [← iff, iffRest]⟩

section Keys

variable {parts : Parts} {P : Value → Prop} {x : Value} {xs ys : List Value}
  (ordered : parts.comparison.OrderedOn P) (hashable : ∀ x, P x → x.IsHashable)

include ordered in
/-- Equality of keys is the tie of their order. -/
theorem alike_eq {y : Value} (hx : P x) (hy : P y) :
    parts.alike x y = .ok (tied parts.comparison.less x y) :=
  (ordered.eq_iff hx hy).mpr rfl

include ordered in
theorem isAmong_eq (inside : ∀ y ∈ ys, P y) (hx : P x) :
    parts.isAmong x ys = .ok (hasTie parts.comparison.less ys x) := by
  induction ys with
  | nil => rfl
  | cons y ys ih =>
    have rest := ih fun z mem => inside z (.tail _ mem)
    rw [Parts.isAmong, alike_eq ordered (inside y (by simp)) hx, hasTie_cons, tied_comm]
    cases tied parts.comparison.less x y with
    | true => rfl
    | false => exact rest

include ordered hashable in
theorem isInHashSet_eq (inside : ∀ y ∈ ys, P y) (hx : P x) :
    parts.isInHashSet ys x = .ok (hasTie parts.comparison.less ys x) := by
  have keyed := hashable x hx
  have among := isAmong_eq ordered inside hx
  cases x with
  | hashSet items => cases keyed
  | _ =>
    rw [Parts.isInHashSet]
    · rw [requireHashable, keyed]
      exact among
    · intro items absurd
      cases absurd

/-- An unordered set holds the items of a list that tie with items of its own. -/
theorem hasTie_perm {less : Value → Value → Bool} (perm : xs.Perm ys) (v : Value) :
    hasTie less xs v = hasTie less ys v := by
  rw [Bool.eq_iff_iff, hasTie_eq_true, hasTie_eq_true]
  exact exists_congr fun x => and_congr_left fun _ => perm.mem_iff

section Sets

variable {s t h : List Value} (hs : IncreasingOn parts.comparison.less P s)
  (ht : IncreasingOn parts.comparison.less P t) (listed : h.Perm t)
include ordered hs ht

theorem relateSets_answered (relation : Relation) :
    Answered (parts.relateSets relation s t)
      (relation.ofInclusion (Within parts.comparison.less s t) (Within parts.comparison.less t s)) := by
  have order := ordered.decides
  have below := Answered.lift (isSubset_iff_within ordered hs ht)
  have above := Answered.lift (isSubset_iff_within ordered ht hs)
  cases relation with
  | le => exact below
  | ge => exact above
  | lt =>
    refine (below.guard _).congr ((and_congr_left fun within => ?_).trans and_comm)
    exact length_lt_iff order hs ht within
  | gt =>
    refine (above.guard _).congr ((and_congr_left fun within => ?_).trans and_comm)
    exact length_lt_iff order ht hs within

include hashable listed

theorem allPass_within :
    Answered (allPass (parts.isInHashSet h) s) (Within parts.comparison.less s t) := by
  have insideH : ∀ y ∈ h, P y := fun y mem => ht.inside y (listed.mem_iff.mp mem)
  refine allPass_answered fun x mem => ⟨_, isInHashSet_eq ordered hashable insideH (hs.inside x mem), ?_⟩
  rw [hasTie_perm listed]

omit hashable in
theorem allPass_covers :
    Answered (allPass (fun x => .ok (SortedSet.contains parts.comparison ⟨s⟩ x)) h)
      (Within parts.comparison.less t s) := by
  have insideH : ∀ y ∈ h, P y := fun y mem => ht.inside y (listed.mem_iff.mp mem)
  have answered : Answered (allPass (fun x => .ok (SortedSet.contains parts.comparison ⟨s⟩ x)) h)
      (∀ x ∈ h, hasTie parts.comparison.less s x = true) :=
    allPass_answered fun x mem =>
      ⟨_, congrArg Except.ok (SortedSet.contains_eq ordered hs (insideH x mem)), Iff.rfl⟩
  exact answered.congr (forall_congr' fun x => imp_congr_left listed.mem_iff)

theorem relateToHashSet_answered (relation : Relation) :
    Answered (parts.relateToHashSet relation s h)
      (relation.ofInclusion (Within parts.comparison.less s t) (Within parts.comparison.less t s)) := by
  have order := ordered.decides
  have below := allPass_within ordered hashable hs ht listed
  have above := allPass_covers ordered hs ht listed
  have length := listed.length_eq
  cases relation with
  | le =>
    refine (below.guard _).congr (and_iff_right_of_imp fun within => ?_)
    rw [length]
    exact length_le_of_within order hs ht within
  | ge =>
    refine (above.guard _).congr (and_iff_right_of_imp fun within => ?_)
    rw [length]
    exact length_le_of_within order ht hs within
  | lt =>
    refine (below.guard _).congr ((and_congr_left fun within => ?_).trans and_comm)
    rw [length]
    exact length_lt_iff order hs ht within
  | gt =>
    refine (above.guard _).congr ((and_congr_left fun within => ?_).trans and_comm)
    rw [length]
    exact length_lt_iff order ht hs within

theorem sameAsHashSet_answered :
    Answered (if s.length = h.length then allPass (parts.isInHashSet h) s else .ok false)
      (Within parts.comparison.less s t ∧ Within parts.comparison.less t s) := by
  have order := ordered.decides
  refine ((allPass_within ordered hashable hs ht listed).guard _).congr ?_
  rw [listed.length_eq]
  constructor
  · exact fun both => ⟨both.2, within_of_length order hs ht both.2 both.1⟩
  · rintro ⟨within, back⟩
    have := length_le_of_within order hs ht within
    have := length_le_of_within order ht hs back
    exact ⟨by omega, within⟩

end Sets

theorem values_of_withHash {items : List Value} {entries : List (Nat × Value)}
    (hashed : items.mapM withHash = some entries) : entries.map Prod.snd = items := by
  induction items generalizing entries with
  | nil =>
    cases hashed
    rfl
  | cons x items ih =>
    rw [List.mapM_cons] at hashed
    obtain ⟨entry, first, hashed⟩ := Option.bind_eq_some_iff.mp hashed
    obtain ⟨rest, hashedRest, made⟩ := Option.bind_eq_some_iff.mp hashed
    obtain ⟨n, _, same⟩ := Option.bind_eq_some_iff.mp first
    cases same
    cases made
    rw [List.map_cons, ih hashedRest]

theorem inSlotOrder_perm (items : List Value) : (inSlotOrder items).Perm items := by
  rw [inSlotOrder]
  cases hashed : items.mapM withHash with
  | none => exact .refl _
  | some entries =>
    have listed := (SlotTable.entries_ofEntries entries).map Prod.snd
    rw [values_of_withHash hashed] at listed
    exact listed

include ordered hashable in
/-- The unordered set of items in order holds each of them. -/
theorem hashSetOf_increasing (kept : IncreasingOn parts.comparison.less P xs) :
    parts.hashSetOf xs = .ok (inSlotOrder xs) := by
  have all (front rest : List Value) (kept : IncreasingOn parts.comparison.less P (front ++ rest)) :
      rest.foldlM (fun set item => do
        item.requireHashable
        if ← parts.isAmong item set then return set else return set ++ [item]) front =
      .ok (front ++ rest) := by
    induction rest generalizing front with
    | nil => rw [List.append_nil]; rfl
    | cons x rest ih =>
      have hx := kept.inside x (by simp)
      have below : ∀ y ∈ front, parts.comparison.less y x = true := fun y mem =>
        (List.pairwise_append.mp kept.increasing).2.2 y mem x (by simp)
      have fresh : parts.isAmong x front = .ok false := by
        rw [isAmong_eq ordered (fun y mem => kept.inside y (by simp [mem])) hx, hasTie_of_below below]
      have whole : front ++ [x] ++ rest = front ++ x :: rest := by simp
      rw [← whole] at kept ⊢
      rw [List.foldlM_cons, requireHashable, hashable x hx]
      show (parts.isAmong x front >>= _) >>= _ = _
      rw [fresh]
      exact ih (front ++ [x]) kept
  rw [Parts.hashSetOf, all [] xs kept]
  rfl

end Keys

end Value

end SortedCollections
