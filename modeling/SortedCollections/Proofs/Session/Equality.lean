import SortedCollections.Proofs.Merge.Ties
import SortedCollections.Proofs.Session.Comparisons
import SortedCollections.Proofs.Session.Lookups

/-!
# Equality of containers with items of any kinds

Two containers of one kind are found equal exactly if they store equal items place by place, whether the
items of the one have an order among those of the other or not. Maps are asked for equality of what they
store and for nothing else. Sets are merged, so they ask for the order: two sets of the same length are
found equal by it if it tells their items from each other, but asking may fail where two items have no
order, and where neither of two items is less although they are not equal the answer is wrong.
-/
namespace SortedCollections

section Entries

variable {ε κ ν : Type} {sameKey : κ → κ → Except ε Bool} {sameValue : ν → ν → Except ε Bool} {e : ε}

theorem SortedMap.sameEntries_fails {xs ys : List (κ × ν)}
    (failed : SortedMap.sameEntries sameKey sameValue xs ys = .error e) :
    ∃ p ∈ xs.zip ys, sameKey p.1.1 p.2.1 = .error e ∨
      sameKey p.1.1 p.2.1 = .ok true ∧ sameValue p.1.2 p.2.2 = .error e := by
  induction xs generalizing ys with
  | nil => cases failed
  | cons x xs ih =>
    cases ys with
    | nil => cases failed
    | cons y ys =>
      rw [SortedMap.sameEntries] at failed
      rw [List.zip_cons_cons, List.exists_mem_cons_iff]
      cases keys : sameKey x.1 y.1 with
      | error cause =>
        rw [keys] at failed
        cases failed
        exact .inl (.inl rfl)
      | ok alike =>
        rw [keys] at failed
        cases alike with
        | false => cases failed
        | true =>
          have failed : (sameValue x.2 y.2 >>= fun same => if same = true then
            SortedMap.sameEntries sameKey sameValue xs ys else .ok false) = .error e := failed
          cases values : sameValue x.2 y.2 with
          | error cause =>
            rw [values] at failed
            cases failed
            exact .inl (.inr ⟨rfl, rfl⟩)
          | ok alike =>
            rw [values] at failed
            cases alike with
            | false => cases failed
            | true => exact .inr (ih failed)

/-- Asking whether two maps are equal fails only if they have the same length, and as asking for equality
of two keys or of two values at the same place does. -/
theorem SortedMap.isEqual_fails {m n : SortedMap κ ν} (failed : m.isEqual sameKey sameValue n = .error e) :
    m.entries.length = n.entries.length ∧ ∃ p ∈ m.entries.zip n.entries,
      sameKey p.1.1 p.2.1 = .error e ∨ sameKey p.1.1 p.2.1 = .ok true ∧ sameValue p.1.2 p.2.2 = .error e := by
  rw [SortedMap.isEqual] at failed
  by_cases length : m.entries.length = n.entries.length
  · rw [if_pos length] at failed
    exact ⟨length, sameEntries_fails failed⟩
  · rw [if_neg length] at failed
    cases failed

end Entries

namespace Session

open Value

variable {registers : Registers} {left right : Term} {parts : Parts} {a b : Value} {s t : List Value}
  {m n : List (Value × Value)} {cause e : Failure}

/-- What two containers of one kind store is equal, place by place. -/
def StoredAlike (parts : Parts) : Value → Value → Prop
  | .sortedSet s, .sortedSet t => List.Forall₂ (fun x y => parts.alike x y = .ok true) s t
  | .cofiniteSet s negated, .cofiniteSet t negated' =>
    negated = negated' ∧ List.Forall₂ (fun x y => parts.alike x y = .ok true) s t
  | .sortedMap m, .sortedMap n => parts.EntriesAlike m n
  | .defaultMap m v, .defaultMap n w => parts.same v w = .ok true ∧ parts.EntriesAlike m n
  | _, _ => False

/-- Asking for the order of items of two lists of the same length fails. -/
def OrderFails (parts : Parts) (s t : List Value) (cause : Failure) : Prop :=
  s.length = t.length ∧ ∃ x ∈ s, ∃ y ∈ t,
    parts.relate .lt y x = .error cause ∨ parts.relate .lt x y = .error cause

/-- Asking for equality of keys or values at the same place of two lists of the same length fails. -/
def EqualityFails (parts : Parts) (m n : List (Value × Value)) (cause : Failure) : Prop :=
  m.length = n.length ∧ ∃ p ∈ m.zip n, parts.alike p.1.1 p.2.1 = .error cause ∨
    parts.alike p.1.1 p.2.1 = .ok true ∧ parts.alike p.1.2 p.2.2 = .error cause

/-- What goes wrong where two containers of one kind are asked about: the order of items of two sets, and
nothing but the equality of what two maps store at the same place. -/
def AskedInVain (parts : Parts) (cause : Failure) : Value → Value → Prop
  | .sortedSet s, .sortedSet t => OrderFails parts s t cause
  | .cofiniteSet s negated, .cofiniteSet t negated' => negated = negated' ∧ OrderFails parts s t cause
  | .sortedMap m, .sortedMap n => EqualityFails parts m n cause
  | .defaultMap m v, .defaultMap n w => parts.same v w = .error cause ∨
    parts.same v w = .ok true ∧ EqualityFails parts m n cause
  | _, _ => False

/-- The order tells the items of one list from those of the other one, which are in order. -/
def Tells (parts : Parts) (s t : List Value) : Prop :=
  ∃ Q, parts.comparison.OrderedOn Q ∧ IncreasingOn parts.comparison.less Q t ∧
    ∀ x ∈ s, Told parts.comparison (fun y x => parts.alike x y) x t

/-- The order tells the items of two sets from each other. Of maps this is not required. -/
def TellsItems (parts : Parts) : Value → Value → Prop
  | .sortedSet s, .sortedSet t => Tells parts s t
  | .cofiniteSet s _, .cofiniteSet t _ => Tells parts s t
  | _, _ => True

/-- Two containers of one kind. -/
inductive BothOf : ContainerKind → Value → Value → Prop where
  | sortedSets (s t : List Value) : BothOf .sortedSet (.sortedSet s) (.sortedSet t)
  | sortedMaps (m n : List (Value × Value)) : BothOf .sortedMap (.sortedMap m) (.sortedMap n)
  | cofiniteSets (s t : List Value) (negated negated' : Bool) :
    BothOf .cofiniteSet (.cofiniteSet s negated) (.cofiniteSet t negated')
  | defaultMaps (m n : List (Value × Value)) (v w : Value) :
    BothOf .defaultMap (.defaultMap m v) (.defaultMap n w)

theorem bothOf_kind {kind : ContainerKind} (kindA : ContainerKind.of? a = some kind)
    (kindB : ContainerKind.of? b = some kind) : BothOf kind a b := by
  cases a <;> cases kindA <;> cases b <;> cases kindB <;> constructor

/-- A question is answered with yes exactly if `stored` holds, and fails only for one of the causes. -/
structure Decided (question : Except Failure Bool) (stored : Prop) (causes : Failure → Prop) : Prop where
  yes_iff : question = .ok true ↔ stored
  fails : ∀ e, question = .error e → causes e

namespace Decided

variable {question : Except Failure Bool} {stored : Prop} {causes : Failure → Prop}

theorem inside (decided : Decided question stored causes) :
    Decided (question.mapError Failure.inside) stored fun e =>
      ∃ cause, e = cause.inside ∧ causes cause where
  yes_iff := mapError_eq_ok.trans decided.yes_iff
  fails e failed := by
    cases question with
    | ok r => cases failed
    | error cause =>
      cases failed
      exact ⟨cause, rfl, decided.fails cause rfl⟩

/-- A question that is asked only on a condition. -/
theorem guard (decided : Decided question stored causes) (c : Prop) [Decidable c] :
    Decided (if c then question else .ok false) (c ∧ stored) fun e => c ∧ causes e := by
  by_cases holds : c
  · rw [if_pos holds]
    exact ⟨decided.yes_iff.trans (and_iff_right holds).symm,
      fun e failed => ⟨holds, decided.fails e failed⟩⟩
  · rw [if_neg holds]
    exact ⟨iff_of_false (by rintro ⟨⟩) fun both => holds both.1, fun e failed => by cases failed⟩

/-- A question that is asked only if another one was answered with yes. -/
theorem behind (decided : Decided question stored causes) (first : Except Failure Bool) :
    Decided (do if ← first then question else return false) (first = .ok true ∧ stored) fun e =>
      first = .error e ∨ first = .ok true ∧ causes e := by
  cases first with
  | error e =>
    refine ⟨iff_of_false (by rintro ⟨⟩) (by rintro ⟨⟨⟩, _⟩), fun e' failed => ?_⟩
    cases failed
    exact .inl rfl
  | ok answer =>
    cases answer with
    | false =>
      exact ⟨iff_of_false (by rintro ⟨⟩) (by rintro ⟨⟨⟩, _⟩), fun e failed => by cases failed⟩
    | true =>
      exact ⟨decided.yes_iff.trans (and_iff_right rfl).symm,
        fun e failed => .inr ⟨rfl, decided.fails e failed⟩⟩

end Decided

theorem lists_decided (tells : Tells parts s t) :
    Decided (Failure.lift (isEqual parts.comparison s t))
      (List.Forall₂ (fun x y => parts.alike x y = .ok true) s t) (OrderFails parts s t) := by
  obtain ⟨Q, ordered, kept, told⟩ := tells
  refine ⟨lift_eq_ok.trans (isEqual_told ordered kept told), fun e failed => ?_⟩
  cases answer : isEqual parts.comparison s t with
  | ok r =>
    rw [answer] at failed
    cases failed
  | error fault =>
    obtain ⟨length, x, memX, y, memY, cause, rfl, asked⟩ := isEqual_fails answer
    rw [answer] at failed
    cases failed
    exact ⟨length, x, memX, y, memY, asked⟩

theorem entries_decided (parts : Parts) (m n : List (Value × Value)) :
    Decided (SortedMap.isEqual parts.alike parts.alike ⟨m⟩ ⟨n⟩) (parts.EntriesAlike m n)
      (EqualityFails parts m n) where
  yes_iff := isEqual_iff_entriesAlike parts m n
  fails _ failed := SortedMap.isEqual_fails failed

/-- Asking two containers of one kind whether they are equal. -/
theorem containers_decided {kind : ContainerKind} (kindA : ContainerKind.of? a = some kind)
    (kindB : ContainerKind.of? b = some kind) (tells : TellsItems (partsInside a b) a b) :
    Decided (Value.same a b) (StoredAlike (partsInside a b) a b) fun e =>
      ∃ cause, e = cause.inside ∧ AskedInVain (partsInside a b) cause a b := by
  cases bothOf_kind kindA kindB with
  | sortedSets s t => exact (lists_decided tells).inside
  | sortedMaps m n => exact (entries_decided _ m n).inside
  | cofiniteSets s t negated negated' =>
    have own : Value.same (.cofiniteSet s negated) (.cofiniteSet t negated') =
        (Failure.lift (if negated = negated' then isEqual (partsInside (.cofiniteSet s negated)
          (.cofiniteSet t negated')).comparison s t else .ok false)).mapError Failure.inside := rfl
    rw [own, apply_ite Failure.lift]
    exact ((lists_decided tells).guard (negated = negated')).inside
  | defaultMaps m n v w => exact ((entries_decided _ m n).behind _).inside

section Plain

variable {P : Value → Prop} {x y : Value} {levels : Nat}

/-- Plain values that are ordered compare inside containers as they do outside. -/
theorem plain_inside (ordered : order.OrderedOn P) (hx : P x) (hy : P y) (plain : y.IsPlain)
    (deep : y.depth < levels) : (partsBelow levels).comparison.lt x y = order.lt x y ∧
      (partsBelow levels).comparison.eq x y = order.eq x y := by
  have own : y.depth < max x.depth y.depth + 1 := by omega
  constructor
  · obtain ⟨r, asked⟩ := ordered.lt_answers x y hx hy
    exact (relate_congr _ levels plain rfl own deep asked).trans asked.symm
  · exact ((know_of_plain _ plain deep).alike x).1.trans ((know_of_plain _ plain own).alike x).1.symm

/-- Plain items are told from other plain items, whether they have an order or not. -/
theorem told_inside (ordered : (partsBelow levels).comparison.OrderedOn P) (inside : ∀ y ∈ t, P y)
    (proper : ∀ y ∈ t, y.IsProper) (deepT : ∀ y ∈ t, y.depth < levels) (plain : x.IsPlain)
    (deep : x.depth < levels) :
    Told (partsBelow levels).comparison (fun y x => (partsBelow levels).alike x y) x t := by
  have know := know_of_plain levels plain deep
  have content {y : Value} (equal : (partsBelow levels).alike x y = .ok true) :
      y.content = x.content :=
    of_decide_eq_true (Except.ok.inj ((know.alike y).2.symm.trans equal))
  constructor
  · intro y mem taken
    have equal := content_eq_of_not_less levels plain (proper y mem) deep taken.1 taken.2
    rw [(know.alike y).2, decide_eq_true equal]
  · intro y mem equal l _ r asked
    exact relate_congr levels levels plain (content equal) (deepT y mem) deep asked
  · intro y mem equal
    obtain ⟨levels, rfl⟩ := Nat.exists_eq_add_one_of_ne_zero (Nat.ne_zero_of_lt deep)
    exact not_less_of_content_eq levels _ plain (content equal) deep
      (ordered.lt_irrefl y (inside y mem))

theorem tells_of_plain (ordered : order.OrderedOn P) (kept : IncreasingOn order.less P t)
    (plainS : ∀ x ∈ s, x.IsPlain) (plainT : ∀ y ∈ t, y.IsPlain) (deepS : ∀ x ∈ s, x.depth < levels)
    (deepT : ∀ y ∈ t, y.depth < levels) : Tells (partsBelow levels) s t := by
  have agree {x y : Value} (hx : P x) (hy : P y ∧ y.IsPlain ∧ y.depth < levels) :=
    plain_inside ordered hx hy.1 hy.2.1 hy.2.2
  have inside : ∀ y ∈ t, P y ∧ y.IsPlain ∧ y.depth < levels :=
    fun y mem => ⟨kept.inside y mem, plainT y mem, deepT y mem⟩
  have orderedInside : (partsBelow levels).comparison.OrderedOn
      fun y => P y ∧ y.IsPlain ∧ y.depth < levels :=
    ordered.congr (fun _ => And.left) fun _ _ hx hy => agree hx.1 hy
  refine ⟨_, orderedInside, kept.congr inside fun x y hx hy => ?_, fun x mem => ?_⟩
  · rw [Comparison.less, Comparison.less, (agree hx.1 hy).1]
  · exact told_inside orderedInside inside (fun y mem => (plainT y mem).isProper) deepT
      (plainS x mem) (deepS x mem)

/-- Whatever a container stores is plain. -/
def AllPlain : Value → Prop
  | .sortedSet items | .cofiniteSet items _ => ∀ x ∈ items, x.IsPlain
  | .sortedMap entries => ∀ e ∈ entries, e.1.IsPlain ∧ e.2.IsPlain
  | .defaultMap entries fallback => fallback.IsPlain ∧ ∀ e ∈ entries, e.1.IsPlain ∧ e.2.IsPlain
  | _ => False

/-- Maps of plain keys and values are never asked in vain. -/
theorem not_equalityFails (m : List (Value × Value)) (plain : ∀ f ∈ n, f.1.IsPlain ∧ f.2.IsPlain)
    (deep : depthOfEntries n < levels) (cause : Failure) :
    ¬EqualityFails (partsBelow levels) m n cause := by
  rintro ⟨_, p, mem, failed⟩
  have mem := (List.of_mem_zip mem).2
  obtain ⟨keyDepth, valueDepth⟩ := depth_le_depthOfEntries mem
  have keys := ((know_of_plain levels (plain _ mem).1 (keyDepth.trans_lt deep)).alike p.1.1).1
  have values := ((know_of_plain levels (plain _ mem).2 (valueDepth.trans_lt deep)).alike p.1.2).1
  rcases failed with failed | ⟨_, failed⟩
  · cases failed.symm.trans keys
  · cases failed.symm.trans values

/-- Sets of plain items are told from each other, and asked in vain only where two items have no order. -/
theorem lists_of_plain (s t : List Value) (ordered : order.OrderedOn P) (kept : IncreasingOn order.less P t)
    (plainS : ∀ x ∈ s, x.IsPlain) (plainT : ∀ y ∈ t, y.IsPlain) (deepS : depthOfList s < levels)
    (deepT : depthOfList t < levels) : Tells (partsBelow levels) s t ∧
      ∀ cause, OrderFails (partsBelow levels) s t cause → s.length = t.length ∧ SaysUnordered cause := by
  have deepS := depth_lt_of_mem deepS
  have deepT := depth_lt_of_mem deepT
  refine ⟨tells_of_plain ordered kept plainS plainT deepS deepT, fun cause failed => ?_⟩
  obtain ⟨length, x, _, y, mem, failed⟩ := failed
  exact ⟨length, relate_unordered levels (plainT y mem) (deepT y mem) failed.symm⟩

end Plain

/-- Is the container a set, finite or cofinite? -/
def IsSet (kind : ContainerKind) : Prop := kind = .sortedSet ∨ kind = .cofiniteSet

/-- Plain items of sets are told from each other, and only their order is asked for in vain. -/
theorem asked_of_plain {P : Value → Prop} {kind : ContainerKind}
    (kindA : ContainerKind.of? a = some kind) (kindB : ContainerKind.of? b = some kind)
    (ordered : order.OrderedOn P) (kept : IncreasingOn order.less P (storedKeys b))
    (plainA : AllPlain a) (plainB : AllPlain b) :
    TellsItems (partsInside a b) a b ∧ ∀ cause, AskedInVain (partsInside a b) cause a b →
      IsSet kind ∧ (storedKeys a).length = (storedKeys b).length ∧ SaysUnordered cause := by
  cases bothOf_kind kindA kindB with
  | sortedSets s t =>
    obtain ⟨tells, fails⟩ := lists_of_plain s t ordered kept plainA plainB
      (Nat.lt_of_succ_le (le_max_left _ _)) (Nat.lt_of_succ_le (le_max_right _ _))
    exact ⟨tells, fun cause failed => ⟨.inl rfl, fails cause failed⟩⟩
  | sortedMaps m n =>
    have fails := not_equalityFails m plainB (Nat.lt_of_succ_le (le_max_right (depthOfEntries m + 1) _))
    exact ⟨trivial, fun cause failed => absurd failed (fails cause)⟩
  | cofiniteSets s t negated negated' =>
    obtain ⟨tells, fails⟩ := lists_of_plain s t ordered kept plainA plainB
      (Nat.lt_of_succ_le (le_max_left _ _)) (Nat.lt_of_succ_le (le_max_right _ _))
    exact ⟨tells, fun cause failed => ⟨.inr rfl, fails cause failed.2⟩⟩
  | defaultMaps m n v w =>
    have deep : max (depthOfEntries n) w.depth < max (max (depthOfEntries m) v.depth + 1)
        (max (depthOfEntries n) w.depth + 1) := Nat.lt_of_succ_le (le_max_right _ _)
    have same := (know_of_plain _ plainB.1 ((le_max_right _ _).trans_lt deep)).same v
    have fails := not_equalityFails m plainB.2 ((le_max_left _ _).trans_lt deep)
    refine ⟨trivial, fun cause failed => ?_⟩
    rcases failed with failed | ⟨_, failed⟩
    · cases failed.symm.trans same
    · exact absurd failed (fails cause)

/-- How a command may end that asks whether two containers are equal, of which `stored` says what they
store, and which may fail for one of the causes. -/
inductive EqualityEnds (registers : Registers) (stored : Prop) (causes : Failure → Prop) :
    Except Failure Value × Registers → Prop where
  | yes (alike : stored) : EqualityEnds registers stored causes (.ok (.bool true), registers)
  | no (apart : ¬stored) : EqualityEnds registers stored causes (.ok (.bool false), registers)
  | failed {e : Failure} (apart : ¬stored) (cause : causes e) :
    EqualityEnds registers stored causes (.error e, registers)

theorem Decided.ends {stored : Prop} {causes : Failure → Prop}
    (decided : Decided (Value.same a b) stored causes) (hl : left.read registers = .ok a)
    (hr : right.read registers = .ok b) :
    EqualityEnds registers stored causes (run registers (.combine .equal left right)) := by
  rw [run_combine hl hr, combine]
  cases asked : Value.same a b with
  | error e =>
    refine .failed (fun alike => ?_) (decided.fails e asked)
    cases asked.symm.trans (decided.yes_iff.mpr alike)
  | ok answer =>
    cases answer with
    | true => exact .yes (decided.yes_iff.mp asked)
    | false =>
      refine .no fun alike => ?_
      cases asked.symm.trans (decided.yes_iff.mpr alike)

/-- Two containers of one kind are found equal exactly if what they store is equal place by place, if the
order tells the items of two sets from each other; of maps nothing is required. Asking fails only as
asking for the order of two items of sets of the same length does, and for maps as equality of keys or
values at the same place does. Of plain items the order tells all: then only sets of the same length can
fail, because two of their items have no order. -/
theorem equality_of_stored {kind : ContainerKind} (hl : left.read registers = .ok a)
    (hr : right.read registers = .ok b) (kindA : ContainerKind.of? a = some kind)
    (kindB : ContainerKind.of? b = some kind) :
    (TellsItems (partsInside a b) a b →
      EqualityEnds registers (StoredAlike (partsInside a b) a b)
        (fun e => ∃ cause, e = cause.inside ∧ AskedInVain (partsInside a b) cause a b)
        (run registers (.combine .equal left right))) ∧
    ∀ P, order.OrderedOn P → IncreasingOn order.less P (storedKeys b) → AllPlain a → AllPlain b →
      EqualityEnds registers (StoredAlike (partsInside a b) a b)
        (fun e => IsSet kind ∧ (storedKeys a).length = (storedKeys b).length ∧
          ∃ asked left right, e = .unorderedInside asked left right)
        (run registers (.combine .equal left right)) := by
  refine ⟨fun tells => (containers_decided kindA kindB tells).ends hl hr, ?_⟩
  intro P ordered kept plainA plainB
  obtain ⟨tells, fails⟩ := asked_of_plain kindA kindB ordered kept plainA plainB
  have decided := containers_decided kindA kindB tells
  refine Decided.ends ⟨decided.yes_iff, fun e failed => ?_⟩ hl hr
  obtain ⟨cause, rfl, asked⟩ := decided.fails e failed
  obtain ⟨set, length, l, x, y, rfl⟩ := fails cause asked
  exact ⟨set, length, l, x, y, rfl⟩

/-- Two sets of numbers store the same ones, though a truth value stands for the first number of the one. -/
theorem same_numbers_stored :
    let s : Value := .sortedSet [.int 1, .int 3]
    let t : Value := .sortedSet [.bool true, .int 3]
    let registers : Registers := [("s", s), ("t", t)]
    (ContainerKind.of? s = some .sortedSet ∧ ContainerKind.of? t = some .sortedSet ∧
      order.OrderedOn IsInteger ∧ IncreasingOn order.less IsInteger (storedKeys t) ∧
      AllPlain s ∧ AllPlain t) ∧
      run registers (.combine .equal (.register "s") (.register "t")) =
        (.ok (.bool true), registers) := by
  intro s t registers
  have kept : IncreasingOn order.less IsInteger (storedKeys t) := by
    refine ⟨List.pairwise_pair.mpr rfl, ?_⟩
    simpa [t, storedKeys] using ⟨⟨1, rfl⟩, ⟨3, rfl⟩⟩
  have plainS : AllPlain s := List.forall_mem_cons.mpr ⟨rfl, List.forall_mem_singleton.mpr rfl⟩
  have plainT : AllPlain t := List.forall_mem_cons.mpr ⟨rfl, List.forall_mem_singleton.mpr rfl⟩
  have alike : StoredAlike (partsInside s t) s t := .cons rfl (.cons rfl .nil)
  refine ⟨⟨rfl, rfl, integers_ordered, kept, plainS, plainT⟩, ?_⟩
  have hl : (Term.register "s").read registers = .ok s := rfl
  have hr : (Term.register "t").read registers = .ok t := rfl
  have ends := (equality_of_stored hl hr rfl rfl).2 IsInteger integers_ordered kept plainS plainT
  generalize run registers (.combine .equal (.register "s") (.register "t")) = ending at ends ⊢
  cases ends with
  | yes alike => rfl
  | no apart => exact absurd alike apart
  | failed apart cause => exact absurd alike apart

/-- A number and a text have no order, so two sets that hold one of them each cannot be asked whether they
are equal. Of two sets that hold one number each neither is less, so the sets that store them are found
equal. -/
theorem single_items_not_told :
    let s : Value := .sortedSet [.int 1]
    let t : Value := .sortedSet [.text "a"]
    let u : Value := .sortedSet [.hashSet [.int 1]]
    let v : Value := .sortedSet [.hashSet [.int 2]]
    let registers : Registers := [("s", s), ("t", t), ("u", u), ("v", v)]
    (∀ x ∈ [Value.int 1, .text "a", .hashSet [.int 1], .hashSet [.int 2]], order.OrderedOn (· = x)) ∧
      run registers (.combine .equal (.register "s") (.register "t")) =
        (.error (.unorderedInside .lt .text .int), registers) ∧
      ¬StoredAlike (partsInside u v) u v ∧
      run registers (.combine .equal (.register "u") (.register "v")) =
        (.ok (.bool true), registers) := by
  intro s t u v registers
  refine ⟨?_, by with_unfolding_all rfl, ?_, by with_unfolding_all rfl⟩
  · have single (x : Value) (below : order.lt x x = .ok false) (same : order.eq x x = .ok true) :
        order.OrderedOn (· = x) := by
      refine Comparison.orderedOn_of_rank (fun _ => 0) ?_ ?_
      · rintro a b rfl rfl
        exact below
      · rintro a b rfl rfl
        exact same
    simp only [List.forall_mem_cons]
    exact ⟨single _ rfl rfl, single _ rfl rfl, single _ rfl rfl, single _ rfl rfl, List.forall_mem_nil _⟩
  · intro alike
    cases alike with
    | cons same rest => cases same

end Session

end SortedCollections
