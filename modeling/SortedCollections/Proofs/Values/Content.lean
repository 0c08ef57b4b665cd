import SortedCollections.Value.Order
import Mathlib.Algebra.Order.Field.Power
import Mathlib.Algebra.Order.Field.Rat
import Mathlib.Data.String.Basic
import Mathlib.Order.Compare
import Mathlib.Order.WithBot
import Mathlib.Tactic.NormNum
import Mathlib.Tactic.Positivity
import Mathlib.Tactic.Ring

/-!
# What values are compared by

Nothing, numbers, text, and lists and tuples of these are compared by what they stand for alone, however
deep they are nested: a truth value, a whole number and a double that stand for the same fraction are
less than the same values, greater than the same and equal to the same. A value that stands for
something is told from all others: what is neither less nor greater than it is equal to it, unless there
is something in it that is not a number.
-/
namespace SortedCollections

namespace Dyadic

def toRat (a : Dyadic) : ℚ := a.mantissa * 2 ^ a.exponent

theorem toRat_eq_scaled (a : Dyadic) {unit : Int} (small : unit ≤ a.exponent) :
    a.toRat = ((a.mantissa * Int.pow 2 (a.exponent - unit).toNat : Int) : ℚ) * 2 ^ unit := by
  obtain ⟨n, above⟩ := Int.eq_ofNat_of_zero_le (Int.sub_nonneg.mpr small)
  have exponent : a.exponent = n + unit := by omega
  have two : (2 : ℚ) ≠ 0 := by norm_num
  rw [toRat, above, Int.toNat_natCast, exponent, zpow_add₀ two, zpow_natCast, Int.pow_eq]
  push_cast
  ring

theorem order_eq_compare (a b : Dyadic) : a.order b = compare a.toRat b.toRat := by
  have increasing : StrictMono fun m : Int => (m : ℚ) * 2 ^ min a.exponent b.exponent := by
    intro m n less
    have size : (0 : ℚ) < 2 ^ min a.exponent b.exponent := by positivity
    exact mul_lt_mul_of_pos_right (Int.cast_lt.mpr less) size
  rw [a.toRat_eq_scaled (min_le_left _ _), b.toRat_eq_scaled (min_le_right _ _), ← cmp_eq_compare]
  exact (cmp_eq_compare _ _).symm.trans (increasing.cmp_map_eq _ _).symm

end Dyadic

/-- The fractions, with one thing below and one above all of them. -/
abbrev Extended : Type := WithBot (WithTop ℚ)

/-- Where a double stands among the fractions. -/
def Double.Form.extended? : Double.Form → Option Extended
  | .nan => none
  | .infinite negative => some (if negative then ⊥ else ⊤)
  | .finite value => some ((value.toRat : WithTop ℚ) : Extended)

/-- Of two different things in a linear order one is less. -/
theorem Relation.eq_of_not_less {α : Type} [LinearOrder α] {a b : α}
    (below : Relation.lt.holds (compare a b) = false)
    (above : Relation.lt.holds (compare b a) = false) : a = b := by
  rw [Relation.holds, beq_eq_false_iff_ne, ne_eq, compare_lt_iff_lt, not_lt] at below above
  exact le_antisymm above below

namespace Number

variable {a b : Number}

/-- Where a number stands among the fractions. -/
def extended? (a : Number) : Option Extended := a.form.extended?

theorem order_eq_compare (a b : Number) :
    a.order b = a.extended?.bind fun x => b.extended?.map fun y => compare x y := by
  have increasing : StrictMono fun q : ℚ => ((q : WithTop ℚ) : Extended) :=
    WithBot.coe_strictMono.comp WithTop.coe_strictMono
  rw [order, extended?, extended?]
  generalize a.form = f
  generalize b.form = g
  cases f with
  | nan => rfl
  | infinite s =>
    cases g with
    | nan => rfl
    | infinite t => cases s <;> cases t <;> rfl
    | finite y => cases s <;> rfl
  | finite x =>
    cases g with
    | nan => rfl
    | infinite t => cases t <;> rfl
    | finite y =>
      show some (x.order y) = some (compare _ _)
      rw [Dyadic.order_eq_compare, ← cmp_eq_compare, ← cmp_eq_compare]
      exact congrArg some (increasing.cmp_map_eq _ _).symm

theorem order_congr {c : Number} (same : a.extended? = b.extended?) : c.order a = c.order b := by
  rw [order_eq_compare, order_eq_compare, same]

theorem order_eq_some_eq :
    a.order b = some .eq ↔ a.extended? = b.extended? ∧ b.extended? ≠ none := by
  rw [order_eq_compare]
  cases a.extended? with
  | none => simp [eq_comm]
  | some x =>
    cases b.extended? with
    | none => simp
    | some y =>
      show some (compare x y) = some Ordering.eq ↔ _
      rw [Option.some.injEq, compare_eq_iff_eq, Option.some.injEq]
      exact (and_iff_left (Option.some_ne_none y)).symm

theorem order_beq_eq (number : b.extended? ≠ none) :
    (a.order b == some .eq) = decide (a.extended? = b.extended?) ∧
      (b.order a == some .eq) = decide (a.extended? = b.extended?) := by
  constructor
  · rw [Bool.eq_iff_iff, beq_iff_eq, order_eq_some_eq, decide_eq_true_iff]
    exact and_iff_left number
  · rw [Bool.eq_iff_iff, beq_iff_eq, order_eq_some_eq, decide_eq_true_iff]
    exact ⟨fun h => h.1.symm, fun h => ⟨h.symm, h ▸ number⟩⟩

/-- Of two numbers that differ one is less. -/
theorem extended?_eq_of_not_less (ha : a.extended? ≠ none) (hb : b.extended? ≠ none)
    (below : (a.order b).any Relation.lt.holds = false)
    (above : (b.order a).any Relation.lt.holds = false) : a.extended? = b.extended? := by
  obtain ⟨x, ha⟩ := Option.ne_none_iff_exists'.mp ha
  obtain ⟨y, hb⟩ := Option.ne_none_iff_exists'.mp hb
  rw [order_eq_compare, ha, hb] at below above
  rw [ha, hb, Relation.eq_of_not_less below above]

end Number

mutual

/-- What a value is compared by. Of a number it is where it stands among the fractions, if it does; other
values than numbers, text, lists and tuples have no content of their own. -/
inductive Content where
  | nothing
  | missing
  | number (place : Option Extended)
  | text (s : String)
  | list (items : Contents)
  | tuple (items : Contents)
  | other

/-- The contents of a list's items. -/
inductive Contents where
  | nil
  | cons (first : Content) (rest : Contents)

end

deriving instance DecidableEq for Content, Contents

mutual

/-- Does whatever stands in lists and tuples, and is none itself, pass a test? -/
def Content.builtOf (test : Content → Bool) : Content → Bool
  | .list items | .tuple items => items.builtOf test
  | c => test c

def Contents.builtOf (test : Content → Bool) : Contents → Bool
  | .nil => true
  | .cons first rest => first.builtOf test && rest.builtOf test

end

mutual

theorem Content.builtOf_mono {test test' : Content → Bool}
    (weaker : ∀ c, test c = true → test' c = true) (c : Content) (built : c.builtOf test = true) :
    c.builtOf test' = true := by
  cases c with
  | list items => exact Contents.builtOf_mono weaker items built
  | tuple items => exact Contents.builtOf_mono weaker items built
  | _ => exact weaker _ built

theorem Contents.builtOf_mono {test test' : Content → Bool}
    (weaker : ∀ c, test c = true → test' c = true) (items : Contents)
    (built : items.builtOf test = true) : items.builtOf test' = true := by
  cases items with
  | nil => rfl
  | cons first rest =>
    rw [Contents.builtOf, Bool.and_eq_true_iff] at built ⊢
    exact ⟨Content.builtOf_mono weaker first built.1, Contents.builtOf_mono weaker rest built.2⟩

end

/-- Is it a number at all, if it claims to be one? -/
def Content.isProper : Content → Bool
  | .number Option.none => false
  | _ => true

/-- Does a value with this content stand for anything? -/
def Content.isKnown (c : Content) : Bool := c.isProper && c != .other

namespace Value

mutual

def content : Value → Content
  | .none => .nothing
  | .missing => .missing
  | .bool b => .number (Number.int (if b then 1 else 0)).extended?
  | .int n => .number (Number.int n).extended?
  | .double x => .number (Number.double x).extended?
  | .notANumber _ => .number Option.none
  | .text s => .text s
  | .list items => .list (contents items)
  | .tuple items => .tuple (contents items)
  | _ => .other

def contents : List Value → Contents
  | [] => .nil
  | x :: xs => .cons x.content (contents xs)

end

variable {parts : Parts} {relation : Relation} {d l x y : Value} {ds ls xs ys : List Value}
  {m n : Number} {r : Bool}

/-- Is the value built of nothing, numbers, text, lists and tuples, and none of these is what is not a
number? -/
def IsPlain (x : Value) : Prop := x.content.builtOf Content.isKnown = true

/-- Is there no number in the value's lists and tuples that is not a number? -/
def IsProper (d : Value) : Prop := d.content.builtOf Content.isProper = true

theorem content_of_number? (hx : x.number? = some n) : x.content = .number n.extended? := by
  cases x with
  | bool b => cases hx; rfl
  | int n => cases hx; rfl
  | double x => cases hx; rfl
  | notANumber mark => cases hx; rfl
  | _ => cases hx

theorem builtOf_contents {test : Content → Bool} :
    (contents xs).builtOf test = true ↔ ∀ x ∈ xs, x.content.builtOf test = true := by
  induction xs with
  | nil => simp [contents, Contents.builtOf]
  | cons x xs ih => simp [contents, Contents.builtOf, ih]

theorem length_of_contents (same : contents xs = contents ys) : xs.length = ys.length := by
  induction xs generalizing ys with
  | nil =>
    cases ys with
    | nil => rfl
    | cons y ys => cases same
  | cons x xs ih =>
    cases ys with
    | nil => cases same
    | cons y ys => exact congrArg (· + 1) (ih (Contents.cons.inj same).2)

theorem depth_le_depthOfList (mem : x ∈ xs) : x.depth ≤ depthOfList xs := by
  induction xs with
  | nil => cases mem
  | cons y xs ih =>
    rw [depthOfList]
    rcases List.mem_cons.mp mem with rfl | mem
    · exact Nat.le_max_left ..
    · exact (ih mem).trans (Nat.le_max_right ..)

/-- Two values that are compared by what they stand for, or place by place. -/
inductive SameSort : Value → Value → Prop where
  | nothing : SameSort .none .none
  | missing : SameSort .missing .missing
  | numbers {v w : Value} {m n : Number} (hv : v.number? = some m) (hw : w.number? = some n) :
    SameSort v w
  | texts (s t : String) : SameSort (.text s) (.text t)
  | lists (xs ys : List Value) : SameSort (.list xs) (.list ys)
  | tuples (xs ys : List Value) : SameSort (.tuple xs) (.tuple ys)

/-- Two values neither of which knows the other one. -/
structure Foreign (parts : Parts) (d x : Value) : Prop where
  order : ∀ relation, parts.ownOrder relation d x = Option.none
  orderBack : ∀ relation, parts.ownOrder relation x d = Option.none
  equality : parts.ownEquality d x = Option.none
  equalityBack : parts.ownEquality x d = Option.none
  content : d.content ≠ x.content

theorem sameSort_or_foreign (known : x.content ≠ .other) (parts : Parts) (d : Value) :
    SameSort d x ∨ Foreign parts d x := by
  cases x <;> first
    | exact absurd rfl known
    | cases d <;> first
      | exact .inl .nothing
      | exact .inl .missing
      | exact .inl (.numbers rfl rfl)
      | exact .inl (.texts _ _)
      | exact .inl (.lists _ _)
      | exact .inl (.tuples _ _)
      | exact .inr ⟨fun _ => rfl, fun _ => rfl, rfl, rfl, by rintro ⟨⟩⟩

theorem sameSort_of_content (known : x.content ≠ .other) (same : d.content = x.content) :
    SameSort d x :=
  (sameSort_or_foreign known (partsBelow 0) d).resolve_right fun foreign => foreign.content same

theorem Foreign.not_equal (foreign : Foreign parts d x) :
    parts.equality d x = .ok false ∧ parts.equality x d = .ok false := by
  simp [Parts.equality, answerOf, foreign.equality, foreign.equalityBack]

theorem Foreign.unordered (foreign : Foreign parts d x) (relation : Relation) :
    parts.order relation d x = .error (.unordered relation d.kind x.kind) ∧
      parts.order relation x d = .error (.unordered relation x.kind d.kind) := by
  simp [Parts.order, answerOf, foreign.order, foreign.orderBack]

theorem sameSort_of_order (known : x.content ≠ .other) (asked : parts.order relation d x = .ok r) :
    SameSort d x := by
  refine (sameSort_or_foreign known parts d).resolve_right fun foreign => ?_
  rw [(foreign.unordered relation).1] at asked
  cases asked

theorem isContainer_of_number? (hx : x.number? = some n) : x.isContainer = false := by
  cases x <;> first | rfl | cases hx

theorem order_numbers (hd : d.number? = some m) (hx : x.number? = some n) :
    parts.order relation d x = .ok ((m.order n).any relation.holds) := by
  have own : parts.ownOrder relation d x = some (.ok ((m.order n).any relation.holds)) := by
    unfold Parts.ownOrder
    rw [hd, hx]
  rw [Parts.order, own, answerOf, isContainer_of_number? hd]
  rfl

theorem equality_numbers (hd : d.number? = some m) (hx : x.number? = some n) :
    parts.equality d x = .ok (m.order n == some .eq) := by
  have own : parts.ownEquality d x = some (.ok (m.order n == some .eq)) := by
    unfold Parts.ownEquality
    rw [hd, hx]
  rw [Parts.equality, own, answerOf, isContainer_of_number? hd]
  rfl

/-- The order of two lists or tuples of items. -/
def Parts.orderItems (parts : Parts) (relation : Relation) (xs ys : List Value) :
    Except Failure Bool := do
  match ← parts.firstDifference xs ys with
  | some (x, y) => parts.relate relation x y
  | Option.none => return relation.holds (compare xs.length ys.length)

/-- The parts tell by its content what is equal to a value. -/
structure Parts.Know (parts : Parts) (x : Value) : Prop where
  proper : x.content.isProper = true
  same : ∀ d, parts.same d x = .ok (decide (d.content = x.content))
  sameBack : ∀ d, parts.same x d = .ok (decide (d.content = x.content))

/-- The first position at which two lists differ in content: the items there, if both have one. -/
def firstApart : List Value → List Value → Option (Value × Value)
  | d :: ds, x :: xs => if d.content = x.content then firstApart ds xs else some (d, x)
  | _, _ => Option.none

theorem isMarkedAlike_of_proper (proper : x.content.isProper = true) (d : Value) :
    isMarkedAlike d x = false ∧ isMarkedAlike x d = false := by
  cases x with
  | notANumber mark => cases proper
  | _ => cases d <;> exact ⟨rfl, rfl⟩

theorem Parts.Know.alike (know : parts.Know x) (d : Value) :
    parts.alike d x = .ok (decide (d.content = x.content)) ∧
      parts.alike x d = .ok (decide (d.content = x.content)) := by
  obtain ⟨unmarked, unmarkedBack⟩ := isMarkedAlike_of_proper know.proper d
  rw [Parts.alike, Parts.alike, unmarked, unmarkedBack]
  exact ⟨know.same d, know.sameBack d⟩

theorem IsPlain.proper (plain : x.IsPlain) : x.content.isProper = true := by
  unfold IsPlain at plain
  cases content : x.content with
  | number place =>
    rw [content] at plain
    cases place with
    | none => cases plain
    | some q => rfl
  | _ => rfl

theorem IsProper.content (proper : d.IsProper) : d.content.isProper = true := by
  unfold IsProper at proper
  cases content : d.content with
  | list items => rfl
  | tuple items => rfl
  | _ =>
    rw [content] at proper
    exact proper

theorem IsPlain.isProper (plain : x.IsPlain) : x.IsProper :=
  Content.builtOf_mono (fun _ known => (Bool.and_eq_true_iff.mp known).1) x.content plain

theorem number_of_proper (proper : x.content.isProper = true) (hx : x.number? = some n) :
    n.extended? ≠ Option.none := by
  rw [content_of_number? hx] at proper
  intro place
  rw [place] at proper
  cases proper

theorem IsPlain.known (plain : x.IsPlain) : x.content ≠ .other := by
  intro content
  rw [IsPlain, content] at plain
  cases plain

theorem firstDifference_know (know : ∀ x ∈ xs, parts.Know x) (ds : List Value) :
    parts.firstDifference ds xs = .ok (firstApart ds xs) ∧
      parts.firstDifference xs ds = .ok ((firstApart ds xs).map Prod.swap) := by
  induction xs generalizing ds with
  | nil => cases ds <;> exact ⟨rfl, rfl⟩
  | cons x xs ih =>
    cases ds with
    | nil => exact ⟨rfl, rfl⟩
    | cons d ds =>
      obtain ⟨asked, back⟩ := (know x List.mem_cons_self).alike d
      obtain ⟨rest, restBack⟩ := ih (fun y mem => know y (List.mem_cons_of_mem x mem)) ds
      rw [Parts.firstDifference, Parts.firstDifference, asked, back, firstApart]
      by_cases same : d.content = x.content
      · rw [decide_eq_true same, if_pos same]
        exact ⟨rest, restBack⟩
      · rw [decide_eq_false same, if_neg same]
        exact ⟨rfl, rfl⟩

theorem firstApart_eq_none :
    firstApart ds xs = Option.none ∧ ds.length = xs.length ↔ contents ds = contents xs := by
  induction ds generalizing xs with
  | nil => cases xs <;> simp [firstApart, contents]
  | cons d ds ih =>
    cases xs with
    | nil => simp [contents]
    | cons x xs =>
      by_cases same : d.content = x.content
      · simp [firstApart, contents, same, ih]
      · simp [firstApart, contents, same]

theorem of_firstApart (found : firstApart ds xs = some (d, x)) :
    d ∈ ds ∧ x ∈ xs ∧ d.content ≠ x.content := by
  induction ds generalizing xs with
  | nil => cases found
  | cons e ds ih =>
    cases xs with
    | nil => cases found
    | cons y xs =>
      rw [firstApart] at found
      by_cases same : e.content = y.content
      · rw [if_pos same] at found
        obtain ⟨memD, memX, apart⟩ := ih found
        exact ⟨List.mem_cons_of_mem e memD, List.mem_cons_of_mem y memX, apart⟩
      · rw [if_neg same] at found
        cases found
        exact ⟨List.mem_cons_self, List.mem_cons_self, same⟩

/-- Lists of the same content differ from another list at the same position. -/
theorem firstApart_congr (same : contents xs = contents ys) (ls : List Value) :
    firstApart ls xs = Option.none ∧ firstApart ls ys = Option.none ∨
      ∃ l x y, firstApart ls xs = some (l, x) ∧ firstApart ls ys = some (l, y) ∧
        x.content = y.content := by
  induction ls generalizing xs ys with
  | nil => exact .inl ⟨rfl, rfl⟩
  | cons l ls ih =>
    cases xs with
    | nil =>
      cases ys with
      | nil => exact .inl ⟨rfl, rfl⟩
      | cons y ys => cases same
    | cons x xs =>
      cases ys with
      | nil => cases same
      | cons y ys =>
        obtain ⟨head, rest⟩ := Contents.cons.inj same
        rw [firstApart, firstApart, ← head]
        by_cases equal : l.content = x.content
        · rw [if_pos equal, if_pos equal]
          exact ih rest
        · rw [if_neg equal, if_neg equal]
          exact .inr ⟨l, x, y, rfl, rfl, head⟩

theorem sameItems_know (know : ∀ x ∈ xs, parts.Know x) (ds : List Value) :
    parts.sameItems ds xs = .ok (decide (contents ds = contents xs)) ∧
      parts.sameItems xs ds = .ok (decide (contents ds = contents xs)) := by
  obtain ⟨asked, back⟩ := firstDifference_know know ds
  have decided : ((firstApart ds xs).isNone && ds.length == xs.length) =
      decide (contents ds = contents xs) := by
    rw [Bool.eq_iff_iff, decide_eq_true_iff, ← firstApart_eq_none]
    simp
  rw [Parts.sameItems, Parts.sameItems, asked, back, ← decided]
  refine ⟨rfl, ?_⟩
  show Except.ok (((firstApart ds xs).map Prod.swap).isNone && xs.length == ds.length) = _
  rw [Option.isNone_map, Bool.beq_comm]

theorem orderItems_know (relation : Relation) (know : ∀ x ∈ xs, parts.Know x) (ds : List Value) :
    parts.orderItems relation ds xs =
        (match firstApart ds xs with
        | some (d, x) => parts.relate relation d x
        | Option.none => .ok (relation.holds (compare ds.length xs.length))) ∧
      parts.orderItems relation xs ds =
        (match firstApart ds xs with
        | some (d, x) => parts.relate relation x d
        | Option.none => .ok (relation.holds (compare xs.length ds.length))) := by
  obtain ⟨asked, back⟩ := firstDifference_know know ds
  rw [Parts.orderItems, Parts.orderItems, asked, back]
  cases firstApart ds xs <;> exact ⟨rfl, rfl⟩

theorem items_of_plain {levels : Nat} (plain : (contents xs).builtOf Content.isKnown = true)
    (inside : depthOfList xs < levels) : ∀ x ∈ xs, x.IsPlain ∧ x.depth < levels := fun x mem =>
  ⟨builtOf_contents.mp plain x mem, (depth_le_depthOfList mem).trans_lt inside⟩

-- The inductions below are on the levels: items of lists and tuples are compared one level deeper.

/-- Values that are built of nothing, numbers, text, lists and tuples are equal to what has their
content, and to nothing else. -/
theorem know_of_plain (levels : Nat) (plain : x.IsPlain) (deep : x.depth < levels) :
    (partsBelow levels).Know x := by
  induction levels generalizing x with
  | zero => cases deep
  | succ levels ih =>
    have items {xs : List Value} (plain : (contents xs).builtOf Content.isKnown = true)
        (deep : depthOfList xs + 1 < levels + 1) : ∀ x ∈ xs, (partsBelow levels).Know x := by
      intro x mem
      obtain ⟨plain, deep⟩ := items_of_plain plain (Nat.lt_of_succ_lt_succ deep) x mem
      exact ih plain deep
    have decided (d : Value) : (partsBelow levels).equality d x = .ok (decide (d.content = x.content)) ∧
        (partsBelow levels).equality x d = .ok (decide (d.content = x.content)) := by
      rcases sameSort_or_foreign plain.known (partsBelow levels) d with sort | foreign
      · cases sort with
        | nothing => exact ⟨rfl, rfl⟩
        | missing => exact ⟨rfl, rfl⟩
        | numbers hd hx =>
          obtain ⟨asked, back⟩ := Number.order_beq_eq (number_of_proper plain.proper hx)
          rw [equality_numbers hd hx, equality_numbers hx hd, asked, back, content_of_number? hd,
            content_of_number? hx]
          simp only [Content.number.injEq, and_self]
        | texts s t =>
          show Except.ok (s == t) = _ ∧ Except.ok (t == s) = _
          simp [content, Bool.beq_eq_decide_eq, eq_comm]
        | lists ds xs =>
          obtain ⟨asked, back⟩ := sameItems_know (items plain deep) ds
          show (if ds.length = xs.length then (partsBelow levels).sameItems ds xs else .ok false) = _ ∧
            (if xs.length = ds.length then (partsBelow levels).sameItems xs ds else .ok false) = _
          rw [asked, back]
          simp only [content, Content.list.injEq]
          by_cases length : ds.length = xs.length
          · rw [if_pos length, if_pos length.symm]
            exact ⟨rfl, rfl⟩
          · rw [if_neg length, if_neg (Ne.symm length),
              decide_eq_false fun same => length (length_of_contents same)]
            exact ⟨rfl, rfl⟩
        | tuples ds xs =>
          obtain ⟨asked, back⟩ := sameItems_know (items plain deep) ds
          show (partsBelow levels).sameItems ds xs = _ ∧ (partsBelow levels).sameItems xs ds = _
          rw [asked, back]
          simp only [content, Content.tuple.injEq, and_self]
      · rw [foreign.not_equal.1, foreign.not_equal.2, decide_eq_false foreign.content]
        exact ⟨rfl, rfl⟩
    exact ⟨plain.proper, fun d => (decided d).1, fun d => (decided d).2⟩

/-- The items of a list or tuple are known one level below. -/
theorem know_items {levels : Nat} (plain : (contents xs).builtOf Content.isKnown = true)
    (deep : depthOfList xs < levels) : ∀ x ∈ xs, (partsBelow levels).Know x := by
  intro x mem
  obtain ⟨plain, deep⟩ := items_of_plain plain deep x mem
  exact know_of_plain levels plain deep

/-- The failure says that two values have no order. -/
def SaysUnordered (e : Failure) : Prop := ∃ asked left right, e = .unordered asked left right

/-- A comparison with a value fails only because two values have no order. -/
theorem relate_unordered (levels : Nat) (plain : x.IsPlain) (deep : x.depth < levels) {e : Failure}
    (failed : (partsBelow levels).relate relation d x = .error e ∨
      (partsBelow levels).relate relation x d = .error e) : SaysUnordered e := by
  induction levels generalizing d x with
  | zero => cases deep
  | succ levels ih =>
    have failed : (partsBelow levels).order relation d x = .error e ∨
      (partsBelow levels).order relation x d = .error e := failed
    have items {ds xs : List Value} (plain : (contents xs).builtOf Content.isKnown = true)
        (deep : depthOfList xs + 1 < levels + 1)
        (failed : (partsBelow levels).orderItems relation ds xs = .error e ∨
          (partsBelow levels).orderItems relation xs ds = .error e) : SaysUnordered e := by
      have deep := Nat.lt_of_succ_lt_succ deep
      obtain ⟨asked, back⟩ := orderItems_know relation (know_items plain deep) ds
      rw [asked, back] at failed
      cases found : firstApart ds xs with
      | none =>
        rw [found] at failed
        rcases failed with failed | failed <;> cases failed
      | some pair =>
        rw [found] at failed
        obtain ⟨plain, deep⟩ := items_of_plain plain deep pair.2 (of_firstApart found).2.1
        exact ih plain deep failed
    rcases sameSort_or_foreign plain.known (partsBelow levels) d with sort | foreign
    · cases sort with
      | nothing => rcases failed with failed | failed <;> cases failed <;> exact ⟨_, _, _, rfl⟩
      | missing => rcases failed with failed | failed <;> cases failed <;> exact ⟨_, _, _, rfl⟩
      | numbers hd hx =>
        rw [order_numbers hd hx, order_numbers hx hd] at failed
        rcases failed with failed | failed <;> cases failed
      | texts s t => rcases failed with failed | failed <;> cases failed
      | lists ds xs => exact items plain deep failed
      | tuples ds xs => exact items plain deep failed
    · obtain ⟨asked, back⟩ := foreign.unordered relation
      rw [asked, back] at failed
      rcases failed with failed | failed <;> cases failed <;> exact ⟨_, _, _, rfl⟩

/-- What is neither less nor greater than a value has its content. -/
theorem content_eq_of_not_less (levels : Nat) (plain : x.IsPlain) (proper : d.IsProper)
    (deep : x.depth < levels) (below : (partsBelow levels).relate .lt d x = .ok false)
    (above : (partsBelow levels).relate .lt x d = .ok false) : d.content = x.content := by
  induction levels generalizing d x with
  | zero => cases deep
  | succ levels ih =>
    have below : (partsBelow levels).order .lt d x = .ok false := below
    have above : (partsBelow levels).order .lt x d = .ok false := above
    have items {ds xs : List Value} (plain : (contents xs).builtOf Content.isKnown = true)
        (proper : (contents ds).builtOf Content.isProper = true)
        (deep : depthOfList xs + 1 < levels + 1)
        (below : (partsBelow levels).orderItems .lt ds xs = .ok false)
        (above : (partsBelow levels).orderItems .lt xs ds = .ok false) :
        contents ds = contents xs := by
      have deep := Nat.lt_of_succ_lt_succ deep
      obtain ⟨asked, back⟩ := orderItems_know .lt (know_items plain deep) ds
      rw [asked] at below
      rw [back] at above
      rw [← firstApart_eq_none]
      cases found : firstApart ds xs with
      | none =>
        rw [found] at below above
        exact ⟨rfl, Relation.eq_of_not_less (Except.ok.inj below) (Except.ok.inj above)⟩
      | some pair =>
        rw [found] at below above
        obtain ⟨memD, memX, apart⟩ := of_firstApart found
        obtain ⟨plain, deep⟩ := items_of_plain plain deep pair.2 memX
        exact absurd (ih plain (builtOf_contents.mp proper _ memD) deep below above) apart
    rcases sameSort_or_foreign plain.known (partsBelow levels) d with sort | foreign
    · cases sort with
      | nothing => cases below
      | missing => cases below
      | numbers hd hx =>
        rw [order_numbers hd hx, Except.ok.injEq] at below
        rw [order_numbers hx hd, Except.ok.injEq] at above
        rw [content_of_number? hd, content_of_number? hx, Number.extended?_eq_of_not_less
          (number_of_proper proper.content hd) (number_of_proper plain.proper hx) below above]
      | texts s t =>
        have below : Except.ok (Relation.lt.holds (compare s t)) = Except.ok false := below
        have above : Except.ok (Relation.lt.holds (compare t s)) = Except.ok false := above
        rw [Except.ok.injEq] at below above
        exact congrArg Content.text (Relation.eq_of_not_less below above)
      | lists ds xs => exact congrArg Content.list (items plain proper deep below above)
      | tuples ds xs => exact congrArg Content.tuple (items plain proper deep below above)
    · rw [(foreign.unordered .lt).1] at below
      cases below

/-- What has the content of a value answers as the value does, to whatever is asked about the two and a
third value. The two may be asked with different numbers of levels. -/
theorem relate_congr (levels levels' : Nat) (plain : x.IsPlain) (same : d.content = x.content)
    (deepD : d.depth < levels) (deepX : x.depth < levels')
    (asked : (partsBelow levels).relate relation l d = .ok r) :
    (partsBelow levels').relate relation l x = .ok r := by
  induction levels generalizing levels' l d x with
  | zero => cases deepD
  | succ levels ih =>
    obtain ⟨levels', rfl⟩ := Nat.exists_eq_add_one_of_ne_zero (Nat.ne_zero_of_lt deepX)
    have asked : (partsBelow levels).order relation l d = .ok r := asked
    show (partsBelow levels').order relation l x = .ok r
    have items {ls ds xs : List Value} (plain : (contents xs).builtOf Content.isKnown = true)
        (same : contents ds = contents xs) (deepD : depthOfList ds + 1 < levels + 1)
        (deepX : depthOfList xs + 1 < levels' + 1)
        (asked : (partsBelow levels).orderItems relation ls ds = .ok r) :
        (partsBelow levels').orderItems relation ls xs = .ok r := by
      have deepD := Nat.lt_of_succ_lt_succ deepD
      have deepX := Nat.lt_of_succ_lt_succ deepX
      have plainD : (contents ds).builtOf Content.isKnown = true := same ▸ plain
      rw [(orderItems_know _ (know_items plainD deepD) ls).1] at asked
      rw [(orderItems_know _ (know_items plain deepX) ls).1]
      rcases firstApart_congr same ls with ⟨foundD, foundX⟩ | ⟨l, d, x, foundD, foundX, equal⟩
      · rw [foundD] at asked
        rw [foundX, ← length_of_contents same]
        exact asked
      · rw [foundD] at asked
        rw [foundX]
        obtain ⟨_, deepD⟩ := items_of_plain plainD deepD d (of_firstApart foundD).2.1
        obtain ⟨plain, deepX⟩ := items_of_plain plain deepX x (of_firstApart foundX).2.1
        exact ih levels' plain equal deepD deepX asked
    have sort := sameSort_of_order (same ▸ plain.known) asked
    cases sameSort_of_content plain.known same with
    | nothing =>
      cases sort with
      | nothing => cases asked
      | numbers hl hd => cases hd
    | missing =>
      cases sort with
      | missing => cases asked
      | numbers hl hd => cases hd
    | numbers hd hx =>
      rw [content_of_number? hd, content_of_number? hx] at same
      cases sort with
      | numbers hl hd' =>
        obtain rfl := Option.some.inj (hd.symm.trans hd')
        rw [order_numbers hl hd] at asked
        rw [order_numbers hl hx, ← Number.order_congr (Content.number.inj same)]
        exact asked
      | _ => cases hd
    | texts s t =>
      cases Content.text.inj same
      cases sort with
      | texts u s => exact asked
      | numbers hl hd => cases hd
    | lists ds xs =>
      cases sort with
      | lists ls ds => exact items plain (Content.list.inj same) deepD deepX asked
      | numbers hl hd => cases hd
    | tuples ds xs =>
      cases sort with
      | tuples ls ds => exact items plain (Content.tuple.inj same) deepD deepX asked
      | numbers hl hd => cases hd

/-- A value is not less than one of its content, if that has an order at all. -/
theorem not_less_of_content_eq (levels levels' : Nat) (plain : x.IsPlain) (same : d.content = x.content)
    (deep : x.depth < levels') (asked : (partsBelow (levels + 1)).relate .lt d d = .ok r) :
    (partsBelow levels').relate .lt x d = .ok false := by
  obtain ⟨levels', rfl⟩ := Nat.exists_eq_add_one_of_ne_zero (Nat.ne_zero_of_lt deep)
  show (partsBelow levels').order .lt x d = .ok false
  have items {ds xs : List Value} (plain : (contents xs).builtOf Content.isKnown = true)
      (same : contents ds = contents xs) (deep : depthOfList xs + 1 < levels' + 1) :
      (partsBelow levels').orderItems .lt xs ds = .ok false := by
    obtain ⟨noneApart, length⟩ := firstApart_eq_none.mpr same
    rw [(orderItems_know _ (know_items plain (Nat.lt_of_succ_lt_succ deep)) ds).2, noneApart, length]
    simp [Relation.holds]
  cases sameSort_of_content plain.known same with
  | nothing => cases asked
  | missing => cases asked
  | numbers hd hx =>
    have place := number_of_proper plain.proper hx
    rw [content_of_number? hd, content_of_number? hx] at same
    have equal := Content.number.inj same
    rw [order_numbers hx hd, Number.order_eq_some_eq.mpr ⟨equal.symm, equal ▸ place⟩]
    rfl
  | texts s t =>
    cases Content.text.inj same
    show Except.ok (Relation.lt.holds (compare s s)) = _
    simp [Relation.holds]
  | lists ds xs => exact items plain (Content.list.inj same) deep
  | tuples ds xs => exact items plain (Content.tuple.inj same) deep

/-- Is the value a dictionary, or one of this library's maps? -/
def IsMap : Value → Prop
  | .dict _ | .sortedMap _ | .defaultMap _ _ => True
  | _ => False

/-- Maps have no order. -/
theorem relate_map (levels : Nat) (map : x.IsMap) (relation : Relation) (d : Value) :
    (partsBelow (levels + 1)).relate relation d x = .error (.unordered relation d.kind x.kind) ∧
      (partsBelow (levels + 1)).relate relation x d = .error (.unordered relation x.kind d.kind) := by
  have own (relation : Relation) : (partsBelow levels).ownOrder relation d x = Option.none ∧
      (partsBelow levels).ownOrder relation x d = Option.none := by
    cases x <;> first | exact False.elim map | cases d <;> exact ⟨rfl, rfl⟩
  show (partsBelow levels).order relation d x = _ ∧ (partsBelow levels).order relation x d = _
  simp [Parts.order, answerOf, own]

/-- Only maps are equal to maps. -/
theorem isMap_of_same (levels : Nat) (map : x.IsMap)
    (same : (partsBelow (levels + 1)).same d x = .ok true) : d.IsMap := by
  have same : (partsBelow levels).equality d x = .ok true := same
  cases x <;> first | exact False.elim map | cases d <;> first | trivial | cases same

end Value

end SortedCollections
