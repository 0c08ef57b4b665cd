import SortedCollections.Proofs.Values.Levels

/-!
# Equal keys

Whether two values that can be keys are equal has an answer, even if neither is less than the other
because they have no order. Keys that are equal compare in the same way with all others: of numbers it
matters where they stand, of tuples their items, and all other keys that are equal are the same. So what
is equal to keys that are ordered is ordered like these.
-/
namespace SortedCollections

namespace Value

variable {parts : Parts} {x x' y y' : Value} {xs xs' ys ys' : List Value} {levels : Nat}

/-- A value that can be a key and is nested less deep than a number of levels. -/
structure KeyBelow (levels : Nat) (x : Value) : Prop where
  hashable : x.IsHashable
  deep : x.depth < levels

theorem KeyBelow.items (key : (tuple xs).KeyBelow (levels + 1)) : ∀ x ∈ xs, x.KeyBelow levels := by
  intro x mem
  have deep : depthOfList xs + 1 < levels + 1 := key.deep
  have := depth_le_depthOfList mem
  exact ⟨hashable_items key.hashable x mem, by omega⟩

theorem sameItems_eq_true :
    parts.sameItems xs ys = .ok true ↔ List.Forall₂ (fun x y => parts.alike x y = .ok true) xs ys := by
  induction xs generalizing ys with
  | nil => cases ys <;> simp [Parts.sameItems, Parts.firstDifference, bind, Except.bind, pure, Except.pure]
  | cons x xs ih =>
    cases ys with
    | nil => simp [Parts.sameItems, Parts.firstDifference, bind, Except.bind, pure, Except.pure]
    | cons y ys =>
      rw [List.forall₂_cons, ← ih, Parts.sameItems, Parts.firstDifference, Parts.sameItems]
      cases parts.alike x y with
      | error e => simp [bind, Except.bind]
      | ok same => 
        cases same <;> simp [bind, Except.bind, pure, Except.pure]

theorem firstDifference_answers (answers : ∀ x ∈ xs, ∀ y ∈ ys, ∃ r, parts.alike x y = .ok r) :
    ∃ d, parts.firstDifference xs ys = .ok d := by
  induction xs generalizing ys with
  | nil => exact ⟨_, rfl⟩
  | cons x xs ih =>
    cases ys with
    | nil => exact ⟨_, rfl⟩
    | cons y ys =>
      obtain ⟨same, asked⟩ := answers x (by simp) y (by simp)
      rw [Parts.firstDifference, asked]
      cases same with
      | true => exact ih fun x memX y memY => answers x (.tail _ memX) y (.tail _ memY)
      | false => exact ⟨_, rfl⟩

/-- Lists of equal keys differ at the same position, and there from equal keys. -/
theorem firstDifference_agree
    (agree : ∀ x ∈ xs, ∀ x' ∈ xs', ∀ y ∈ ys, ∀ y' ∈ ys', parts.alike x x' = .ok true →
      parts.alike y y' = .ok true → ∃ r, parts.alike x y = .ok r ∧ parts.alike x' y' = .ok r)
    (first : List.Forall₂ (fun x y => parts.alike x y = .ok true) xs xs')
    (second : List.Forall₂ (fun x y => parts.alike x y = .ok true) ys ys') :
    parts.firstDifference xs ys = .ok Option.none ∧
        parts.firstDifference xs' ys' = .ok Option.none ∨
      ∃ x y x' y', parts.firstDifference xs ys = .ok (some (x, y)) ∧
        parts.firstDifference xs' ys' = .ok (some (x', y')) ∧
        parts.alike x x' = .ok true ∧ parts.alike y y' = .ok true := by
  induction first generalizing ys ys' with
  | nil => exact .inl ⟨rfl, rfl⟩
  | @cons x x' xs xs' twinX first ih =>
    cases second with
    | nil => exact .inl ⟨rfl, rfl⟩
    | @cons y y' ys ys' twinY second =>
      obtain ⟨same, asked, asked'⟩ :=
        agree x (by simp) x' (by simp) y (by simp) y' (by simp) twinX twinY
      rw [Parts.firstDifference, Parts.firstDifference, asked, asked']
      cases same with
      | true =>
        exact ih (fun x mem x' mem' y memY y' memY' =>
          agree x (.tail _ mem) x' (.tail _ mem') y (.tail _ memY) y' (.tail _ memY')) second
      | false => exact .inr ⟨x, y, x', y', rfl, rfl, twinX, twinY⟩

/-- Two keys that a container takes for the same. -/
inductive Twins (parts : Parts) : Value → Value → Prop where
  | numbers {v w : Value} {m n : Number} (hv : v.number? = some m) (hw : w.number? = some n)
    (place : m.extended? = n.extended?)
    (marks : v = w ∨ v.content.isProper = true ∧ w.content.isProper = true) : Twins parts v w
  | tuples {xs ys : List Value} (items : List.Forall₂ (fun x y => parts.alike x y = .ok true) xs ys) :
    Twins parts (.tuple xs) (.tuple ys)
  | same {x : Value} (noNumber : x.number? = Option.none) (noTuple : x.kind ≠ .tuple) : Twins parts x x

theorem eq_of_isMarkedAlike (marked : isMarkedAlike x y = true) : x = y := by
  cases x with
  | notANumber mark =>
    cases y with
    | notANumber other => rw [eq_of_beq marked]
    | _ => cases marked
  | _ => cases y <;> cases marked

theorem number_of_isMarkedAlike (marked : isMarkedAlike x y = true) : x.number?.isSome = true := by
  cases x <;> cases y <;> first | rfl | cases marked

theorem alike_succ (levels : Nat) (x y : Value) : (partsBelow (levels + 1)).alike x y =
    if isMarkedAlike x y then .ok true else (partsBelow levels).equality x y := rfl

theorem twins_of_alike (hashable : y.IsHashable)
    (alike : (partsBelow (levels + 1)).alike x y = .ok true) : Twins (partsBelow levels) x y := by
  rw [alike_succ] at alike
  by_cases marked : isMarkedAlike x y = true
  · obtain rfl := eq_of_isMarkedAlike marked
    obtain ⟨n, number⟩ := Option.isSome_iff_exists.mp (number_of_isMarkedAlike marked)
    exact .numbers number number rfl (.inl rfl)
  · rw [if_neg marked] at alike
    rcases sameSort_or_foreign hashable.known (partsBelow levels) x with sort | foreign
    · cases sort with
      | nothing => exact .same rfl (by decide)
      | missing => exact .same rfl (by decide)
      | @numbers _ _ m n hv hw =>
        rw [equality_numbers hv hw, Except.ok.injEq, beq_iff_eq, Number.order_eq_some_eq] at alike
        obtain ⟨place, number⟩ := alike
        refine .numbers hv hw place (.inr ?_)
        obtain ⟨q, number⟩ := Option.ne_none_iff_exists'.mp number
        rw [content_of_number? hv, content_of_number? hw, place, number]
        exact ⟨rfl, rfl⟩
      | texts s t =>
        have alike : Except.ok (s == t) = Except.ok true := alike
        obtain rfl := eq_of_beq (Except.ok.inj alike)
        exact .same rfl (by rintro ⟨⟩)
      | lists xs ys => cases hashable
      | tuples xs ys => exact .tuples (sameItems_eq_true.mp alike)
    · rw [foreign.not_equal.1] at alike
      cases alike

/-- Whether two keys are equal has an answer. -/
theorem alike_answers (hx : x.KeyBelow levels) (hy : y.KeyBelow levels) :
    ∃ r, (partsBelow levels).alike x y = .ok r := by
  induction levels generalizing x y with
  | zero => cases hx.deep
  | succ levels ih =>
    rw [alike_succ]
    by_cases marked : isMarkedAlike x y = true
    · exact ⟨true, if_pos marked⟩
    · rw [if_neg marked]
      rcases sameSort_or_foreign hy.hashable.known (partsBelow levels) x with sort | foreign
      · cases sort with
        | nothing => exact ⟨true, rfl⟩
        | missing => exact ⟨true, rfl⟩
        | numbers hv hw => exact ⟨_, equality_numbers hv hw⟩
        | texts s t => exact ⟨_, rfl⟩
        | lists xs ys => cases hy.hashable
        | tuples xs ys =>
          obtain ⟨d, asked⟩ := firstDifference_answers fun x memX y memY =>
            ih (hx.items x memX) (hy.items y memY)
          show ∃ r, (partsBelow levels).sameItems xs ys = .ok r
          rw [Parts.sameItems, asked]
          exact ⟨_, rfl⟩
      · exact ⟨false, foreign.not_equal.1⟩

/-- Where the numbers of two values stand decides how the values compare. -/
theorem numbers_agree {m m' n n' : Number} (levels : Nat) (hx : x.number? = some m) (hx' : x'.number? = some m')
    (hy : y.number? = some n) (hy' : y'.number? = some n') (placeX : m.extended? = m'.extended?)
    (placeY : n.extended? = n'.extended?) :
    (partsBelow levels).equality x y = (partsBelow levels).equality x' y' ∧
      ∀ relation, (partsBelow levels).order relation x y = (partsBelow levels).order relation x' y' := by
  have same : m.order n = m'.order n' := by
    rw [Number.order_eq_compare, Number.order_eq_compare, placeX, placeY]
  refine ⟨?_, fun relation => ?_⟩
  · rw [equality_numbers hx hy, equality_numbers hx' hy', same]
  · rw [order_numbers hx hy, order_numbers hx' hy', same]

/-- Keys of different sorts are not equal, and have no order. -/
theorem not_alike_of_foreign (foreign : Foreign (partsBelow levels) x y) :
    (partsBelow (levels + 1)).alike x y = .ok false ∧
      ∀ relation r, (partsBelow (levels + 1)).relate relation x y ≠ .ok r := by
  have unmarked : ¬isMarkedAlike x y = true := fun marked =>
    foreign.content (by rw [eq_of_isMarkedAlike marked])
  refine ⟨?_, fun relation r asked => ?_⟩
  · rw [alike_succ, if_neg unmarked]
    exact foreign.not_equal.1
  · have asked : (partsBelow levels).order relation x y = .ok r := asked
    rw [(foreign.unordered relation).1] at asked
    cases asked

/-- The kind of a key, where numbers of all kinds count as one. -/
def sort (x : Value) : Kind := if x.number?.isSome then .int else x.kind

theorem sort_number {m : Number} (hx : x.number? = some m) : x.sort = .int := by
  rw [sort, hx]
  rfl

theorem SameSort.sort_eq (same : SameSort x y) : x.sort = y.sort := by
  cases same with
  | numbers hv hw => rw [sort_number hv, sort_number hw]
  | _ => rfl

theorem Twins.sort_eq (twins : Twins parts x y) : x.sort = y.sort := by
  cases twins with
  | numbers hv hw => rw [sort_number hv, sort_number hw]
  | _ => rfl

theorem sort_of_same (noNumber : x.number? = Option.none) (noTuple : x.kind ≠ .tuple) :
    x.sort ≠ .int ∧ x.sort ≠ .tuple := by
  have own : x.sort = x.kind := by
    rw [sort, noNumber]
    rfl
  rw [own]
  refine ⟨?_, noTuple⟩
  cases x <;> first | cases noNumber; done | exact fun absurd => by cases absurd

theorem marks_agree (marksX : x = x' ∨ x.content.isProper = true ∧ x'.content.isProper = true)
    (marksY : y = y' ∨ y.content.isProper = true ∧ y'.content.isProper = true) :
    isMarkedAlike x y = isMarkedAlike x' y' := by
  rcases marksX with rfl | ⟨properX, properX'⟩
  · rcases marksY with rfl | ⟨properY, properY'⟩
    · rfl
    · rw [(isMarkedAlike_of_proper properY x).1, (isMarkedAlike_of_proper properY' x).1]
  · rw [(isMarkedAlike_of_proper properX y).2, (isMarkedAlike_of_proper properX' y').2]

/-- Lists of equal keys compare in the same way, if the keys do. -/
theorem items_agree
    (agree : ∀ x ∈ xs, ∀ x' ∈ xs', ∀ y ∈ ys, ∀ y' ∈ ys', parts.alike x x' = .ok true →
      parts.alike y y' = .ok true → (∃ r, parts.alike x y = .ok r ∧ parts.alike x' y' = .ok r) ∧
        ∀ relation r, parts.relate relation x y = .ok r → parts.relate relation x' y' = .ok r)
    (first : List.Forall₂ (fun x y => parts.alike x y = .ok true) xs xs')
    (second : List.Forall₂ (fun x y => parts.alike x y = .ok true) ys ys') :
    parts.sameItems xs ys = parts.sameItems xs' ys' ∧
      ∀ relation r, parts.orderItems relation xs ys = .ok r →
        parts.orderItems relation xs' ys' = .ok r := by
  have differ := firstDifference_agree (fun x mem x' mem' y memY y' memY' twinX twinY =>
    (agree x mem x' mem' y memY y' memY' twinX twinY).1) first second
  rw [Parts.sameItems, Parts.sameItems, first.length_eq, second.length_eq]
  rcases differ with ⟨found, found'⟩ | ⟨x, y, x', y', found, found', twinX, twinY⟩
  · rw [found, found']
    refine ⟨rfl, fun relation r asked => ?_⟩
    rw [Parts.orderItems, found, first.length_eq, second.length_eq] at asked
    rw [Parts.orderItems, found']
    exact asked
  · rw [found, found']
    refine ⟨rfl, fun relation r asked => ?_⟩
    rw [Parts.orderItems, found] at asked
    rw [Parts.orderItems, found']
    obtain ⟨memX, memY⟩ := mem_of_firstDifference found
    obtain ⟨memX', memY'⟩ := mem_of_firstDifference found'
    exact (agree x memX x' memX' y memY y' memY' twinX twinY).2 relation r asked

-- The induction is on the levels: of two tuples the items are asked, which have one level less.

/-- Equal keys compare in the same way with equal keys. -/
theorem keys_agree (hx : x.KeyBelow levels) (hx' : x'.KeyBelow levels) (hy : y.KeyBelow levels)
    (hy' : y'.KeyBelow levels) (first : (partsBelow levels).alike x x' = .ok true)
    (second : (partsBelow levels).alike y y' = .ok true) :
    (partsBelow levels).alike x y = (partsBelow levels).alike x' y' ∧
      ∀ relation r, (partsBelow levels).relate relation x y = .ok r →
        (partsBelow levels).relate relation x' y' = .ok r := by
  induction levels generalizing x x' y y' with
  | zero => cases hx.deep
  | succ levels ih =>
    have twinX := twins_of_alike hx'.hashable first
    have twinY := twins_of_alike hy'.hashable second
    by_cases sort : x.sort = y.sort
    · cases twinX with
      | numbers hv hv' placeX marksX =>
        have number := sort_number hv
        cases twinY with
        | numbers hw hw' placeY marksY =>
          obtain ⟨equal, related⟩ := numbers_agree levels hv hv' hw hw' placeX placeY
          refine ⟨?_, fun relation r asked => (related relation).symm.trans asked⟩
          rw [alike_succ, alike_succ, marks_agree marksX marksY, equal]
        | tuples items => cases number.symm.trans sort
        | same noNumber noTuple => exact absurd (sort ▸ number) (sort_of_same noNumber noTuple).1
      | @tuples xs xs' itemsX =>
        cases twinY with
        | numbers hw hw' placeY marksY => cases sort.trans (sort_number hw)
        | @tuples ys ys' itemsY =>
          refine items_agree (fun x mem x' mem' y memY y' memY' twinX twinY => ?_) itemsX itemsY
          have keyX := hx.items x mem
          have keyY := hy.items y memY
          obtain ⟨equal, related⟩ := ih keyX (hx'.items x' mem') keyY (hy'.items y' memY') twinX twinY
          obtain ⟨r, asked⟩ := alike_answers keyX keyY
          exact ⟨⟨r, asked, equal.symm.trans asked⟩, related⟩
        | same noNumber noTuple => exact absurd sort.symm (sort_of_same noNumber noTuple).2
      | same noNumberX noTupleX =>
        cases twinY with
        | numbers hw hw' placeY marksY =>
          exact absurd (sort.trans (sort_number hw)) (sort_of_same noNumberX noTupleX).1
        | tuples itemsY => exact absurd sort (sort_of_same noNumberX noTupleX).2
        | same noNumberY noTupleY => exact ⟨rfl, fun _ _ asked => asked⟩
    · have foreign {a b : Value} (hb : b.KeyBelow (levels + 1)) (apart : a.sort ≠ b.sort) :
          Foreign (partsBelow levels) a b :=
        (sameSort_or_foreign hb.hashable.known _ a).resolve_left fun same => apart same.sort_eq
      have apart := not_alike_of_foreign (foreign hy sort)
      have apart' := not_alike_of_foreign
        (foreign hy' fun same => sort (twinX.sort_eq.trans (same.trans twinY.sort_eq.symm)))
      exact ⟨apart.1.trans apart'.1.symm, fun relation r asked => absurd asked (apart.2 relation r)⟩

section Keys

variable {P : Value → Prop} (hx : x.IsHashable) (hy : y.IsHashable)
include hx hy

/-- Equal keys compare in the same way with equal keys, as deep as these may be. -/
theorem order_agree (hx' : x'.IsHashable) (hy' : y'.IsHashable) (first : order.eq x x' = .ok true)
    (second : order.eq y y' = .ok true) :
    order.eq x y = order.eq x' y' ∧ ∀ r, order.lt x y = .ok r → order.lt x' y' = .ok r := by
  obtain ⟨levels, bound⟩ : ∃ levels, levels = x.depth + x'.depth + y.depth + y'.depth + 1 := ⟨_, rfl⟩
  have deepX : x.depth < levels := by omega
  have deepX' : x'.depth < levels := by omega
  have deepY : y.depth < levels := by omega
  have deepY' : y'.depth < levels := by omega
  rw [← (comparison_inside hx hx' deepX deepX').2] at first
  rw [← (comparison_inside hy hy' deepY deepY').2] at second
  obtain ⟨equal, related⟩ :=
    keys_agree ⟨hx, deepX⟩ ⟨hx', deepX'⟩ ⟨hy, deepY⟩ ⟨hy', deepY'⟩ first second
  have inside := comparison_inside hx hy deepX deepY
  have inside' := comparison_inside hx' hy' deepX' deepY'
  rw [← inside.1, ← inside.2, ← inside'.1, ← inside'.2]
  exact ⟨equal, related .lt⟩

end Keys

/-- Is the value a key that is equal to one of the domain? -/
def EqualsSome (P : Value → Prop) (x : Value) : Prop :=
  x.IsHashable ∧ ∃ p, P p ∧ order.eq p x = .ok true

section EqualsSome

variable {P : Value → Prop} (ordered : order.OrderedOn P) (hashable : ∀ x, P x → x.IsHashable)
include ordered hashable

theorem equalsSome_self (hx : P x) : EqualsSome P x :=
  ⟨hashable x hx, x, hx, (ordered.eq_iff hx hx).mpr (ordered.decides.tied_self hx)⟩

/-- What equals keys that are ordered is ordered. -/
theorem equalsSome_ordered : order.OrderedOn (EqualsSome P) := by
  have rep : ∀ x, EqualsSome P x → ∃ p, P p ∧ order.eq p x = .ok true := fun x hx => hx.2
  choose! rep inside twin using rep
  refine (ordered.on fun x => .ok (rep x)).congr (fun x hx => ⟨rep x, rfl, inside x hx⟩) ?_
  intro x y hx hy
  have insideX := inside x hx
  have insideY := inside y hy
  obtain ⟨equal, related⟩ := order_agree (hashable _ insideX) (hashable _ insideY) hx.1 hy.1
    (twin x hx) (twin y hy)
  obtain ⟨r, asked⟩ := ordered.lt_answers _ _ insideX insideY
  exact ⟨(related r asked).trans asked.symm, equal.symm⟩

/-- Equality of keys is symmetric where the first ones are ordered. -/
theorem eq_symm (hx : P x) (hy : y.IsHashable) (same : order.eq x y = .ok true) :
    order.eq y x = .ok true := by
  have all := equalsSome_ordered ordered hashable
  have insideX := equalsSome_self ordered hashable hx
  have insideY : EqualsSome P y := ⟨hy, x, hx, same⟩
  rw [all.eq_iff insideX insideY, tied_comm] at same
  exact (all.eq_iff insideY insideX).mpr same

end EqualsSome

end Value

end SortedCollections
