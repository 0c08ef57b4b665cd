import SortedCollections.Proofs.Values.Dictionaries
import SortedCollections.Session.Basic

/-!
# Comparing containers with their own kind and with plain ones

A sorted set is compared with another one by a merge, and with an unordered set by asking for items. A
sorted map is compared with another one entry by entry, and with a dictionary by looking up keys. Sets
are found to include each other as the sets of their members do, either way; and maps are found equal
if they have the same keys with equal values, either way.
-/
namespace SortedCollections

namespace Value

variable {P : Value → Prop} {s t h : List Value}

/-- The values of a domain that are equal to an item of a list. -/
def among (P : Value → Prop) (items : List Value) : Set Value :=
  {x | P x ∧ ∃ y ∈ items, order.eq x y = .ok true}

theorem IsInteger.hashable {x : Value} (integer : x.IsInteger) : x.IsHashable := by
  obtain ⟨a, number⟩ := integer
  cases x <;> first | rfl | cases number

theorem mem_among (ordered : order.OrderedOn P) (inside : ∀ y ∈ s, P y) {x : Value} :
    x ∈ among P s ↔ P x ∧ hasTie order.less s x = true := by
  refine and_congr_right fun hx => ?_
  rw [hasTie_eq_true]
  exact exists_congr fun y => and_congr_right fun mem => ordered.eq_iff hx (inside y mem)

theorem within_iff_subset (ordered : order.OrderedOn P) (insideS : ∀ y ∈ s, P y)
    (insideT : ∀ y ∈ t, P y) : Within order.less s t ↔ among P s ⊆ among P t := by
  have order := ordered.decides
  constructor
  · intro within x mem
    rw [mem_among ordered insideS] at mem
    obtain ⟨y, memY, same⟩ := hasTie_eq_true.mp mem.2
    rw [mem_among ordered insideT, order.hasTie_congr insideT mem.1 (insideS y memY) same]
    exact ⟨mem.1, within y memY⟩
  · intro sub x mem
    have own : x ∈ among P s := (mem_among ordered insideS).mpr
      ⟨insideS x mem, hasTie_eq_true.mpr ⟨x, mem, order.tied_self (insideS x mem)⟩⟩
    exact ((mem_among ordered insideT).mp (sub own)).2

section Sets

variable (ordered : order.OrderedOn P) (hashable : ∀ x, P x → x.IsHashable)
  (hs : IncreasingOn order.less P s) (ht : IncreasingOn order.less P t) {levels : Nat}
  (deepS : ∀ x ∈ s, x.depth < levels) (deepT : ∀ x ∈ t, x.depth < levels)
include ordered hashable hs ht deepS deepT

theorem within_inside : Within (partsBelow levels).comparison.less s t ↔ among P s ⊆ among P t := by
  rw [← within_iff_subset ordered hs.inside ht.inside]
  refine forall₂_congr fun x mem => ?_
  rw [hasTie_inside hashable (fun y memY => ⟨ht.inside y memY, deepT y memY⟩)
    ⟨hs.inside x mem, deepS x mem⟩]

theorem both_within_inside :
    Within (partsBelow levels).comparison.less s t ∧ Within (partsBelow levels).comparison.less t s ↔
      among P s = among P t := by
  rw [within_inside ordered hashable hs ht deepS deepT,
    within_inside ordered hashable ht hs deepT deepS, Set.Subset.antisymm_iff]

theorem sets_related (relation : Relation) :
    Answered ((partsBelow levels).order relation (.sortedSet s) (.sortedSet t))
      (relation.ofInclusion (among P s ⊆ among P t) (among P t ⊆ among P s)) := by
  have answered := relateSets_answered (ordered_inside hashable ordered levels)
    (increasing_inside hashable hs deepS) (increasing_inside hashable ht deepT) relation
  exact (answered.mapError Failure.inside).congr
    (relation.ofInclusion_congr (within_inside ordered hashable hs ht deepS deepT)
      (within_inside ordered hashable ht hs deepT deepS))

theorem sets_equal : Answered ((partsBelow levels).equality (.sortedSet s) (.sortedSet t))
    (among P s = among P t) := by
  have answered := Answered.lift (isEqual_iff_within (ordered_inside hashable ordered levels)
    (increasing_inside hashable hs deepS) (increasing_inside hashable ht deepT))
  exact (answered.mapError Failure.inside).congr
    (both_within_inside ordered hashable hs ht deepS deepT)

variable (listed : h.Perm t)
include listed

theorem hashSet_related (relation : Relation) :
    Answered ((partsBelow levels).order relation (.sortedSet s) (.hashSet h))
      (relation.ofInclusion (among P s ⊆ among P t) (among P t ⊆ among P s)) := by
  have answered := relateToHashSet_answered (ordered_inside hashable ordered levels)
    (fun x hx => hashable x hx.1) (increasing_inside hashable hs deepS)
    (increasing_inside hashable ht deepT) listed relation
  exact (answered.mapError Failure.inside).congr
    (relation.ofInclusion_congr (within_inside ordered hashable hs ht deepS deepT)
      (within_inside ordered hashable ht hs deepT deepS))

theorem hashSet_equal : Answered ((partsBelow levels).equality (.sortedSet s) (.hashSet h))
    (among P s = among P t) := by
  have answered := sameAsHashSet_answered (ordered_inside hashable ordered levels)
    (fun x hx => hashable x hx.1) (increasing_inside hashable hs deepS)
    (increasing_inside hashable ht deepT) listed
  exact (answered.mapError Failure.inside).congr
    (both_within_inside ordered hashable hs ht deepS deepT)

end Sets

end Value

namespace Session

open Value

variable {registers : Registers} {left right other : Term} {a b : Value}

/-- What the signs that compare two sets say of them: whether they are equal, and whether the one lies
within the other, properly or not. -/
def Sign.compares : Sign → Option (Set Value → Set Value → Prop)
  | .equal => some (· = ·)
  | .relation sign => some fun s t => sign.ofInclusion (s ⊆ t) (t ⊆ s)
  | _ => none

theorem run_combine (hl : left.read registers = .ok a) (hr : right.read registers = .ok b)
    (sign : Sign) : run registers (.combine sign left right) = (combine sign a b, registers) := by
  rw [run, hl, hr]
  rfl

theorem run_equal (hl : left.read registers = .ok a) (hr : right.read registers = .ok b)
    {answer : Bool} : run registers (.combine .equal left right) = (.ok (.bool answer), registers) ↔
      Value.same a b = .ok answer := by
  rw [run_combine hl hr, combine]
  cases Value.same a b with
  | error e => exact iff_of_false (by rintro ⟨⟩) (by rintro ⟨⟩)
  | ok r => simp [bind, Except.bind, pure, Except.pure]

/-- A set compares with another one as it does with an unordered set, and as the sets of their members
compare. -/
def SetsCompared (registers : Registers) (P : Value → Prop) (s t h : List Value) : Prop :=
  ∀ sign meaning, Sign.compares sign = some meaning → ∀ left right other : Term,
    left.read registers = .ok (.sortedSet s) → right.read registers = .ok (.sortedSet t) →
    other.read registers = .ok (.hashSet h) → ∃ answer : Bool,
      run registers (.combine sign left right) = (.ok (.bool answer), registers) ∧
      run registers (.combine sign left other) = (.ok (.bool answer), registers) ∧
      (answer = true ↔ meaning (among P s) (among P t))

theorem setsCompared {P : Value → Prop} {s t h : List Value} (ordered : order.OrderedOn P)
    (hashable : ∀ x, P x → x.IsHashable) (hs : IncreasingOn order.less P s)
    (ht : IncreasingOn order.less P t) (listed : h.Perm t) : SetsCompared registers P s t h := by
  intro sign meaning compares left right other hl hr ho
  have deepS (n : Nat) : ∀ x ∈ s, x.depth < max (depthOfList s + 1) n :=
    depth_lt_of_mem (Nat.lt_of_succ_le (le_max_left _ _))
  have deepT : ∀ x ∈ t, x.depth < max (depthOfList s + 1) (depthOfList t + 1) :=
    depth_lt_of_mem (Nat.lt_of_succ_le (le_max_right _ _))
  have deepH : ∀ x ∈ t, x.depth < max (depthOfList s + 1) (depthOfList h + 1) := fun x mem =>
    depth_lt_of_mem (Nat.lt_of_succ_le (le_max_right _ _)) x (listed.mem_iff.mpr mem)
  have equal := (sets_equal ordered hashable hs ht (deepS _) deepT).unique
    (hashSet_equal ordered hashable hs ht (deepS _) deepH listed)
  have related (relation : Relation) :=
    (sets_related ordered hashable hs ht (deepS _) deepT relation).unique
      (hashSet_related ordered hashable hs ht (deepS _) deepH listed relation)
  rw [run_combine hl hr, run_combine hl ho]
  cases sign with
  | equal =>
    cases compares
    obtain ⟨answer, asked, asked', iff⟩ := equal
    have asked : Value.same (.sortedSet s) (.sortedSet t) = .ok answer := asked
    have asked' : Value.same (.sortedSet s) (.hashSet h) = .ok answer := asked'
    rw [combine, combine, asked, asked']
    exact ⟨answer, rfl, rfl, iff⟩
  | relation relation =>
    cases compares
    obtain ⟨answer, asked, asked', iff⟩ := related relation
    have asked : Value.relate relation (.sortedSet s) (.sortedSet t) = .ok answer := asked
    have asked' : Value.relate relation (.sortedSet s) (.hashSet h) = .ok answer := asked'
    rw [combine, combine, asked, asked']
    exact ⟨answer, rfl, rfl, iff⟩
  | _ => cases compares

/-- A map is found equal to another one, and to the dictionary of its entries, exactly if it has the same
keys with equal values. The second comparison answers if equality of the values of equal keys does, and
the first one answers the same where the second one answers. -/
structure MapsCompared (registers : Registers) (m n : List (Value × Value)) (left right other : Term) :
    Prop where
  equal_iff : run registers (.combine .equal left right) = (.ok (.bool true), registers) ↔
    (partsInside (.sortedMap m) (.sortedMap n)).SameMap m n
  dict_iff : run registers (.combine .equal left other) = (.ok (.bool true), registers) ↔
    (partsInside (.sortedMap m) (.sortedMap n)).SameMap m n
  agree : ∀ answer, run registers (.combine .equal left other) = (.ok (.bool answer), registers) →
    run registers (.combine .equal left right) = (.ok (.bool answer), registers)
  answers : (∀ e ∈ m, ∀ f ∈ n,
      (partsInside (.sortedMap m) (.sortedMap n)).alike e.1 f.1 = .ok true →
      ∃ r, (partsInside (.sortedMap m) (.sortedMap n)).alike e.2 f.2 = .ok r) →
    ∃ answer, run registers (.combine .equal left other) = (.ok (.bool answer), registers)

theorem mapsCompared {P Q : Value → Prop} {m n : List (Value × Value)} (keyedM : Keyed P m)
    (keyedN : Keyed Q n) (hl : left.read registers = .ok (.sortedMap m))
    (hr : right.read registers = .ok (.sortedMap n)) (ho : other.read registers = .ok (.dict n)) :
    MapsCompared registers m n left right other := by
  have deepM : ∀ e ∈ m, e.1.depth < max (depthOfEntries m + 1) (depthOfEntries n + 1) :=
    key_depth_lt_of_mem (Nat.lt_of_succ_le (le_max_left _ _))
  have deepN : ∀ f ∈ n, f.1.depth < max (depthOfEntries m + 1) (depthOfEntries n + 1) :=
    key_depth_lt_of_mem (Nat.lt_of_succ_le (le_max_right _ _))
  have ordered := ordered_inside keyedM.hashable keyedM.ordered
    (max (depthOfEntries m + 1) (depthOfEntries n + 1))
  have listed : (partsInside (.sortedMap m) (.sortedMap n)).dictOf m = .ok m :=
    dictOf_increasing ordered (fun x hx => keyedM.hashable x hx.1) (keyedM.inside deepM)
  have equal (r : Bool) : Value.same (.sortedMap m) (.sortedMap n) = .ok r ↔
      SortedMap.isEqual (partsInside (.sortedMap m) (.sortedMap n)).alike
        (partsInside (.sortedMap m) (.sortedMap n)).alike ⟨m⟩ ⟨n⟩ = .ok r := mapError_eq_ok
  have sameDict (r : Bool) : Value.same (.sortedMap m) (.dict n) = .ok r ↔
      (partsInside (.sortedMap m) (.sortedMap n)).sameDict m n = .ok r := by
    have own : Value.same (.sortedMap m) (.dict n) = (do
        (partsInside (.sortedMap m) (.sortedMap n)).sameDict
          (← (partsInside (.sortedMap m) (.sortedMap n)).dictOf m) n).mapError Failure.inside := rfl
    rw [own, listed]
    exact mapError_eq_ok
  constructor
  · rw [run_equal hl hr, equal]
    exact isEqual_iff_sameMap keyedM keyedN deepM deepN
  · rw [run_equal hl ho, sameDict]
    exact sameDict_iff keyedM keyedN deepM deepN
  · intro answer
    rw [run_equal hl ho, run_equal hl hr, sameDict, equal]
    exact isEqual_of_sameDict keyedM keyedN deepM deepN
  · intro answers
    obtain ⟨answer, asked⟩ := sameDict_answers keyedM keyedN deepM deepN answers
    exact ⟨answer, (run_equal hl ho).mpr ((sameDict answer).mpr asked)⟩

/-- A set compares with another one as with the unordered set of its items, and as the sets of their
members compare. A map is found equal to another one, and to the dictionary of its entries, exactly if
the keys are the same and the values of equal keys are equal. The keys of the two maps need not have an
order among each other. What equality of values fails with is passed on: the comparison with the
dictionary answers if equality of the values of equal keys does, and where it answers the comparison with
the map answers the same. -/
theorem comparisons_agree (registers : Registers) :
    (∀ P s t, order.OrderedOn P → (∀ x, P x → x.IsHashable) → IncreasingOn order.less P s →
      IncreasingOn order.less P t → (∃ h, Value.parts.hashSetOf t = .ok h ∧ h.Perm t) ∧
        ∀ h, h.Perm t → SetsCompared registers P s t h) ∧
    ∀ P Q m n, Keyed P m → Keyed Q n → Value.parts.dictOf n = .ok n ∧
      ∀ left right other : Term, left.read registers = .ok (.sortedMap m) →
        right.read registers = .ok (.sortedMap n) → other.read registers = .ok (.dict n) →
        MapsCompared registers m n left right other := by
  refine ⟨fun P s t ordered hashable hs ht => ⟨?_, fun h listed => ?_⟩, fun P Q m n keyedM keyedN => ?_⟩
  · exact ⟨_, hashSetOf_increasing ordered hashable ht, inSlotOrder_perm t⟩
  · exact setsCompared ordered hashable hs ht listed
  · exact ⟨dictOf_increasing keyedN.ordered keyedN.hashable keyedN.kept,
      fun left right other hl hr ho => mapsCompared keyedM keyedN hl hr ho⟩

/-- Sets and maps of whole numbers, where a truth value stands for one of them. -/
theorem whole_numbers_compared :
    let s : List Value := [.int 1, .int 3]
    let t : List Value := [.bool true, .int 3, .int 5]
    let h : List Value := [.int 3, .bool true, .int 5]
    let m : List (Value × Value) := [(.int 1, .text "a"), (.int 3, .list s)]
    let n : List (Value × Value) := [(.bool true, .text "a"), (.int 3, .list s)]
    let registers : Registers := [("s", .sortedSet s), ("t", .sortedSet t), ("h", .hashSet h),
      ("m", .sortedMap m), ("n", .sortedMap n), ("d", .dict n)]
    ((among IsInteger s ⊆ among IsInteger t ∧ ¬among IsInteger t ⊆ among IsInteger s) ∧
      run registers (.combine (.relation .lt) (.register "s") (.register "h")) =
        (.ok (.bool true), registers)) ∧
      (partsInside (.sortedMap m) (.sortedMap n)).SameMap m n ∧
      run registers (.combine .equal (.register "m") (.register "n")) =
        (.ok (.bool true), registers) := by
  intro s t h m n registers
  have hs : IncreasingOn order.less IsInteger s := by
    refine ⟨List.pairwise_pair.mpr rfl, ?_⟩
    simpa [s] using ⟨⟨1, rfl⟩, ⟨3, rfl⟩⟩
  have ht : IncreasingOn order.less IsInteger t := by
    refine ⟨.cons ?_ (List.pairwise_pair.mpr rfl), ?_⟩
    · simpa using ⟨rfl, rfl⟩
    · simpa [t] using ⟨⟨1, rfl⟩, ⟨3, rfl⟩, ⟨5, rfl⟩⟩
  have keyed (k : Value) (hk : IsInteger k) (below : order.less k (.int 3) = true) :
      Keyed IsInteger [(k, .text "a"), (.int 3, .list s)] := by
    refine ⟨integers_ordered, fun _ => IsInteger.hashable, List.pairwise_pair.mpr below, ?_⟩
    simpa using ⟨hk, ⟨3, rfl⟩⟩
  obtain ⟨sets, maps⟩ := comparisons_agree registers
  obtain ⟨answer, _, related, iff⟩ := (sets IsInteger s t integers_ordered (fun _ => IsInteger.hashable) hs ht).2 h
    (.swap ..) (.relation .lt) _ rfl (.register "s") (.register "t") (.register "h") rfl rfl rfl
  have yes : run registers (.combine (.relation .lt) (.register "s") (.register "h")) =
    (.ok (.bool true), registers) := rfl
  cases related.symm.trans yes
  have compared := (maps IsInteger IsInteger m n (keyed _ ⟨1, rfl⟩ rfl) (keyed _ ⟨1, rfl⟩ rfl)).2
    (.register "m") (.register "n") (.register "d") rfl rfl rfl
  have equal : run registers (.combine .equal (.register "m") (.register "d")) =
    (.ok (.bool true), registers) := rfl
  exact ⟨⟨iff.mp rfl, yes⟩, compared.dict_iff.mp equal, compared.agree true equal⟩

/-- The values under one key are a set of lists and an unordered set, which cannot be asked for lists. Two
maps with these values differ in their first keys and are not compared further. With a dictionary the
comparison looks up the key, and fails. -/
theorem dictionary_not_compared :
    let m : List (Value × Value) := [(.int 2, .sortedSet [.list [.int 1]]), (.int 3, .int 0)]
    let n : List (Value × Value) := [(.int 1, .int 0), (.int 2, .hashSet [.int 1])]
    let registers : Registers := [("m", .sortedMap m), ("n", .sortedMap n), ("d", .dict n)]
    (Keyed IsInteger m ∧ Keyed IsInteger n ∧ Value.parts.dictOf n = .ok n) ∧
      run registers (.combine .equal (.register "m") (.register "n")) =
        (.ok (.bool false), registers) ∧
      run registers (.combine .equal (.register "m") (.register "d")) =
        (.error (.unhashable .list), registers) := by
  intro m n registers
  refine ⟨⟨⟨integers_ordered, fun _ => IsInteger.hashable, List.pairwise_pair.mpr rfl, ?_⟩,
    ⟨integers_ordered, fun _ => IsInteger.hashable, List.pairwise_pair.mpr rfl, ?_⟩, rfl⟩, rfl, rfl⟩
  · simpa [m] using ⟨⟨2, rfl⟩, ⟨3, rfl⟩⟩
  · simpa [n] using ⟨⟨1, rfl⟩, ⟨2, rfl⟩⟩

end Session

end SortedCollections
