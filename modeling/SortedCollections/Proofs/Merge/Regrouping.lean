import SortedCollections.Proofs.Maps.Merging
import SortedCollections.Proofs.Merge.Pointwise
import SortedCollections.Value.Lookup

/-!
# Merges of three lists

Of the items that three lists have under a key, a union keeps the first, an intersection the first if
all three lists have one, and a symmetric difference one if an odd number of them do. In either grouping
a union and an intersection keep the very same item, while a symmetric difference of three items that
tie keeps the last one or the first. If values are combined, the first key stays, and an associative
function makes the same value.
-/
namespace SortedCollections

variable {ε α β κ ν : Type}

/-- Three lists can be merged in either grouping, and what comes of it is alike. -/
def Regroups (cmp : Comparison ε κ) (operation : Operation ε α κ)
    (alike : List α → List α → Prop) (a b c : List α) : Prop :=
  ∃ ab bc first second, merge cmp operation a b = .ok ab ∧ merge cmp operation b c = .ok bc ∧
    merge cmp operation ab c = .ok first ∧ merge cmp operation a bc = .ok second ∧ alike first second

section Rules

variable {cmp : Comparison ε κ} {key : α → Except ε κ} {P : κ → Prop} {D : α → Prop}
  {policy : Policy ε α} {rule : Pairing α → Except ε (Option α)} {a b c : List α}

/-- An item that some list may have under the key of `k` lies in the domain and ties with `k`. -/
def Under (less : α → α → Bool) (D : α → Prop) (k : α) (x : Option α) : Prop :=
  ∀ y, x = some y → D y ∧ tied less k y = true

theorem under_find? {less : α → α → Bool} {xs : List α} (inside : ∀ x ∈ xs, D x) (k : α) :
    Under less D k (xs.find? (tied less k)) :=
  fun y found => ⟨inside y (List.mem_of_find?_eq_some found), List.find?_some found⟩

/-- A merge makes under each key what the rule makes there. -/
theorem Policy.Itemwise.merge_places (itemwise : policy.Itemwise rule) (ordered : cmp.OrderedOn P)
    (settles : Settles (cmp.on key).less D rule) (sub : ∀ x, D x → Comparison.KeyIn key P x)
    (ha : IncreasingOn (cmp.on key).less D a) (hb : IncreasingOn (cmp.on key).less D b) :
    ∃ ab, merge cmp ⟨key, policy⟩ a b = .ok ab ∧ IncreasingOn (cmp.on key).less D ab ∧
      ∀ k, Comparison.KeyIn key P k → ab.find? (tied (cmp.on key).less k) =
        place rule (a.find? (tied (cmp.on key).less k)) (b.find? (tied (cmp.on key).less k)) := by
  have keyed {xs : List α} (kept : IncreasingOn (cmp.on key).less D xs) :
      IncreasingOn (cmp.on key).less (Comparison.KeyIn key P) xs :=
    ⟨kept.increasing, fun x mem => sub x (kept.inside x mem)⟩
  obtain ⟨ab, made, kept, found⟩ := settles.makes (ordered.on key).decides sub ha hb
  refine ⟨ab, ?_, kept, found⟩
  rw [itemwise.merge_pairings ordered (keyed ha) (keyed hb), made]
  rfl

/-- Merges of three lists are alike if what the rule makes of three items under a key is. -/
theorem Policy.Itemwise.regroups (itemwise : policy.Itemwise rule) (ordered : cmp.OrderedOn P)
    (settles : Settles (cmp.on key).less D rule) (sub : ∀ x, D x → Comparison.KeyIn key P x)
    (ha : IncreasingOn (cmp.on key).less D a) (hb : IncreasingOn (cmp.on key).less D b)
    (hc : IncreasingOn (cmp.on key).less D c) (alike : α → α → Prop)
    (regroups : ∀ k x y z, Comparison.KeyIn key P k → Under (cmp.on key).less D k x →
      Under (cmp.on key).less D k y → Under (cmp.on key).less D k z →
      Option.Rel alike (place rule (place rule x y) z) (place rule x (place rule y z))) :
    Regroups cmp ⟨key, policy⟩ (fun first second =>
      List.Forall₂ alike first second ∧ IncreasingOn (cmp.on key).less D first ∧
        ∀ k, Comparison.KeyIn key P k → first.find? (tied (cmp.on key).less k) =
          place rule (place rule (a.find? (tied (cmp.on key).less k))
            (b.find? (tied (cmp.on key).less k))) (c.find? (tied (cmp.on key).less k))) a b c := by
  obtain ⟨ab, doneAB, keptAB, foundAB⟩ := itemwise.merge_places ordered settles sub ha hb
  obtain ⟨bc, doneBC, keptBC, foundBC⟩ := itemwise.merge_places ordered settles sub hb hc
  obtain ⟨first, doneFirst, keptFirst, found⟩ := itemwise.merge_places ordered settles sub keptAB hc
  obtain ⟨second, doneSecond, keptSecond, found'⟩ :=
    itemwise.merge_places ordered settles sub ha keptBC
  have keyed {xs : List α} (kept : IncreasingOn (cmp.on key).less D xs) :
      IncreasingOn (cmp.on key).less (Comparison.KeyIn key P) xs :=
    ⟨kept.increasing, fun x mem => sub x (kept.inside x mem)⟩
  refine ⟨ab, bc, first, second, doneAB, doneBC, doneFirst, doneSecond, ?_, keptFirst, fun k hk => ?_⟩
  · refine forall₂_of_find? (ordered.on key).decides (keyed keptFirst) (keyed keptSecond) ?_
    intro k hk
    rw [found k hk, foundAB k hk, found' k hk, foundBC k hk]
    exact regroups k _ _ _ hk (under_find? ha.inside k) (under_find? hb.inside k)
      (under_find? hc.inside k)
  · rw [found k hk, foundAB k hk]

end Rules

theorem rel_of_eq {x y : Option α} (same : x = y) : Option.Rel Eq x y := by
  subst same
  cases x with
  | none => exact .none
  | some x => exact .some rfl

namespace SetRule

variable {cmp : Comparison ε κ} {key : α → Except ε κ} {P : κ → Prop} {D : α → Prop}
  {a b c : List α}

theorem settles (rule : SetRule) {lt : α → α → Except ε Bool} {less : α → α → Bool}
    (order : Decides lt less D) : Settles less D (rule.pick : Pairing α → Except ε (Option α)) where
  answers _ := ⟨_, rfl⟩
  keeps {p z} inside made := by
    cases keeps : rule.keeps p with
    | false =>
      rw [pick, keeps] at made
      cases made
    | true =>
      rw [pick, keeps] at made
      cases made
      exact ⟨inside.item, order.tied_self inside.item⟩

/-- Which item a rule keeps under a key. -/
def choose (rule : SetRule) (x y : Option α) : Option α :=
  if rule.holds x.isSome y.isSome then x.or y else none

theorem place_pick (rule : SetRule) (x y : Option α) :
    place (rule.pick : Pairing α → Except ε (Option α)) x y = rule.choose x y := by
  cases x <;> cases y <;> cases rule <;> rfl

theorem choose_union (x y z : Option α) :
    union.choose (union.choose x y) z = union.choose x (union.choose y z) := by
  cases x <;> cases y <;> cases z <;> rfl

theorem choose_intersection (x y z : Option α) :
    intersection.choose (intersection.choose x y) z =
      intersection.choose x (intersection.choose y z) := by
  cases x <;> cases y <;> cases z <;> rfl

/-- Of three items that tie, the grouping decides which one a symmetric difference keeps. -/
theorem choose_symmetricDifference {alike : α → α → Prop} {x y z : Option α}
    (self : ∀ w, x = some w ∨ y = some w ∨ z = some w → alike w w)
    (ends : ∀ w v, x = some w → z = some v → alike v w) :
    Option.Rel alike (symmetricDifference.choose (symmetricDifference.choose x y) z)
      (symmetricDifference.choose x (symmetricDifference.choose y z)) := by
  rcases x with _ | x <;> rcases y with _ | y <;> rcases z with _ | z
  · exact .none
  · exact .some (self z (.inr (.inr rfl)))
  · exact .some (self y (.inr (.inl rfl)))
  · exact .none
  · exact .some (self x (.inl rfl))
  · exact .none
  · exact .none
  · exact .some (ends x z rfl rfl)

variable (ordered : cmp.OrderedOn P)
  (ha : IncreasingOn (cmp.on key).less (Comparison.KeyIn key P) a)
  (hb : IncreasingOn (cmp.on key).less (Comparison.KeyIn key P) b)
  (hc : IncreasingOn (cmp.on key).less (Comparison.KeyIn key P) c)
include ordered ha hb hc

/-- The very same items are kept in either grouping, if that holds under each key. -/
theorem regroups_exactly {rule : SetRule}
    (choices : ∀ x y z : Option α,
      rule.choose (rule.choose x y) z = rule.choose x (rule.choose y z)) :
    Regroups cmp ⟨key, .ofRule rule⟩ Eq a b c := by
  obtain ⟨ab, bc, first, second, doneAB, doneBC, doneFirst, doneSecond, alike, _⟩ :=
    rule.itemwise.regroups ordered (rule.settles (ordered.on key).decides) (fun _ => id) ha hb hc
      Eq fun k x y z _ _ _ _ => by
        rw [place_pick, place_pick, place_pick, place_pick]
        exact rel_of_eq (choices x y z)
  rw [List.forall₂_eq_eq_eq] at alike
  exact ⟨ab, bc, first, second, doneAB, doneBC, doneFirst, doneSecond, alike⟩

/-- In either grouping a symmetric difference keeps items with equal keys. -/
theorem symmetricDifference_regroups :
    Regroups cmp ⟨key, .ofRule .symmetricDifference⟩
      (List.Forall₂ fun x y => (cmp.on key).eq x y = .ok true) a b c := by
  have keyed := ordered.on key
  obtain ⟨ab, bc, first, second, doneAB, doneBC, doneFirst, doneSecond, alike, _⟩ :=
    symmetricDifference.itemwise.regroups ordered (symmetricDifference.settles keyed.decides)
      (fun _ => id) ha hb hc (fun x y => (cmp.on key).eq x y = .ok true)
      fun k x y z hk underX underY underZ => by
        rw [place_pick, place_pick, place_pick, place_pick]
        refine choose_symmetricDifference (fun w found => ?_) fun w v foundX foundZ => ?_
        · have inside : Comparison.KeyIn key P w := by
            rcases found with found | found | found
            · exact (underX w found).1
            · exact (underY w found).1
            · exact (underZ w found).1
          exact (keyed.eq_iff inside inside).mpr (keyed.decides.tied_self inside)
        · obtain ⟨insideW, sameW⟩ := underX w foundX
          obtain ⟨insideV, sameV⟩ := underZ v foundZ
          rw [keyed.eq_iff insideV insideW, ← keyed.decides.tied_congr hk insideV insideW sameV]
          exact sameW
  exact ⟨ab, bc, first, second, doneAB, doneBC, doneFirst, doneSecond, alike⟩

end SetRule

/-- A function of two values answers on the domain `Q` with a value of it, and associates. -/
structure AssociativeOn (f : ν → ν → Except ε ν) (Q : ν → Prop) : Prop where
  answers : ∀ v w, Q v → Q w → ∃ u, f v w = .ok u ∧ Q u
  assoc : ∀ u v w, Q u → Q v → Q w → (do f (← f u v) w) = (do f u (← f v w))

namespace PairView

/-- A pair that was written is read again as it was, and has the key that it was written with. -/
structure Lawful (view : PairView ε α κ ν) (key : α → Except ε κ) : Prop where
  read_write : ∀ k v, view.read (view.write k v) = .ok (k, v)
  key_write : ∀ k v, key (view.write k v) = .ok k

/-- An item is read as a pair of its key and a value, and both lie in their domains. -/
def PairIn (view : PairView ε α κ ν) (key : α → Except ε κ) (P : κ → Prop) (Q : ν → Prop) (x : α) :
    Prop :=
  ∃ k v, view.read x = .ok (k, v) ∧ key x = .ok k ∧ P k ∧ Q v

/-- An item is read as a pair with the same key as another one. -/
def SameKey (view : PairView ε α κ ν) (x y : α) : Prop :=
  ∃ k v w, view.read x = .ok (k, v) ∧ view.read y = .ok (k, w)

theorem PairIn.keyIn {view : PairView ε α κ ν} {key : α → Except ε κ} {P : κ → Prop} {Q : ν → Prop}
    {x : α} (pair : view.PairIn key P Q x) : Comparison.KeyIn key P x := by
  obtain ⟨k, v, _, hk, inside, _⟩ := pair
  exact ⟨k, hk, inside⟩

theorem plain_lawful : (PairView.plain : PairView ε (κ × ν) κ ν).Lawful SortedMap.key :=
  ⟨fun _ _ => rfl, fun _ _ => rfl⟩

end PairView

namespace Policy

/-- What combining values makes of a pairing; items that stand alone are kept or not. -/
def combinePairing (alone : Bool) (view : PairView ε α κ ν) (f : ν → ν → Except ε ν) :
    Pairing α → Except ε (Option α)
  | .left x | .right x => .ok (if alone then some x else none)
  | .tie x y => do
    let (key, left) ← view.read x
    let (_, right) ← view.read y
    return some (view.write key (← f left right))

variable {alone : Bool} {view : PairView ε α κ ν} {f : ν → ν → Except ε ν}

theorem combinePairing_tie (x y : α) :
    combinePairing alone view f (.tie x y) = (do
      let (key, left) ← view.read x
      let (_, right) ← view.read y
      return (← (MapRule.union f).made key (some left) (some right)).map (view.write key)) := by
  rw [combinePairing]
  refine bind_congr fun left => bind_congr fun right => ?_
  simp only [MapRule.made]
  cases f left.2 right.2 <;> rfl

/-- The policy that combines the values of a tie and keeps the other items or drops them. -/
def combining (alone : Bool) (view : PairView ε α κ ν) (f : ν → ν → Except ε ν) : Policy ε α where
  onLeft n := Script.left n alone
  onRight n := Script.right n alone
  onTie := combineTie view f

theorem combining_itemwise : (combining alone view f).Itemwise (combinePairing alone view f) := by
  let op : Asking ε κ ν Unit :=
    ⟨.pass alone, .pass alone, fun q => answered (q.answerOf (MapRule.union f).made)⟩
  have policy : op.policy view (MapRule.union f).made = combining alone view f := by
    rw [combining, MapRule.combineTie_eq]
    rfl
  have pieces : op.makes view (MapRule.union f).made = combinePairing alone view f := by
    funext p
    cases p with
    | left x => rfl
    | right y => rfl
    | tie x y => exact (combinePairing_tie x y).symm
  rw [← policy, ← pieces]
  exact Asking.policy_itemwise (answered_answersAs _) ()

theorem place_none_left (y : Option α) :
    place (combinePairing alone view f) none y = if alone then y else none := by
  cases y <;> cases alone <;> rfl

theorem place_none_right (x : Option α) :
    place (combinePairing alone view f) x none = if alone then x else none := by
  cases x <;> cases alone <;> rfl

theorem combinePairing_made {x y : α} {k l : κ} {v w u : ν} (hx : view.read x = .ok (k, v))
    (hy : view.read y = .ok (l, w)) (made : f v w = .ok u) :
    combinePairing alone view f (.tie x y) = .ok (some (view.write k u)) := by
  rw [combinePairing, hx, hy]
  show (f v w >>= _) = _
  rw [made]
  rfl

theorem place_tie {x y : α} {k l : κ} {v w u : ν} (hx : view.read x = .ok (k, v))
    (hy : view.read y = .ok (l, w)) (made : f v w = .ok u) :
    place (combinePairing alone view f) (some x) (some y) = some (view.write k u) := by
  show given (combinePairing alone view f (.tie x y)) = _
  rw [combinePairing_made hx hy made]
  rfl

variable {cmp : Comparison ε κ} {key : α → Except ε κ} {P : κ → Prop} {Q : ν → Prop} {a b c : List α}

/-- Of a tie the values are combined under the key of the left item. -/
theorem combinePairing_tie_inside (ordered : cmp.OrderedOn P) (lawful : view.Lawful key)
    (associative : AssociativeOn f Q) {x y : α}
    (inside : (Pairing.tie x y).Inside (view.PairIn key P Q)) :
    ∃ z, combinePairing alone view f (.tie x y) = .ok (some z) ∧ view.PairIn key P Q z ∧
      tied (cmp.on key).less x z = true := by
  obtain ⟨k, v, readX, keyX, hk, hv⟩ := inside.1 x rfl
  obtain ⟨l, w, readY, _, _, hw⟩ := inside.2 y rfl
  obtain ⟨u, made, hu⟩ := associative.answers v w hv hw
  refine ⟨view.write k u, combinePairing_made readX readY made,
    ⟨k, u, lawful.read_write k u, lawful.key_write k u, hk, hu⟩, ?_⟩
  rw [tied_on keyX (lawful.key_write k u)]
  exact ordered.decides.tied_self hk

theorem combine_settles (ordered : cmp.OrderedOn P) (lawful : view.Lawful key)
    (associative : AssociativeOn f Q) :
    Settles (cmp.on key).less (view.PairIn key P Q) (combinePairing alone view f) := by
  have order := (ordered.on key).decides
  refine ⟨fun {p} inside => ?_, fun {p z} inside made => ?_⟩
  · cases p with
    | left x => exact ⟨_, rfl⟩
    | right y => exact ⟨_, rfl⟩
    | tie x y =>
      obtain ⟨z, made, _⟩ := combinePairing_tie_inside ordered lawful associative inside
      exact ⟨_, made⟩
  · have self := order.tied_self inside.item.keyIn
    cases p with
    | left x =>
      cases alone <;> cases made
      exact ⟨inside.item, self⟩
    | right y =>
      cases alone <;> cases made
      exact ⟨inside.item, self⟩
    | tie x y =>
      obtain ⟨w, done, kept⟩ := combinePairing_tie_inside ordered lawful associative inside
      rw [done] at made
      cases made
      exact kept

/-- Under each key the values are combined from left to right or from right to left, and the first key
stays. -/
theorem place_regroups (lawful : view.Lawful key) (associative : AssociativeOn f Q) {x y z : Option α}
    (hx : ∀ w, x = some w → view.PairIn key P Q w) (hy : ∀ w, y = some w → view.PairIn key P Q w)
    (hz : ∀ w, z = some w → view.PairIn key P Q w) :
    place (combinePairing alone view f) (place (combinePairing alone view f) x y) z =
      place (combinePairing alone view f) x (place (combinePairing alone view f) y z) := by
  rcases x with _ | x
  · rw [place_none_left, place_none_left]
    cases alone with
    | false => exact place_none_left z
    | true => rfl
  rcases y with _ | y
  · rw [place_none_left, place_none_right]
    cases alone with
    | false =>
      show place (combinePairing false view f) none z = place (combinePairing false view f) (some x) none
      rw [place_none_left, place_none_right]
      rfl
    | true => rfl
  rcases z with _ | z
  · rw [place_none_right, place_none_right]
    cases alone with
    | false =>
      show none = place (combinePairing false view f) (some x) none
      rw [place_none_right]
      rfl
    | true => rfl
  obtain ⟨k, v, readX, _, _, hv⟩ := hx x rfl
  obtain ⟨l, w, readY, _, _, hw⟩ := hy y rfl
  obtain ⟨m, u, readZ, _, _, hu⟩ := hz z rfl
  obtain ⟨vw, madeVW, hvw⟩ := associative.answers v w hv hw
  obtain ⟨wu, madeWU, hwu⟩ := associative.answers w u hw hu
  obtain ⟨all, made, _⟩ := associative.answers vw u hvw hu
  have same := associative.assoc v w u hv hw hu
  rw [madeVW, madeWU] at same
  have made' : f v wu = .ok all := same.symm.trans made
  rw [place_tie readX readY madeVW, place_tie readY readZ madeWU,
    place_tie (lawful.read_write k vw) readZ made, place_tie readX (lawful.read_write l wu) made']

/-- What is made under a key has the key of the first of the two items, unless nothing is made. -/
theorem place_key (alone : Bool) (lawful : view.Lawful key) (associative : AssociativeOn f Q)
    {x y : Option α} (hx : ∀ w, x = some w → view.PairIn key P Q w)
    (hy : ∀ w, y = some w → view.PairIn key P Q w) :
    (place (combinePairing alone view f) x y = none ∧ (alone = true → x.or y = none)) ∨
      ∃ z w, place (combinePairing alone view f) x y = some z ∧ x.or y = some w ∧
        view.SameKey z w := by
  have itself {w : α} (inside : view.PairIn key P Q w) : view.SameKey w w := by
    obtain ⟨k, v, read, _⟩ := inside
    exact ⟨k, v, v, read, read⟩
  rcases x with _ | x
  · rw [place_none_left]
    rcases alone with _ | _
    · exact .inl ⟨rfl, by simp⟩
    rcases y with _ | y
    · exact .inl ⟨rfl, fun _ => rfl⟩
    · exact .inr ⟨y, y, rfl, rfl, itself (hy y rfl)⟩
  rcases y with _ | y
  · rw [place_none_right]
    rcases alone with _ | _
    · exact .inl ⟨rfl, by simp⟩
    · exact .inr ⟨x, x, rfl, rfl, itself (hx x rfl)⟩
  obtain ⟨k, v, readX, _, _, hv⟩ := hx x rfl
  obtain ⟨l, w, readY, _, _, hw⟩ := hy y rfl
  obtain ⟨u, made, _⟩ := associative.answers v w hv hw
  exact .inr ⟨_, x, place_tie readX readY made, rfl, k, u, v, lawful.read_write k u, readX⟩

/-- What two merges make under a key has the key of the first of the three items. -/
theorem place_place_key (ordered : cmp.OrderedOn P) (lawful : view.Lawful key)
    (associative : AssociativeOn f Q) {x y z : Option α} {all : α}
    (hx : ∀ w, x = some w → view.PairIn key P Q w) (hy : ∀ w, y = some w → view.PairIn key P Q w)
    (hz : ∀ w, z = some w → view.PairIn key P Q w)
    (made : place (combinePairing alone view f) (place (combinePairing alone view f) x y) z =
      some all) :
    ∃ w, x.or (y.or z) = some w ∧ view.SameKey all w := by
  have settles : Settles (cmp.on key).less (view.PairIn key P Q) (combinePairing alone view f) :=
    combine_settles ordered lawful associative
  have hxy := fun w => settles.place_inside hx hy (z := w)
  rw [← Option.or_assoc]
  rcases place_key alone lawful associative hxy hz with ⟨nothing, _⟩ | ⟨_, w, made', first, k, v, u, read⟩
  · rw [made] at nothing
    cases nothing
  rw [made, Option.some.injEq] at made'
  subst made'
  rcases place_key alone lawful associative hx hy with ⟨nothing, empty⟩ | ⟨xy, t, madeXY, firstXY, same⟩
  · rw [nothing, place_none_left] at made
    rw [nothing, Option.none_or] at first
    cases alone with
    | false => cases made
    | true => exact ⟨w, by rw [empty rfl, Option.none_or, first], k, v, u, read⟩
  · rw [madeXY, Option.some_or, Option.some.injEq] at first
    subst first
    obtain ⟨l, v', u', readXY, readT⟩ := same
    have keys := read.2.symm.trans readXY
    cases keys
    exact ⟨t, by rw [firstXY, Option.some_or], k, v, u', read.1, readT⟩

end Policy

/-- The item that ties with `z` of the first list that has one. -/
def leftmost (less : α → α → Bool) (a b c : List α) (z : α) : Option α :=
  (a.find? (tied less z)).or ((b.find? (tied less z)).or (c.find? (tied less z)))

/-- Both groupings make the same list, whose keys are those of the first list that has them. -/
def SameWithFirstKeys (less : α → α → Bool) (view : PairView ε α κ ν) (a b c first second : List α) :
    Prop :=
  first = second ∧ ∀ z ∈ first, ∃ w, leftmost less a b c z = some w ∧ view.SameKey z w

theorem Policy.combining_regroups {cmp : Comparison ε κ} {key : α → Except ε κ} {P : κ → Prop}
    {Q : ν → Prop} {view : PairView ε α κ ν} {f : ν → ν → Except ε ν} {a b c : List α}
    (alone : Bool) (ordered : cmp.OrderedOn P) (lawful : view.Lawful key)
    (associative : AssociativeOn f Q)
    (ha : IncreasingOn (cmp.on key).less (view.PairIn key P Q) a)
    (hb : IncreasingOn (cmp.on key).less (view.PairIn key P Q) b)
    (hc : IncreasingOn (cmp.on key).less (view.PairIn key P Q) c) :
    Regroups cmp ⟨key, combining alone view f⟩ (SameWithFirstKeys (cmp.on key).less view a b c)
      a b c := by
  have order := (ordered.on key).decides
  have inside {k : α} {x : Option α} (under : Under (cmp.on key).less (view.PairIn key P Q) k x) :
      ∀ w, x = some w → view.PairIn key P Q w := fun w found => (under w found).1
  obtain ⟨ab, bc, first, second, doneAB, doneBC, doneFirst, doneSecond, alike, kept, found⟩ :=
    combining_itemwise.regroups ordered (combine_settles ordered lawful associative)
      (fun _ => PairView.PairIn.keyIn) ha hb hc Eq fun k x y z _ underX underY underZ =>
        rel_of_eq (place_regroups lawful associative (inside underX) (inside underY) (inside underZ))
  rw [List.forall₂_eq_eq_eq] at alike
  refine ⟨ab, bc, first, second, doneAB, doneBC, doneFirst, doneSecond, alike, fun z mem => ?_⟩
  have keyed := (kept.inside z mem).keyIn
  have self := (order.picksOne keyed).find?_of_mem ⟨kept.increasing, fun x memX =>
    (kept.inside x memX).keyIn⟩ mem (order.tied_self keyed)
  rw [found z keyed] at self
  exact place_place_key ordered lawful associative (inside (under_find? ha.inside z))
    (inside (under_find? hb.inside z)) (inside (under_find? hc.inside z)) self

/-- Three maps can be merged in either grouping, and the same map comes of it. -/
def SortedMap.MergedRegroups (cmp : Comparison ε κ) (rule : MapRule ε κ ν) (l m n : SortedMap κ ν) :
    Prop :=
  ∃ lm mn all, l.merged cmp rule (.sorted m.entries) = .ok lm ∧
    m.merged cmp rule (.sorted n.entries) = .ok mn ∧
    lm.merged cmp rule (.sorted n.entries) = .ok all ∧
    l.merged cmp rule (.sorted mn.entries) = .ok all

theorem MapRule.preferRight_associative :
    AssociativeOn (preferRight : ν → ν → Except ε ν) fun _ => True :=
  ⟨fun _ w _ _ => ⟨w, rfl, trivial⟩, fun _ _ _ _ _ _ => rfl⟩

/-- Entries are pairs as they stand. -/
theorem entriesOn_pairs {cmp : Comparison ε κ} {P : κ → Prop} {entries : List (κ × ν)}
    (kept : EntriesOn cmp.less P entries) :
    IncreasingOn (cmp.on SortedMap.key).less
      ((PairView.plain : PairView ε (κ × ν) κ ν).PairIn SortedMap.key P fun _ => True) entries :=
  ⟨kept.increasing, fun e mem => ⟨e.1, e.2, rfl, rfl, kept.inside e mem, trivial⟩⟩

/-- Merging maps is merging their entries. -/
theorem SortedMap.mergedRegroups_of_entries {cmp : Comparison ε κ} {rule : MapRule ε κ ν}
    {l m n : SortedMap κ ν} {alike : List (κ × ν) → List (κ × ν) → Prop}
    (same : ∀ first second, alike first second → first = second)
    (regroups : Regroups cmp rule.operation alike l.entries m.entries n.entries) :
    l.MergedRegroups cmp rule m n := by
  obtain ⟨lm, mn, first, second, doneLM, doneMN, doneFirst, doneSecond, related⟩ := regroups
  have equal := same first second related
  subst equal
  have merged_eq {x y : SortedMap κ ν} {zs : List (κ × ν)}
      (done : merge cmp rule.operation x.entries y.entries = .ok zs) :
      x.merged cmp rule (.sorted y.entries) = .ok ⟨zs⟩ := by
    show (merge cmp rule.operation x.entries y.entries >>= _) = _
    rw [done]
    rfl
  exact ⟨⟨lm⟩, ⟨mn⟩, ⟨first⟩, merged_eq doneLM, merged_eq doneMN, merged_eq doneFirst,
    merged_eq doneSecond⟩

/-- Merges of three lists of items, of three lists of pairs and of three maps do not depend on how they
are grouped. -/
structure MergesRegroup {μ : Type} (cmp : Comparison ε κ) (key : α → Except ε κ) (a b c : List α)
    (pairKey : β → Except ε κ) (view : PairView ε β κ ν) (f : ν → ν → Except ε ν) (p q r : List β)
    (l m n : SortedMap κ μ) : Prop where
  union : Regroups cmp ⟨key, .ofRule .union⟩ Eq a b c
  intersection : Regroups cmp ⟨key, .ofRule .intersection⟩ Eq a b c
  /-- Up to equality of the items by their keys. -/
  symmetricDifference : Regroups cmp ⟨key, .ofRule .symmetricDifference⟩
    (List.Forall₂ fun x y => (cmp.on key).eq x y = .ok true) a b c
  combineUnion : Regroups cmp ⟨pairKey, .combineUnion view f⟩
    (SameWithFirstKeys (cmp.on pairKey).less view p q r) p q r
  combineIntersection : Regroups cmp ⟨pairKey, .combineIntersection view f⟩
    (SameWithFirstKeys (cmp.on pairKey).less view p q r) p q r
  mapUnion : l.MergedRegroups cmp (.union MapRule.preferRight) m n
  mapIntersection : l.MergedRegroups cmp (.intersection MapRule.preferRight) m n

theorem forall_mem_three {p : α → Prop} {x y z : α} (all : ∀ w ∈ [x, y, z], p w) : p x ∧ p y ∧ p z :=
  ⟨all x (by simp), all y (by simp), all z (by simp)⟩

/-- Merging increasing lists is associative. -/
theorem merges_regroup {μ : Type} {cmp : Comparison ε κ} {P : κ → Prop} (ordered : cmp.OrderedOn P)
    {key : α → Except ε κ} {a b c : List α}
    (items : ∀ xs ∈ [a, b, c], IncreasingOn (cmp.on key).less (Comparison.KeyIn key P) xs)
    {pairKey : β → Except ε κ} {view : PairView ε β κ ν} (lawful : view.Lawful pairKey)
    {f : ν → ν → Except ε ν} {Q : ν → Prop} (associative : AssociativeOn f Q) {p q r : List β}
    (pairs : ∀ ps ∈ [p, q, r], IncreasingOn (cmp.on pairKey).less (view.PairIn pairKey P Q) ps)
    {l m n : SortedMap κ μ} (maps : ∀ map ∈ [l, m, n], EntriesOn cmp.less P map.entries) :
    MergesRegroup cmp key a b c pairKey view f p q r l m n := by
  obtain ⟨ha, hb, hc⟩ := forall_mem_three items
  obtain ⟨hp, hq, hr⟩ := forall_mem_three pairs
  obtain ⟨hl, hm, hn⟩ := forall_mem_three maps
  have pairsRegroup (alone : Bool) :=
    Policy.combining_regroups alone ordered lawful associative hp hq hr
  have mapsRegroup (alone : Bool) := Policy.combining_regroups alone ordered PairView.plain_lawful
    MapRule.preferRight_associative (entriesOn_pairs hl) (entriesOn_pairs hm) (entriesOn_pairs hn)
  exact {
    union := SetRule.regroups_exactly ordered ha hb hc SetRule.choose_union
    intersection := SetRule.regroups_exactly ordered ha hb hc SetRule.choose_intersection
    symmetricDifference := SetRule.symmetricDifference_regroups ordered ha hb hc
    combineUnion := pairsRegroup true
    combineIntersection := pairsRegroup false
    mapUnion := SortedMap.mergedRegroups_of_entries (fun _ _ => And.left) (mapsRegroup true)
    mapIntersection := SortedMap.mergedRegroups_of_entries (fun _ _ => And.left) (mapsRegroup false) }

/-- Sets of numbers, and entries of numbers whose values are added. -/
theorem merges_of_numbers_regroup :
    MergesRegroup (.natural : Comparison Empty Nat) .ok [1, 2, 4] [2, 3, 4] [3, 4, 5]
      SortedMap.key .plain (fun v w : Nat => .ok (v + w)) [(1, 5), (4, 1)] [(1, 2), (3, 7)]
      [(1, 1), (3, 3), (4, 9)] ⟨[(1, "a"), (2, "b")]⟩ ⟨[(2, "c")]⟩ ⟨[(1, "d"), (2, "e")]⟩ := by
  have associative : AssociativeOn (fun v w : Nat => (.ok (v + w) : Except Empty Nat))
      fun _ => True :=
    ⟨fun v w _ _ => ⟨v + w, rfl, trivial⟩, fun u v w _ _ _ => congrArg Except.ok (Nat.add_assoc u v w)⟩
  have items : ∀ xs ∈ [[1, 2, 4], [2, 3, 4], [3, 4, 5]],
      Increasing ((.natural : Comparison Empty Nat).on .ok).less xs := by decide
  have pairs : ∀ ps ∈ [[(1, 5), (4, 1)], [(1, 2), (3, 7)], [(1, 1), (3, 3), (4, 9)]],
      Increasing ((.natural : Comparison Empty Nat).on SortedMap.key).less ps := by decide
  have maps : ∀ map ∈ [⟨[(1, "a"), (2, "b")]⟩, ⟨[(2, "c")]⟩, (⟨[(1, "d"), (2, "e")]⟩ :
      SortedMap Nat String)], Increasing (fun e f : Nat × String =>
        (.natural : Comparison Empty Nat).less e.1 f.1) map.entries := by decide
  exact merges_regroup Comparison.natural_ordered
    (fun xs mem => ⟨items xs mem, fun x _ => ⟨x, rfl, trivial⟩⟩) PairView.plain_lawful associative
    (fun ps mem => ⟨pairs ps mem, fun e _ => ⟨e.1, e.2, rfl, rfl, trivial, trivial⟩⟩)
    fun map mem => ⟨maps map mem, fun _ _ => trivial⟩

end SortedCollections
