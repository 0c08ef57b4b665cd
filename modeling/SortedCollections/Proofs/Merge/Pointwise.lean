import SortedCollections.Proofs.Merge.Pairing

/-!
# Merges, key by key

An increasing list is told by the item that it has under each key, if any. A rule that answers every
pairing with an item that ties, or with none, makes of two increasing lists one whose item under a key
is what the rule makes of the items that they have there. So how merges of several lists compare is a
question about at most one item of each.
-/
namespace SortedCollections

variable {ε α β κ : Type}

section Lists

variable {lt : α → α → Except ε Bool} {less : α → α → Bool} {P : α → Prop} {xs ys : List α}

theorem heads_tied (order : Decides lt less P) {x y : α} (hx : IncreasingOn less P (x :: xs))
    (hy : IncreasingOn less P (y :: ys)) (left : hasTie less (y :: ys) x = true)
    (right : hasTie less (x :: xs) y = true) : tied less x y = true := by
  have insideX := hx.inside x (by simp)
  have insideY := hy.inside y (by simp)
  cases less_xy : less x y with
  | true =>
    rw [hasTie_of_above (below_all order insideX hy less_xy)] at left
    cases left
  | false =>
    cases less_yx : less y x with
    | true =>
      rw [hasTie_of_above (below_all order insideY hx less_yx)] at right
      cases right
    | false => simp [tied, less_xy, less_yx]

/-- Behind an item nothing ties with what ties with it. -/
theorem hasTie_behind (order : Decides lt less P) {x z : α} (hx : IncreasingOn less P (x :: xs))
    (hz : P z) (same : tied less z x = true) : hasTie less xs z = false := by
  obtain ⟨insideX, above, rest⟩ := hx.of_cons
  rw [order.hasTie_congr rest.inside hz insideX same]
  exact hasTie_of_above above

/-- Increasing lists with the same members tie item by item. -/
theorem forall₂_tied (order : Decides lt less P) (hx : IncreasingOn less P xs)
    (hy : IncreasingOn less P ys) (same : ∀ z, P z → hasTie less xs z = hasTie less ys z) :
    List.Forall₂ (fun x y => tied less x y = true) xs ys := by
  induction xs generalizing ys with
  | nil =>
    cases ys with
    | nil => exact .nil
    | cons y ys =>
      have member := same y (hy.inside y (by simp))
      rw [hasTie_cons, order.tied_self (hy.inside y (by simp))] at member
      cases member
  | cons x xs ih =>
    have insideX := hx.inside x (by simp)
    have memberX := same x insideX
    rw [hasTie_cons, order.tied_self insideX, Bool.true_or] at memberX
    cases ys with
    | nil => cases memberX
    | cons y ys =>
      have insideY := hy.inside y (by simp)
      have memberY := same y insideY
      rw [hasTie_cons less y ys, order.tied_self insideY, Bool.true_or] at memberY
      have heads := heads_tied order hx hy memberX.symm memberY
      refine .cons heads (ih hx.of_cons.2.2 hy.of_cons.2.2 fun z hz => ?_)
      have twins : tied less z x = tied less z y := by
        rw [tied_comm less z x, tied_comm less z y]
        exact order.tied_congr insideX insideY hz heads
      cases tie : tied less z x with
      | true =>
        rw [hasTie_behind order hx hz tie, hasTie_behind order hy hz (twins ▸ tie)]
      | false =>
        have whole := same z hz
        rw [hasTie_cons, hasTie_cons, ← twins, tie] at whole
        exact whole

/-- Increasing lists are alike item by item if they have alike items, or none, under each key. -/
theorem forall₂_of_find? (order : Decides lt less P) {alike : α → α → Prop}
    (hx : IncreasingOn less P xs) (hy : IncreasingOn less P ys)
    (related : ∀ k, P k →
      Option.Rel alike (xs.find? (tied less k)) (ys.find? (tied less k))) :
    List.Forall₂ alike xs ys := by
  have same : ∀ k, P k → hasTie less xs k = hasTie less ys k := by
    intro k hk
    rw [hasTie_eq_isSome, hasTie_eq_isSome]
    have found := related k hk
    generalize xs.find? (tied less k) = x, ys.find? (tied less k) = y at found
    cases found <;> rfl
  have ties := forall₂_tied order hx hy same
  rw [List.forall₂_iff_zip] at ties ⊢
  refine ⟨ties.1, fun {x y} mem => ?_⟩
  obtain ⟨memX, memY⟩ := List.of_mem_zip mem
  have inside := hx.inside x memX
  have found := related x inside
  rw [(find?_tied_eq_some order hx inside).mpr ⟨memX, order.tied_self inside⟩,
    (find?_tied_eq_some order hy inside).mpr ⟨memY, ties.2 mem⟩] at found
  cases found with
  | some alike => exact alike

end Lists

namespace Pairing

/-- Both sides of a pairing lie in the domain `D`. -/
def Inside (D : α → Prop) (p : Pairing α) : Prop :=
  (∀ x, p.left? = some x → D x) ∧ ∀ y, p.right? = some y → D y

theorem Inside.item {D : α → Prop} {p : Pairing α} (inside : p.Inside D) : D p.item := by
  cases p with
  | left x => exact inside.1 x rfl
  | right y => exact inside.2 y rfl
  | tie x y => exact inside.1 x rfl

theorem of?_inside {D : α → Prop} {x y : Option α} {p : Pairing α} (pair : of? x y = some p)
    (left : ∀ z, x = some z → D z) (right : ∀ z, y = some z → D z) : p.Inside D := by
  cases p with
  | left z =>
    obtain ⟨rfl, rfl⟩ := of?_eq_left.mp pair
    exact ⟨left, fun _ absurd => by cases absurd⟩
  | right z =>
    obtain ⟨rfl, rfl⟩ := of?_eq_right.mp pair
    exact ⟨fun _ absurd => (by cases absurd), right⟩
  | tie z w =>
    obtain ⟨rfl, rfl⟩ := of?_eq_tie.mp pair
    exact ⟨left, right⟩

end Pairing

/-- What a rule makes of the items that two lists have under a key. -/
def place (rule : Pairing α → Except ε (Option α)) (x y : Option α) : Option α :=
  (Pairing.of? x y).bind fun p => given (rule p)

/-- A rule answers for every pairing of the domain `D`, with an item of the domain that ties or with
none. -/
structure Settles (less : α → α → Bool) (D : α → Prop) (rule : Pairing α → Except ε (Option α)) :
    Prop where
  answers : ∀ {p}, p.Inside D → ∃ made, rule p = .ok made
  keeps : ∀ {p z}, p.Inside D → given (rule p) = some z → D z ∧ tied less p.item z = true

/-- Of what is made of increasing items, a search finds what is made of the item that it finds. -/
theorem find?_filterMap {less : α → α → Bool} {P : α → Prop} {test : α → Bool} {item : β → α}
    {make : β → Option α} {bs : List β} (picks : PicksOne less P test)
    (kept : IncreasingOn (fun b c => less (item b) (item c)) (fun b => P (item b)) bs)
    (agrees : ∀ b ∈ bs, ∀ z, make b = some z → test z = test (item b)) :
    (bs.filterMap make).find? test = (bs.find? fun b => test (item b)).bind make := by
  induction bs with
  | nil => rfl
  | cons b bs ih =>
    obtain ⟨hb, above, rest⟩ := kept.of_cons
    have found := ih rest fun c mem => agrees c (.tail _ mem)
    cases hit : test (item b) with
    | true =>
      have nothing : bs.find? (fun c => test (item c)) = none :=
        (picks.comap item).find?_of_above hb rest.inside above hit
      rw [List.find?_cons, hit, Option.bind_some]
      cases made : make b with
      | none =>
        rw [List.filterMap_cons_none made, found, nothing]
        rfl
      | some z =>
        have hitZ : test z = true := (agrees b (by simp) z made).trans hit
        rw [List.filterMap_cons_some made, List.find?_cons, hitZ]
    | false =>
      rw [List.find?_cons, hit, ← found]
      cases made : make b with
      | none => rw [List.filterMap_cons_none made]
      | some z =>
        have missZ : test z = false := (agrees b (by simp) z made).trans hit
        rw [List.filterMap_cons_some made, List.find?_cons, missZ]

namespace Settles

variable {lt : α → α → Except ε Bool} {less : α → α → Bool} {P D : α → Prop}
  {rule : Pairing α → Except ε (Option α)} {xs ys : List α}

theorem place_inside (settles : Settles less D rule) {x y : Option α} {z : α}
    (left : ∀ w, x = some w → D w) (right : ∀ w, y = some w → D w) (made : place rule x y = some z) :
    D z := by
  obtain ⟨p, pair, made⟩ := Option.bind_eq_some_iff.mp made
  exact (settles.keeps (Pairing.of?_inside pair left right) made).1

/-- The rule makes of the pairings of two increasing lists an increasing one. -/
theorem makes (settles : Settles less D rule) (order : Decides lt less P) (sub : ∀ x, D x → P x)
    (hx : IncreasingOn less D xs) (hy : IncreasingOn less D ys) :
    ∃ zs, (pairings less xs ys).filterMapM rule = .ok zs ∧ IncreasingOn less D zs ∧
      ∀ k, P k → zs.find? (tied less k) =
        place rule (xs.find? (tied less k)) (ys.find? (tied less k)) := by
  have keptX : IncreasingOn less P xs := ⟨hx.increasing, fun x mem => sub x (hx.inside x mem)⟩
  have keptY : IncreasingOn less P ys := ⟨hy.increasing, fun y mem => sub y (hy.inside y mem)⟩
  have increasing := pairings_increasing order keptX keptY
  have inside : ∀ p ∈ pairings less xs ys, p.Inside D := fun p mem =>
    ⟨fun x left => hx.inside x (mem_of_left? mem left),
      fun y right => hy.inside y (mem_of_right? mem right)⟩
  have keeps : ∀ p ∈ pairings less xs ys, ∀ z, given (rule p) = some z →
      D z ∧ tied less p.item z = true := fun p mem z made => settles.keeps (inside p mem) made
  refine ⟨_, filterMapM_eq_ok.mpr ⟨fun p mem => settles.answers (inside p mem), rfl⟩, ⟨?_, ?_⟩, ?_⟩
  · refine List.Pairwise.filterMap _ ?_ (increasing.increasing.imp_of_mem
      fun memP memQ below => And.intro memP (And.intro memQ below))
    rintro p q ⟨memP, memQ, below⟩ x madeX y madeY
    obtain ⟨insideX, sameX⟩ := keeps p memP x madeX
    obtain ⟨insideY, sameY⟩ := keeps q memQ y madeY
    have hp := increasing.inside p memP
    have hq := increasing.inside q memQ
    rw [← order.less_of_tied hp (sub x insideX) (sub y insideY) sameX,
      ← order.less_of_tied_right hq (sub y insideY) hp sameY]
    exact below
  · intro z mem
    obtain ⟨p, memP, made⟩ := List.mem_filterMap.mp mem
    exact (keeps p memP z made).1
  · intro k hk
    have picks := order.picksOne hk
    have agrees : ∀ p ∈ pairings less xs ys, ∀ z, given (rule p) = some z →
        tied less k z = tied less k p.item := by
      intro p mem z made
      obtain ⟨insideZ, same⟩ := keeps p mem z made
      exact (picks.together (increasing.inside p mem) (sub z insideZ) same).symm
    rw [find?_filterMap picks increasing agrees, find?_pairings order picks keptX keptY]
    rfl

end Settles

end SortedCollections
