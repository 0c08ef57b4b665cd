import SortedCollections.Window
import SortedCollections.Proofs.Sorting.Boundary

/-!
# Where a search of a window ends

A search depends on the items inside its window alone, so it may be moved to the window as a list
of its own. There it finds the place where the keys stop being less than the value sought. Where keys
and value are not ordered, all that is known of a hit is what was asked about it: neither is less.
-/
namespace SortedCollections

variable {ε α κ : Type} {cmp : Comparison ε κ} {key : α → Except ε κ} {value : κ}

theorem itemAt_drop (data : List α) (p i : Nat) :
    (itemAt (data.drop p) i : Except (Fault ε) α) = itemAt data (p + i) := by
  rw [itemAt, List.getElem?_drop, itemAt]

theorem itemAt_take (data : List α) {n i : Nat} (inside : i < n) :
    (itemAt (data.take n) i : Except (Fault ε) α) = itemAt data i := by
  rw [itemAt, List.getElem?_take_of_lt inside, itemAt]

theorem itemAt_eq_ok {data : List α} {i : Nat} {x : α} :
    (itemAt data i : Except (Fault ε) α) = .ok x ↔ data[i]? = some x := by
  rw [itemAt]
  cases data[i]? <;> simp

/-- Is the key of an item less than the value? -/
def keyBelow (cmp : Comparison ε κ) (key : α → Except ε κ) (value : κ) (x : α) : Except ε Bool := do
  cmp.lt (← key x) value

/-- Is the value less than the key of an item? -/
def keyAbove (cmp : Comparison ε κ) (key : α → Except ε κ) (value : κ) (x : α) : Except ε Bool := do
  cmp.lt value (← key x)

theorem keyBelow_eq {x : α} (hx : key x = .ok value) (y : α) :
    keyBelow cmp key value y = (cmp.on key).lt y x := by
  simp only [keyBelow, Comparison.on, hx]
  rfl

theorem keyAbove_eq {x : α} (hx : key x = .ok value) (y : α) :
    keyAbove cmp key value y = (cmp.on key).lt x y := by
  simp only [keyAbove, Comparison.on, hx]
  rfl

/-- A fault that a client's function or comparison has raised. -/
def Fault.Raised (fault : Fault ε) : Prop := ∃ cause, fault = .raised cause

/-- Nothing but what a client raises goes wrong, and for one of the given causes. -/
def OnlyRaises {β : Type} (causes : ε → Prop) (answer : Except (Fault ε) β) : Prop :=
  ∀ e, answer = .error e → ∃ cause, e = .raised cause ∧ causes cause

namespace OnlyRaises

variable {β γ : Type} {causes : ε → Prop}

theorem ok (result : β) : OnlyRaises causes (.ok result : Except (Fault ε) β) := fun _ failed => by
  cases failed

theorem lift {answer : Except ε β} (fails : ∀ cause, answer = .error cause → causes cause) :
    OnlyRaises causes (Fault.lift answer) := by
  intro e failed
  cases answer with
  | ok result => cases failed
  | error cause =>
    cases failed
    exact ⟨cause, rfl, fails cause rfl⟩

theorem bind {first : Except (Fault ε) β} {second : β → Except (Fault ε) γ}
    (h : OnlyRaises causes first)
    (rest : ∀ result, first = .ok result → OnlyRaises causes (second result)) :
    OnlyRaises causes (first >>= second) := by
  intro e failed
  cases answer : first with
  | error e' =>
    rw [answer] at failed
    cases failed
    exact h e answer
  | ok result =>
    rw [answer] at failed
    exact rest result answer e failed

theorem itemAt {data : List α} {i : Nat} (inside : i < data.length) :
    OnlyRaises causes (SortedCollections.itemAt data i : Except (Fault ε) α) := by
  rw [itemAt_of_lt inside]
  exact ok _

/-- A question about an item that is read fails only as the question does. -/
theorem asked {data : List α} {i : Nat} (inside : i < data.length) {f : κ → Except ε Bool}
    {rest : Bool → Except (Fault ε) β}
    (fails : ∀ x ∈ data, ∀ cause, (do f (← key x)) = .error cause → causes cause)
    (goesOn : ∀ answer, OnlyRaises causes (rest answer)) :
    OnlyRaises causes (do
      let k ← Fault.lift (key (← SortedCollections.itemAt data i))
      rest (← Fault.lift (f k))) := by
  refine (itemAt inside).bind fun x read => ?_
  have mem : x ∈ data := List.mem_of_getElem? (itemAt_eq_ok.mp read)
  refine (lift fun cause failed => fails x mem cause (by rw [failed]; rfl)).bind fun k keyed => ?_
  rw [Fault.lift_eq_ok] at keyed
  exact (lift fun cause failed => fails x mem cause (by rw [keyed]; exact failed)).bind
    fun answer _ => goesOn answer

/-- A search within a list reads no item outside it. -/
theorem bisect {data : List α} {lo hi : Nat} (inside : hi ≤ data.length)
    (fails : ∀ x ∈ data, ∀ cause, keyBelow cmp key value x = .error cause → causes cause) :
    OnlyRaises causes (SortedCollections.bisect cmp key data value lo hi) := by
  fun_induction SortedCollections.bisect cmp key data value lo hi with
  | case1 lo hi less mid right left =>
    refine asked (by omega) fails fun below => ?_
    cases below with
    | true => exact right inside
    | false => exact left (by omega)
  | case2 lo hi stop => exact ok _

/-- A search fails only as a question about an item of the list does. -/
theorem findIn {data : List α} {lo hi : Nat} (window : lo ≤ hi) (inside : hi ≤ data.length)
    (fails : ∀ x ∈ data, ∀ cause,
      keyBelow cmp key value x = .error cause ∨ keyAbove cmp key value x = .error cause →
        causes cause) :
    OnlyRaises causes (SortedCollections.findIn cmp key data value lo hi) := by
  refine (bisect inside fun x mem cause failed => fails x mem cause (.inl failed)).bind
    fun i searched => ?_
  have bounds := bisect_bounds window searched
  by_cases last : i = hi
  · rw [if_pos last]
    exact ok _
  · rw [if_neg last]
    have hit : i < data.length := by omega
    exact OnlyRaises.bind (asked hit (fun x mem cause failed => fails x mem cause (.inr failed))
      fun above => ok _) fun found _ => ok _

end OnlyRaises

theorem bisect_shift {data window : List α} {p lo hi : Nat}
    (same : ∀ i, i < hi → (itemAt data (p + i) : Except (Fault ε) α) = itemAt window i) :
    bisect cmp key data value (p + lo) (p + hi) =
      (p + ·) <$> bisect cmp key window value lo hi := by
  fun_induction bisect cmp key window value lo hi with
  | case1 lo hi less mid right left =>
    have middle : (p + lo + (p + hi)) / 2 = p + mid := by omega
    have inside : mid < hi := by omega
    rw [bisect, if_pos (by omega), middle]
    simp only [same mid inside, map_bind]
    refine bind_congr fun x => bind_congr fun k => bind_congr fun below => ?_
    cases below with
    | true => exact right same
    | false => exact left fun i hi => same i (by omega)
  | case2 lo hi stop =>
    rw [bisect, if_neg (by omega)]
    rfl

/-- A search of a window is a search of the list of its items. -/
theorem findIn_shift {data window : List α} {p n : Nat}
    (same : ∀ i, i < n → (itemAt data (p + i) : Except (Fault ε) α) = itemAt window i) :
    findIn cmp key data value p (p + n) =
      (fun found => (p + found.1, found.2)) <$> findIn cmp key window value 0 n := by
  have moved : bisect cmp key data value (p + 0) (p + n) =
      (p + ·) <$> bisect cmp key window value 0 n := bisect_shift same
  rw [Nat.add_zero] at moved
  rw [findIn, moved, findIn, map_bind]
  cases searched : bisect cmp key window value 0 n with
  | error e => rfl
  | ok i =>
    have bounds := bisect_bounds (Nat.zero_le n) searched
    show (if p + i = p + n then _ else _) = _ <$> (if i = n then _ else _)
    by_cases last : i = n
    · rw [if_pos last, if_pos (by omega)]
      rfl
    · rw [if_neg last, if_neg (by omega), tiesAt, same i (by omega)]
      simp only [tiesAt, map_bind, bind_assoc, pure_bind, map_pure]

theorem bisect_eq {data : List α} {w lo hi : Nat} (low : lo ≤ w) (high : w ≤ hi)
    (bound : hi ≤ data.length)
    (answer : ∀ i (h : i < data.length), keyBelow cmp key value data[i] = .ok (decide (i < w))) :
    bisect cmp key data value lo hi = .ok w := by
  fun_induction bisect cmp key data value lo hi with
  | case1 lo hi less mid right left =>
    have inside : mid < data.length := by omega
    obtain ⟨k, hk, below⟩ := bind_eq_ok.mp (answer mid inside)
    rw [itemAt_of_lt inside]
    show (Fault.lift (key data[mid]) >>= _) = _
    rw [hk]
    show (Fault.lift (cmp.lt k value) >>= _) = _
    rw [below]
    by_cases before : mid < w
    · simp only [before, decide_true]
      exact right before high bound
    · simp only [before, decide_false]
      exact left low (by omega) (by omega)
  | case2 lo hi stop =>
    have done : lo = w := by omega
    rw [done]

theorem bisect_append {lows highs : List α}
    (below : ∀ x ∈ lows, keyBelow cmp key value x = .ok true)
    (rest : ∀ x ∈ highs, keyBelow cmp key value x = .ok false) :
    bisect cmp key (lows ++ highs) value 0 (lows ++ highs).length = .ok lows.length :=
  have turns := Sorting.turns_append below rest
  bisect_eq (Nat.zero_le _) turns.inside (Nat.le_refl _) turns.answer

theorem findIn_append_nil {lows : List α}
    (below : ∀ x ∈ lows, keyBelow cmp key value x = .ok true) :
    findIn cmp key lows value 0 lows.length = .ok (lows.length, false) := by
  have searched : bisect cmp key (lows ++ []) value 0 (lows ++ []).length = .ok lows.length :=
    bisect_append below (by simp)
  rw [List.append_nil] at searched
  rw [findIn, searched]
  show (if lows.length = lows.length then _ else _) = _
  rw [if_pos rfl]
  rfl

/-- A search ends at the first item whose key is not less, and says whether the two tie. -/
theorem findIn_append_cons {lows highs : List α} {x : α} {above : Bool}
    (below : ∀ y ∈ lows, keyBelow cmp key value y = .ok true)
    (rest : ∀ y ∈ x :: highs, keyBelow cmp key value y = .ok false)
    (head : keyAbove cmp key value x = .ok above) :
    findIn cmp key (lows ++ x :: highs) value 0 (lows ++ x :: highs).length =
      .ok (lows.length, !above) := by
  have inside : lows.length < (lows ++ x :: highs).length := by simp
  obtain ⟨k, hk, answer⟩ := bind_eq_ok.mp head
  rw [findIn, bisect_append below rest]
  show (if lows.length = (lows ++ x :: highs).length then _ else _) = _
  rw [if_neg (by omega), tiesAt, itemAt_of_lt inside,
    List.getElem_append_right (Nat.le_refl _)]
  simp only [Nat.sub_self, List.getElem_cons_zero]
  show ((Fault.lift (key x) >>= _) >>= _) = _
  rw [hk]
  show ((Fault.lift (cmp.lt value k) >>= _) >>= _) = _
  rw [answer]
  rfl

/-- In a list that increases from what is less than an item to what is not, the search for the item
ends between the two, and finds it if what comes next ties with it. -/
theorem findIn_increasing {P : κ → Prop} (ordered : cmp.OrderedOn P) {lows highs : List α} {x : α}
    (hx : key x = .ok value) (hv : P value) (inside : ∀ y ∈ lows ++ highs, Comparison.KeyIn key P y)
    (below : ∀ y ∈ lows, (cmp.on key).less y x = true)
    (above : ∀ y ∈ highs, (cmp.on key).less y x = false) :
    findIn cmp key (lows ++ highs) value 0 (lows ++ highs).length =
      .ok (lows.length, highs.head?.any (tied (cmp.on key).less x)) := by
  have order := (ordered.on key).decides
  have insideX : Comparison.KeyIn key P x := ⟨value, hx, hv⟩
  have pass : ∀ y ∈ lows, keyBelow cmp key value y = .ok true := by
    intro y mem
    rw [keyBelow_eq hx, order.answers (inside y (by simp [mem])) insideX, below y mem]
  cases highs with
  | nil =>
    rw [List.append_nil]
    exact findIn_append_nil pass
  | cons z highs =>
    have stop : ∀ y ∈ z :: highs, keyBelow cmp key value y = .ok false := by
      intro y mem
      rw [keyBelow_eq hx, order.answers (inside y (List.mem_append_right _ mem)) insideX, above y mem]
    have head : keyAbove cmp key value z = .ok ((cmp.on key).less x z) := by
      rw [keyAbove_eq hx, order.answers insideX (inside z (by simp))]
    rw [findIn_append_cons pass stop head]
    have notLess := above z (by simp)
    simp [tied, notLess]

/-- Where a search stops before the end of its window, it has asked, and the key there was not less. -/
theorem bisect_stops {data : List α} {lo hi i : Nat} (window : lo ≤ hi)
    (searched : bisect cmp key data value lo hi = .ok i) (before : i < hi) :
    ∃ x, data[i]? = some x ∧ keyBelow cmp key value x = .ok false := by
  fun_induction bisect cmp key data value lo hi with
  | case1 lo hi less mid right left =>
    obtain ⟨x, read, searched⟩ := bind_eq_ok.mp searched
    obtain ⟨k, keyed, searched⟩ := bind_eq_ok.mp searched
    obtain ⟨below, asked, searched⟩ := bind_eq_ok.mp searched
    have middle : lo ≤ mid ∧ mid < hi := by omega
    cases below with
    | true => exact right middle.2 searched before
    | false =>
      -- The window now ends at an item that was asked about: the search stops there or before it.
      have bounds := bisect_bounds middle.1 searched
      rcases Nat.lt_or_eq_of_le bounds.2 with earlier | here
      · exact left middle.1 searched earlier
      · subst here
        refine ⟨x, itemAt_eq_ok.mp read, ?_⟩
        rw [keyBelow, Fault.lift_eq_ok.mp keyed]
        exact Fault.lift_eq_ok.mp asked
  | case2 lo hi stop =>
    cases searched
    omega

/-- A search takes an item for the value if neither was found to be less. -/
theorem findIn_hit {data : List α} {lo hi i : Nat} (window : lo ≤ hi)
    (found : findIn cmp key data value lo hi = .ok (i, true)) :
    ∃ x, data[i]? = some x ∧ keyBelow cmp key value x = .ok false ∧
      keyAbove cmp key value x = .ok false := by
  obtain ⟨j, searched, found⟩ := bind_eq_ok.mp found
  by_cases last : j = hi
  · rw [if_pos last] at found
    cases found
  · rw [if_neg last] at found
    obtain ⟨hit, tested, same⟩ := bind_eq_ok.mp found
    cases same
    have bounds := bisect_bounds window searched
    obtain ⟨x, here, below⟩ := bisect_stops window searched (by omega)
    obtain ⟨y, read, tested⟩ := bind_eq_ok.mp tested
    obtain rfl : x = y := Option.some.inj (here.symm.trans (itemAt_eq_ok.mp read))
    obtain ⟨k, keyed, tested⟩ := bind_eq_ok.mp tested
    obtain ⟨above, asked, answer⟩ := bind_eq_ok.mp tested
    refine ⟨x, here, below, ?_⟩
    rw [keyAbove, Fault.lift_eq_ok.mp keyed]
    cases above with
    | true => cases answer
    | false => exact Fault.lift_eq_ok.mp asked

/-- An increasing list is cut in two by any item of the domain. -/
theorem exists_cut_increasing {lt : α → α → Except ε Bool} {less : α → α → Bool} {P : α → Prop}
    (order : Decides lt less P) {ys : List α} (increasing : Increasing less ys)
    (inside : ∀ y ∈ ys, P y) {x : α} (hx : P x) :
    ∃ lows highs, ys = lows ++ highs ∧ (∀ y ∈ lows, less y x = true) ∧
      ∀ y ∈ highs, less y x = false := by
  refine Sorting.exists_cut (fun y => less y x) ?_
  refine List.Pairwise.imp_of_mem ?_ increasing
  intro a b memA memB less_ab less_bx
  exact order.trans (inside a memA) (inside b memB) hx less_ab less_bx

end SortedCollections
