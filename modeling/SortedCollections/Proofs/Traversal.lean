import SortedCollections.Comparison

/-!
# Going through a list with questions that may fail

Items are kept, replaced or dropped one by one, as a function of each answers. The list is gone through
to its end exactly if the function answers for every item.
-/
namespace SortedCollections

variable {ε α β γ δ : Type}

theorem length_of_mapM {f : α → Except ε β} {xs : List α} {ys : List β}
    (done : xs.mapM f = .ok ys) : ys.length = xs.length := by
  induction xs generalizing ys with
  | nil =>
    cases done
    rfl
  | cons x xs ih =>
    rw [List.mapM_cons] at done
    obtain ⟨y, _, done⟩ := bind_eq_ok.mp done
    obtain ⟨rest, restDone, made⟩ := bind_eq_ok.mp done
    cases made
    rw [List.length_cons, List.length_cons, ih restDone]

theorem filterM_eq_filter {test : α → Except ε Bool} {keeps : α → Bool} {xs : List α}
    (answers : ∀ x ∈ xs, test x = .ok (keeps x)) : xs.filterM test = .ok (xs.filter keeps) := by
  have kept (ys acc : List α) (inside : ∀ y ∈ ys, y ∈ xs) :
      ys.filterAuxM test acc = .ok ((ys.filter keeps).reverse ++ acc) := by
    induction ys generalizing acc with
    | nil => rfl
    | cons y ys ih =>
      rw [List.filterAuxM, answers y (inside y (by simp)), List.filter_cons]
      show ys.filterAuxM test (bif keeps y then y :: acc else acc) = _
      rw [ih _ fun z mem => inside z (.tail _ mem)]
      cases keeps y <;> simp
  rw [List.filterM, kept xs [] fun _ => id]
  show Except.ok ((xs.filter keeps).reverse ++ []).reverse = _
  rw [List.append_nil, List.reverse_reverse]

/-- A test that answers for every item keeps those that pass. -/
theorem exists_filterM {test : α → Except ε Bool} {xs : List α}
    (answers : ∀ x ∈ xs, ∃ r, test x = .ok r) :
    ∃ ys, xs.filterM test = .ok ys ∧ ys.Sublist xs ∧ ∀ y ∈ ys, test y = .ok true := by
  let keeps (x : α) : Bool := (test x).toOption == some true
  have asked : ∀ x ∈ xs, test x = .ok (keeps x) := by
    intro x mem
    obtain ⟨r, answer⟩ := answers x mem
    cases r <;> simp [keeps, answer, Except.toOption]
  refine ⟨xs.filter keeps, filterM_eq_filter asked, List.filter_sublist, fun y mem => ?_⟩
  obtain ⟨memXs, pass⟩ := List.mem_filter.mp mem
  rw [asked y memXs, pass]

section Monad

variable {m : Type → Type} [Monad m] [LawfulMonad m]

theorem filterMapM_append (f : β → m (Option γ)) (xs ys : List β) :
    (xs ++ ys).filterMapM f = do return (← xs.filterMapM f) ++ (← ys.filterMapM f) := by
  induction xs with
  | nil => simp [List.filterMapM_nil]
  | cons x xs ih =>
    rw [List.cons_append, List.filterMapM_cons, List.filterMapM_cons, ih]
    simp only [bind_assoc]
    refine bind_congr fun first => ?_
    cases first with
    | none => rfl
    | some first => simp only [bind_assoc, pure_bind, List.cons_append]

theorem filterMapM_single (f : β → m (Option γ)) (x : β) :
    [x].filterMapM f = do return (← f x).toList := by
  rw [List.filterMapM_cons]
  refine bind_congr fun made => ?_
  cases made <;> simp [List.filterMapM_nil]

theorem filterMapM_map (f : γ → m (Option δ)) (g : β → γ) (xs : List β) :
    (xs.map g).filterMapM f = xs.filterMapM fun x => f (g x) := by
  induction xs with
  | nil => simp [List.filterMapM_nil]
  | cons x xs ih => rw [List.map_cons, List.filterMapM_cons, List.filterMapM_cons, ih]

/-- Keeping or dropping all items. -/
theorem filterMapM_pass (keep : Bool) (xs : List β) :
    xs.filterMapM (fun x => (pure (if keep then some x else none) : m (Option β))) =
      pure (xs.filter fun _ => keep) := by
  induction xs with
  | nil => simp [List.filterMapM_nil]
  | cons x xs ih =>
    rw [List.filterMapM_cons, ih]
    cases keep <;> simp

end Monad

/-- What an answer gives, if anything. -/
def given : Except ε (Option β) → Option β
  | .ok made => made
  | .error _ => none

theorem given_eq_some {answer : Except ε (Option β)} {b : β} :
    given answer = some b ↔ answer = .ok (some b) := by
  cases answer <;> simp [given]

/-- A list is gone through to its end exactly if every item is answered. -/
theorem filterMapM_eq_ok {f : α → Except ε (Option β)} {xs : List α} {ys : List β} :
    xs.filterMapM f = .ok ys ↔
      (∀ x ∈ xs, ∃ made, f x = .ok made) ∧ xs.filterMap (fun x => given (f x)) = ys := by
  induction xs generalizing ys with
  | nil =>
    rw [List.filterMapM_nil]
    constructor
    · intro done
      cases done
      exact ⟨by simp, rfl⟩
    · rintro ⟨_, rfl⟩
      rfl
  | cons x xs ih =>
    rw [List.filterMapM_cons, bind_eq_ok, List.forall_mem_cons, List.filterMap_cons, and_assoc]
    constructor
    · rintro ⟨made, first, rest⟩
      refine ⟨⟨made, first⟩, ?_⟩
      rw [first]
      cases made with
      | none => exact ih.mp rest
      | some b =>
        obtain ⟨bs, done, same⟩ := bind_eq_ok.mp rest
        cases same
        obtain ⟨answers, rfl⟩ := ih.mp done
        exact ⟨answers, rfl⟩
    · rintro ⟨⟨made, first⟩, answers, same⟩
      rw [first] at same
      refine ⟨made, first, ?_⟩
      cases made with
      | none => exact ih.mpr ⟨answers, same⟩
      | some b => exact bind_eq_ok.mpr ⟨_, ih.mpr ⟨answers, rfl⟩, congrArg Except.ok same⟩

/-- A failure is that of the first item that is not answered. -/
theorem filterMapM_eq_error {f : α → Except ε (Option β)} {xs : List α} {cause : ε} :
    xs.filterMapM f = .error cause ↔
      ∃ front x back, xs = front ++ x :: back ∧ f x = .error cause ∧
        ∀ y ∈ front, ∃ made, f y = .ok made := by
  constructor
  · intro failed
    induction xs with
    | nil => cases failed
    | cons x xs ih =>
      rw [List.filterMapM_cons] at failed
      cases answer : f x with
      | error other =>
        rw [answer] at failed
        cases failed
        exact ⟨[], x, xs, rfl, answer, by simp⟩
      | ok made =>
        rw [answer] at failed
        have rest : xs.filterMapM f = .error cause := by
          cases made with
          | none => exact failed
          | some b =>
            cases later : xs.filterMapM f with
            | error other =>
              simp only [later] at failed
              cases failed
              rfl
            | ok ys =>
              simp only [later] at failed
              cases failed
        obtain ⟨front, y, back, rfl, answerY, answered⟩ := ih rest
        exact ⟨x :: front, y, back, rfl, answerY,
          List.forall_mem_cons.mpr ⟨⟨made, answer⟩, answered⟩⟩
  · rintro ⟨front, x, back, rfl, answer, answered⟩
    rw [filterMapM_append, filterMapM_eq_ok.mpr ⟨answered, rfl⟩, List.filterMapM_cons, answer]
    rfl

/-- Keeping the items that pass a test. -/
theorem filterM_eq_filterMapM (test : α → Except ε Bool) (xs : List α) :
    xs.filterM test = xs.filterMapM fun x => do return if ← test x then some x else none := by
  have kept (xs acc : List α) : xs.filterAuxM test acc =
      do return (← xs.filterMapM fun x => do return if ← test x then some x else none).reverse ++ acc := by
    induction xs generalizing acc with
    | nil => simp [List.filterAuxM]
    | cons x xs ih =>
      rw [List.filterAuxM, List.filterMapM_cons]
      cases test x with
      | error cause => rfl
      | ok passes =>
        show xs.filterAuxM test (bif passes then x :: acc else acc) = _
        rw [ih]
        cases passes with
        | false => rfl
        | true =>
          generalize (xs.filterMapM fun x => do return if ← test x then some x else none) = rest
          cases rest with
          | error cause => rfl
          | ok ys =>
            show Except.ok (ys.reverse ++ x :: acc) = Except.ok ((x :: ys).reverse ++ acc)
            simp
  rw [List.filterM, kept]
  simp

/-- A test goes through a list to its end exactly if it answers for every item. -/
theorem exists_filterM_iff {test : α → Except ε Bool} {xs : List α} :
    (∃ ys, xs.filterM test = .ok ys) ↔ ∀ x ∈ xs, ∃ r, test x = .ok r := by
  constructor
  · rintro ⟨ys, done⟩ x mem
    rw [filterM_eq_filterMapM] at done
    obtain ⟨made, answer⟩ := (filterMapM_eq_ok.mp done).1 x mem
    obtain ⟨r, answer, _⟩ := bind_eq_ok.mp answer
    exact ⟨r, answer⟩
  · intro answers
    obtain ⟨ys, done, _⟩ := exists_filterM answers
    exact ⟨ys, done⟩

/-- Only the items of a list are tested. -/
theorem filterM_congr {test test' : α → Except ε Bool} {xs : List α}
    (same : ∀ x ∈ xs, test x = test' x) : xs.filterM test = xs.filterM test' := by
  rw [filterM_eq_filterMapM, filterM_eq_filterMapM]
  induction xs with
  | nil => simp only [List.filterMapM_nil]
  | cons x xs ih =>
    obtain ⟨first, rest⟩ := List.forall_mem_cons.mp same
    rw [List.filterMapM_cons, List.filterMapM_cons, first, ih rest]

/-- Going through a list to its end keeps the items that pass the test. -/
theorem of_filterM {test : α → Except ε Bool} {xs ys : List α} (done : xs.filterM test = .ok ys) :
    ys.Sublist xs ∧ ∀ y ∈ ys, test y = .ok true := by
  obtain ⟨zs, done', sub, pass⟩ := exists_filterM (exists_filterM_iff.mp ⟨ys, done⟩)
  cases done.symm.trans done'
  exact ⟨sub, pass⟩

end SortedCollections
