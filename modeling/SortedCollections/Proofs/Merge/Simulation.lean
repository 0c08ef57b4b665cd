import SortedCollections.Proofs.Merge.Walk

/-!
# Merges that run alike

Two targets are compared by a relation between their states. If related states show the same items
to come, and every step of one target is answered alike by the other and keeps the states related,
then scripts are answered alike, and so are whole merges. This holds up to the first fault and
includes it: a run that ends in a fault leaves related states behind, too.
-/
namespace SortedCollections

variable {ε α κ μ σ τ β γ : Type}

/-- Two steps end alike: with the same result or the same fault, in related states. -/
inductive Agree (R : σ → τ → Prop) :
    EStateM.Result (Fault ε) σ β → EStateM.Result (Fault ε) τ β → Prop where
  | ok {result : β} {s : σ} {t : τ} (related : R s t) : Agree R (.ok result s) (.ok result t)
  | error {fault : Fault ε} {s : σ} {t : τ} (related : R s t) :
      Agree R (.error fault s) (.error fault t)

namespace Agree

variable {R : σ → τ → Prop} {s : σ} {t : τ}

theorem bind {first : EStateM (Fault ε) σ β} {first' : EStateM (Fault ε) τ β}
    {second : β → EStateM (Fault ε) σ γ} {second' : β → EStateM (Fault ε) τ γ}
    (agree : Agree R (first s) (first' t))
    (rest : ∀ result s t, R s t → Agree R (second result s) (second' result t)) :
    Agree R ((first >>= second) s) ((first' >>= second') t) := by
  rw [bind_run, bind_run]
  generalize first s = answer, first' t = answer' at agree
  cases agree with
  | ok related => exact rest _ _ _ related
  | error related => exact .error related

/-- One step and then another, if the first one answers yes. -/
theorem both {first second : EStateM (Fault ε) σ Bool} {first' second' : EStateM (Fault ε) τ Bool}
    (agree : Agree R (first s) (first' t))
    (rest : ∀ s t, R s t → Agree R (second s) (second' t)) :
    Agree R ((do if ← first then second else return false) s)
      ((do if ← first' then second' else return false) t) := by
  refine agree.bind fun more s t related => ?_
  cases more with
  | true => exact rest s t related
  | false => exact .ok related

theorem attempt {step : EStateM (Fault ε) σ β} {step' : EStateM (Fault ε) τ β}
    (agree : Agree R (step s) (step' t)) :
    Agree R (SortedCollections.attempt step s) (SortedCollections.attempt step' t) := by
  rw [SortedCollections.attempt, SortedCollections.attempt]
  generalize step s = answer, step' t = answer' at agree
  cases agree with
  | ok related => exact .ok related
  | error related => exact .ok related

end Agree

/-- Related states take every step alike. -/
structure Sink.Agrees (R : σ → τ → Prop) (sink : Sink ε α σ) (sink' : Sink ε α τ) : Prop where
  advanceLeft : ∀ {s t} n take, R s t →
    Agree R (sink.advanceLeft n take s) (sink'.advanceLeft n take t)
  advanceRight : ∀ {s t} n take, R s t →
    Agree R (sink.advanceRight n take s) (sink'.advanceRight n take t)
  takeLeft : ∀ {s t} n, R s t → Agree R (sink.takeLeft n s) (sink'.takeLeft n t)
  takeRight : ∀ {s t} n, R s t → Agree R (sink.takeRight n s) (sink'.takeRight n t)
  push : ∀ {s t} item, R s t → Agree R (sink.push item s) (sink'.push item t)

/-- Targets that take every step alike answer every script alike. -/
theorem Script.run_agree {R : σ → τ → Prop} {sink : Sink ε α σ} {sink' : Sink ε α τ}
    (agrees : sink.Agrees R sink') (script : Script ε α β) {s : σ} {t : τ} (related : R s t) :
    Agree R (script.run sink s) (script.run sink' t) := by
  induction script generalizing s t with
  | done result => exact .ok related
  | fail fault => exact .error related
  | advanceLeft n take next ih =>
    exact (agrees.advanceLeft n take related).attempt.bind fun answer _ _ related =>
      ih answer related
  | advanceRight n take next ih =>
    exact (agrees.advanceRight n take related).attempt.bind fun answer _ _ related =>
      ih answer related
  | takeLeft n next ih =>
    exact (agrees.takeLeft n related).attempt.bind fun answer _ _ related => ih answer related
  | takeRight n next ih =>
    exact (agrees.takeRight n related).attempt.bind fun answer _ _ related => ih answer related
  | push item next ih =>
    exact (agrees.push item related).attempt.bind fun answer _ _ related => ih answer related

namespace Engine

variable {R : σ → τ → Prop} {view : σ → Inputs α} {view' : τ → Inputs α} {handler : Handler ε σ}
  {handler' : Handler ε τ}

/-- Merges whose calls are answered alike in related states end alike. -/
theorem window_agree (cmp : Comparison ε κ) (key : α → Except ε κ)
    (shown : ∀ s t, R s t → (view s).unreadLeft = (view' t).unreadLeft ∧
      (view s).unreadRight = (view' t).unreadRight)
    (answered : ∀ call s t, R s t → Agree R (handler call s) (handler' call t))
    {m n : Nat} {s : σ} {t : τ} (related : R s t) :
    Agree R (window cmp key (.ok <| view ·) handler m n s)
      (window cmp key (.ok <| view' ·) handler' m n t) := by
  induction m using Nat.strongRecOn generalizing s t n with
  | ind m ih =>
    by_cases noLeft : m = 0
    · rw [window, window, if_pos noLeft, if_pos noLeft]
      by_cases noRight : n = 0
      · rw [if_pos noRight, if_pos noRight]
        exact .ok related
      · rw [if_neg noRight, if_neg noRight]
        exact answered _ _ _ related
    by_cases noRight : n = 0
    · rw [window, window, if_neg noLeft, if_neg noLeft, if_pos noRight, if_pos noRight]
      exact answered _ _ _ related
    have inside : m / 2 < m := by omega
    have same : locate cmp key (view s) (m / 2) n = locate cmp key (view' t) (m / 2) n := by
      obtain ⟨left, right⟩ := shown s t related
      rw [locate_eq left right inside, ← locate_eq rfl rfl inside]
    rw [window_of_pos cmp key view handler noLeft noRight,
      window_of_pos cmp key view' handler' noLeft noRight, same]
    cases locate cmp key (view' t) (m / 2) n with
    | error e => exact .error related
    | ok result =>
      obtain ⟨place, found⟩ := result
      have before := ih (m / 2) inside (n := place) related
      have middle := before.both fun s t related =>
        answered (if found then .tie else .left 1) s t related
      exact middle.both fun s t related => ih (m - m / 2 - 1) (by omega) related

theorem remainder_agree (cmp : Comparison ε κ) (key : α → Except ε κ)
    (shown : ∀ s t, R s t → (view s).unreadLeft = (view' t).unreadLeft ∧
      (view s).unreadRight = (view' t).unreadRight)
    (answered : ∀ call s t, R s t → Agree R (handler call s) (handler' call t))
    {s : σ} {t : τ} (related : R s t) :
    Agree R (remainder cmp key (.ok <| view ·) handler s)
      (remainder cmp key (.ok <| view' ·) handler' t) := by
  obtain ⟨left, right⟩ := shown s t related
  have leftLength : (view s).left.length - (view s).i = (view' t).left.length - (view' t).i := by
    simpa [Inputs.unreadLeft] using congrArg List.length left
  have rightLength : (view s).right.length - (view s).j =
      (view' t).right.length - (view' t).j := by
    simpa [Inputs.unreadRight] using congrArg List.length right
  rw [remainder, remainder, get_bind_run, get_bind_run, lift_bind_run, lift_bind_run]
  dsimp only
  rw [leftLength, rightLength]
  exact (window_agree cmp key shown answered related).bind fun _ _ _ related => .ok related

/-- A merge whose state holds more than that of another one, and whose calls are answered alike. -/
theorem remainder_forget (cmp : Comparison ε κ) (key : α → Except ε κ) (view : σ → Inputs α)
    (forget : τ → σ) {handler : Handler ε τ} {handler' : Handler ε σ}
    (answered : ∀ call t, Agree (fun t s => forget t = s) (handler call t) (handler' call (forget t)))
    (t : τ) :
    Agree (fun t s => forget t = s) (remainder cmp key (.ok <| view <| forget ·) handler t)
      (remainder cmp key (.ok <| view ·) handler' (forget t)) := by
  refine remainder_agree cmp key ?_ ?_ rfl
  · rintro t s rfl
    exact ⟨rfl, rfl⟩
  · rintro call t s rfl
    exact answered call t

end Engine

/-- A state with something beside it, and without. -/
abbrev Beside (s : σ × μ) (t : σ) : Prop := s.1 = t

end SortedCollections
