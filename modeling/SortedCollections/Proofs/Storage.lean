import SortedCollections.Proofs.Maps.Canonical
import SortedCollections.Proofs.Sets.Cofinite
import SortedCollections.Proofs.Sets.InPlace
import SortedCollections.Storage

/-!
# Changing containers that share their lists

A merge back into a stored list reads its right input where it is stored. Only the left list is written,
and of that one it reads a copy, so it ends like a merge of two lists that nobody else refers to. From
this follows what an operation in place does to all containers: its own one becomes what the operation
that makes a new one gives, those that refer to its list follow, and the others stay.
-/
namespace SortedCollections

variable {ε ι κ μ ν σ α β τ : Type}

namespace InPlaceMerge

/-- However a step ends, the right input and the saved list are as before. -/
def Keeps (m : InPlaceMerge α) : EStateM.Result (Fault ε) (InPlaceMerge α) β → Prop
  | .ok _ n => n.right = m.right ∧ n.saved = m.saved
  | .error _ n => n.right = m.right ∧ n.saved = m.saved

theorem onBuffer_keeps (step : GapBuffer.Step ε α β) (m : InPlaceMerge α) :
    m.Keeps (onBuffer step m) := by
  unfold onBuffer
  cases step m.buffer <;> simp [Keeps]

theorem reading_keeps (n : Nat) (step : GapBuffer.Step ε α β) (m : InPlaceMerge α) :
    m.Keeps (reading n step m) := by
  unfold reading
  by_cases room : (n : Int) ≤ m.buffer.remaining
  · rw [if_pos room]
    exact onBuffer_keeps step m
  · simp [room, Keeps]

variable [Inhabited α]

theorem advanceLeft_keeps (n : Nat) (take : Bool) (m : InPlaceMerge α) :
    m.Keeps (advanceLeft n take m : EStateM.Result (Fault ε) _ _) := by
  have read := reading_keeps n (GapBuffer.consumeStep (ε := ε) n take) m
  rw [advanceLeft, bind_run]
  cases done : reading n (GapBuffer.consumeStep (ε := ε) n take) m <;> rw [done] at read <;> exact read

theorem advanceRight_keeps (n : Nat) (take : Bool) (m : InPlaceMerge α) :
    m.Keeps (advanceRight n take m : EStateM.Result (Fault ε) _ _) := by
  unfold advanceRight
  cases (stretch m.right m.j n : Except (Fault ε) (List α)) with
  | error e => simp [Keeps]
  | ok items =>
    have written := onBuffer_keeps (if take then GapBuffer.extendStep (ε := ε) items else pure ()) m
    dsimp only
    cases done : onBuffer (if take then GapBuffer.extendStep (ε := ε) items else pure ()) m <;>
      rw [done] at written <;> exact written

omit [Inhabited α] in
theorem takeRight_keeps (n : Nat) (m : InPlaceMerge α) :
    m.Keeps (takeRight n m : EStateM.Result (Fault ε) _ _) := by
  unfold takeRight
  cases (stretch m.right m.j n : Except (Fault ε) (List α)) <;> simp [Keeps]

end InPlaceMerge

namespace Storage

section Merging

variable {st : Storage ι μ} {a : Nat} {right : Right ι} {s : Storage ι μ × InPlaceMerge ι}
  {m : InPlaceMerge ι}

/-- A merge on stored lists stands where a merge of their items stands: of all that is stored only the
left list has changed, and it is the slots of the buffer. -/
structure Stands (st : Storage ι μ) (a : Nat) (right : Right ι) (s : Storage ι μ × InPlaceMerge ι)
    (m : InPlaceMerge ι) : Prop where
  stored : s.1 = st.write a m.buffer.slots
  same : s.2 = m
  right : m.right = right.items st
  saved : m.saved = st.lists a

theorem Stands.start : Stands st a right (st, .start (st.lists a) (right.items st))
    (.start (st.lists a) (right.items st)) where
  stored := by simp [InPlaceMerge.start, GapBuffer.ofList]
  same := rfl
  right := rfl
  saved := rfl

/-- The right input is read as it was, even if it is the left list that is being written. -/
theorem Stands.right_eq (stands : Stands st a right s m) : (loaded a right s.1 s.2).right = m.right := by
  obtain ⟨stored, rfl, same, saved⟩ := stands
  rw [same]
  cases right with
  | apart items => rfl
  | stored b =>
    by_cases self : b = a
    · simp [loaded, self, saved, Right.items]
    · simp [loaded, self, stored, Right.items]

theorem Stands.loaded_eq (stands : Stands st a right s m) : loaded a right s.1 s.2 = m := by
  have slots : s.1.lists a = m.buffer.slots := by simp [stands.stored]
  have parts : loaded a right s.1 s.2 =
      { s.2 with
        buffer := { s.2.buffer with slots := s.1.lists a }
        right := (loaded a right s.1 s.2).right } := rfl
  rw [parts, stands.right_eq, slots, stands.same]

theorem Stands.next (stands : Stands st a right s m) {n : InPlaceMerge ι}
    (kept : n.right = m.right ∧ n.saved = m.saved) :
    Stands st a right (s.1.write a n.buffer.slots, n) n where
  stored := by simp [stands.stored]
  same := rfl
  right := kept.1.trans stands.right
  saved := kept.2.trans stands.saved

theorem Stands.step (stands : Stands st a right s m) {step : EStateM (Fault ε) (InPlaceMerge ι) β}
    (keeps : m.Keeps (step m)) : Agree (Stands st a right) (mergeStep a right step s) (step m) := by
  rw [mergeStep, stands.loaded_eq]
  cases done : step m with
  | ok result n =>
    rw [done] at keeps
    exact .ok (stands.next keeps)
  | error e n =>
    rw [done] at keeps
    exact .error (stands.next keeps)

variable [Inhabited ι]

theorem sink_agrees (st : Storage ι μ) (a : Nat) (right : Right ι) :
    (sink a right : Sink ε ι _).Agrees (Stands st a right) InPlaceMerge.sink where
  advanceLeft n take stands := stands.step (InPlaceMerge.advanceLeft_keeps n take _)
  advanceRight n take stands := stands.step (InPlaceMerge.advanceRight_keeps n take _)
  takeLeft n stands := stands.step (InPlaceMerge.reading_keeps n _ _)
  takeRight n stands := stands.step (InPlaceMerge.takeRight_keeps n _)
  push _ stands := stands.step (InPlaceMerge.onBuffer_keeps _ _)

/-- What a step that writes into a list does if these are the items to be written. -/
def writtenTo (st : Storage ι μ) (a : Nat) :
    Except (Fault ε) (List ι) → EStateM.Result (Fault ε) (Storage ι μ) Unit
  | .ok items => .ok () (st.write a items)
  | .error e => .error e st

/-- A merge back into a stored list writes what the merge of the items gives, or nothing. -/
theorem mergeInto_eq (cmp : Comparison ε κ) (op : Operation ε ι κ) (a : Nat) (right : Right ι)
    (st : Storage ι μ) :
    mergeInto cmp op a right st = st.writtenTo a (merge cmp op (st.lists a) (right.items st)) := by
  have shown (s : Storage ι μ × InPlaceMerge ι) (m : InPlaceMerge ι) (stands : Stands st a right s m) :
      (loaded a right s.1 s.2).inputs.unreadLeft = m.inputs.unreadLeft ∧
        (loaded a right s.1 s.2).inputs.unreadRight = m.inputs.unreadRight := by
    simp [stands.loaded_eq]
  have agree : Agree (Stands st a right)
      (op.run cmp (sink a right) (st, .start (st.lists a) (right.items st)))
      (op.run cmp InPlaceMerge.sink (.start (st.lists a) (right.items st))) :=
    Engine.remainder_agree cmp op.key shown
      (fun call _ _ stands => Script.run_agree (sink_agrees st a right) (op.policy.script call) stands)
      Stands.start
  have alone := mergeInPlace_eq cmp op (st.lists a) (right.items st)
  rw [SortedCollections.mergeInPlace] at alone
  rw [mergeInto]
  generalize op.run cmp (sink a right) (st, .start (st.lists a) (right.items st)) = stored,
    op.run cmp InPlaceMerge.sink (.start (st.lists a) (right.items st)) = merged at agree alone
  generalize merge cmp op (st.lists a) (right.items st) = new at alone
  cases agree with
  | @ok _ s m stands =>
    dsimp only at alone ⊢
    rw [stands.loaded_eq, stands.stored, write_write]
    cases new with
    | ok items =>
      cases alone
      rfl
    | error e => cases alone
  | @error _ s m stands =>
    have restored : m.abort.buffer.slots = st.lists a := stands.saved
    dsimp only at alone ⊢
    rw [stands.loaded_eq, stands.stored, write_write, restored, write_lists]
    cases new with
    | ok items => cases alone
    | error e =>
      obtain ⟨rfl, _⟩ := EStateM.Result.error.inj alone
      rfl

end Merging

/-- The container `h` shows new items, and these are the forms and defaults now. What refers to another
list shows what it did. What refers to the same list follows, unless the container was rebuilt in a list
of its own. -/
structure Changed (st : Storage ι μ) (h : Nat) (items : List ι) (mark : Nat → μ) (rebuilt : Bool)
    (st' : Storage ι μ) : Prop where
  shown : st'.items h = items
  others : ∀ g, st.data g ≠ st.data h → st'.items g = st.items g
  sharing : ∀ g, g ≠ h → st.data g = st.data h →
    st'.items g = if rebuilt then st.items g else items
  lists : ∀ a, a < st.next → a ≠ st.data h → st'.lists a = st.lists a
  elements : st'.elements = st.elements
  mark : st'.mark = mark

section Changes

variable {st st' : Storage ι μ} {h w : Nat} {items : List ι} {rebuilt : Bool}

theorem changed_write (st : Storage ι μ) (h : Nat) (items : List ι) :
    Changed st h items st.mark false (st.write (st.data h) items) where
  shown := by simp
  others g other := by simp [other]
  sharing g _ same := by simp [same]
  lists a _ other := by simp [other]
  elements := rfl
  mark := rfl

theorem changed_renew (st : Storage ι μ) (h : Nat) (items : List ι) :
    Changed st h items st.mark true (st.renew h items) where
  shown := by simp
  others g other := by
    have apart : g ≠ h := fun same => other (congrArg st.data same)
    simp [apart]
  sharing g other _ := by simp [other]
  lists a old _ := st.lists_renew h items old
  elements := rfl
  mark := rfl

theorem Changed.setMark (changed : Changed st h items st.mark rebuilt st') (w : Nat) (mark : μ) :
    Changed st h items (Function.update st.mark w mark) rebuilt (st'.setMark w mark) where
  shown := changed.shown
  others := changed.others
  sharing := changed.sharing
  lists := changed.lists
  elements := changed.elements
  mark := by simp [Storage.setMark, changed.mark]

/-- The container `w` has become `t`, and of its kind every other one that shares no list with it is as
it was. -/
structure Becomes (read : Storage ι μ → Nat → τ) (st : Storage ι μ) (w : Nat) (t : τ)
    (st' : Storage ι μ) : Prop where
  made : read st' w = t
  others : ∀ v, v ≠ w → st.data (st.elements v) ≠ st.data (st.elements w) → read st' v = read st v

theorem Changed.becomes {mark : μ} (read : List ι → μ → τ)
    (changed : Changed st (st.elements w) items (Function.update st.mark w mark) rebuilt st') :
    Becomes (fun st v => read (st.items (st.elements v)) (st.mark v)) st w (read items mark) st' where
  made := by simp [changed.elements, changed.shown, changed.mark]
  others v other apart := by
    simp [changed.elements, changed.others _ apart, changed.mark, Function.update_of_ne other]

theorem Changed.becomes_cofinite {st st' : Storage α Bool} {s : Nat} {items : List α} {negated : Bool}
    (changed : Changed st (st.elements s) items (Function.update st.mark s negated) rebuilt st') :
    Becomes cofinite st s ⟨⟨items⟩, negated⟩ st' :=
  changed.becomes fun items negated => CofiniteSet.mk ⟨items⟩ negated

theorem Changed.becomes_defaultMap {st st' : Storage (κ × ν) ν} {m : Nat} {entries : List (κ × ν)}
    {default : ν}
    (changed : Changed st (st.elements m) entries (Function.update st.mark m default) rebuilt st') :
    Becomes defaultMap st m ⟨⟨entries⟩, default⟩ st' :=
  changed.becomes fun entries default => DefaultMap.mk ⟨entries⟩ default

/-- How a step in place ends if the one that makes a new container gives this answer: what is stored
then goes with what is made, or both fail for the same cause and nothing that is stored has changed. -/
inductive EndsAs (st : Storage ι μ) (Goes : σ → Storage ι μ → Prop) :
    Except (Fault ε) σ → EStateM.Result (Fault ε) (Storage ι μ) Unit → Prop where
  | changed {s : σ} {st' : Storage ι μ} (goes : Goes s st') : EndsAs st Goes (.ok s) (.ok () st')
  | failed (e : Fault ε) : EndsAs st Goes (.error e) (.error e st)

theorem endsAs_writtenTo (wrap : List ι → σ) {Goes : σ → Storage ι μ → Prop} {a : Nat}
    (goes : ∀ items, Goes (wrap items) (st.write a items)) (answer : Except (Fault ε) (List ι)) :
    EndsAs st Goes (do return wrap (← answer)) (st.writtenTo a answer) := by
  cases answer with
  | ok items => exact .changed (goes items)
  | error e => exact .failed e

end Changes

/-- What a holder is combined with, by its items. -/
def Other.operand (st : Storage ι μ) (h : Nat) : Other ε ι → Operand ε ι
  | .holder g => if g = h then .self else .sorted (st.items g)
  | .list a => .unsorted (st.lists a)
  | .unsorted items => .unsorted items
  | .refused cause => .refused cause

theorem Right.items_apart (st : Storage ι μ) (answer : Except (Fault ε) (List ι)) :
    (do return (← (do return Right.apart (← answer))).items st) = answer := by
  cases answer <;> rfl

theorem Other.resolve_operand (cmp : Comparison ε κ) (key : ι → Except ε κ) (st : Storage ι μ)
    (h : Nat) (x : Other ε ι) :
    (x.operand st h).resolve cmp key (st.items h) = do return (← x.right cmp key st).items st := by
  cases x with
  | holder g =>
    by_cases same : g = h
    · subst same
      simp only [operand, if_pos, Operand.resolve]
      rfl
    · simp only [operand, if_neg same, Operand.resolve]
      rfl
  | list a => exact (Right.items_apart st _).symm
  | unsorted items => exact (Right.items_apart st _).symm
  | refused cause => rfl

/-- A holder is changed to what the merge with the operand gives. -/
theorem update_eq [Inhabited ι] (cmp : Comparison ε κ) (op : Operation ε ι κ) (h : Nat)
    (x : Other ε ι) (st : Storage ι μ) :
    update cmp op h x st = st.writtenTo (st.data h) (do
      merge cmp op (st.items h) (← (x.operand st h).resolve cmp op.key (st.items h))) := by
  rw [update, x.resolve_operand]
  cases x.right cmp op.key st with
  | error e => rfl
  | ok right => exact mergeInto_eq cmp op (st.data h) right st

theorem update_set [Inhabited α] (cmp : Comparison ε α) (rule : SetRule) (h : Nat) (x : Other ε α)
    (st : Storage α μ) :
    EndsAs st (fun s => Changed st h s.items st.mark false)
      ((st.set h).merged cmp rule [x.operand st h]) (update cmp rule.operation h x st) := by
  have single : (st.set h).merged cmp rule [x.operand st h] = do
      return ⟨← (do
        merge cmp rule.operation (st.items h) (← (x.operand st h).resolve cmp .ok (st.items h)))⟩ := by
    simp only [SortedSet.merged, List.foldlM_cons, List.foldlM_nil, bind_pure]
    rfl
  rw [single, update_eq]
  exact endsAs_writtenTo SortedSet.mk (changed_write st h) _

theorem update_map [Inhabited κ] [Inhabited ν] (cmp : Comparison ε κ) (rule : MapRule ε κ ν) (h : Nat)
    (x : Other ε (κ × ν)) (st : Storage (κ × ν) μ) :
    EndsAs st (fun m => Changed st h m.entries st.mark false)
      ((st.map h).merged cmp rule (x.operand st h)) (update cmp rule.operation h x st) := by
  have single : (st.map h).merged cmp rule (x.operand st h) = do
      return ⟨← (do
        merge cmp rule.operation (st.items h)
          (← (x.operand st h).resolve cmp SortedMap.key (st.items h)))⟩ := by
    rw [bind_assoc]
    rfl
  rw [single, update_eq]
  exact endsAs_writtenTo SortedMap.mk (changed_write st h) _

theorem rids_eq_true {rule : SetRule} {h : Nat} {x : Other ε α} :
    rids rule h x = true ↔ x = .holder h ∧ (rule = .difference ∨ rule = .symmetricDifference) := by
  cases x <;> simp [rids]

theorem assign_set [Inhabited α] {cmp : Comparison ε α} {P : α → Prop} (ordered : cmp.OrderedOn P)
    (rule : SetRule) (h : Nat) (x : Other ε α) {st : Storage α μ}
    (kept : IncreasingOn cmp.less P (st.items h)) :
    EndsAs st (fun s => Changed st h s.items st.mark false)
      ((st.set h).merged cmp rule [x.operand st h]) (assign cmp rule h x st) := by
  rw [assign]
  by_cases itself : rids rule h x = true
  · obtain ⟨rfl, rids⟩ := rids_eq_true.mp itself
    have emptied : (st.set h).merged cmp rule [(Other.holder h).operand st h] = .ok ⟨[]⟩ := by
      simp only [SortedSet.merged, List.foldlM_cons, List.foldlM_nil, Other.operand, if_pos,
        Operand.resolve, bind_pure]
      show (merge cmp rule.operation (st.items h) (st.items h) >>= _) = _
      rw [SortedSet.merge_self ordered rids kept]
      rfl
    rw [if_pos itself, emptied]
    exact .changed (changed_write st h [])
  · rw [if_neg itself]
    exact update_set cmp rule h x st

/-- What a cofinite set is combined with, by its items and its form. -/
def OtherSet.operand (st : Storage α Bool) (s : Nat) : OtherSet ε α → CofiniteSet.Operand ε α
  | .cofinite r => if r = s then .self else .set (st.cofinite r)
  | .sorted (.holder h) => .set ⟨st.set h, false⟩
  | .sorted (.list a) => .unsorted (st.lists a)
  | .sorted (.unsorted items) => .unsorted items
  | .sorted (.refused cause) => .refused cause

theorem resolve_unsorted (cmp : Comparison ε α) (st : Storage α Bool) (self : CofiniteSet α)
    (items : List α) :
    (CofiniteSet.Operand.unsorted items).resolve cmp self =
      do return ⟨⟨(← (Other.unsorted items).right cmp .ok st).items st⟩, false⟩ := by
  simp only [CofiniteSet.Operand.resolve, CofiniteSet.ofList, SortedSet.ofList, Other.right]
  cases sortDedup cmp .ok .standard items <;> rfl

theorem OtherSet.resolve_operand (cmp : Comparison ε α) (st : Storage α Bool) (s : Nat)
    (x : OtherSet ε α) :
    (x.operand st s).resolve cmp (st.cofinite s) =
      do return ⟨⟨(← x.right cmp st).items st⟩, x.negated st⟩ := by
  cases x with
  | cofinite r =>
    by_cases same : r = s
    · subst same
      simp only [operand, if_pos]
      rfl
    · simp only [operand, if_neg same]
      rfl
  | sorted x =>
    cases x with
    | holder h => rfl
    | list a => exact resolve_unsorted cmp st _ (st.lists a)
    | unsorted items => exact resolve_unsorted cmp st _ items
    | refused cause => rfl

theorem update_cofinite [Inhabited α] (cmp : Comparison ε α) (rule : SetRule) (s : Nat)
    (x : OtherSet ε α) (st : Storage α Bool) :
    EndsAs st
      (fun t st' => Becomes cofinite st s t st' ∧
        Changed st (st.elements s) t.elements.items (Function.update st.mark s t.negated)
          (CofiniteSet.plan rule (st.mark s) (x.negated st)).swapped st')
      ((st.cofinite s).merged cmp rule (x.operand st s)) (updateCofinite cmp rule s x st) := by
  rw [CofiniteSet.merged, x.resolve_operand, updateCofinite]
  cases x.right cmp st with
  | error e => exact .failed e
  | ok right =>
    show EndsAs st _ ((st.cofinite s).combine cmp rule ⟨⟨right.items st⟩, x.negated st⟩) _
    rw [CofiniteSet.combine]
    dsimp only [cofinite, Storage.set, Storage.items]
    by_cases swapped : (CofiniteSet.plan rule (st.mark s) (x.negated st)).swapped = true
    · simp only [swapped, if_true, SortedCollections.mergeInPlace_eq]
      cases merge cmp _ (right.items st) (st.lists (st.data (st.elements s))) with
      | error e => exact .failed e
      | ok items =>
        have changed := (changed_renew st (st.elements s) items).setMark s
          (CofiniteSet.plan rule (st.mark s) (x.negated st)).negated
        exact .changed ⟨changed.becomes_cofinite, changed⟩
    · simp only [swapped, Bool.false_eq_true, if_false, mergeInto_eq]
      cases merge cmp _ (st.lists (st.data (st.elements s))) (right.items st) with
      | error e => exact .failed e
      | ok items =>
        have changed := (changed_write st (st.elements s) items).setMark s
          (CofiniteSet.plan rule (st.mark s) (x.negated st)).negated
        exact .changed ⟨changed.becomes_cofinite, changed⟩

theorem combine_defaultMap [Inhabited κ] [Inhabited ν] (cmp : Comparison ε κ)
    (eq : ν → ν → Except ε Bool) (f : ν → ν → Except ε ν) (m x : Nat) (st : Storage (κ × ν) ν) :
    EndsAs st
      (fun n st' => Becomes defaultMap st m n st' ∧
        Changed st (st.elements m) n.entries.entries (Function.update st.mark m n.default) false st')
      ((st.defaultMap m).combine cmp eq f (st.defaultMap x)) (combineInPlace cmp eq f m x st) := by
  rw [DefaultMap.combine, combineInPlace]
  dsimp only [defaultMap, Storage.map, Storage.items]
  cases f (st.mark m) (st.mark x) with
  | error e => exact .failed (.raised e)
  | ok default =>
    simp only [mergeInto_eq, Right.items]
    show EndsAs st _ (merge cmp _ _ _ >>= _) _
    cases merge cmp _ (st.lists (st.data (st.elements m))) (st.lists (st.data (st.elements x))) with
    | error e => exact .failed e
    | ok entries =>
      have changed := (changed_write st (st.elements m) entries).setMark m default
      exact .changed ⟨changed.becomes_defaultMap, changed⟩

end Storage

open Storage

/-- Containers that may share their lists change in place to what the operation that makes a new one
makes of their items, or fail for the same cause, and then nothing that is stored has changed. The
operand may be the container itself, its elements or any other one that shares its list. One that shares
nothing is as it was; one that shares the list follows, but for a set that is rebuilt because its plan
swaps the operands. -/
structure SharedInPlace (ε α κ ν : Type) [Inhabited α] [Inhabited κ] [Inhabited ν] : Prop where
  sets : ∀ (cmp : Comparison ε α) rule h x (st : Storage α Bool),
    EndsAs st (fun s => Changed st h s.items st.mark false)
      ((st.set h).merged cmp rule [x.operand st h]) (update cmp rule.operation h x st)
  assigned : ∀ (cmp : Comparison ε α) P, cmp.OrderedOn P →
    ∀ rule h x (st : Storage α Bool), IncreasingOn cmp.less P (st.items h) →
      EndsAs st (fun s => Changed st h s.items st.mark false)
        ((st.set h).merged cmp rule [x.operand st h]) (assign cmp rule h x st)
  maps : ∀ (cmp : Comparison ε κ) (rule : MapRule ε κ ν) h x (st : Storage (κ × ν) ν),
    EndsAs st (fun m => Changed st h m.entries st.mark false)
      ((st.map h).merged cmp rule (x.operand st h)) (update cmp rule.operation h x st)
  cofinite : ∀ (cmp : Comparison ε α) rule s x (st : Storage α Bool),
    EndsAs st
      (fun t st' => Becomes cofinite st s t st' ∧
        Changed st (st.elements s) t.elements.items (Function.update st.mark s t.negated)
          (CofiniteSet.plan rule (st.mark s) (x.negated st)).swapped st')
      ((st.cofinite s).merged cmp rule (x.operand st s)) (updateCofinite cmp rule s x st)
  defaults : ∀ (cmp : Comparison ε κ) (eq : ν → ν → Except ε Bool) (f : ν → ν → Except ε ν) m x
      (st : Storage (κ × ν) ν),
    EndsAs st
      (fun n st' => Becomes defaultMap st m n st' ∧
        Changed st (st.elements m) n.entries.entries (Function.update st.mark m n.default) false st')
      ((st.defaultMap m).combine cmp eq f (st.defaultMap x)) (combineInPlace cmp eq f m x st)

theorem sharedInPlace (ε α κ ν : Type) [Inhabited α] [Inhabited κ] [Inhabited ν] :
    SharedInPlace ε α κ ν where
  sets cmp rule h x st := update_set cmp rule h x st
  assigned _ _ ordered rule h x _ kept := assign_set ordered rule h x kept
  maps cmp rule h x st := update_map cmp rule h x st
  cofinite cmp rule s x st := update_cofinite cmp rule s x st
  defaults cmp eq f m x st := combine_defaultMap cmp eq f m x st

end SortedCollections
