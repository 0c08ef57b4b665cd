import SortedCollections.Proofs.Maps.Merging

/-!
# In which order functions are consulted

A function that writes down what it is asked shows which keys a merge of entries asks about. Writing down
changes nothing about the merge. A rule that is given a function asks about the keys that it covers, in
increasing order and each key once, up to the first one for which the function fails. The merge fails
exactly if there is such a key, and for its cause; otherwise it consists of what the function gave and of
the entries that there was nothing to ask about.
-/
namespace SortedCollections

open Asking (noting)

variable {ε β γ δ κ ν : Type}

/-- Each item is answered like this, and what is noted about it, if anything, is written down. -/
def Notes (asks : β → EStateM ε (List δ) (Option γ)) (answer : β → Except ε (Option γ))
    (noted : β → Option δ) : Prop :=
  ∀ b log, asks b log =
    match answer b with
    | .ok made => .ok made (log ++ (noted b).toList)
    | .error cause => .error cause (log ++ (noted b).toList)

namespace Notes

variable {asks : β → EStateM ε (List δ) (Option γ)} {answer : β → Except ε (Option γ)}
  {noted : β → Option δ} (notes : Notes asks answer noted)
include notes

/-- What is written down on the way through a list. -/
theorem filterMapM {bs : List β} {cs : List γ} (done : bs.filterMapM answer = .ok cs) (log : List δ) :
    bs.filterMapM asks log = .ok cs (log ++ bs.filterMap noted) := by
  induction bs generalizing cs log with
  | nil =>
    cases done
    rw [List.filterMap_nil, List.append_nil]
    rfl
  | cons b bs ih =>
    rw [List.filterMapM_cons] at done
    obtain ⟨made, first, rest⟩ := bind_eq_ok.mp done
    have asked : asks b log = .ok made (log ++ (noted b).toList) := by rw [notes, first]
    rw [List.filterMapM_cons, bind_run, asked, List.filterMap_eq_flatMap_toList, List.flatMap_cons,
      ← List.filterMap_eq_flatMap_toList, ← List.append_assoc]
    cases made with
    | none => exact ih rest _
    | some c =>
      obtain ⟨ds, later, same⟩ := bind_eq_ok.mp rest
      cases same
      dsimp only
      rw [bind_run, ih later]
      rfl

/-- What is written down on the way to the first failure. -/
theorem filterMapM_failed {front back : List β} {b : β} {cause : ε} (failed : answer b = .error cause)
    (answered : ∀ c ∈ front, ∃ made, answer c = .ok made) (log : List δ) :
    (front ++ b :: back).filterMapM asks log = .error cause (log ++ (front ++ [b]).filterMap noted) := by
  have asked (log : List δ) : asks b log = .error cause (log ++ (noted b).toList) := by rw [notes, failed]
  have last : [b].filterMap noted = (noted b).toList := by
    rw [List.filterMap_eq_flatMap_toList, List.flatMap_singleton]
  rw [filterMapM_append, bind_run, notes.filterMapM (filterMapM_eq_ok.mpr ⟨answered, rfl⟩)]
  dsimp only
  rw [bind_run, List.filterMapM_cons, bind_run, asked, List.filterMap_append, last, List.append_assoc]

end Notes

def Pairing.question (p : Pairing (κ × ν)) : Question κ ν :=
  ⟨p.item.1, p.left?.map Prod.snd, p.right?.map Prod.snd⟩

namespace Asking

variable {μ : Type}

/-- Does an operation ask about a key, by whether it is on the left and on the right? -/
def covers (op : Asking ε κ ν μ) : Bool → Bool → Bool
  | true, true => true
  | true, false => op.onLeft = .ask
  | false, true => op.onRight = .ask
  | false, false => false

/-- What an operation asks about a pairing. -/
def asked (op : Asking ε κ ν μ) (p : Pairing (κ × ν)) : Option (Question κ ν) :=
  if op.covers p.left?.isSome p.right?.isSome then some p.question else none

/-- An entry of a pairing is kept without being asked about. -/
def Keeps (op : Asking ε κ ν μ) (p : Pairing (κ × ν)) (e : κ × ν) : Prop :=
  op.onLeft = .pass true ∧ p = .left e ∨ op.onRight = .pass true ∧ p = .right e

/-- What an operation does with a pairing: its question decides, or the entry is kept or dropped as it
stands. -/
inductive Treats (op : Asking ε κ ν μ) (f : Policy.JoinFunction ε κ ν) (p : Pairing (κ × ν)) : Prop where
  | asks (asked : op.asked p = some p.question) (kept : ∀ e, ¬op.Keeps p e)
    (makes : op.makes .plain f p = entryOf Question.key (Question.answerOf f) p.question)
    (walks : op.ofPairing .plain p =
      (do return (← op.function p.question).map (Prod.mk p.question.key))) : Treats op f p
  | passes (made : Option (κ × ν)) (asked : op.asked p = none) (kept : ∀ e, op.Keeps p e ↔ made = some e)
    (makes : op.makes .plain f p = .ok made) (walks : op.ofPairing .plain p = pure made) : Treats op f p

theorem asked_eq_some {op : Asking ε κ ν μ} {p : Pairing (κ × ν)} {q : Question κ ν} :
    op.asked p = some q ↔ op.covers p.left?.isSome p.right?.isSome = true ∧ p.question = q := by
  rw [asked]
  split <;> simp_all

theorem treats (op : Asking ε κ ν μ) (f : Policy.JoinFunction ε κ ν) (p : Pairing (κ × ν)) :
    op.Treats f p := by
  cases p with
  | left x =>
    cases side : op.onLeft with
    | ask =>
      exact .asks (by simp [asked, covers, side]) (by simp [Keeps, side]) (by rw [makes, side]; rfl)
        (by rw [ofPairing, side]; rfl)
    | pass keep =>
      exact .passes (if keep then some x else none) (by simp [asked, covers, side])
        (fun e => by cases keep <;> simp [Keeps, side]) (by rw [makes, side]; rfl)
        (by rw [ofPairing, side]; rfl)
  | right y =>
    cases side : op.onRight with
    | ask =>
      exact .asks (by simp [asked, covers, side]) (by simp [Keeps, side]) (by rw [makes, side]; rfl)
        (by rw [ofPairing, side]; rfl)
    | pass keep =>
      exact .passes (if keep then some y else none) (by simp [asked, covers, side])
        (fun e => by cases keep <;> simp [Keeps, side]) (by rw [makes, side]; rfl)
        (by rw [ofPairing, side]; rfl)
  | tie x y => exact .asks rfl (by simp [Keeps]) rfl rfl

theorem noting_answersAs (f : Policy.JoinFunction ε κ ν) :
    AnswersAs (noting f) (Question.answerOf f) := by
  intro q log
  rw [noting]
  cases q.answerOf f <;> rfl

/-- An operation writes down what it asks. -/
theorem ofPairing_notes {op : Asking ε κ ν (List (Question κ ν))} {f : Policy.JoinFunction ε κ ν}
    (notes : op.function = noting f) :
    Notes (op.ofPairing .plain) (op.makes .plain f) op.asked := by
  intro p log
  cases op.treats f p with
  | asks asked kept makes walks =>
    rw [asked, makes, walks, entryOf, notes, bind_run, noting]
    cases p.question.answerOf f <;> rfl
  | passes made asked kept makes walks =>
    rw [asked, makes, walks, Option.toList_none, List.append_nil]
    rfl

end Asking

/-- The questions about two lists of entries in increasing order of their keys: one for each key of
either list, if it is covered by being on the left and on the right or not. -/
structure Questions (cmp : Comparison ε κ) (a b : List (κ × ν)) (covers : Bool → Bool → Bool)
    (asked : List (Question κ ν)) : Prop where
  increasing : asked.Pairwise fun p q => cmp.less p.key q.key = true
  mem : ∀ q, q ∈ asked ↔ Sides cmp {e | e ∈ a} {e | e ∈ b} q.key q.left q.right ∧
    covers q.left.isSome q.right.isSome = true

/-- What an operation asks about two lists of entries, if there are answers. -/
def Asking.questions {μ : Type} (op : Asking ε κ ν μ) (cmp : Comparison ε κ) (a b : List (κ × ν)) :
    List (Question κ ν) :=
  (pairings (cmp.on SortedMap.key).less a b).filterMap op.asked

section Order

variable {cmp : Comparison ε κ} {P : κ → Prop} {a b : List (κ × ν)} {μ : Type}

theorem questions_asked (ordered : cmp.OrderedOn P) (ha : EntriesOn cmp.less P a)
    (hb : EntriesOn cmp.less P b) (op : Asking ε κ ν μ) :
    Questions cmp a b op.covers (op.questions cmp a b) where
  increasing := by
    have increasing := (pairings_increasing (ordered.on SortedMap.key).decides
      (entriesOn_keyed.mpr ha) (entriesOn_keyed.mpr hb)).increasing
    refine List.pairwise_filterMap.mpr (increasing.imp fun below q asks q' asks' => ?_)
    obtain ⟨_, rfl⟩ := Asking.asked_eq_some.mp asks
    obtain ⟨_, rfl⟩ := Asking.asked_eq_some.mp asks'
    exact below
  mem q := by
    have tableA : Tabulates cmp P a {e | e ∈ a} := .of_entriesOn ha fun _ => Iff.rfl
    have tableB : Tabulates cmp P b {e | e ∈ b} := .of_entriesOn hb fun _ => Iff.rfl
    rw [Asking.questions, List.mem_filterMap, sides_iff ordered tableA tableB]
    constructor
    · rintro ⟨p, mem, asks⟩
      obtain ⟨covered, rfl⟩ := Asking.asked_eq_some.mp asks
      refine ⟨⟨p, mem, rfl, rfl, rfl⟩, ?_⟩
      simpa only [Pairing.question, Option.isSome_map] using covered
    · rintro ⟨⟨p, mem, key, left, right⟩, covered⟩
      have same : p.question = q := by rw [Pairing.question, key, left, right]
      refine ⟨p, mem, Asking.asked_eq_some.mpr ⟨?_, same⟩⟩
      rwa [← left, ← right, Option.isSome_map, Option.isSome_map] at covered

/-- The entries that an operation keeps without asking. -/
def Asking.untouched (op : Asking ε κ ν μ) (cmp : Comparison ε κ) (a b : List (κ × ν)) : Set (κ × ν) :=
  {e | op.onLeft = .pass true ∧ e ∈ a ∧ ¬cmp.HasKey {e | e ∈ b} e.1 ∨
    op.onRight = .pass true ∧ e ∈ b ∧ ¬cmp.HasKey {e | e ∈ a} e.1}

/-- A merge that takes a function, and the merge with what is written down about the function. -/
structure Consults (cmp : Comparison ε κ) (P : κ → Prop) (f : Policy.JoinFunction ε κ ν)
    (asked : List (Question κ ν)) (untouched : Set (κ × ν)) (merged : Except (Fault ε) (List (κ × ν)))
    (watched : EStateM.Result (Fault ε) (List (Question κ ν)) (List (κ × ν))) : Prop where
  /-- Writing down changes nothing. -/
  same : outcome watched = merged
  /-- If there is an answer to each question, they are the questions that are asked. -/
  answers : (∀ q ∈ asked, ∃ made, q.answerOf f = .ok made) →
    ∃ entries, watched = .ok entries asked ∧ EntriesOn cmp.less P entries ∧
      ∀ e, e ∈ entries ↔ e ∈ untouched ∨ ∃ q ∈ asked, q.key = e.1 ∧ q.answerOf f = .ok (some e.2)
  /-- Nothing is asked after a failure. -/
  stops : ∀ front q back cause, asked = front ++ q :: back →
    (∀ p ∈ front, ∃ made, p.answerOf f = .ok made) → q.answerOf f = .error cause →
    watched = .error (.raised cause) (front ++ [q])
  /-- The failure is that of the least key for which the function fails. -/
  fails : ∀ fault, merged = .error fault ↔ ∃ q ∈ asked, ∃ cause, q.answerOf f = .error cause ∧
    fault = .raised cause ∧
      ∀ p ∈ asked, cmp.less p.key q.key = true → ∃ made, p.answerOf f = .ok made

theorem Questions.inside (ha : EntriesOn cmp.less P a) (hb : EntriesOn cmp.less P b)
    {covers : Bool → Bool → Bool} {asked : List (Question κ ν)}
    (questions : Questions cmp a b covers asked) {q : Question κ ν} (mem : q ∈ asked) : P q.key := by
  obtain ⟨sides, _⟩ := (questions.mem q).mp mem
  generalize q.left = left, q.right = right at sides
  cases sides with
  | left memA _ => exact ha.inside _ memA
  | right memB _ => exact hb.inside _ memB
  | both memA _ _ => exact ha.inside _ memA

section Watched

variable {op : Asking ε κ ν (List (Question κ ν))} {f : Policy.JoinFunction ε κ ν}

theorem mem_untouched (ordered : cmp.OrderedOn P) (ha : EntriesOn cmp.less P a)
    (hb : EntriesOn cmp.less P b) {e : κ × ν} :
    e ∈ op.untouched cmp a b ↔ ∃ p ∈ pairings (cmp.on SortedMap.key).less a b, op.Keeps p e := by
  have tableA : Tabulates cmp P a {e | e ∈ a} := .of_entriesOn ha fun _ => Iff.rfl
  have tableB : Tabulates cmp P b {e | e ∈ b} := .of_entriesOn hb fun _ => Iff.rfl
  have order := (ordered.on (SortedMap.key : κ × ν → Except ε κ)).decides
  have onLeft : .left e ∈ pairings (cmp.on SortedMap.key).less a b ↔
      e ∈ a ∧ ¬cmp.HasKey {e | e ∈ b} e.1 :=
    (left_mem_pairings order tableA.kept tableB.kept).trans
      (and_congr_right fun mem => tableB.missing_iff ordered (ha.inside e mem))
  have onRight : .right e ∈ pairings (cmp.on SortedMap.key).less a b ↔
      e ∈ b ∧ ¬cmp.HasKey {e | e ∈ a} e.1 :=
    (right_mem_pairings order tableA.kept tableB.kept).trans
      (and_congr_right fun mem => tableA.missing_iff ordered (hb.inside e mem))
  constructor
  · rintro (⟨keeps, alone⟩ | ⟨keeps, alone⟩)
    · exact ⟨_, onLeft.mpr alone, .inl ⟨keeps, rfl⟩⟩
    · exact ⟨_, onRight.mpr alone, .inr ⟨keeps, rfl⟩⟩
  · rintro ⟨_, mem, ⟨keeps, rfl⟩ | ⟨keeps, rfl⟩⟩
    · exact .inl ⟨keeps, onLeft.mp mem⟩
    · exact .inr ⟨keeps, onRight.mp mem⟩

/-- What is made of a pairing comes from an answer, or is kept. -/
theorem makes_eq_some {p : Pairing (κ × ν)} {e : κ × ν} :
    op.makes .plain f p = .ok (some e) ↔
      op.Keeps p e ∨ ∃ q, op.asked p = some q ∧ q.key = e.1 ∧ q.answerOf f = .ok (some e.2) := by
  cases op.treats f p with
  | asks asked kept makes walks =>
    rw [makes, entryOf_eq_some, asked]
    simp [kept]
  | passes made asked kept makes walks =>
    rw [makes, kept, asked]
    simp

theorem exists_makes {ps : List (Pairing (κ × ν))}
    (answered : ∀ q ∈ ps.filterMap op.asked, ∃ made, q.answerOf f = .ok made) :
    ∀ p ∈ ps, ∃ made, op.makes .plain f p = .ok made := by
  intro p mem
  cases op.treats f p with
  | asks asked kept makes walks =>
    rw [makes]
    exact entryOf_answers.mpr (answered _ (List.mem_filterMap.mpr ⟨p, mem, asked⟩))
  | passes made asked kept makes walks => exact ⟨made, makes⟩

theorem makes_failed {p : Pairing (κ × ν)} {q : Question κ ν} {cause : ε} (asked : op.asked p = some q)
    (failed : q.answerOf f = .error cause) : op.makes .plain f p = .error cause := by
  cases op.treats f p with
  | asks asked' kept makes walks =>
    cases asked.symm.trans asked'
    rw [makes]
    exact entryOf_eq_error.mpr failed
  | passes made asked' kept makes walks => cases asked.symm.trans asked'

/-- The least question that fails is the first one. -/
theorem Questions.first_failure (ordered : cmp.OrderedOn P) (ha : EntriesOn cmp.less P a)
    (hb : EntriesOn cmp.less P b) {covers : Bool → Bool → Bool} {asked : List (Question κ ν)}
    (questions : Questions cmp a b covers asked) {q : Question κ ν} {cause : ε}
    (failed : q.answerOf f = .error cause) :
    (∃ front back, asked = front ++ q :: back ∧ ∀ p ∈ front, ∃ made, p.answerOf f = .ok made) ↔
      q ∈ asked ∧ ∀ p ∈ asked, cmp.less p.key q.key = true → ∃ made, p.answerOf f = .ok made := by
  have increasing := questions.increasing
  have inside {p : Question κ ν} (mem : p ∈ asked) : P p.key := questions.inside ha hb mem
  constructor
  · rintro ⟨front, back, rfl, answered⟩
    refine ⟨by simp, fun p mem below => ?_⟩
    rcases List.mem_append.mp mem with memFront | memBack
    · exact answered p memFront
    · -- What comes later is not less.
      have notBelow : cmp.less p.key q.key = false := by
        rcases List.mem_cons.mp memBack with rfl | memBack
        · exact ordered.decides.irrefl (inside mem)
        · have above := List.rel_of_pairwise_cons (List.pairwise_append.mp increasing).2.1 memBack
          exact ordered.decides.asymm (inside (by simp)) (inside mem) above
      rw [notBelow] at below
      cases below
  · rintro ⟨mem, answered⟩
    obtain ⟨front, back, rfl⟩ := List.append_of_mem mem
    refine ⟨front, back, rfl, fun p memFront => answered p (by simp [memFront]) ?_⟩
    exact (List.pairwise_append.mp increasing).2.2 p memFront q (by simp)

section Ordered

variable (ordered : cmp.OrderedOn P) (ha : EntriesOn cmp.less P a) (hb : EntriesOn cmp.less P b)
include ordered ha hb

/-- If all questions are answered, they are asked one after the other. -/
theorem watched_answers {rule : MapRule ε κ ν} (askedBy : rule.AskedBy op f)
    (notes : op.function = noting f)
    (answered : ∀ q ∈ op.questions cmp a b, ∃ made, q.answerOf f = .ok made) :
    ∃ entries, op.merge .plain cmp SortedMap.key a b [] = .ok entries (op.questions cmp a b) ∧
      EntriesOn cmp.less P entries ∧
        ∀ e, e ∈ entries ↔ e ∈ op.untouched cmp a b ∨
          ∃ q ∈ op.questions cmp a b, q.key = e.1 ∧ q.answerOf f = .ok (some e.2) := by
  have keptA := entriesOn_keyed.mpr ha
  have keptB := entriesOn_keyed.mpr hb
  have increasing := pairings_increasing (ordered.on _).decides keptA keptB
  obtain ⟨entries, done⟩ : ∃ entries, (pairings (cmp.on SortedMap.key).less a b).filterMapM
      (op.makes .plain f) = .ok entries := ⟨_, filterMapM_eq_ok.mpr ⟨exists_makes answered, rfl⟩⟩
  refine ⟨entries, ?_, ?_, fun e => ?_⟩
  · rw [op.merge_pairings .plain ordered keptA keptB, raising,
      (Asking.ofPairing_notes notes).filterMapM done, List.nil_append]
    rfl
  · rw [askedBy.makes] at done
    exact entriesOf_kept
      ⟨increasing.increasing, fun p mem => keyIn_entry.mp (increasing.inside p mem)⟩ done
  · obtain ⟨_, rfl⟩ := filterMapM_eq_ok.mp done
    rw [mem_untouched ordered ha hb, List.mem_filterMap]
    simp only [given_eq_some, makes_eq_some, Asking.questions, List.mem_filterMap]
    constructor
    · rintro ⟨p, mem, keeps | ⟨q, asked, gives⟩⟩
      · exact .inl ⟨p, mem, keeps⟩
      · exact .inr ⟨q, ⟨p, mem, asked⟩, gives⟩
    · rintro (⟨p, mem, keeps⟩ | ⟨q, ⟨p, mem, asked⟩, gives⟩)
      · exact ⟨p, mem, .inl keeps⟩
      · exact ⟨p, mem, .inr ⟨q, asked, gives⟩⟩

/-- After a question that is not answered nothing is asked. -/
theorem watched_stops (notes : op.function = noting f) {front back : List (Question κ ν)}
    {q : Question κ ν} {cause : ε} (asked : op.questions cmp a b = front ++ q :: back)
    (answered : ∀ p ∈ front, ∃ made, p.answerOf f = .ok made) (failed : q.answerOf f = .error cause) :
    op.merge .plain cmp SortedMap.key a b [] = .error (.raised cause) (front ++ [q]) := by
  obtain ⟨before, rest, split, rfl, listed⟩ := List.filterMap_eq_append_iff.mp asked
  obtain ⟨unasked, p, behind, rfl, none, asks, rfl⟩ := List.filterMap_eq_cons_iff.mp listed
  have upTo : (before ++ unasked).filterMap op.asked = before.filterMap op.asked := by
    rw [List.filterMap_append, List.filterMap_eq_nil_iff.mpr none, List.append_nil]
  have last : [p].filterMap op.asked = [q] := by rw [List.filterMap_cons, asks]; rfl
  have answeredAll : ∀ p ∈ before ++ unasked, ∃ made, op.makes .plain f p = .ok made :=
    exists_makes (by rwa [upTo])
  have walked : (before ++ unasked ++ p :: behind).filterMapM (op.ofPairing .plain) [] =
      .error cause ([] ++ (before ++ unasked ++ [p]).filterMap op.asked) :=
    (Asking.ofPairing_notes notes).filterMapM_failed (makes_failed asks failed) answeredAll []
  rw [op.merge_pairings .plain ordered (entriesOn_keyed.mpr ha) (entriesOn_keyed.mpr hb), raising, split,
    ← List.append_assoc, walked, List.filterMap_append, upTo, last]
  rfl

/-- A rule whose operation asks a function consults it in the order of the keys. -/
theorem consults {rule : MapRule ε κ ν} (askedBy : rule.AskedBy op f)
    (notes : op.function = noting f) :
    ∃ asked, Questions cmp a b op.covers asked ∧
      Consults cmp P f asked (op.untouched cmp a b) (merge cmp rule.operation a b)
        (op.merge .plain cmp SortedMap.key a b []) := by
  have questions := questions_asked ordered ha hb op
  have same : outcome (op.merge .plain cmp SortedMap.key a b []) = merge cmp rule.operation a b := by
    rw [Asking.merge_outcome (f := f) (by rw [notes]; exact Asking.noting_answersAs f), askedBy.policy]
    rfl
  have answers := watched_answers ordered ha hb askedBy notes
  refine ⟨_, questions, same, answers, fun front q back cause asked answered failed =>
    watched_stops ordered ha hb notes asked answered failed, fun fault => ⟨fun fails => ?_, ?_⟩⟩
  · cases done : (op.questions cmp a b).filterMapM (Question.answerOf f) with
    | ok made =>
      obtain ⟨entries, walked, _⟩ := answers (filterMapM_eq_ok.mp done).1
      rw [← same, walked] at fails
      cases fails
    | error cause =>
      obtain ⟨front, q, back, asked, failed, answered⟩ := filterMapM_eq_error.mp done
      rw [← same, watched_stops ordered ha hb notes asked answered failed] at fails
      cases fails
      obtain ⟨mem, least⟩ :=
        (questions.first_failure ordered ha hb failed).mp ⟨front, back, asked, answered⟩
      exact ⟨q, mem, cause, failed, rfl, least⟩
  · rintro ⟨q, mem, cause, failed, rfl, least⟩
    obtain ⟨front, back, asked, answered⟩ :=
      (questions.first_failure ordered ha hb failed).mpr ⟨mem, least⟩
    rw [← same, watched_stops ordered ha hb notes asked answered failed]
    rfl

end Ordered

end Watched

/-- The entries whose keys only one of two lists has. -/
def Comparison.unshared (cmp : Comparison ε κ) (a b : List (κ × ν)) : Set (κ × ν) :=
  {e | e ∈ a ∧ ¬cmp.HasKey {e | e ∈ b} e.1 ∨ e ∈ b ∧ ¬cmp.HasKey {e | e ∈ a} e.1}

/-- How the rules that are given a function consult it. -/
structure ConsultsInOrder (cmp : Comparison ε κ) (P : κ → Prop) (a b : List (κ × ν)) : Prop where
  /-- Entries that are not shared stay as they are. -/
  union : ∀ combine : ν → ν → Except ε ν, ∃ asked, Questions cmp a b (· && ·) asked ∧
    Consults cmp P (MapRule.union combine).made asked (cmp.unshared a b)
      (merge cmp (MapRule.union combine).operation a b)
      ((Asking.union (noting (MapRule.union combine).made)).merge .plain cmp SortedMap.key a b [])
  intersection : ∀ combine : ν → ν → Except ε ν, ∃ asked, Questions cmp a b (· && ·) asked ∧
    Consults cmp P (MapRule.union combine).made asked ∅
      (merge cmp (MapRule.intersection combine).operation a b)
      ((Asking.intersection (noting (MapRule.union combine).made)).merge .plain cmp SortedMap.key a b [])
  join : ∀ (kind : Join) (f : Policy.JoinFunction ε κ ν), ∃ asked, Questions cmp a b kind.covers asked ∧
    Consults cmp P f asked ∅ (merge cmp (MapRule.join kind f).operation a b)
      ((Asking.join kind (noting f)).merge .plain cmp SortedMap.key a b [])

section Rules

variable (function : Question κ ν → EStateM ε μ (Option ν))

theorem union_untouched : (Asking.union function).untouched cmp a b = cmp.unshared a b := by
  ext e
  simp [Asking.untouched, Asking.union, Comparison.unshared]

theorem intersection_untouched : (Asking.intersection function).untouched cmp a b = ∅ := by
  ext e
  simp [Asking.untouched, Asking.intersection]

theorem join_untouched (kind : Join) : (Asking.join kind function).untouched cmp a b = ∅ := by
  ext e
  cases kind <;> simp [Asking.untouched, Asking.join, Join.coversLeft, Join.coversRight]

theorem union_covers : (Asking.union function).covers = (· && ·) := by
  funext onLeft onRight
  cases onLeft <;> cases onRight <;> rfl

theorem intersection_covers : (Asking.intersection function).covers = (· && ·) := by
  funext onLeft onRight
  cases onLeft <;> cases onRight <;> rfl

theorem join_covers (kind : Join) : (Asking.join kind function).covers = kind.covers := by
  funext onLeft onRight
  cases kind <;> cases onLeft <;> cases onRight <;> rfl

end Rules

/-- The rules that are given a function ask it about the keys that they cover, one after the other from
the least key on and each key once, and make entries of the answers. They fail exactly if an answer
does, for the cause of the least key that fails. -/
theorem functions_consulted_in_order (ordered : cmp.OrderedOn P) (ha : EntriesOn cmp.less P a)
    (hb : EntriesOn cmp.less P b) : ConsultsInOrder cmp P a b where
  union combine := by
    have consulted := consults ordered ha hb (MapRule.union_askedBy (noting _) combine) rfl
    rwa [union_covers, union_untouched] at consulted
  intersection combine := by
    have consulted := consults ordered ha hb (MapRule.intersection_askedBy (noting _) combine) rfl
    rwa [intersection_covers, intersection_untouched] at consulted
  join kind f := by
    have consulted := consults ordered ha hb (MapRule.join_askedBy (noting f) kind f) rfl
    rwa [join_covers, join_untouched] at consulted

/-- A join whose function fails for shared numbers asks about all numbers up to the first shared one. -/
theorem join_fails_for_shared_number :
    let cmp : Comparison Nat Nat := .natural
    let a := [(1, 10), (3, 30)]
    let b := [(2, 20), (3, 31), (4, 40)]
    let f : Policy.JoinFunction Nat Nat Nat := fun k left right =>
      if left.isSome && right.isSome then .error k else .ok (left.or right)
    (Asking.join .outer (noting f)).merge .plain cmp SortedMap.key a b [] =
        .error (.raised 3) [⟨1, some 10, none⟩, ⟨2, none, some 20⟩, ⟨3, some 30, some 31⟩] ∧
      merge cmp (MapRule.join .outer f).operation a b = .error (.raised 3) := by
  intro cmp a b f
  have kept (entries : List (Nat × Nat)) (increasing : Increasing (fun e f => cmp.less e.1 f.1) entries) :
      EntriesOn cmp.less (fun _ => True) entries :=
    ⟨increasing, fun _ _ => trivial⟩
  have walked : (Asking.join .outer (noting f)).merge .plain cmp SortedMap.key a b [] =
      .error (.raised 3) [⟨1, some 10, none⟩, ⟨2, none, some 20⟩, ⟨3, some 30, some 31⟩] := by
    with_unfolding_all rfl
  obtain ⟨asked, _, consulted⟩ := (functions_consulted_in_order Comparison.natural_ordered
    (kept a (by decide)) (kept b (by decide))).join .outer f
  exact ⟨walked, by rw [← consulted.same, walked]; rfl⟩

end Order

end SortedCollections
