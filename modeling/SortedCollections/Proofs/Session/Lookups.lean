import SortedCollections.Proofs.Lookups
import SortedCollections.Proofs.Session.Maps
import SortedCollections.Proofs.Values.Content

/-!
# Lookups of any value by commands

Whatever value is looked up in a container, the answer is right if the order tells the value from the
keys that are stored. The order does so for nothing, numbers, text, and lists and tuples of these, however
deep they are nested and whether they compare with all keys or not, and for maps. It does not for sets,
of which neither need be less than the other: a set is taken for another set that is not equal to it.
-/
namespace SortedCollections

namespace Value

variable {P : Value → Prop} {keys : List Value} {x : Value}

theorem told_of_plain (ordered : order.OrderedOn P) (inside : ∀ k ∈ keys, P k)
    (proper : ∀ k ∈ keys, k.IsProper) (plain : x.IsPlain) : Told order same x keys := by
  have deep (k : Value) : x.depth < max k.depth x.depth + 1 := by omega
  have content {k : Value} (equal : same k x = .ok true) : k.content = x.content := by
    have asked := (know_of_plain _ plain (deep k)).same k
    exact of_decide_eq_true (Except.ok.inj (asked.symm.trans equal))
  constructor
  · intro k mem taken
    have above : (partsBelow (max x.depth k.depth + 1)).relate .lt x k = .ok false := taken.2
    rw [Nat.max_comm] at above
    have equal := content_eq_of_not_less _ plain (proper k mem) (deep k) taken.1 above
    exact ((know_of_plain _ plain (deep k)).same k).trans (by rw [decide_eq_true equal])
  · intro k mem equal l _ r asked
    exact relate_congr (max l.depth k.depth + 1) (max l.depth x.depth + 1) plain (content equal)
      (by omega) (deep l) asked
  · intro k mem equal
    exact not_less_of_content_eq (max k.depth k.depth) (max x.depth k.depth + 1) plain (content equal)
      (by omega) (ordered.lt_irrefl k (inside k mem))

theorem told_of_map (ordered : order.OrderedOn P) (inside : ∀ k ∈ keys, P k) (map : x.IsMap) :
    Told order same x keys := by
  -- A map that is stored would have to be ordered against itself.
  have unequal : ∀ k ∈ keys, ¬same k x = .ok true := by
    intro k mem equal
    have irrefl := ordered.lt_irrefl k (inside k mem)
    have unordered := (relate_map (max k.depth k.depth) (isMap_of_same _ map equal) .lt k).1
    cases unordered.symm.trans irrefl
  refine ⟨fun k mem taken => ?_, fun k mem equal => absurd equal (unequal k mem),
    fun k mem equal => absurd equal (unequal k mem)⟩
  have unordered := (relate_map (max k.depth x.depth) map .lt k).1
  cases unordered.symm.trans taken.1

/-- Asking for the order of such a value fails only because two values have no order. -/
theorem saysUnordered (simple : x.IsPlain ∨ x.IsMap) {k : Value} {e : Failure}
    (failed : order.lt k x = .error e ∨ order.lt x k = .error e) : SaysUnordered e := by
  rcases simple with plain | map
  · have failed : (partsBelow (max k.depth x.depth + 1)).relate .lt k x = .error e ∨
      (partsBelow (max x.depth k.depth + 1)).relate .lt x k = .error e := failed
    rw [Nat.max_comm x.depth] at failed
    exact relate_unordered _ plain (by omega) failed
  · rcases failed with failed | failed
    · cases failed.symm.trans (relate_map (max k.depth x.depth) map .lt k).1
      exact ⟨_, _, _, rfl⟩
    · cases failed.symm.trans (relate_map (max x.depth k.depth) map .lt k).2
      exact ⟨_, _, _, rfl⟩

end Value

namespace Session

variable {registers : Registers} {on : String} {v x : Value} {P : Value → Prop}

/-- The elements or keys that a container stores. -/
def storedKeys : Value → List Value
  | .sortedSet items | .cofiniteSet items _ => items
  | .sortedMap entries | .defaultMap entries _ => entries.map Prod.fst
  | _ => []

/-- The search for an element or a key in a container. -/
def searchFor (x : Value) : Value → Except (Fault Failure) (Nat × Bool)
  | .sortedSet items | .cofiniteSet items _ => SortedSet.find Value.order ⟨items⟩ x
  | .sortedMap entries | .defaultMap entries _ => SortedMap.find Value.order ⟨entries⟩ x
  | _ => .ok (0, false)

/-- The answers of a sorted map that has found a value for a key, or none. -/
structure MapAnswers (registers : Registers) (on : String) (x : Value) (found : Option Value) :
    Prop where
  isIn : run registers (.combine .isIn (.value x) (.register on)) =
    (.ok (.bool found.isSome), registers)
  inKeys : run registers (.view on .keys (.contains (.value x))) =
    (.ok (.bool found.isSome), registers)
  get : ∀ default : Option Value,
    run registers (.call on "get" (.value x :: default.toList.map .value) []) =
      (.ok (found.getD (default.getD .none)), registers)
  /-- Whether the value found is equal to another one is left to the two. -/
  inItems : ∀ w, run registers (.view on .items (.contains (.value (.pair x w)))) =
    (found.elim (.ok (.bool false)) fun value => do return .bool (← Value.same value w), registers)

/-- The answers of a map with a default. -/
structure DefaultMapAnswers (registers : Registers) (on : String) (x : Value) (value : Value) :
    Prop where
  getItem : run registers (.getItem on (.value x)) = (.ok value, registers)
  get : run registers (.call on "get" [.value x] []) = (.ok value, registers)

/-- Looking a value up in a container answers, and by what is stored and equal to it. -/
def AnswersByEquality (registers : Registers) (on : String) (x : Value) : Value → Prop
  | .sortedSet items => ∃ found : Bool,
    (found = true ↔ ∃ k ∈ items, Value.same k x = .ok true) ∧
      run registers (.combine .isIn (.value x) (.register on)) = (.ok (.bool found), registers)
  | .cofiniteSet items negated => ∃ found : Bool,
    (found = true ↔ ∃ k ∈ items, Value.same k x = .ok true) ∧
      run registers (.combine .isIn (.value x) (.register on)) =
        (.ok (.bool (negated != found)), registers)
  | .sortedMap entries => ∃ found,
    LooksUp (fun k => Value.same k x = .ok true) entries found ∧ MapAnswers registers on x found
  | .defaultMap entries fallback => ∃ found,
    LooksUp (fun k => Value.same k x = .ok true) entries found ∧
      DefaultMapAnswers registers on x (found.getD fallback)
  | _ => False

theorem mapAnswers {entries : List (Value × Value)} {found : Option Value}
    (held : registers.lookup on = some (.ofMap ⟨entries⟩))
    (looked : SortedMap.lookup? Value.order ⟨entries⟩ x = found)
    (contained : SortedMap.contains Value.order ⟨entries⟩ x = found.isSome) :
    MapAnswers registers on x found where
  isIn := run_isIn held (congrArg Except.ok contained)
  inKeys := by
    rw [run, reading_eq held]
    show (Except.ok (Value.bool (SortedMap.contains Value.order ⟨entries⟩ x)), registers) = _
    rw [contained]
  get default := by rw [run_get held, looked]
  inItems w := by rw [run_hasItem held rfl, looked]

theorem defaultMapAnswers {entries : List (Value × Value)} {fallback value : Value}
    (held : registers.lookup on = some (.ofDefaultMap ⟨⟨entries⟩, fallback⟩))
    (got : DefaultMap.get Value.order ⟨⟨entries⟩, fallback⟩ x = value) :
    DefaultMapAnswers registers on x value where
  getItem := by
    rw [run, reading_eq held, ← got]
    rfl
  get := by
    have answers : DefaultMapMembers.call "get" ⟨[.value x], []⟩ ⟨⟨entries⟩, fallback⟩ =
      .ok value ⟨⟨entries⟩, fallback⟩ := by rw [← got]; rfl
    refine (run_member Value.ofDefaultMap held [.value x] rfl answers).trans ?_
    rw [Registers.set_of_lookup held]

theorem answersByEquality (held : registers.lookup on = some v) {kind : ContainerKind}
    (container : ContainerKind.of? v = some kind) (ordered : Value.order.OrderedOn P)
    (kept : IncreasingOn Value.order.less P (storedKeys v))
    (told : Told Value.order Value.same x (storedKeys v)) : AnswersByEquality registers on x v := by
  cases v with
  | sortedSet items =>
    exact ⟨_, SortedSet.contains_told ordered (s := ⟨items⟩) kept told, run_isIn held rfl⟩
  | cofiniteSet items negated =>
    exact ⟨_, SortedSet.contains_told ordered (s := ⟨items⟩) kept told, run_isIn held rfl⟩
  | sortedMap entries =>
    obtain ⟨found, contained⟩ :=
      SortedMap.lookup?_told ordered (m := ⟨entries⟩) (entriesOn_keys.mpr kept) told
    exact ⟨_, found, mapAnswers held rfl contained⟩
  | defaultMap entries fallback =>
    obtain ⟨found, _⟩ :=
      SortedMap.lookup?_told ordered (m := ⟨entries⟩) (entriesOn_keys.mpr kept) told
    exact ⟨_, found, defaultMapAnswers held rfl⟩
  | _ => cases container

/-- A search fails as a question about a stored key does. -/
theorem searchFor_onlyRaises {causes : Failure → Prop} (v : Value)
    (fails : ∀ k e, Value.order.lt k x = .error e ∨ Value.order.lt x k = .error e → causes e) :
    OnlyRaises causes (searchFor x v) := by
  cases v with
  | sortedSet items => exact .findIn (Nat.zero_le _) (Nat.le_refl _) fun k _ => fails k
  | cofiniteSet items negated => exact .findIn (Nat.zero_le _) (Nat.le_refl _) fun k _ => fails k
  | sortedMap entries => exact .findIn (Nat.zero_le _) (Nat.le_refl _) fun e _ => fails e.1
  | defaultMap entries fallback =>
    exact .findIn (Nat.zero_le _) (Nat.le_refl _) fun e _ => fails e.1
  | _ => exact .ok _

/-- A value that is looked up in a container is found by what is equal to it, and the lookup answers, if
the order tells the value from the keys that are stored. So it is for every value built of nothing,
numbers, text, lists and tuples, and for every map, however the value compares with the keys: all that
can go wrong in the search is that two values have no order, and then no key is equal to the value. -/
theorem lookups_answered (held : registers.lookup on = some v) {kind : ContainerKind}
    (container : ContainerKind.of? v = some kind) (ordered : Value.order.OrderedOn P)
    (kept : IncreasingOn Value.order.less P (storedKeys v)) (x : Value) :
    (Told Value.order Value.same x (storedKeys v) → AnswersByEquality registers on x v) ∧
      ((∀ k ∈ storedKeys v, k.IsProper) → x.IsPlain ∨ x.IsMap →
        AnswersByEquality registers on x v ∧ OnlyRaises Value.SaysUnordered (searchFor x v)) := by
  refine ⟨answersByEquality held container ordered kept, fun proper simple => ⟨?_, ?_⟩⟩
  · refine answersByEquality held container ordered kept ?_
    rcases simple with plain | map
    · exact Value.told_of_plain ordered kept.inside proper plain
    · exact Value.told_of_map ordered kept.inside map
  · exact searchFor_onlyRaises v fun k e failed => Value.saysUnordered simple failed

/-- Two tuples are ordered by their first items. A tuple that starts with a truth value is the second one;
a tuple that does not compare with the first one is none. -/
theorem tuples_looked_up :
    let k : Value := .tuple [.int 0, .none]
    let l : Value := .tuple [.int 1, .text "a"]
    let registers : Registers := [("m", .sortedMap [(k, .int 5), (l, .int 7)])]
    let x : Value := .tuple [.bool true, .text "a"]
    let y : Value := .tuple [.int 0, .text "a"]
    run registers (.call "m" "get" [.value x] []) = (.ok (.int 7), registers) ∧
      run registers (.call "m" "get" [.value y] []) = (.ok .none, registers) ∧
      Value.order.lt k y = .error (.unordered .lt .none .text) ∧
      OnlyRaises Value.SaysUnordered (searchFor y (.sortedMap [(k, .int 5), (l, .int 7)])) := by
  intro k l registers x y
  have ordered : Value.order.OrderedOn fun v => v = k ∨ v = l := by
    refine Comparison.orderedOn_of_rank
      (fun v => (v.first.toOption.bind Value.int?).getD 0) ?_ ?_
    · rintro a b (rfl | rfl) (rfl | rfl) <;> rfl
    · rintro a b (rfl | rfl) (rfl | rfl) <;> rfl
  have kept : IncreasingOn Value.order.less (fun v => v = k ∨ v = l) [k, l] := by
    refine ⟨List.pairwise_pair.mpr rfl, ?_⟩
    simp
  have proper : ∀ z ∈ storedKeys (.sortedMap [(k, .int 5), (l, .int 7)]), z.IsProper := by
    simp only [storedKeys, List.map_cons, List.map_nil, List.forall_mem_cons]
    exact ⟨rfl, rfl, List.forall_mem_nil _⟩
  have held : registers.lookup "m" = some (.sortedMap [(k, .int 5), (l, .int 7)]) := rfl
  obtain ⟨⟨_, foundX, answersX⟩, _⟩ := (lookups_answered held rfl ordered kept x).2 proper (.inl rfl)
  obtain ⟨⟨_, foundY, answersY⟩, raises⟩ :=
    (lookups_answered held rfl ordered kept y).2 proper (.inl rfl)
  refine ⟨?_, ?_, rfl, raises⟩
  · cases foundX with
    | found mem here only =>
      obtain rfl := only (l, .int 7) (by simp) rfl
      exact answersX.get none
    | absent apart => exact absurd rfl (apart (l, .int 7) (by simp))
  · cases foundY with
    | found mem here only =>
      simp only [List.mem_cons, List.not_mem_nil, or_false] at mem
      rcases mem with rfl | rfl <;> cases here
    | absent apart => exact answersY.get none

/-- Of two sets that hold one item each neither is less, so the one is found in place of the other, to
which it is not equal. -/
theorem other_set_found :
    let s : Value := .hashSet [.int 1]
    let x : Value := .hashSet [.int 2]
    let registers : Registers := [("s", .sortedSet [s])]
    (Value.order.OrderedOn (· = s) ∧
      IncreasingOn Value.order.less (· = s) (storedKeys (.sortedSet [s])) ∧ s.IsProper) ∧
      Value.same s x = .ok false ∧
      run registers (.combine .isIn (.value x) (.register "s")) = (.ok (.bool true), registers) ∧
      ¬AnswersByEquality registers "s" x (.sortedSet [s]) := by
  intro s x registers
  have unequal : Value.same s x = .ok false := rfl
  have untold : ∀ y ∈ [s], TakenFor Value.order .ok x y := by
    simp only [List.forall_mem_cons]
    exact ⟨⟨rfl, rfl⟩, List.forall_mem_nil _⟩
  have contained : (Value.sortedSet [s]).holds x = .ok true := by
    rw [Value.holds, SortedSet.contains, SortedSet.find, find_untold untold]
  have held : registers.lookup "s" = some (.sortedSet [s]) := rfl
  have found := run_isIn held contained
  refine ⟨⟨?_, ⟨List.pairwise_singleton .., by simp [storedKeys]⟩, rfl⟩, unequal, found, ?_⟩
  · refine Comparison.orderedOn_of_rank (fun _ => 0) ?_ ?_
    · rintro a b rfl rfl
      rfl
    · rintro a b rfl rfl
      rfl
  · rintro ⟨told, equal, ran⟩
    cases ran.symm.trans found
    obtain ⟨k, mem, same⟩ := equal.mp rfl
    obtain rfl := List.mem_singleton.mp mem
    cases unequal.symm.trans same

end Session

end SortedCollections
