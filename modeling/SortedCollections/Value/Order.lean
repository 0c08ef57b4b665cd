import SortedCollections.Merge.Relation
import SortedCollections.Value.Hash

/-!
# Comparing values

Numbers of all kinds are compared exactly, text by code points, lists and tuples at the first
position where they differ. Sets are ordered by inclusion. All else has no order. Equality always
answers between different kinds; it can fail only where sorted sets hold items that do not
compare with each other.

A value may settle a question about itself and another value, or leave it to the other one, which
is then asked the question the other way round.

Comparing containers compares their parts. The comparisons are therefore built level by level:
`relate` and `same` say how two values compare if it is known how their parts do, and the depth of
two values says how many levels they need.
-/
namespace SortedCollections

namespace Value

/-- How the parts of values compare. -/
structure Parts where
  relate : Relation → Value → Value → Except Failure Bool
  same : Value → Value → Except Failure Bool

/-- Are two values the same one, which is equal to nothing but known by its mark? -/
def isMarkedAlike : Value → Value → Bool
  | .notANumber mark, .notANumber other => mark == other
  | _, _ => false

/-- Does a container take two values for the same one? -/
def Parts.alike (parts : Parts) (a b : Value) : Except Failure Bool :=
  if isMarkedAlike a b then .ok true else parts.same a b

/-- The two questions of a search or a merge, asked of values. -/
def Parts.comparison (parts : Parts) : Comparison Failure Value where
  lt := parts.relate .lt
  eq := parts.alike

/-- Is some item of a list equal to a value? -/
def Parts.isAmong (parts : Parts) (v : Value) : List Value → Except Failure Bool
  | [] => .ok false
  | x :: xs => do if ← parts.alike x v then return true else isAmong parts v xs

/-- Is a value in an unordered set? A list, say, cannot be; another unordered set just is not. -/
def Parts.isInHashSet (parts : Parts) (items : List Value) (v : Value) : Except Failure Bool := do
  match v with
  | .hashSet _ => return false
  | _ =>
    v.requireHashable
    parts.isAmong v items

/-- Do all items of a list pass a test? Nothing behind the first that does not is tested. -/
def allPass (test : Value → Except Failure Bool) : List Value → Except Failure Bool
  | [] => .ok true
  | x :: xs => do if ← test x then allPass test xs else return false

/-- The first position at which two lists differ: the items there, if both have one. -/
def Parts.firstDifference (parts : Parts) :
    List Value → List Value → Except Failure (Option (Value × Value))
  | x :: xs, y :: ys => do
    if ← parts.alike x y then firstDifference parts xs ys else return some (x, y)
  | _, _ => .ok Option.none

/-- Do two lists hold equal items? -/
def Parts.sameItems (parts : Parts) (xs ys : List Value) : Except Failure Bool := do
  return (← parts.firstDifference xs ys).isNone && xs.length == ys.length

/-- The value of a key in a dictionary. -/
def Parts.valueIn (parts : Parts) (key : Value) :
    List (Value × Value) → Except Failure (Option Value)
  | [] => .ok Option.none
  | (k, v) :: rest => do if ← parts.alike k key then return some v else valueIn parts key rest

/-- Do two dictionaries have the same keys with equal values? -/
def Parts.sameDict (parts : Parts) (a b : List (Value × Value)) : Except Failure Bool :=
  if a.length = b.length then
    go a
  else
    .ok false
where
  /-- Do the given entries agree with those of `b`? -/
  go : List (Value × Value) → Except Failure Bool
    | [] => .ok true
    | (k, v) :: rest => do
      match ← parts.valueIn k b with
      | some w => if ← parts.alike v w then go rest else return false
      | Option.none => return false

/-- The dictionary of a list of entries: a later entry replaces the value of an equal key. -/
def Parts.dictOf (parts : Parts) (entries : List (Value × Value)) :
    Except Failure (List (Value × Value)) :=
  entries.foldlM (fun dict entry => do
    entry.1.requireHashable
    put entry dict) []
where
  /-- Gives a key a value in a dictionary. -/
  put (entry : Value × Value) : List (Value × Value) → Except Failure (List (Value × Value))
    | [] => .ok [entry]
    | (k, v) :: rest => do
      if ← parts.alike k entry.1 then
        return (k, entry.2) :: rest
      else
        return (k, v) :: (← put entry rest)

/-- The unordered set of a list: of equal items the first one. -/
def Parts.hashSetOf (parts : Parts) (items : List Value) : Except Failure (List Value) :=
  inSlotOrder <$> items.foldlM (fun set item => do
    item.requireHashable
    if ← parts.isAmong item set then return set else return set ++ [item]) []

/-- Does a sorted set hold an unordered set's items, be it all, or exactly these? -/
def Parts.relateToHashSet (parts : Parts) (relation : Relation) (s h : List Value) :
    Except Failure Bool :=
  let within := allPass (parts.isInHashSet h) s
  let covers := allPass (fun x => .ok (SortedSet.contains parts.comparison ⟨s⟩ x)) h
  match relation with
  | .le => if s.length ≤ h.length then within else .ok false
  | .lt => if s.length < h.length then within else .ok false
  | .ge => if s.length ≥ h.length then covers else .ok false
  | .gt => if s.length > h.length then covers else .ok false

/-- How two sorted sets are ordered by inclusion. -/
def Parts.relateSets (parts : Parts) (relation : Relation) (s t : List Value) :
    Except Failure Bool :=
  let cmp := parts.comparison
  match relation with
  | .le => Failure.lift (isSubset cmp s t)
  | .lt => if s.length < t.length then Failure.lift (isSubset cmp s t) else .ok false
  | .ge => Failure.lift (isSuperset cmp s t)
  | .gt => if s.length > t.length then Failure.lift (isSuperset cmp s t) else .ok false

/-- How two unordered sets are ordered by inclusion. -/
def Parts.relateHashSets (parts : Parts) (relation : Relation) (s t : List Value) :
    Except Failure Bool :=
  let within (a b : List Value) := allPass (fun x => parts.isAmong x b) a
  match relation with
  | .le => within s t
  | .lt => if s.length < t.length then within s t else .ok false
  | .ge => within t s
  | .gt => if s.length > t.length then within t s else .ok false

/-- Is a finite or cofinite set equal to an unordered set? -/
def Parts.sameAsHashSet (parts : Parts) (items : List Value) (negated : Bool) (h : List Value) :
    Except Failure Bool :=
  if negated then .ok false
  else if items.length = h.length then allPass (parts.isInHashSet h) items
  else .ok false

/-- Is a finite or cofinite set equal to a value, if the value is a set? -/
def Parts.sameAsCofinite (parts : Parts) (items : List Value) (negated : Bool) :
    Value → Option (Except Failure Bool)
  | .cofiniteSet items' negated' =>
    some (Failure.lift (CofiniteSet.isEqual parts.comparison ⟨⟨items⟩, negated⟩
      ⟨⟨items'⟩, negated'⟩))
  | .sortedSet items' =>
    some (if negated then .ok false else Failure.lift (isEqual parts.comparison items items'))
  | .hashSet items' => some (parts.sameAsHashSet items negated items')
  | _ => Option.none

/-- How two finite or cofinite sets are ordered by inclusion. -/
def Parts.relateCofiniteSets (parts : Parts) (relation : Relation) (s t : CofiniteSet Value) :
    Except Failure Bool :=
  let cmp := parts.comparison
  Failure.lift <|
    match relation with
    | .le => s.isSubset cmp t
    | .ge => t.isSubset cmp s
    | .lt => s.isProperSubset cmp t
    | .gt => s.isProperSuperset cmp t

/-- How a finite or cofinite set is ordered by inclusion to an unordered set, which has to be sorted
for that. Equality is asked first, and of the unordered set as it is. -/
def Parts.relateCofiniteToHashSet (parts : Parts) (relation : Relation) (s : CofiniteSet Value)
    (h : List Value) : Except Failure Bool :=
  let cmp := parts.comparison
  let below : Except Failure Bool := do
    Failure.lift (s.isSubset cmp (← Failure.lift (CofiniteSet.ofList cmp h false)))
  let above : Except Failure Bool := do
    Failure.lift ((← Failure.lift (CofiniteSet.ofList cmp h false)).isSubset cmp s)
  let same := parts.sameAsHashSet s.elements.items s.negated h
  match relation with
  | .le => below
  | .ge => above
  | .lt => do if ← same then return false else below
  | .gt => do if ← same then return false else above

/-- How a finite or cofinite set is ordered by inclusion to a value that is a set. -/
def Parts.relateCofinite (parts : Parts) (relation : Relation) (items : List Value)
    (negated : Bool) (other : Value) : Option (Except Failure Bool) :=
  let s : CofiniteSet Value := ⟨⟨items⟩, negated⟩
  match other with
  | .cofiniteSet items' negated' =>
    some (parts.relateCofiniteSets relation s ⟨⟨items'⟩, negated'⟩)
  | .sortedSet items' => some (parts.relateCofiniteSets relation s ⟨⟨items'⟩, false⟩)
  | .hashSet items' => some (parts.relateCofiniteToHashSet relation s items')
  | _ => Option.none

/-- A value's answer to a question about itself and another value. A container says of what goes
wrong in it that it went wrong inside. -/
def answerOf (v : Value) (answer : Option (Except Failure Bool)) : Option (Except Failure Bool) :=
  if v.isContainer then answer.map (·.mapError Failure.inside) else answer

/-- The order of two values as the left one sees it, if it knows the right one. -/
def Parts.ownOrder (parts : Parts) (relation : Relation) (a b : Value) :
    Option (Except Failure Bool) :=
  match a.number?, b.number? with
  | some m, some n => some (.ok ((m.order n).any relation.holds))
  | _, _ =>
    match a, b with
    | .text s, .text t => some (.ok (relation.holds (compare s t)))
    | .list xs, .list ys | .tuple xs, .tuple ys => some do
      match ← parts.firstDifference xs ys with
      | some (x, y) => parts.relate relation x y
      | Option.none => return relation.holds (compare xs.length ys.length)
    | .hashSet s, .hashSet t => some (parts.relateHashSets relation s t)
    | .sortedSet s, .sortedSet t => some (parts.relateSets relation s t)
    | .sortedSet s, .hashSet h => some (parts.relateToHashSet relation s h)
    | .cofiniteSet items negated, _ => parts.relateCofinite relation items negated b
    | _, _ => Option.none

/-- The order of two values, asked of the left one and then of the right one. -/
def Parts.order (parts : Parts) (relation : Relation) (a b : Value) : Except Failure Bool :=
  match answerOf a (parts.ownOrder relation a b) with
  | some answer => answer
  | Option.none =>
    match answerOf b (parts.ownOrder relation.converse b a) with
    | some answer => answer
    | Option.none => .error (.unordered relation a.kind b.kind)

/-- Whether two values are equal as the left one sees it, if it knows the right one. -/
def Parts.ownEquality (parts : Parts) (a b : Value) : Option (Except Failure Bool) :=
  match a.number?, b.number? with
  | some m, some n => some (.ok (m.order n == some .eq))
  | _, _ =>
    match a, b with
    | .none, .none | .missing, .missing => some (.ok true)
    | .text s, .text t => some (.ok (s == t))
    | .list xs, .list ys =>
      some (if xs.length = ys.length then parts.sameItems xs ys else .ok false)
    | .tuple xs, .tuple ys => some (parts.sameItems xs ys)
    | .dict d, .dict e => some (parts.sameDict d e)
    | .hashSet s, .hashSet t =>
      some (if s.length = t.length then parts.relateHashSets .le s t else .ok false)
    | .sortedSet s, .sortedSet t => some (Failure.lift (isEqual parts.comparison s t))
    | .sortedSet s, .hashSet h =>
      some (if s.length = h.length then allPass (parts.isInHashSet h) s else .ok false)
    | .sortedMap m, .sortedMap n => some (SortedMap.isEqual parts.alike parts.alike ⟨m⟩ ⟨n⟩)
    | .sortedMap m, .dict d => some do parts.sameDict (← parts.dictOf m) d
    | .cofiniteSet items negated, _ => parts.sameAsCofinite items negated b
    | .defaultMap m v, .defaultMap n w =>
      some (DefaultMap.isEqual parts.alike parts.same parts.alike ⟨⟨m⟩, v⟩ ⟨⟨n⟩, w⟩)
    | _, _ => Option.none

/-- Whether two values are equal, asked of the left one and then of the right one. Values that do
not know each other differ. -/
def Parts.equality (parts : Parts) (a b : Value) : Except Failure Bool :=
  match answerOf a (parts.ownEquality a b) with
  | some answer => answer
  | Option.none => (answerOf b (parts.ownEquality b a)).getD (.ok false)

/-- How values compare that are nested less deep than a number of levels. -/
def partsBelow : Nat → Parts
  | 0 => ⟨fun _ _ _ => .error .tooDeep, fun _ _ => .error .tooDeep⟩
  | levels + 1 => ⟨(partsBelow levels).order, (partsBelow levels).equality⟩

/-- How two values are compared: with as many levels as they need. -/
def partsFor (a b : Value) : Parts := partsBelow (max a.depth b.depth + 1)

def relate (relation : Relation) (a b : Value) : Except Failure Bool :=
  (partsFor a b).relate relation a b

def same (a b : Value) : Except Failure Bool := (partsFor a b).same a b

/-- How values are compared, whatever they are. -/
def parts : Parts := ⟨relate, same⟩

/-- The two questions of a search or a merge, asked of values. -/
def order : Comparison Failure Value := parts.comparison

end Value

end SortedCollections
