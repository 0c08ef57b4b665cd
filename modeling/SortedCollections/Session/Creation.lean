import SortedCollections.Session.Argument

/-!
# Creating containers

How a session makes containers: out of collections, by the other ways that a kind of container
offers, and out of what a container was saved as.
-/
namespace SortedCollections

inductive ContainerKind where
  | sortedSet
  | sortedMap
  | cofiniteSet
  | defaultMap
  deriving Repr, DecidableEq

/-- The kind of container that a value is. -/
def ContainerKind.of? : Value → Option ContainerKind
  | .sortedSet _ => some .sortedSet
  | .sortedMap _ => some .sortedMap
  | .cofiniteSet _ _ => some .cofiniteSet
  | .defaultMap _ _ => some .defaultMap
  | _ => none

namespace Creation

/-- The items of a collection that is given or left out. -/
def itemsOf (argument : Option Argument) : Except Failure (List Value) :=
  match argument with
  | some x => (x.toValue .none).items
  | none => .ok []

/-- The entries of a collection of pairs, read item by item. -/
def pairsOf (v : Value) : Except Failure (List (Value × Value)) := do
  (← v.items).mapM Value.toPair

/-- A sorted map of an argument. A sorted map is copied as it is. -/
def mapOf (argument : Option Argument) (combine : Option Argument) :
    Except Failure (SortedMap Value Value) :=
  match (argument.getD (.value (.tuple []))).asMap with
  | .sorted entries => .ok ⟨entries⟩
  | .unsorted entries =>
    match combine with
    | some f => Failure.lift (SortedMap.ofListCombining Value.order f.combining entries)
    | none => Failure.lift (SortedMap.ofList Value.order entries)
  | .refused e => .error e
  | .self => .error .wrongArguments

/-- An argument that stands for none if it is no value. -/
def given (argument : Option Argument) : Option Argument :=
  match argument with
  | some (.value .none) => none
  | other => other

def create (kind : ContainerKind) (args : Arguments) : Except Failure Value := do
  match kind with
  | .sortedSet =>
    match args.bind? [] [none] with
    | some ([], [items]) =>
      return .ofSet (← Failure.lift (SortedSet.ofList Value.order (← itemsOf items)))
    | _ => throw .wrongArguments
  | .sortedMap =>
    match args.bind? [] [none, some "combine"] with
    | some ([], [items, combine]) => return .ofMap (← mapOf items (given combine))
    | _ => throw .wrongArguments
  | .cofiniteSet =>
    match args.bind? [] [none, some "negated"] with
    | some ([], [items, negated]) =>
      let negated := (negated.map fun x => (x.toValue .none).truth).getD false
      return .ofCofinite
        (← Failure.lift (CofiniteSet.ofList Value.order (← itemsOf items) negated))
    | _ => throw .wrongArguments
  | .defaultMap =>
    match args.positional, args.named with
    | entries, [("default", default)] =>
      if entries.length > 1 then
        throw .wrongArguments
      let entries ← mapOf entries.head? none
      return .ofDefaultMap
        (← Failure.lift (DefaultMap.ofEntries Value.same entries (default.toValue .none)))
    | _, _ => throw .wrongArguments

/-- A set of items that must be strictly increasing already. -/
def sortedSetOf (items : Value) : Except Failure Value := do
  match ← Failure.lift (SortedSet.ofSorted? Value.order (← items.items)) with
  | some s => return .ofSet s
  | none => throw .itemsNotIncreasing

/-- A map of pairs whose keys must be strictly increasing already. -/
def sortedMapOf (pairs : Value) : Except Failure Value := do
  match ← Failure.lift (SortedMap.ofSorted? Value.order (← pairsOf pairs)) with
  | some m => return .ofMap m
  | none => throw .keysNotIncreasing

/-- The ways to create a container out of one value. -/
def specialOfOne? (kind : ContainerKind) (name : String) :
    Option (Value → Except Failure Value) :=
  match kind, name with
  | .sortedSet, "from_sorted" => some sortedSetOf
  | .sortedSet, "from_sorted_unchecked" => some fun v => return .ofSet (.ofTrusted (← v.items))
  | .sortedSet, "singleton" => some fun v => return .ofSet (.singleton v)
  | .sortedMap, "from_sorted" => some sortedMapOf
  | .sortedMap, "from_sorted_unchecked" => some fun v => return .ofMap (.ofTrusted (← pairsOf v))
  | .cofiniteSet, "constant" => some fun v => return .ofCofinite (.constant v.truth)
  | .defaultMap, "constant" => some fun v => return .ofDefaultMap (.constant v)
  | _, _ => none

/-- The containers that are named by themselves. -/
def named? (kind : ContainerKind) (name : String) : Option Value :=
  match kind, name with
  | .cofiniteSet, "all" => some (.ofCofinite .all)
  | .cofiniteSet, "empty" => some (.ofCofinite .empty)
  | _, _ => none

/-- Creates a container in another way that its kind offers, if there is one of that name. -/
def special? (kind : ContainerKind) (name : String) (args : Arguments) :
    Option (Except Failure Value) :=
  match specialOfOne? kind name, named? kind name with
  | some make, _ => some <|
    match args.bind? [none] [] with
    | some ([x], []) => make (x.toValue .none)
    | _ => .error .wrongArguments
  | _, some container => some <|
    match args.bind? [] [] with
    | some ([], []) => .ok container
    | _ => .error .wrongArguments
  | none, none => none

def special (kind : ContainerKind) (name : String) (args : Arguments) : Except Failure Value :=
  (special? kind name args).getD (.error .noSuchMember)

/-- Makes a container out of what it was saved as. -/
def restore (kind : ContainerKind) (saved : Value) : Except Failure Value := do
  match kind with
  | .sortedSet => return .ofSet (← Failure.lift (SortedSet.restore Value.order (← saved.items)))
  | .sortedMap => return .ofMap (← Failure.lift (SortedMap.restore Value.order (← pairsOf saved)))
  | .cofiniteSet =>
    let (items, negated) ← saved.toPair
    return .ofCofinite
      (← Failure.lift (CofiniteSet.restore Value.order (← items.items) negated.truth))
  | .defaultMap =>
    let (entries, default) ← saved.toPair
    return .ofDefaultMap
      (← Failure.lift (DefaultMap.restore Value.order Value.same (← pairsOf entries) default))

/-- What a value is saved as. Only containers are saved in a form of their own. -/
def save : Value → Value
  | .sortedSet items => .list items
  | .sortedMap entries => .list (Value.ofEntries entries)
  | .cofiniteSet items negated => .pair (.list items) (.bool negated)
  | .defaultMap entries fallback => .pair (.list (Value.ofEntries entries)) fallback
  | _ => .none

mutual

/-- A copy of a value in which every container, however deep inside, was saved and restored. What
is inside a container is copied before the container is. What is no number gets a new mark. -/
def roundTrip (marks : Nat → Nat) : Value → Except Failure Value
  | .list items => do return .list (← roundTripAll marks items)
  | .tuple items => do return .tuple (← roundTripAll marks items)
  | .hashSet items => do return .hashSet (Value.inSlotOrder (← roundTripAll marks items))
  | .dict entries => do return .dict (← roundTripEntries marks entries)
  | .sortedSet items => do restore .sortedSet (.list (← roundTripAll marks items))
  | .sortedMap entries => do
    restore .sortedMap (.list (Value.ofEntries (← roundTripEntries marks entries)))
  | .cofiniteSet items negated => do
    restore .cofiniteSet (.pair (.list (← roundTripAll marks items)) (.bool negated))
  | .defaultMap entries fallback => do
    let entries ← roundTripEntries marks entries
    restore .defaultMap (.pair (.list (Value.ofEntries entries)) (← roundTrip marks fallback))
  | .notANumber mark => .ok (.notANumber (marks mark))
  | v => .ok v

def roundTripAll (marks : Nat → Nat) : List Value → Except Failure (List Value)
  | [] => .ok []
  | x :: xs => do return (← roundTrip marks x) :: (← roundTripAll marks xs)

def roundTripEntries (marks : Nat → Nat) :
    List (Value × Value) → Except Failure (List (Value × Value))
  | [] => .ok []
  | (k, v) :: rest => do
    let entry := (← roundTrip marks k, ← roundTrip marks v)
    return entry :: (← roundTripEntries marks rest)

end

end Creation

end SortedCollections
