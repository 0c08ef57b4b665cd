import SortedCollections.SortedSet

/-!
# Maps as sorted lists of pairs

A map is one list of pairs in strictly increasing order of the keys. Keys are found by halving;
operations on two maps merge two lists by key. Where the values of a key on both sides have to
become one and no function says how, the value on the right wins.
-/
namespace SortedCollections

/-- A map as the list of its entries. -/
structure SortedMap (κ ν : Type) where
  entries : List (κ × ν)
  deriving Repr

/-- What a merge of two maps does. -/
inductive MapRule (ε κ ν : Type) where
  /-- All keys; `combine` joins the values of a key on both sides. -/
  | union (combine : ν → ν → Except ε ν)
  /-- The keys on both sides; `combine` joins their values. -/
  | intersection (combine : ν → ν → Except ε ν)
  /-- The entries on the left whose keys are not on the right. -/
  | difference
  /-- The entries whose keys are on exactly one side. -/
  | symmetricDifference
  | join (kind : Join) (f : Policy.JoinFunction ε κ ν)

namespace MapRule

variable {ε κ ν : Type}

/-- The value on the right wins. -/
def preferRight (_ right : ν) : Except ε ν := .ok right

/-- The policy of a rule, for pairs read through `view`. -/
def policy {α : Type} (view : PairView ε α κ ν) : MapRule ε κ ν → Policy ε α
  | .union combine => .combineUnion view combine
  | .intersection combine => .combineIntersection view combine
  | .difference => .ofRule .difference
  | .symmetricDifference => .ofRule .symmetricDifference
  | .join kind f => .join kind view f

/-- The rule on lists of pairs. -/
def operation (rule : MapRule ε κ ν) : Operation ε (κ × ν) κ where
  key entry := .ok entry.1
  policy := rule.policy .plain

end MapRule

namespace SortedMap

variable {ε κ ν : Type}

def empty : SortedMap κ ν := ⟨[]⟩

def key (entry : κ × ν) : Except ε κ := .ok entry.1

/-- The map of a list's pairs; of equal keys the last pair counts. -/
def ofList (cmp : Comparison ε κ) (entries : List (κ × ν)) : Except (Fault ε) (SortedMap κ ν) := do
  return ⟨← sortDedup cmp key .standard entries⟩

/-- The map of a list's pairs, with the values of equal keys folded from left to right. -/
def ofListCombining (cmp : Comparison ε κ) (combine : ν → ν → Except ε ν)
    (entries : List (κ × ν)) : Except (Fault ε) (SortedMap κ ν) := do
  return ⟨← sortCombine cmp key .plain combine entries⟩

/-- The map of a list whose keys must be strictly increasing already. -/
def ofSorted? (cmp : Comparison ε κ) (entries : List (κ × ν)) :
    Except (Fault ε) (Option (SortedMap κ ν)) := do
  if ← Fault.lift (isStrictlySorted cmp key entries) then return some ⟨entries⟩ else return none

/-- The map of a list whose keys are taken on trust to be strictly increasing. -/
def ofTrusted (entries : List (κ × ν)) : SortedMap κ ν := ⟨entries⟩

/-- The map that was saved as a list. A list whose keys are not strictly increasing is sorted. -/
def restore (cmp : Comparison ε κ) (entries : List (κ × ν)) :
    Except (Fault ε) (SortedMap κ ν) := do
  if ← Fault.lift (isStrictlySorted cmp key entries) then
    return ⟨entries⟩
  else
    ofList cmp entries

/-- Where a key is, or belongs, and whether it is there. -/
def find (cmp : Comparison ε κ) (m : SortedMap κ ν) (k : κ) : Except (Fault ε) (Nat × Bool) :=
  SortedCollections.find cmp key m.entries k

/-- The value at a position that was found. -/
def valueAt (m : SortedMap κ ν) (i : Nat) : Option ν := m.entries[i]?.map Prod.snd

/-- Is the key in the map? Something that cannot be compared with the keys is not. -/
def contains (cmp : Comparison ε κ) (m : SortedMap κ ν) (k : κ) : Bool :=
  match m.find cmp k with
  | .ok (_, found) => found
  | .error _ => false

/-- The value of a key, if it is there. -/
def get? (cmp : Comparison ε κ) (m : SortedMap κ ν) (k : κ) : Except (Fault ε) (Option ν) := do
  let (i, found) ← m.find cmp k
  return if found then m.valueAt i else none

/-- The value of a key. Something that cannot be compared with the keys has none. -/
def lookup? (cmp : Comparison ε κ) (m : SortedMap κ ν) (k : κ) : Option ν :=
  match m.get? cmp k with
  | .ok value => value
  | .error _ => none

/-- Gives a key a value; answers with the value that it had. The key is stored anew. -/
def insert (cmp : Comparison ε κ) (m : SortedMap κ ν) (k : κ) (v : ν) :
    Except (Fault ε) (Option ν × SortedMap κ ν) := do
  let (i, found) ← m.find cmp k
  if found then
    return (m.valueAt i, ⟨m.entries.set i (k, v)⟩)
  else
    return (none, ⟨m.entries.take i ++ (k, v) :: m.entries.drop i⟩)

/-- Removes a key; there is no answer if it is not there. -/
def erase? (cmp : Comparison ε κ) (m : SortedMap κ ν) (k : κ) :
    Except (Fault ε) (Option (SortedMap κ ν)) := do
  let (i, found) ← m.find cmp k
  return if found then some ⟨m.entries.eraseIdx i⟩ else none

/-- The entry with the largest key and the map without it. -/
def popMax? (m : SortedMap κ ν) : Option ((κ × ν) × SortedMap κ ν) :=
  m.entries.getLast?.map fun entry => (entry, ⟨m.entries.dropLast⟩)

/-- Removes a key and answers with its value; there is no answer if it is not there. -/
def pop? (cmp : Comparison ε κ) (m : SortedMap κ ν) (k : κ) :
    Except (Fault ε) (Option (ν × SortedMap κ ν)) := do
  match ← m.get? cmp k with
  | none => return none
  | some value => return (← m.erase? cmp k).map (value, ·)

/-- The value of a key, which is given one first if it has none. -/
def getOrInsert (cmp : Comparison ε κ) (m : SortedMap κ ν) (k : κ) (v : ν) :
    Except (Fault ε) (ν × SortedMap κ ν) := do
  match ← m.get? cmp k with
  | some value => return (value, m)
  | none => return (v, (← m.insert cmp k v).2)

def keys (m : SortedMap κ ν) : List κ := m.entries.map Prod.fst

def values (m : SortedMap κ ν) : List ν := m.entries.map Prod.snd

/-- The keys as a set; they are in order already. -/
def keySet (m : SortedMap κ ν) : SortedSet κ := ⟨m.keys⟩

/-- Keeps the entries that pass a test. -/
def retain (test : κ → ν → Except ε Bool) (m : SortedMap κ ν) :
    Except (Fault ε) (SortedMap κ ν) := do
  return ⟨← Fault.lift (m.entries.filterM fun entry => test entry.1 entry.2)⟩

def mapValues (f : ν → Except ε ν) (m : SortedMap κ ν) : Except (Fault ε) (SortedMap κ ν) := do
  return ⟨← Fault.lift (m.entries.mapM fun entry => do return (entry.1, ← f entry.2))⟩

/-- Does some value pass a test? Each value is looked up by its key. -/
def anyValue (cmp : Comparison ε κ) (test : ν → Except ε Bool) (m : SortedMap κ ν) :
    List κ → Except (Fault ε) (Except κ Bool)
  | [] => return .ok false
  | k :: rest => do
    match ← m.get? cmp k with
    | none => return .error k
    | some value =>
      if ← Fault.lift (test value) then return .ok true else anyValue cmp test m rest

/-- Do two lists of equal length hold equal entries, place by place? The value of a key is not
looked at before the keys were found equal. -/
def sameEntries (sameKey : κ → κ → Except ε Bool) (sameValue : ν → ν → Except ε Bool) :
    List (κ × ν) → List (κ × ν) → Except ε Bool
  | a :: as, b :: bs => do
    if ← (do if ← sameKey a.1 b.1 then sameValue a.2 b.2 else return false) then
      sameEntries sameKey sameValue as bs
    else
      return false
  | _, _ => .ok true

/-- Do two maps hold equal entries? -/
def isEqual (sameKey : κ → κ → Except ε Bool) (sameValue : ν → ν → Except ε Bool)
    (m n : SortedMap κ ν) : Except ε Bool :=
  if m.entries.length = n.entries.length then
    sameEntries sameKey sameValue m.entries n.entries
  else
    .ok false

def merged (cmp : Comparison ε κ) (rule : MapRule ε κ ν) (m : SortedMap κ ν)
    (operand : Operand ε (κ × ν)) : Except (Fault ε) (SortedMap κ ν) := do
  return ⟨← merge cmp rule.operation m.entries (← operand.resolve cmp key m.entries)⟩

/-- A step on a map. After a fault the map is what the step has left. -/
abbrev Step (ε κ ν : Type) : Type → Type := EStateM (Fault ε) (SortedMap κ ν)

/-- Merges a list of entries in order of their keys into the map in place. -/
def mergeEntries (cmp : Comparison ε κ) [Inhabited κ] [Inhabited ν]
    (operation : Operation ε (κ × ν) κ) (right : List (κ × ν)) : Step ε κ ν Unit := fun m =>
  match mergeInPlace cmp operation right m.entries with
  | .ok () entries => .ok () ⟨entries⟩
  | .error e entries => .error e ⟨entries⟩

def update (cmp : Comparison ε κ) [Inhabited κ] [Inhabited ν] (rule : MapRule ε κ ν)
    (operand : Operand ε (κ × ν)) : Step ε κ ν Unit := fun m =>
  match operand.resolve cmp key m.entries with
  | .error e => .error e m
  | .ok right => mergeEntries cmp rule.operation right m

end SortedMap

end SortedCollections
