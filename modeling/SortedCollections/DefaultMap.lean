import SortedCollections.SortedMap

/-!
# Maps with a default

Such a map gives every key a value. It stores the entries that differ from the default, and only
those, so two maps that describe the same function are stored alike. Every operation that may
produce a value equal to the default drops that entry again.

Equality of values is a parameter: it may fail, and need not be the equality by which keys are
compared.
-/
namespace SortedCollections

structure DefaultMap (κ ν : Type) where
  /-- The entries whose values differ from the default. -/
  entries : SortedMap κ ν
  /-- The value of every key that is not stored. -/
  default : ν
  deriving Repr

namespace DefaultMap

variable {ε κ ν : Type}

/-- The map of every key to the same value. -/
def constant (value : ν) : DefaultMap κ ν := ⟨.empty, value⟩

/-- Drops the entries whose values equal the default. -/
def normalize (eq : ν → ν → Except ε Bool) (m : DefaultMap κ ν) :
    Except (Fault ε) (DefaultMap κ ν) := do
  return { m with entries := ← m.entries.retain fun _ value => do return !(← eq value m.default) }

/-- The map with the given entries and default. -/
def ofEntries (eq : ν → ν → Except ε Bool) (entries : SortedMap κ ν) (default : ν) :
    Except (Fault ε) (DefaultMap κ ν) :=
  normalize eq ⟨entries, default⟩

/-- The map that was saved as its entries and its default. -/
def restore (cmp : Comparison ε κ) (eq : ν → ν → Except ε Bool) (entries : List (κ × ν))
    (default : ν) : Except (Fault ε) (DefaultMap κ ν) := do
  ofEntries eq (← SortedMap.restore cmp entries) default

/-- The value of a key. Something that cannot be compared with the stored keys has the
default. -/
def get (cmp : Comparison ε κ) (m : DefaultMap κ ν) (k : κ) : ν :=
  (m.entries.lookup? cmp k).getD m.default

/-- Gives a key the default again. Something that cannot be compared with the stored keys has it
already. -/
def reset (cmp : Comparison ε κ) (m : DefaultMap κ ν) (k : κ) : DefaultMap κ ν :=
  match m.entries.erase? cmp k with
  | .ok (some entries) => { m with entries }
  | _ => m

def set (cmp : Comparison ε κ) (eq : ν → ν → Except ε Bool) (m : DefaultMap κ ν) (k : κ) (v : ν) :
    Except (Fault ε) (DefaultMap κ ν) := do
  if ← Fault.lift (eq v m.default) then
    return m.reset cmp k
  else
    return { m with entries := (← m.entries.insert cmp k v).2 }

def isConstant (m : DefaultMap κ ν) : Bool := m.entries.entries.isEmpty

/-- Do two maps have equal defaults and equal entries? Stored keys and values are compared as the
lists that hold them compare items, which may know an item for the same without asking. -/
def isEqual (sameKey : κ → κ → Except ε Bool) (eq sameValue : ν → ν → Except ε Bool)
    (a b : DefaultMap κ ν) : Except ε Bool := do
  if ← eq a.default b.default then a.entries.isEqual sameKey sameValue b.entries else return false

/-- The combination of two maps by a function of their values, with the given new default. -/
def pointwise (eq : ν → ν → Except ε Bool) (f : ν → ν → Except ε ν) (a b : DefaultMap κ ν)
    (default : ν) : Operation ε (κ × ν) κ where
  key := SortedMap.key
  policy := .pointwise .plain
    { eq, combine := f, leftDefault := a.default, rightDefault := b.default
      resultDefault := default }

/-- Combines two maps key by key. The new default is the combination of both defaults. -/
def combine (cmp : Comparison ε κ) (eq : ν → ν → Except ε Bool) (f : ν → ν → Except ε ν)
    (a b : DefaultMap κ ν) : Except (Fault ε) (DefaultMap κ ν) := do
  let default ← Fault.lift (f a.default b.default)
  let entries ← merge cmp (pointwise eq f a b default) a.entries.entries b.entries.entries
  return ⟨⟨entries⟩, default⟩

/-- Combines the map with another one key by key in place; `none` stands for the map itself. -/
def combineInPlace (cmp : Comparison ε κ) [Inhabited κ] [Inhabited ν]
    (eq : ν → ν → Except ε Bool) (f : ν → ν → Except ε ν) (other : Option (DefaultMap κ ν)) :
    EStateM (Fault ε) (DefaultMap κ ν) Unit := fun a =>
  let b := other.getD a
  match f a.default b.default with
  | .error e => .error (.raised e) a
  | .ok default =>
    match SortedMap.mergeEntries cmp (pointwise eq f a b default) b.entries.entries a.entries with
    | .ok () entries => .ok () ⟨entries, default⟩
    | .error e entries => .error e { a with entries }

/-- Applies a function to every value, the default first. -/
def mapValues (eq : ν → ν → Except ε Bool) (f : ν → Except ε ν) (m : DefaultMap κ ν) :
    Except (Fault ε) (DefaultMap κ ν) := do
  let default ← Fault.lift (f m.default)
  let entries ← Fault.lift (m.entries.entries.filterMapM fun entry => do
    let value ← f entry.2
    if ← eq value default then return none else return some (entry.1, value))
  return ⟨⟨entries⟩, default⟩

end DefaultMap

end SortedCollections
