import SortedCollections.Sorting.Basic

/-!
# Strictly increasing lists out of arbitrary ones

A list is brought into strictly increasing order of its keys by sorting it and then keeping one
item of each run of equal keys, or folding each run into one pair. Since sorting is stable, the
first and the last item of a run are the first and the last occurrence of that key in the input.
-/
namespace SortedCollections

variable {ε α κ ν : Type}

/-- Which item stays of a run of equal ones. -/
inductive Keep where
  | first
  | last
  deriving Repr, DecidableEq

def Keep.text : Keep → String
  | .first => "first"
  | .last => "last"

/-- The choice made where none is stated: a later item replaces an earlier one. -/
def Keep.standard : Keep := .last

/-- A stretch of neighbouring items with equal keys. -/
structure Run (α : Type) where
  head : α
  tail : List α
  deriving Repr

namespace Run

/-- The item of a run that a choice keeps. -/
def pick (keep : Keep) (run : Run α) : α :=
  match keep with
  | .first => run.head
  | .last => run.tail.getLastD run.head

/-- The items behind `head` that are equal to it, and the runs that follow. Every item is
compared with the head of the run it may belong to. -/
def split (eq : α → α → Except ε Bool) (head : α) : List α → Except ε (List α × List (Run α))
  | [] => .ok ([], [])
  | x :: xs => do
    if ← eq head x then
      let (tail, runs) ← split eq head xs
      return (x :: tail, runs)
    else
      let (tail, runs) ← split eq x xs
      return ([], ⟨x, tail⟩ :: runs)

/-- The runs of a list, in order. -/
def all (eq : α → α → Except ε Bool) : List α → Except ε (List (Run α))
  | [] => .ok []
  | x :: xs => do
    let (tail, runs) ← split eq x xs
    return ⟨x, tail⟩ :: runs

end Run

/-- Is every item less than the next, by key? The keys are taken one by one, and nothing behind
the first pair out of order is looked at. -/
def isStrictlySorted (cmp : Comparison ε κ) (key : α → Except ε κ) : List α → Except ε Bool
  | [] => .ok true
  | x :: xs => do go (← key x) xs
where
  /-- The same question for a list behind an item with the key `previous`. -/
  go (previous : κ) : List α → Except ε Bool
    | [] => .ok true
    | x :: xs => do
      let k ← key x
      if ← cmp.lt previous k then go k xs else return false

def withKeys (key : α → Except ε κ) (xs : List α) : Except ε (List (κ × α)) :=
  xs.mapM fun x => return (← key x, x)

def sortByKey (cmp : Comparison ε κ) (key : α → Except ε κ) (xs : List α) :
    Except (Fault ε) (List (κ × α)) := do
  let keyed ← Fault.lift (withKeys key xs)
  Fault.liftSort (stableSort (fun a b => cmp.lt a.1 b.1) keyed)

/-- Sorts items by key and keeps one item of each run of equal keys. -/
def sortDedup (cmp : Comparison ε κ) (key : α → Except ε κ) (keep : Keep) (xs : List α) :
    Except (Fault ε) (List α) := do
  let sorted ← sortByKey cmp key xs
  let runs ← Fault.lift (Run.all (fun a b => cmp.eq a.1 b.1) sorted)
  return runs.map fun run => (run.pick keep).2

/-- How an item is read as a pair of a key and a value, and how such a pair is written. Reading
may fail, because an item can be anything. -/
structure PairView (ε α κ ν : Type) where
  read : α → Except ε (κ × ν)
  write : κ → ν → α

/-- Items that are pairs as they stand. -/
def PairView.plain : PairView ε (κ × ν) κ ν where
  read := .ok
  write := Prod.mk

/-- Folds the values of equal neighbouring keys. The first key of a run and the value folded so
far are carried along; each pair is read, and its value folded in, as soon as its key was found
equal. -/
def foldRuns (cmp : Comparison ε κ) (view : PairView ε α κ ν) (f : ν → ν → Except ε ν)
    (key : κ) (value : ν) : List (κ × α) → Except ε (List (κ × ν))
  | [] => .ok [(key, value)]
  | (k, x) :: rest => do
    if ← cmp.eq key k then
      foldRuns cmp view f key (← f value (← view.read x).2) rest
    else
      return (key, value) :: (← foldRuns cmp view f k (← view.read x).2 rest)

def foldValues (cmp : Comparison ε κ) (view : PairView ε α κ ν) (f : ν → ν → Except ε ν) :
    List (κ × α) → Except ε (List (κ × ν))
  | [] => .ok []
  | (k, x) :: rest => do foldRuns cmp view f k (← view.read x).2 rest

/-- Sorts pairs by key and folds the values of equal keys from left to right. The key of a
result is the first of its run. -/
def sortCombine (cmp : Comparison ε κ) (key : α → Except ε κ) (view : PairView ε α κ ν)
    (f : ν → ν → Except ε ν) (items : List α) : Except (Fault ε) (List (κ × ν)) := do
  Fault.lift (foldValues cmp view f (← sortByKey cmp key items))

end SortedCollections
