import SortedCollections.Merge.Engine

/-!
# Relations between sorted lists

Whether two strictly increasing lists share items, hold the same items or lie in one another is
read off a merge that stops at the first item it would produce. Lengths are compared first where
they already decide.
-/
namespace SortedCollections

variable {ε α : Type}

/-- No item of one list is in the other. -/
def isDisjoint (cmp : Comparison ε α) (a b : List α) : Except (Fault ε) Bool := do
  return !(← anyOutput cmp SetRule.intersection.operation a b)

/-- Both lists hold the same items. -/
def isEqual (cmp : Comparison ε α) (a b : List α) : Except (Fault ε) Bool :=
  if a.length = b.length then do
    return !(← anyOutput cmp SetRule.symmetricDifference.operation a b)
  else
    return false

/-- Every item of the first list is in the second. -/
def isSubset (cmp : Comparison ε α) (a b : List α) : Except (Fault ε) Bool :=
  if a.length ≤ b.length then do
    return !(← anyOutput cmp SetRule.difference.operation a b)
  else
    return false

/-- Every item of the second list is in the first. -/
def isSuperset (cmp : Comparison ε α) (a b : List α) : Except (Fault ε) Bool :=
  isSubset cmp b a

end SortedCollections
