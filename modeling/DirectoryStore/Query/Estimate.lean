import DirectoryStore.Query.Access

/-!
# Estimates

How many entries match a filter is estimated from what the store can count.  A
leaf that an index answers is counted there, and any other leaf may match every
entry.  A conjunction matches no more entries than any of its children, and a
disjunction no more than all of them together.  A negation is not looked into.
-/

namespace DirectoryStore.Query

/-- Counts are words of 64 bits, and larger ones are cut to the largest word. -/
def largestCount : Nat := UInt64.size - 1

/-- The estimate of a child, where one that is not known counts as the largest. -/
def Estimated.rank {α : Type} (child : Estimated α) : Nat :=
  child.count.getD largestCount

namespace Filter

mutual

def estimated (view : StoreView) : Filter → QueryM (Nat × Filter)
  | and children => do
      let (least, children) ← estimatedEach view children
      return (least, and children)
  | or children => do
      let (total, children) ← estimatedSum view 0 children
      return (total, or children)
  | leaf => do
      let scan := (leaf.scan? view.hasIndexOn).getD .full
      return (← view.askCount scan, leaf)

/-- The least of the estimates, and the children with theirs. -/
def estimatedEach (view : StoreView) :
    List (Estimated Filter) → QueryM (Nat × List (Estimated Filter))
  | [] => return (largestCount, [])
  | ⟨child, _⟩ :: rest => do
      let (count, child) ← child.estimated view
      let (least, rest) ← estimatedEach view rest
      return (min count least, ⟨child, some count⟩ :: rest)

/-- The sum of the estimates and a number before them, and the children. -/
def estimatedSum (view : StoreView) (before : Nat) :
    List Filter → QueryM (Nat × List Filter)
  | [] => return (before, [])
  | child :: rest => do
      let (count, child) ← child.estimated view
      let (total, rest) ←
        estimatedSum view (min (before + count) largestCount) rest
      return (total, child :: rest)

end

end Filter

end DirectoryStore.Query
