import DirectoryStore.Query.Access

/-!
# Evaluating a filter

A filter is evaluated on one entry at a time.  Conditions on attributes look at
the entry alone, and a scope asks the store.  Conjunctions and disjunctions stop
at the first child that decides them, so a child after it cannot fail.
-/

namespace DirectoryStore.Query

namespace Filter

mutual

/-- Whether an entry matches, which need not be in the store. -/
def holdsFor (view : StoreView) : Filter → Entry → QueryM Bool
  | presence name, entry => return entry.holds name
  | equality name value, entry | approximate name value, entry =>
      return (entry.values name).any (· == value)
  | greaterOrEqual name value, entry =>
      return (entry.values name).any (value ≤ ·)
  | lessOrEqual name value, entry =>
      return (entry.values name).any (· ≤ value)
  | substring pattern, entry =>
      return (entry.values pattern.name).any pattern.accepts
  | extensible _, _ => throw (.unsupportedFilter "extensible")
  | within scope, entry => view.askInScope scope entry.id
  | assertion, _ => throw (.invalidExpression .assertionEvaluated)
  | and children, entry => allHold view children entry
  | or children, entry => anyHolds view children entry
  | not child, entry => return !(← child.holdsFor view entry)

def allHold (view : StoreView) : List (Estimated Filter) → Entry → QueryM Bool
  | [], _ => return true
  | ⟨child, _⟩ :: rest, entry => do
      if ← child.holdsFor view entry then allHold view rest entry
      else return false

def anyHolds (view : StoreView) : List Filter → Entry → QueryM Bool
  | [], _ => return false
  | child :: rest, entry => do
      if ← child.holdsFor view entry then return true
      else anyHolds view rest entry

end

/-- Whether a stored entry matches; an entry that is not there does not. -/
def evaluate (view : StoreView) (filter : Filter) (id : EntryId) :
    QueryM Bool := do
  match ← view.askEntry id with
  | some entry => filter.holdsFor view entry
  | none => return false

end Filter

end DirectoryStore.Query
