import DirectoryStore.Query.Cursor
import DirectoryStore.Query.Estimate

/-!
# Searching

A search first checks the whole filter, so that a filter that cannot be carried
out is refused before any scan is opened.  A leaf is searched with the scan that
answers it, or else with a full scan and a test.  A conjunction is searched from
the child with the smallest estimate, and the other children are tested.  A
negation is searched from all entries.

`bruteForce` evaluates the filter on every entry instead; a search finds the
same entries, whatever the estimates.
-/

namespace DirectoryStore.Query

namespace Filter

/-! ## Filters that can be searched -/

mutual

/-- Refuses a filter at its first node, from the left, that cannot be searched. -/
def check : Filter → Except Error Unit
  | extensible _ => .error (.unsupportedFilter "extensible")
  | assertion => .error (.invalidExpression .assertionSearched)
  | and [] => .error (.invalidExpression .emptyConjunction)
  | or [] => .error (.invalidExpression .emptyDisjunction)
  | and children => checkConjuncts children
  | or children => checkAll children
  | not child => child.check
  | _ => .ok ()

def checkConjuncts : List (Estimated Filter) → Except Error Unit
  | [] => .ok ()
  | ⟨child, _⟩ :: rest => do
      child.check
      checkConjuncts rest

def checkAll : List Filter → Except Error Unit
  | [] => .ok ()
  | child :: rest => do
      child.check
      checkAll rest

end

/-! ## Choosing where to start -/

/-- The place and the rank of the child of the smallest rank, the last of several. -/
def smallest : List (Estimated Filter) → Option (Nat × Nat)
  | [] => none
  | child :: rest =>
      match smallest rest with
      | some (place, least) =>
          if least ≤ child.rank then some (place + 1, least)
          else some (0, child.rank)
      | none => some (0, child.rank)

def driver (children : List (Estimated Filter)) : Nat :=
  ((smallest children).map (·.1)).getD 0

/-! ## Opening a cursor -/

/-- The pattern that the values found in an index have to match. -/
def pattern? : Filter → Option SubstringPattern
  | substring pattern => some pattern
  | _ => none

def openTested (view : StoreView) (test : Test) : QueryM Cursor := do
  return .tested (.scan (← view.openScan .full)) test

def openLeaf (view : StoreView) (leaf : Filter) : QueryM Cursor := do
  match leaf.scan? view.hasIndexOn with
  | some (.index name seek) =>
      return .index (← view.openScan (.index name seek)) leaf.pattern?
  | some scan => return .scan (← view.openScan scan)
  | none => openTested view (.matchesAll [⟨leaf, none⟩])

mutual

def openChecked (view : StoreView) : Filter → QueryM Cursor
  | extensible _ => throw (.unsupportedFilter "extensible")
  | assertion => throw (.invalidExpression .assertionSearched)
  | and children => do
      let place := driver children
      let inner ← openAt view place children
      match children.eraseIdx place with
      | [] => return inner
      | others => return .tested inner (.matchesAll others)
  | or children => return .union (← openAll view children)
  | not child => openTested view (.fails child)
  | leaf => openLeaf view leaf

def openAt (view : StoreView) :
    (place : Nat) → List (Estimated Filter) → QueryM Cursor
  | _, [] => throw (.invalidExpression .emptyConjunction)
  | 0, ⟨child, _⟩ :: _ => child.openChecked view
  | place + 1, _ :: rest => openAt view place rest

def openAll (view : StoreView) : List Filter → QueryM (List (Cursor × Filter))
  | [] => return []
  | child :: rest => do
      let cursor ← child.openChecked view
      return (cursor, child) :: (← openAll view rest)

end

def openCursor (view : StoreView) (filter : Filter) : QueryM Cursor := do
  MonadExcept.ofExcept filter.check
  filter.openChecked view

end Filter

/-! ## Whole searches -/

/-- The numbers of the candidates, unless there is a failure among them. -/
def idsOf : List Found → Except Error (List EntryId)
  | [] => .ok []
  | .error fault :: _ => .error fault
  | .ok candidate :: rest => do return candidate.id :: (← idsOf rest)

def search (view : StoreView) (filter : Filter) : QueryM (List EntryId) := do
  let cursor ← filter.openCursor view
  MonadExcept.ofExcept (idsOf (← cursor.toList view))

def allIds (view : StoreView) : QueryM (List EntryId) := do
  MonadExcept.ofExcept (idsOf (← view.openScan .full))

def evaluateEach (view : StoreView) (filter : Filter) :
    List EntryId → QueryM (List EntryId)
  | [] => return []
  | id :: rest => do
      let matched ← filter.evaluate view id
      let others ← evaluateEach view filter rest
      return if matched then id :: others else others

def bruteForce (view : StoreView) (filter : Filter) :
    QueryM (List EntryId) := do
  evaluateEach view filter (← allIds view)

/-! ## Samples -/

def storeWith (names : List String) (entries : List Entry) :
    Except Error MemoryStore :=
  (MemoryStore.withIndices names).insertEach entries

def sampleEntries : List Entry :=
  [((Entry.empty 1 none).add "ou" "drama").add "cn" "hamlet",
    (Entry.empty 2 none).add "cn" "readme"]

def sampleDirectory : Except Error MemoryStore :=
  storeWith ["ou"] sampleEntries

end DirectoryStore.Query
