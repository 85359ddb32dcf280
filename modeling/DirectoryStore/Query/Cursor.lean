import DirectoryStore.Query.Evaluation

/-!
# Cursors

A cursor yields the entries that match a filter, each once.  It starts from the
candidates of open scans: those of a scan that answers the filter, those of a
wider scan with a test for each, or those of several scans one after the other.

A failure takes the place of the candidate it concerns, and the cursor goes on
after it.
-/

namespace DirectoryStore.Query

inductive Test where
  | matchesAll (conditions : List (Estimated Filter))
  | fails (condition : Filter)
  deriving Repr, BEq

inductive Cursor where
  /-- An index scan, in which only values that the pattern accepts count. -/
  | index (found : List Found) (pattern : Option SubstringPattern)
  | scan (found : List Found)
  | tested (inner : Cursor) (test : Test)
  /-- Each branch with the filter whose entries it yields. -/
  | union (branches : List (Cursor × Filter))

/-! ## Testing candidates -/

/-- Whether a candidate passes; one that is no longer stored does not. -/
def Test.passes (view : StoreView) (test : Test) (id : EntryId) :
    QueryM Bool := do
  match ← view.askEntry id with
  | none => return false
  | some entry =>
      match test with
      | matchesAll conditions => Filter.allHold view conditions entry
      | fails condition => return !(← condition.holdsFor view entry)

def isNew (view : StoreView) (earlier : List Filter) (id : EntryId) :
    QueryM Bool := do
  if earlier.isEmpty then
    return true
  else
    match ← view.askEntry id with
    | none => return true
    | some entry => return !(← Filter.anyHolds view earlier entry)

/-- Keeps the candidates that pass, and the failures of those that could not be tested. -/
def sift (passes : EntryId → QueryM Bool) : List Found → FindM (List Found)
  | [] => return []
  | .error fault :: rest => return .error fault :: (← sift passes rest)
  | .ok candidate :: rest => do
      match ← (passes candidate.id).run with
      | .ok true => return .ok candidate :: (← sift passes rest)
      | .ok false => sift passes rest
      | .error fault => return .error fault :: (← sift passes rest)

/-! ## Index scans -/

def Candidate.fits (pattern : Option SubstringPattern) (candidate : Candidate) :
    Bool :=
  match pattern, candidate.value with
  | some pattern, some value => pattern.accepts value
  | _, _ => true

/-- Keeps the first candidate of each entry, of those that fit. -/
def firstFitting (pattern : Option SubstringPattern) :
    (seen : List EntryId) → List Found → List Found
  | _, [] => []
  | seen, .error fault :: rest => .error fault :: firstFitting pattern seen rest
  | seen, .ok candidate :: rest =>
      if candidate.fits pattern && !(candidate.id ∈ seen) then
        .ok candidate :: firstFitting pattern (candidate.id :: seen) rest
      else
        firstFitting pattern seen rest

/-! ## Reading a cursor to its end -/

namespace Cursor

mutual

def toList (view : StoreView) : Cursor → FindM (List Found)
  | index found pattern => return firstFitting pattern [] found
  | scan found => return found
  | tested inner test => do
      sift (test.passes view) (← inner.toList view)
  | union branches => unionList view [] branches

/-- The branches one after the other, without what the earlier ones yielded. -/
def unionList (view : StoreView) (earlier : List Filter) :
    List (Cursor × Filter) → FindM (List Found)
  | [] => return []
  | (cursor, filter) :: rest => do
      let found ← sift (isNew view earlier) (← cursor.toList view)
      return found ++ (← unionList view (earlier ++ [filter]) rest)

end

end Cursor

end DirectoryStore.Query
