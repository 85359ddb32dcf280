import DirectoryStore.Query.Filter

/-!
# Scans and candidates

A search looks for entries by scanning the store.  A scan names entries in an
order of its own, and each entry it names is a candidate.  An index scan visits
the values of one attribute in their order, so it may name an entry once for
each of its values.
-/

namespace DirectoryStore.Query

/-! ## Seeks -/

def startsWith (start value : String) : Bool :=
  start.toList.isPrefixOf value.toList

/-- A run of neighbouring values in the order of an index. -/
inductive Seek where
  | equal (value : String)
  | atLeast (value : String)
  | atMost (value : String)
  | startingWith (start : String)
  | all
  deriving DecidableEq, Repr

def Seek.covers : Seek → String → Bool
  | equal sought, value => value == sought
  | atLeast least, value => least ≤ value
  | atMost most, value => value ≤ most
  | startingWith start, value => startsWith start value
  | all, _ => true

/-! ## Scans -/

inductive Scan where
  | index (name : String) (seek : Seek)
  | presence (name : String)
  | full
  | scope (scope : Scope)
  deriving DecidableEq, Repr

/-- An entry that a scan named, with the value it was found under in an index. -/
structure Candidate where
  id : EntryId
  value : Option String
  deriving DecidableEq, Repr

namespace Candidate

def ofId (id : EntryId) : Candidate := ⟨id, none⟩

end Candidate

/-! ## Scans that answer a filter -/

def SubstringPattern.seek (pattern : SubstringPattern) : Seek :=
  match pattern.initial with
  | some start => .startingWith start
  | none => .all

/--
The scan that names the entries matching a leaf, when the attribute it looks at
is indexed.  A substring pattern has still to be matched with the values found.
-/
def Filter.scan? (isIndexed : String → Bool) : Filter → Option Scan
  | presence name => if isIndexed name then some (.presence name) else none
  | equality name value | approximate name value => ofIndex name (.equal value)
  | greaterOrEqual name value => ofIndex name (.atLeast value)
  | lessOrEqual name value => ofIndex name (.atMost value)
  | substring pattern => ofIndex pattern.name pattern.seek
  | within scope => some (.scope scope)
  | _ => none
where
  ofIndex (name : String) (seek : Seek) : Option Scan :=
    if isIndexed name then some (.index name seek) else none

end DirectoryStore.Query
