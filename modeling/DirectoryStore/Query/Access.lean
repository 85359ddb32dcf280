import DirectoryStore.Injection
import DirectoryStore.Query.MemoryStore

/-!
# Access to a store

Searches reach a store through a view, which says what each call answers, and
every call can fail under an injection.  Opening a scan is a call, and so is
reading each candidate of an open scan: a candidate that cannot be read is an
error among the candidates, and the scan goes on after it.
-/

namespace DirectoryStore.Query

/-! ## Views -/

/-- What a store answers as long as nothing fails. -/
structure StoreView where
  hasIndexOn : String → Bool
  scan : Scan → Except Error (List Candidate)
  count : Scan → Except Error Nat
  inScope : Scope → EntryId → Bool
  lookup : EntryId → Option Entry

def MemoryStore.view (store : MemoryStore) : StoreView :=
  ⟨store.hasIndexOn, store.scan, store.count, store.inScope, store.lookup⟩

/-- A view in which the listed entries cannot be looked up; scans still name them. -/
def StoreView.hiding (view : StoreView) (hidden : List EntryId) : StoreView :=
  { view with
    lookup := fun id => if id ∈ hidden then none else view.lookup id }

/-! ## Calls -/

inductive StoreCall where
  | openScan (scan : Scan)
  | readCandidate (scan : Scan) (id : EntryId)
  | count (scan : Scan)
  | inScope (scope : Scope) (id : EntryId)
  | lookup (id : EntryId)
  deriving DecidableEq, Repr

abbrev QueryM := ExceptT Error (StateM (Injection StoreCall))

/-- A candidate, or the reason why it could not be found out. -/
abbrev Found := Except Error Candidate

/-- Steps that put the failures of calls among the candidates they find. -/
abbrev FindM := StateM (Injection StoreCall)

def ask {α : Type} (call : StoreCall) (answer : Except Error α) : QueryM α :=
  fun injection =>
    match injection.next call with
    | (some fault, injection) => (.error (.io fault), injection)
    | (none, injection) => (answer, injection)

namespace StoreView

def readAll (scan : Scan) : List Candidate → FindM (List Found)
  | [] => return []
  | candidate :: rest => do
      let found ← (ask (.readCandidate scan candidate.id) (.ok candidate)).run
      return found :: (← readAll scan rest)

def openScan (view : StoreView) (scan : Scan) : QueryM (List Found) := do
  let candidates ← ask (.openScan scan) (view.scan scan)
  readAll scan candidates

def askCount (view : StoreView) (scan : Scan) : QueryM Nat :=
  ask (.count scan) (view.count scan)

def askInScope (view : StoreView) (scope : Scope) (id : EntryId) : QueryM Bool :=
  ask (.inScope scope id) (.ok (view.inScope scope id))

def askEntry (view : StoreView) (id : EntryId) : QueryM (Option Entry) :=
  ask (.lookup id) (.ok (view.lookup id))

end StoreView

/-! ## Rules -/

inductive ScanKind where
  | index
  | presence
  | full
  | scope
  deriving DecidableEq, Repr

def Scan.kind : Scan → ScanKind
  | index .. => .index
  | presence _ => .presence
  | full => .full
  | scope _ => .scope

inductive StoreCallKind where
  | scan (kind : ScanKind)
  | count (kind : ScanKind)
  | inScope
  | lookup
  deriving DecidableEq, Repr

namespace StoreCall

def kind : StoreCall → StoreCallKind
  | openScan scan | readCandidate scan _ => .scan scan.kind
  | count scan => .count scan.kind
  | inScope .. => .inScope
  | lookup _ => .lookup

def entry? : StoreCall → Option EntryId
  | readCandidate _ id | inScope _ id | lookup id => some id
  | openScan _ | count _ => none

end StoreCall

structure StoreFailureRule where
  kind : StoreCallKind
  shortRead : Bool
  entry : Option EntryId
  deriving DecidableEq, Repr

namespace StoreFailureRule

def appliesTo (rule : StoreFailureRule) (call : StoreCall) : Bool :=
  rule.kind == call.kind && rule.entry.all (call.entry? == some ·)

def fault (rule : StoreFailureRule) : IoFault :=
  if rule.shortRead then .injectedShortRead else .injected

/-- The first rule that applies decides how a call fails. -/
def plan (rules : List StoreFailureRule) : FailurePlan StoreCall :=
  fun _ call => (rules.find? (·.appliesTo call)).map fault

end StoreFailureRule

end DirectoryStore.Query
