import DirectoryStore.Error
import DirectoryStore.Query.AttributeIndex
import DirectoryStore.Query.Entry

/-!
# The entries in memory

The store keeps its entries in the order of their numbers, and beside them what
searches need: which entries are below which, an index for each indexed
attribute, and an index of which entries hold which attribute at all.

Only an entry whose parent is stored can be inserted, and only an entry without
children can be removed, so the entries always form a forest.  The walks up and
down the forest visit no entry twice, and the number of entries bounds them.
-/

namespace DirectoryStore.Query

structure ParentLink where
  parent : EntryId
  child : EntryId
  deriving DecidableEq, Repr

def ParentLink.comesBefore (a b : ParentLink) : Bool :=
  a.parent < b.parent || (a.parent == b.parent && a.child < b.child)

structure MemoryStore where
  entries : List Entry
  links : List ParentLink
  indices : List (String × AttributeIndex)
  /-- Pairs of the name of an attribute and an entry that holds a value of it. -/
  existence : AttributeIndex
  deriving DecidableEq, Repr

namespace MemoryStore

def empty : MemoryStore := ⟨[], [], [], .empty⟩

/-! ## Looking up -/

def lookup (store : MemoryStore) (id : EntryId) : Option Entry :=
  store.entries.find? (·.id == id)

def contains (store : MemoryStore) (id : EntryId) : Bool :=
  (store.lookup id).isSome

def size (store : MemoryStore) : Nat := store.entries.length

def childrenOf (store : MemoryStore) (id : EntryId) : List EntryId :=
  (store.links.filter (·.parent == id)).map (·.child)

def parentOf? (store : MemoryStore) (id : EntryId) : Option EntryId :=
  (store.lookup id).bind (·.parent)

def index? (store : MemoryStore) (name : String) : Option AttributeIndex :=
  store.indices.lookup name

def hasIndexOn (store : MemoryStore) (name : String) : Bool :=
  (store.index? name).isSome

/-! ## Changing the store -/

def addIndex (store : MemoryStore) (name : String) : MemoryStore :=
  let index := store.entries.foldl
    (fun index entry => index.insertAll (entry.values name) entry.id) .empty
  { store with
    indices := (name, index) :: store.indices.filter (·.1 != name) }

def withIndices (names : List String) : MemoryStore :=
  names.foldl addIndex empty

def indexEntry (store : MemoryStore) (entry : Entry) : MemoryStore :=
  { store with
    existence := store.existence.insertAll entry.heldNames entry.id
    indices := store.indices.map fun (name, index) =>
      (name, index.insertAll (entry.values name) entry.id) }

def unindexEntry (store : MemoryStore) (entry : Entry) : MemoryStore :=
  { store with
    existence := store.existence.eraseAll entry.heldNames entry.id
    indices := store.indices.map fun (name, index) =>
      (name, index.eraseAll (entry.values name) entry.id) }

def linkOf (entry : Entry) : Option ParentLink :=
  entry.parent.map (⟨·, entry.id⟩)

def addEntry (store : MemoryStore) (entry : Entry) : MemoryStore :=
  { store with
    entries := insertSorted (·.id < ·.id) entry store.entries
    links :=
      match linkOf entry with
      | some link => insertSorted ParentLink.comesBefore link store.links
      | none => store.links }

def dropEntry (store : MemoryStore) (entry : Entry) : MemoryStore :=
  { store with
    entries := store.entries.filter (·.id != entry.id)
    links := store.links.filter (linkOf entry != some ·) }

def missingParent? (store : MemoryStore) (entry : Entry) : Option EntryId :=
  entry.parent.filter (!store.contains ·)

/-- Adds an entry with a new number whose parent, if any, is stored. -/
def insert (store : MemoryStore) (entry : Entry) : Except Error MemoryStore :=
  if store.contains entry.id then
    .error (.refused (.entryExists entry.id))
  else
    match store.missingParent? entry with
    | some parent => .error (.refused (.parentMissing parent entry.id))
    | none => .ok ((store.addEntry entry).indexEntry entry)

/-- Takes out an entry without children; there may be no entry of that number. -/
def remove (store : MemoryStore) (id : EntryId) :
    Except Error (Option Entry × MemoryStore) :=
  if (store.childrenOf id).isEmpty then
    match store.lookup id with
    | some entry => .ok (some entry, (store.dropEntry entry).unindexEntry entry)
    | none => .ok (none, store)
  else
    .error (.refused (.entryHasChildren id))

def insertEach (store : MemoryStore) : List Entry → Except Error MemoryStore
  | [] => .ok store
  | entry :: rest => do (← store.insert entry).insertEach rest

/-! ## Scopes -/

/-- Visits each waiting entry, and the entries below it before those after it. -/
def visit (store : MemoryStore) :
    (fuel : Nat) → (waiting : List EntryId) → List EntryId
  | 0, _ | _, [] => []
  | fuel + 1, id :: waiting =>
      id :: store.visit fuel (store.childrenOf id ++ waiting)

def subtree (store : MemoryStore) (base : EntryId) : List EntryId :=
  if store.contains base then store.visit store.size [base] else []

def inScopeOrder (store : MemoryStore) (scope : Scope) : List EntryId :=
  match scope.depth with
  | .base => if store.contains scope.base then [scope.base] else []
  | .oneLevel => store.childrenOf scope.base
  | .subtree => store.subtree scope.base

/-- Whether climbing from an entry to its parents comes to the base. -/
def climbsTo (store : MemoryStore) (base : EntryId) :
    (fuel : Nat) → EntryId → Bool
  | 0, _ => false
  | fuel + 1, id =>
      id == base ||
        match store.parentOf? id with
        | some parent => store.climbsTo base fuel parent
        | none => false

def inScope (store : MemoryStore) (scope : Scope) (id : EntryId) : Bool :=
  store.contains id &&
    match scope.depth with
    | .base => id == scope.base
    | .oneLevel => store.parentOf? id == some scope.base
    | .subtree => store.climbsTo scope.base store.size id

/-! ## Scans -/

def requireIndex (store : MemoryStore) (name : String) :
    Except Error AttributeIndex :=
  match store.index? name with
  | some index => .ok index
  | none => .error (.refused (.noIndex name))

def holders (store : MemoryStore) (name : String) : List EntryId :=
  (store.existence.scan (.equal name)).map (·.id)

def scan (store : MemoryStore) : Scan → Except Error (List Candidate)
  | .index name seek =>
      (store.requireIndex name).map fun index =>
        (index.scan seek).map IndexPair.toCandidate
  | .presence name => .ok ((store.holders name).map .ofId)
  | .full => .ok (store.entries.map fun entry => .ofId entry.id)
  | .scope scope => .ok ((store.inScopeOrder scope).map .ofId)

def count (store : MemoryStore) : Scan → Except Error Nat
  | .index name seek =>
      (store.requireIndex name).map fun index => index.scanCount seek
  | .presence name => .ok (store.holders name).length
  | .full => .ok store.size
  | .scope scope => .ok (store.inScopeOrder scope).length

end MemoryStore

end DirectoryStore.Query
