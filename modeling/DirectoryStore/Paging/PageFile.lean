import DirectoryStore.Paging.BlockFile
import DirectoryStore.Paging.Header
import DirectoryStore.Settings

/-!
# Page files

A page file keeps the blocks of a block file in three doubly linked lists, one
for each kind of page.  `allocate` takes the first page of the free list, or a
new block when that list is empty, and puts it at the end of the list of its new
kind.  `free` takes a page out of its list and puts it at the front of the free
list.  The ends of the lists are kept in memory and written to block 0 as the
last step of both operations.
-/

namespace DirectoryStore.Paging

structure PageFile where
  blocks : BlockFile
  header : FileHeader

abbrev PageM := ExceptT Error (StateM PageFile)

namespace PageFile

def onBlocks {α : Type} (action : BlockM α) : PageM α := fun pages =>
  let (result, blocks) := action pages.blocks
  (result, { pages with blocks := blocks })

def fetch (block : BlockId) : PageM Page := onBlocks (BlockFile.fetch block)

def release (page : Page) (changed : Bool) : PageM Unit :=
  onBlocks (BlockFile.release page changed)

def blockCount : PageM Nat := onBlocks BlockFile.blockCount

def sync : PageM Unit := onBlocks BlockFile.sync

/-! ## Opening -/

/-- Reads the file header, or writes an empty one when the file has no blocks. -/
def mount : PageM Unit := do
  let pageSize := (← get).blocks.blockSize
  if pageSize < Settings.minPageSize then
    throw (.refused (.pageSizeTooSmall pageSize Settings.minPageSize))
  if Settings.maxPageSize < pageSize then
    throw (.refused (.pageSizeTooLarge pageSize Settings.maxPageSize))
  onBlocks BlockFile.requireWholeBlocks
  let count ← blockCount
  let page ← fetch BlockId.header
  if count = 0 then
    let header := FileHeader.empty
    release { page with data := header.encode page.data } true
    modify fun pages => { pages with header := header }
  else
    release page false
    let header ← MonadExcept.ofExcept (FileHeader.decode page.data)
    modify fun pages => { pages with header := header }

def unmounted (contents : Contents) (handle : Handle) (injection : Injection Request)
    (pageSize : Nat) : PageFile :=
  ⟨⟨contents, handle, injection, pageSize, []⟩, .empty⟩

/-! ## Headers -/

def first (pages : PageFile) (kind : PageKind) : BlockId :=
  (pages.header.ends kind).first

def last (pages : PageFile) (kind : PageKind) : BlockId :=
  (pages.header.ends kind).last

def setFirst (kind : PageKind) (block : BlockId) : PageM Unit :=
  modify fun pages => { pages with header := pages.header.setFirst kind block }

def setLast (kind : PageKind) (block : BlockId) : PageM Unit :=
  modify fun pages => { pages with header := pages.header.setLast kind block }

def writeFileHeader : PageM Unit := do
  let page ← fetch BlockId.header
  let header := (← get).header
  release { page with data := header.encode page.data } true

def readHeader (block : BlockId) : PageM PageHeader := do
  let page ← fetch block
  release page false
  MonadExcept.ofExcept (PageHeader.decode page.data)

def updateHeader (block : BlockId) (update : PageHeader → PageHeader) :
    PageM Unit := do
  let page ← fetch block
  match PageHeader.decode page.data with
  | .ok header =>
      let data := (update header).encode page.data
      release { page with data := data } true
  | .error error =>
      release page false
      throw error

def next (block : BlockId) : PageM BlockId := do
  return (← readHeader block).next

/-! ## Lists -/

/-- Joins the neighbours of a page, or moves the ends of the list past it. -/
def unlink (kind : PageKind) (block : BlockId) : PageM Unit := do
  let header ← readHeader block
  if header.prev.isNull then
    setFirst kind header.next
  else
    updateHeader header.prev ({ · with next := header.next })
  if header.next.isNull then
    setLast kind header.prev
  else
    updateHeader header.next ({ · with prev := header.prev })

def allocate (kind : PageKind) : PageM BlockId := do
  if kind = .free then
    throw (.refused .allocateFreePage)
  let reused := (← get).first .free
  let block ←
    if reused.isNull then do
      let count ← blockCount
      pure (UInt64.ofNat (max count 1))
    else do
      unlink .free reused
      pure reused
  let tail := (← get).last kind
  let page ← fetch block
  let header : PageHeader := ⟨kind, BlockId.header, tail⟩
  let data := header.encode (Bytes.zeros page.data.length)
  release { page with data := data } true
  if tail.isNull then
    setFirst kind block
  else
    updateHeader tail ({ · with next := block })
  setLast kind block
  writeFileHeader
  return block

def free (kind : PageKind) (block : BlockId) : PageM Unit := do
  if block.isNull then
    throw (.refused .freeFileHeader)
  let current ← readHeader block
  if current.kind ≠ kind then
    throw (.invalidFormat (.wrongKind block current.kind kind))
  unlink kind block
  let head := (← get).first .free
  updateHeader block fun _ => ⟨.free, head, BlockId.header⟩
  if head.isNull then
    setLast .free block
  else
    updateHeader head ({ · with prev := block })
  setFirst .free block
  writeFileHeader

/-! ## Walking a list -/

/-- A walk along the list of one kind, which may be interleaved with changes. -/
structure Cursor where
  kind : PageKind
  current : Option BlockId
  deriving DecidableEq, Repr

namespace Cursor

def start (kind : PageKind) : Cursor := ⟨kind, none⟩

/-- Moves to the next page. At the end of the list the walk stays where it is. -/
def advance (cursor : Cursor) : PageM (Option BlockId × Cursor) := do
  let following ←
    match cursor.current with
    | none => do pure ((← get).first cursor.kind)
    | some block => next block
  if following.isNull then
    return (none, cursor)
  else
    return (some following, { cursor with current := some following })

def take (cursor : Cursor) : (limit : Nat) → PageM (List BlockId)
  | 0 => return []
  | limit + 1 => do
      match ← cursor.advance with
      | (none, _) => return []
      | (some block, cursor) => return block :: (← take cursor limit)

end Cursor

/--
The steps that a walk is given when nothing else is asked for, as many as there are
numbers of blocks.  A walk that goes on behind them has come back to a page it has been at.
-/
def stepLimit : Nat := UInt64.size

/-- Visits the pages of the rest of a list until one of them has an answer. -/
def searchFrom {α : Type} (visit : BlockId → PageM (Option α)) :
    (limit : Nat) → Cursor → PageM (Option α)
  | 0, cursor => throw (.refused (.outOfSteps cursor.kind))
  | limit + 1, cursor => do
      match ← cursor.advance with
      | (none, _) => return none
      | (some block, cursor) =>
          match ← visit block with
          | some answer => return some answer
          | none => searchFrom visit limit cursor

def search {α : Type} (kind : PageKind) (visit : BlockId → PageM (Option α))
    (limit : Nat := stepLimit) : PageM (Option α) :=
  searchFrom visit limit (.start kind)

def collectFrom {α : Type} (visit : BlockId → PageM (List α)) :
    (limit : Nat) → Cursor → List α → PageM (List α)
  | 0, cursor, _ => throw (.refused (.outOfSteps cursor.kind))
  | limit + 1, cursor, collected => do
      match ← cursor.advance with
      | (none, _) => return collected
      | (some block, cursor) =>
          let found ← visit block
          collectFrom visit limit cursor (collected ++ found)

def collect {α : Type} (kind : PageKind) (visit : BlockId → PageM (List α))
    (limit : Nat := stepLimit) : PageM (List α) :=
  collectFrom visit limit (.start kind) []

def list (kind : PageKind) (limit : Nat := stepLimit) : PageM (List BlockId) :=
  collect kind (fun block => pure [block]) limit

def count (kind : PageKind) (limit : Nat := stepLimit) : PageM Nat := do
  return (← list kind limit).length

end PageFile

end DirectoryStore.Paging
