import DirectoryStore.Bytes
import DirectoryStore.Error

/-!
# The headers of a page file

Block 0 of a page file starts with the file header, which holds the two ends of
the page list of each kind.  Every other block starts with a page header, which
holds the kind of the page and its neighbours in the list of that kind.  Links
are stored as signed words, so a link with its top bit set cannot be read back.

`encode` patches a header into the front of a page and leaves the rest alone;
`decode` reads it back and refuses everything that no `encode` has written.
-/

namespace DirectoryStore

/-! ## Kinds -/

namespace PageKind

def index : PageKind → Nat
  | free => 0
  | data => 1
  | freeList => 2

def ofTag? : UInt16 → Option PageKind
  | 0 => some free
  | 1 => some data
  | 2 => some freeList
  | _ => none

def magicBase : UInt16 := 0x1351

/-- The word that starts the header of every page of the kind. -/
def magic (kind : PageKind) : UInt16 := magicBase + UInt16.ofNat kind.index

def ofMagic? (word : UInt16) : Option PageKind :=
  if magicBase ≤ word then ofTag? (word - magicBase) else none

end PageKind

namespace Paging

/-! ## Links -/

def decodeLink (bytes : Bytes) (offset : Nat) : Except Error BlockId :=
  let link := (bytes.word64 offset).toInt64
  if link < 0 then
    .error (.invalidFormat (.negativeLink link))
  else
    .ok link.toUInt64

/-! ## The file header -/

structure ListEnds where
  first : BlockId
  last : BlockId
  deriving DecidableEq, Repr

def ListEnds.empty : ListEnds := ⟨BlockId.header, BlockId.header⟩

structure FileHeader where
  free : ListEnds
  data : ListEnds
  freeList : ListEnds
  deriving DecidableEq, Repr

namespace FileHeader

def size : Nat := 50

def validMagic : UInt16 := 0x1350

def empty : FileHeader := ⟨.empty, .empty, .empty⟩

def ends (header : FileHeader) : PageKind → ListEnds
  | .free => header.free
  | .data => header.data
  | .freeList => header.freeList

def setEnds (header : FileHeader) (kind : PageKind) (ends : ListEnds) :
    FileHeader :=
  match kind with
  | .free => { header with free := ends }
  | .data => { header with data := ends }
  | .freeList => { header with freeList := ends }

def setFirst (header : FileHeader) (kind : PageKind) (block : BlockId) :
    FileHeader :=
  header.setEnds kind { header.ends kind with first := block }

def setLast (header : FileHeader) (kind : PageKind) (block : BlockId) :
    FileHeader :=
  header.setEnds kind { header.ends kind with last := block }

def toBytes (header : FileHeader) : Bytes :=
  Bytes.ofWord16 validMagic ++
    Bytes.ofWord64 header.free.first ++ Bytes.ofWord64 header.free.last ++
    Bytes.ofWord64 header.data.first ++ Bytes.ofWord64 header.data.last ++
    Bytes.ofWord64 header.freeList.first ++
    Bytes.ofWord64 header.freeList.last

def encode (header : FileHeader) (page : Bytes) : Bytes :=
  page.overwrite 0 header.toBytes

def decode (page : Bytes) : Except Error FileHeader := do
  if page.length < size then
    throw (.invalidFormat .fileHeaderTruncated)
  let magic := page.word16 0
  if magic ≠ validMagic then
    throw (.invalidFormat (.badFileMagic magic))
  let freeFirst ← decodeLink page 2
  let freeLast ← decodeLink page 10
  let dataFirst ← decodeLink page 18
  let dataLast ← decodeLink page 26
  let freeListFirst ← decodeLink page 34
  let freeListLast ← decodeLink page 42
  return ⟨⟨freeFirst, freeLast⟩, ⟨dataFirst, dataLast⟩,
    ⟨freeListFirst, freeListLast⟩⟩

end FileHeader

/-! ## Page headers -/

structure PageHeader where
  kind : PageKind
  next : BlockId
  prev : BlockId
  deriving DecidableEq, Repr

namespace PageHeader

def size : Nat := 18

def toBytes (header : PageHeader) : Bytes :=
  Bytes.ofWord16 header.kind.magic ++
    Bytes.ofWord64 header.next ++ Bytes.ofWord64 header.prev

def encode (header : PageHeader) (page : Bytes) : Bytes :=
  page.overwrite 0 header.toBytes

def decode (page : Bytes) : Except Error PageHeader := do
  if page.length < size then
    throw (.invalidFormat .pageHeaderTruncated)
  let magic := page.word16 0
  let some kind := PageKind.ofMagic? magic
    | throw (.invalidFormat (.badPageMagic magic))
  let next ← decodeLink page 2
  let prev ← decodeLink page 10
  return ⟨kind, next, prev⟩

end PageHeader

end Paging

end DirectoryStore
