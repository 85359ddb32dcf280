import DirectoryStore.Injection
import DirectoryStore.Storage

/-!
# Files of fixed-size blocks

A block file hands out its blocks one holder at a time.  `fetch` reads a block
and marks it as in use; `release` gives it back, writing it first when its
holder changed it.  Blocks past the end of the file read as zeros, and writing
one of them back first fills the gap before it, so the file never has a hole.

Operations keep what they did before they failed: an operation is a function on
the file that answers a result or an error together with the file afterwards.
-/

namespace DirectoryStore.Paging

structure BlockFile where
  contents : Contents
  handle : Handle
  injection : Injection Request
  blockSize : Nat
  inUse : List BlockId

/-- A fetched block, held until it is released. -/
structure Page where
  block : BlockId
  data : Bytes
  deriving DecidableEq, Repr

abbrev BlockM := ExceptT Error (StateM BlockFile)

namespace BlockFile

/-! ## Calls on the byte store -/

def beginCall (call : Call) : BlockM Unit := do
  let file ← get
  let (fault, injection) := file.injection.next ⟨0, call⟩
  set { file with injection := injection }
  if let some fault := fault then
    throw (.storage (.io fault))

def size : BlockM Nat := do
  beginCall .size
  let file ← get
  return file.handle.size file.contents

def readAt (offset len : Nat) : BlockM Bytes := do
  beginCall (.read offset len)
  let file ← get
  match file.handle.read file.contents offset len with
  | .ok bytes => return bytes
  | .error fault => throw (.storage fault)

def writeAt (offset : Nat) (patch : Bytes) : BlockM Unit := do
  beginCall (.write offset patch.length)
  let file ← get
  match file.handle.write file.contents offset patch with
  | .ok (handle, contents) =>
      set { file with handle := handle, contents := contents }
  | .error fault => throw (.storage fault)

/-! ## Blocks -/

/-- Positions in a file are words of 64 bits, so no block begins beyond the last word. -/
def offsetOf (file : BlockFile) (block : BlockId) : Nat :=
  block.toNat * file.blockSize

def isInUse (file : BlockFile) (block : BlockId) : Bool :=
  file.inUse.contains block

def requireWholeBlocks : BlockM Unit := do
  let size ← size
  let file ← get
  if size % file.blockSize ≠ 0 then
    throw (.invalidFormat (.partialPage size file.blockSize))

def blockCount : BlockM Nat := do
  let size ← size
  return size / (← get).blockSize

def fetch (block : BlockId) : BlockM Page := do
  let file ← get
  if file.isInUse block then
    throw (.pageInUse block)
  let offset := file.offsetOf block
  let size ← size
  let data ←
    if offset < size then readAt offset file.blockSize
    else pure (Bytes.zeros file.blockSize)
  modify fun file => { file with inUse := block :: file.inUse }
  return ⟨block, data⟩

/-- The block is no longer in use afterwards, even when writing it fails. -/
def release (page : Page) (changed : Bool) : BlockM Unit := do
  modify fun file => { file with inUse := file.inUse.erase page.block }
  if changed then
    let offset := (← get).offsetOf page.block
    let size ← size
    if size < offset then
      writeAt size (Bytes.zeros (offset - size))
    writeAt offset page.data

def sync : BlockM Unit := do
  beginCall .flush
  beginCall .sync

end BlockFile

end DirectoryStore.Paging
