import DirectoryStore.Contents
import DirectoryStore.Error

/-!
# Byte stores

A byte store is read and written at offsets, appended to, and cut short.  There
are two kinds.  A *buffer* lives in memory and always knows its own length.  A
*file* is reached through a handle that remembers the length it last knew of:
changes made through other handles stay unseen, so the handle may refuse a read
that the file could serve, or run out of file inside a read it took for good.

No operation leaves a gap: reads and writes must start inside the store or
exactly at its end, and a store is only ever cut to a length it already has.
-/

namespace DirectoryStore

/-! ## Buffers -/

namespace Buffer

def read (buffer : Contents) (offset len : Nat) : Except StorageFault Bytes :=
  if offset + len ≤ buffer.size then
    .ok (buffer.slice offset len)
  else
    .error (.readPastEnd offset len buffer.size)

def write (buffer : Contents) (offset : Nat) (patch : Bytes) :
    Except StorageFault Contents :=
  if offset ≤ buffer.size then
    .ok (buffer.overwrite offset patch)
  else
    .error (.writePastEnd offset buffer.size)

def append (buffer : Contents) (patch : Bytes) : Nat × Contents :=
  (buffer.size, buffer.append patch)

def truncate (buffer : Contents) (size : Nat) : Except StorageFault Contents :=
  if size ≤ buffer.size then
    .ok (buffer.resize size)
  else
    .error (.truncateBeyondEnd size buffer.size)

end Buffer

/-! ## Files -/

/-- A file as one of its open handles knows it, with the length it had for that handle last. -/
structure OpenFile where
  contents : Contents
  knownSize : Nat
  deriving DecidableEq, Repr

namespace OpenFile

def read (file : OpenFile) (offset len : Nat) : Except StorageFault Bytes :=
  if offset + len ≤ file.knownSize then
    if len = 0 then
      .ok []
    else if offset + len ≤ file.contents.size then
      .ok (file.contents.slice offset len)
    else
      .error (.io .outOfFile)
  else
    .error (.readPastEnd offset len file.knownSize)

def write (file : OpenFile) (offset : Nat) (patch : Bytes) :
    Except StorageFault OpenFile :=
  if offset ≤ file.knownSize then
    .ok ⟨file.contents.overwrite offset patch,
      max file.knownSize (offset + patch.length)⟩
  else
    .error (.writePastEnd offset file.knownSize)

/-- Bytes go to the true end of the file, but the offset answered is the known one. -/
def append (file : OpenFile) (patch : Bytes) : Nat × OpenFile :=
  (file.knownSize,
    ⟨file.contents.append patch, file.knownSize + patch.length⟩)

def truncate (file : OpenFile) (size : Nat) : Except StorageFault OpenFile :=
  if size ≤ file.knownSize then
    .ok ⟨file.contents.resize size, size⟩
  else
    .error (.truncateBeyondEnd size file.knownSize)

end OpenFile

/-! ## Handles -/

/-- One open way to a byte store whose contents are kept elsewhere. -/
inductive Handle where
  | buffer
  | file (knownSize : Nat)
  deriving DecidableEq, Repr

namespace Handle

def openFile (contents : Contents) : Handle := file contents.size

def size (handle : Handle) (contents : Contents) : Nat :=
  match handle with
  | buffer => contents.size
  | file knownSize => knownSize

def read (handle : Handle) (contents : Contents) (offset len : Nat) :
    Except StorageFault Bytes :=
  match handle with
  | buffer => Buffer.read contents offset len
  | file knownSize => OpenFile.read ⟨contents, knownSize⟩ offset len

def ofOpenFile (opened : OpenFile) : Handle × Contents :=
  (file opened.knownSize, opened.contents)

def write (handle : Handle) (contents : Contents) (offset : Nat)
    (patch : Bytes) : Except StorageFault (Handle × Contents) :=
  match handle with
  | buffer => (Buffer.write contents offset patch).map (buffer, ·)
  | file knownSize =>
      (OpenFile.write ⟨contents, knownSize⟩ offset patch).map ofOpenFile

def append (handle : Handle) (contents : Contents) (patch : Bytes) :
    Nat × Handle × Contents :=
  match handle with
  | buffer =>
      let (offset, contents) := Buffer.append contents patch
      (offset, buffer, contents)
  | file knownSize =>
      let (offset, opened) := OpenFile.append ⟨contents, knownSize⟩ patch
      (offset, ofOpenFile opened)

def truncate (handle : Handle) (contents : Contents) (size : Nat) :
    Except StorageFault (Handle × Contents) :=
  match handle with
  | buffer => (Buffer.truncate contents size).map (buffer, ·)
  | file knownSize =>
      (OpenFile.truncate ⟨contents, knownSize⟩ size).map ofOpenFile

end Handle

end DirectoryStore
