import DirectoryStore.FileSystem
import DirectoryStore.Injection
import DirectoryStore.Log.Frame
import DirectoryStore.Settings
import DirectoryStore.Storage

/-!
# Where the segments of a log live

A log is a row of numbered segments.  They are kept in memory, or as files of a
folder that is locked while the log is open.  Making a segment in memory puts a
new buffer in the place of an old one, while making a segment in a folder
empties the file that is there.

Several logs can be in use at once.  A writer and a scanner keep the home of
the log that they were opened on, and a folder stays locked for as long as
anything that was opened on it is still held.

A folder names segment `n` by `segmentName n`.  It lists every number that it
can read out of a name, so a name with leading zeros or a plus sign is listed
although no segment can be opened under it.
-/

namespace DirectoryStore.Log

/-! ## Names of segments -/

def nameStart : List Char := "log_".toList

def nameEnd : List Char := ".log".toList

def segmentName (number : SegmentNumber) : String :=
  s!"log_{number}.log"

def segmentPath (folder : Path) (number : SegmentNumber) : Path :=
  folder.child (segmentName number)

/-- A decimal number of 64 bits, after an optional plus sign. -/
def readNumber? (text : List Char) : Option Nat :=
  let digits :=
    match text with
    | '+' :: rest => rest
    | _ => text
  if digits.isEmpty || !digits.all Char.isDigit then
    none
  else
    let value := digits.foldl
      (fun total digit => total * 10 + (digit.toNat - '0'.toNat)) 0
    if value < UInt64.size then some value else none

def readSegmentName? (name : String) : Option SegmentNumber := do
  let rest ← nameStart.isPrefixOf? name.toList
  let number ← nameEnd.isSuffixOf? rest
  readNumber? number

/-! ## The state of logs -/

inductive Home where
  | memory
  /-- A folder, and the file whose lock is held. -/
  | folder (path : Path) (lock : FileId)
  deriving DecidableEq, Repr

def Home.lock? : Home → Option FileId
  | memory => none
  | folder _ lock => some lock

structure LogFiles where
  system : FileSystem
  memory : List (SegmentNumber × FileId)
  injection : Injection Request

/-- Operations on logs keep what they did before they failed. -/
abbrev LogM := ExceptT Error (StateM LogFiles)

structure OpenSegment where
  number : SegmentNumber
  file : FileId
  handle : Handle
  deriving DecidableEq, Repr

namespace LogFiles

def empty : LogFiles := ⟨FileSystem.empty "", [], Injection.never⟩

/-- No scan can follow more segments than there are names for them. -/
def segmentBound (log : LogFiles) : Home → Nat
  | .memory => log.memory.length
  | .folder .. => log.system.nodes.length

/-! ## Segments without failures -/

def updateSystem (system : FileSystem) : LogM Unit :=
  modify fun log => { log with system := system }

def openWithoutFailure (home : Home) (number : SegmentNumber) :
    LogM (Option OpenSegment) := do
  let log ← get
  match home with
  | .memory =>
      return (log.memory.lookup number).map (⟨number, ·, .buffer⟩)
  | .folder path _ =>
      match log.system.openFile (segmentPath path number) with
      | .ok file =>
          let handle := Handle.openFile (log.system.contents file)
          return some ⟨number, file, handle⟩
      | .error .notFound => return none
      | .error refusal => throw (.storage (.io (.system refusal)))

def insertSegment (number : SegmentNumber) (file : FileId) :
    List (SegmentNumber × FileId) → List (SegmentNumber × FileId)
  | [] => [(number, file)]
  | (other, otherFile) :: rest =>
      if number < other then (number, file) :: (other, otherFile) :: rest
      else if number = other then (number, file) :: rest
      else (other, otherFile) :: insertSegment number file rest

def createWithoutFailure (home : Home) (number : SegmentNumber) :
    LogM OpenSegment := do
  let log ← get
  match home with
  | .memory =>
      let (file, system) := log.system.newFile
      set { log with
        system := system
        memory := insertSegment number file log.memory }
      return ⟨number, file, .buffer⟩
  | .folder path _ =>
      match log.system.openOrMakeFile (segmentPath path number) with
      | .ok (file, system) =>
          updateSystem (system.setContents file .empty)
          return ⟨number, file, .file 0⟩
      | .error refusal => throw (.storage (.io (.system refusal)))

def removeWithoutFailure (home : Home) (number : SegmentNumber) : LogM Unit := do
  let log ← get
  match home with
  | .memory =>
      set { log with memory := log.memory.filter (·.1 ≠ number) }
  | .folder path _ =>
      match log.system.removeFile (segmentPath path number) with
      | .ok system => updateSystem system
      | .error .notFound => return
      | .error refusal => throw (.io (.system refusal))

def listWithoutFailure (home : Home) : LogM (List SegmentNumber) := do
  let log ← get
  match home with
  | .memory => return log.memory.map (·.1)
  | .folder path _ =>
      let numbers := (log.system.names path).filterMap readSegmentName?
      return numbers.mergeSort (· ≤ ·)

/-! ## Segments under injected failures -/

def beginCall (number : SegmentNumber) (call : Call) : LogM (Option IoFault) := do
  let log ← get
  let (fault, injection) := log.injection.next ⟨number, call⟩
  set { log with injection := injection }
  return fault

def beginOnRow (number : SegmentNumber) (call : Call) : LogM Unit := do
  if let some fault ← beginCall number call then
    throw (.io fault)

def beginOnBytes (number : SegmentNumber) (call : Call) : LogM Unit := do
  if let some fault ← beginCall number call then
    throw (.storage (.io fault))

def openSegment (home : Home) (number : SegmentNumber) :
    LogM (Option OpenSegment) := do
  beginOnRow number .openSegment
  openWithoutFailure home number

def createSegment (home : Home) (number : SegmentNumber) :
    LogM OpenSegment := do
  beginOnRow number .createSegment
  createWithoutFailure home number

def removeSegment (home : Home) (number : SegmentNumber) : LogM Unit := do
  beginOnRow number .removeSegment
  removeWithoutFailure home number

def segmentNumbers (home : Home) : LogM (List SegmentNumber) := do
  beginOnRow 0 .listSegments
  listWithoutFailure home

end LogFiles

/-! ## The bytes of a segment -/

namespace OpenSegment

def contents (segment : OpenSegment) (log : LogFiles) : Contents :=
  log.system.contents segment.file

def store (segment : OpenSegment) (handle : Handle) (contents : Contents) :
    LogM OpenSegment := do
  modify fun log =>
    { log with system := log.system.setContents segment.file contents }
  return { segment with handle := handle }

def sizeWithoutFailure (segment : OpenSegment) : LogM Nat := do
  return segment.handle.size (segment.contents (← get))

def readWithoutFailure (segment : OpenSegment) (offset len : Nat) :
    LogM Bytes := do
  match segment.handle.read (segment.contents (← get)) offset len with
  | .ok bytes => return bytes
  | .error fault => throw (.storage fault)

def writeWithoutFailure (segment : OpenSegment) (offset : Nat) (patch : Bytes) :
    LogM OpenSegment := do
  match segment.handle.write (segment.contents (← get)) offset patch with
  | .ok (handle, contents) => segment.store handle contents
  | .error fault => throw (.storage fault)

def appendWithoutFailure (segment : OpenSegment) (patch : Bytes) :
    LogM (Nat × OpenSegment) := do
  let (offset, handle, contents) :=
    segment.handle.append (segment.contents (← get)) patch
  return (offset, ← segment.store handle contents)

def truncateWithoutFailure (segment : OpenSegment) (size : Nat) :
    LogM OpenSegment := do
  match segment.handle.truncate (segment.contents (← get)) size with
  | .ok (handle, contents) => segment.store handle contents
  | .error fault => throw (.storage fault)

def size (segment : OpenSegment) : LogM Nat := do
  LogFiles.beginOnBytes segment.number .size
  segment.sizeWithoutFailure

def readAt (segment : OpenSegment) (offset len : Nat) : LogM Bytes := do
  LogFiles.beginOnBytes segment.number (.read offset len)
  segment.readWithoutFailure offset len

def append (segment : OpenSegment) (patch : Bytes) :
    LogM (Nat × OpenSegment) := do
  LogFiles.beginOnBytes segment.number .append
  segment.appendWithoutFailure patch

def truncate (segment : OpenSegment) (size : Nat) : LogM OpenSegment := do
  LogFiles.beginOnBytes segment.number .truncate
  segment.truncateWithoutFailure size

def sync (segment : OpenSegment) : LogM Unit := do
  LogFiles.beginOnBytes segment.number .flush
  LogFiles.beginOnBytes segment.number .sync

end OpenSegment

/-! ## All segments -/

namespace LogFiles

def bytesOfSegments (home : Home) :
    List SegmentNumber → LogM (List (SegmentNumber × Option Bytes))
  | [] => return []
  | number :: rest => do
      let opened ← tryCatch (openWithoutFailure home number) fun _ => pure none
      let log ← get
      let bytes := opened.map (·.contents log |>.bytes)
      return (number, bytes) :: (← bytesOfSegments home rest)

/-- The bytes of every segment in the list, or none for one that cannot be opened. -/
def snapshot (home : Home) : LogM (List (SegmentNumber × Option Bytes)) := do
  bytesOfSegments home (← listWithoutFailure home)

/-! ## Folders -/

def lockName : String := "LOCK"

def release (log : LogFiles) (held : List Home) : LogFiles :=
  { log with system := log.system.keepLocks (held.filterMap Home.lock?) }

def requireFolder (path : Path) (settings : Settings) : LogM Unit := do
  let log ← get
  if (log.system.existing? path).isNone then
    if settings.createIfMissing then
      let (made, system) := FileSystem.makeFolders path log.system
      updateSystem system
      if let .error refusal := made then
        throw (.io (.system refusal))
    else
      throw (.refused (.folderMissing (log.system.pathText path)))
  unless (← get).system.isFolder path do
    throw (.refused (.notAFolder (log.system.pathText path)))

/--
Finds or makes a folder for a log, and takes its lock.  The folder of a log that
is still held is locked already, so it cannot be opened a second time.
-/
def openFolder (path : Path) (settings : Settings) : LogM Home := do
  requireFolder path settings
  match (← get).system.openOrMakeFile (path.child lockName) with
  | .error refusal => throw (.io (.system refusal))
  | .ok (lock, system) =>
      if system.isLocked lock then
        throw .folderLocked
      updateSystem (system.lock lock)
      return .folder path lock

end LogFiles

end DirectoryStore.Log
