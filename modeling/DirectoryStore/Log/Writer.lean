import DirectoryStore.Log.Recovery

/-!
# Writing a log

A writer appends records to the last segment of a log and gives each the next
sequence number.  A record that would make the segment too long goes to a new
segment, unless it is the first record of the segment.

Opening a log recovers it: whatever follows the last good record is cut away,
and segments after it are removed.
-/

namespace DirectoryStore.Log

structure Writer where
  home : Home
  segment : OpenSegment
  nextLsn : Lsn
  maxSegmentSize : Nat
  syncOnWrite : Bool
  deriving DecidableEq, Repr

namespace Writer

def startSegment (home : Home) (number : SegmentNumber) : LogM OpenSegment := do
  let segment ← LogFiles.createSegment home number
  let (_, segment) ← segment.append (SegmentHeader.ofNumber number).encode
  segment.sync
  return segment

def onSegment (home : Home) (segment : OpenSegment) (nextLsn : Lsn)
    (settings : Settings) : Writer :=
  ⟨home, segment, nextLsn, settings.maxSegmentSize, settings.syncOnWrite⟩

/-! ## Opening -/

/--
The number to go on with when a scan found no record: the first one, unless
there is room for records before the position.
-/
def firstLsnAt (home : Home) (lastGood : LogAnchor) : LogM Lsn := do
  let numbers ← LogFiles.segmentNumbers home
  if SegmentHeader.size < lastGood.offset ∨
      numbers.any (· < lastGood.segment) then
    throw (.refused (.resumeWithoutLsn lastGood))
  return Lsn.first

/-- Opens the segment of a position, with nothing after the position. -/
def openCut (home : Home) (lastGood : LogAnchor) : LogM OpenSegment := do
  let number := lastGood.segment
  if lastGood.offset < SegmentHeader.size then
    startSegment home number
  else
    let some segment ← LogFiles.openSegment home number
      | throw (.refused (.resumeInMissingSegment number))
    let size ← segment.size
    if size < lastGood.offset then
      throw (.refused (.resumePastEnd lastGood.offset number size))
    if lastGood.offset < size then
      segment.truncate lastGood.offset
    else
      return segment

def removeSegments (home : Home) : List SegmentNumber → LogM Unit
  | [] => return
  | number :: rest => do
      LogFiles.removeSegment home number
      removeSegments home rest

/-- Goes on after a position, and takes away everything that follows it. -/
def resumeAfter (home : Home) (settings : Settings) (lastGood : LogAnchor)
    (nextLsn : Option Lsn) : LogM Writer := do
  let nextLsn ←
    match nextLsn with
    | some lsn => pure lsn
    | none => firstLsnAt home lastGood
  let segment ← openCut home lastGood
  let numbers ← LogFiles.segmentNumbers home
  removeSegments home (numbers.filter (lastGood.segment < ·))
  return onSegment home segment nextLsn settings

def openLog (home : Home) (settings : Settings) : LogM Writer := do
  match ← LogFiles.segmentNumbers home with
  | [] =>
      let segment ← startSegment home 0
      return onSegment home segment Lsn.first settings
  | first :: _ =>
      let report ← recover home (LogAnchor.startOf first)
      resumeAfter home settings report.lastGood report.nextLsn

/-! ## Appending -/

def mustRollOver (writer : Writer) (segmentSize size : Nat) : Bool :=
  SegmentHeader.size < segmentSize &&
    writer.maxSegmentSize < segmentSize + size

end Writer

/-- Operations of a writer, which keep what they did before they failed. -/
abbrev WriterM := ExceptT Error (StateM (LogFiles × Writer))

namespace Writer

def onLog {α : Type} (action : LogM α) : WriterM α := fun (log, writer) =>
  let (result, log) := action log
  (result, (log, writer))

def current : WriterM Writer := do
  return (← get).2

def setSegment (segment : OpenSegment) : WriterM Unit :=
  modify fun (log, writer) => (log, { writer with segment := segment })

def sync : WriterM Unit := do
  onLog (← current).segment.sync

def rollOver : WriterM Unit := do
  sync
  let writer ← current
  let segment ← onLog (startSegment writer.home (writer.segment.number + 1))
  setSegment segment

def append (payload : Bytes) : WriterM LogAnchor := do
  let writer ← current
  let lsn := writer.nextLsn
  let bytes ← MonadExcept.ofExcept (encodeRecord lsn payload)
  let size ← onLog writer.segment.size
  if writer.mustRollOver size bytes.length then
    rollOver
  let (offset, segment) ← onLog ((← current).segment.append bytes)
  setSegment segment
  if writer.syncOnWrite then
    sync
  modify fun (log, writer) => (log, { writer with nextLsn := lsn.next })
  return ⟨segment.number, offset, some lsn⟩

def endAnchor : WriterM LogAnchor := do
  let writer ← current
  let size ← onLog writer.segment.size
  return ⟨writer.segment.number, size, some writer.nextLsn⟩

/-- Appends payloads one after the other, up to the first that fails. -/
def appendAll : List Bytes → WriterM (List LogAnchor)
  | [] => return []
  | payload :: rest => do
      let anchor ← append payload
      return anchor :: (← appendAll rest)

end Writer

def writeLog (home : Home) (settings : Settings) (payloads : List Bytes) :
    LogM (List LogAnchor) := do
  let writer ← Writer.openLog home settings
  fun log =>
    let (result, (log, _)) := Writer.appendAll payloads (log, writer)
    (result, log)

end DirectoryStore.Log
