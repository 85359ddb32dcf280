import DirectoryStore.Log.Segments

/-!
# Scanning a log

A scanner reads a log record by record from a start position.  It follows the
segments in order and stops at the end of the last one, at the first bytes that
are not a log, or when reading fails.  It knows the end of the last good record,
which is where a log can be cut, and the sequence number that comes next.

A record is read into a buffer that is used again for the next one.  The length
is set before the payload is read and the anchor after the whole record has been
checked, so a failed read can leave the buffer between two records.
-/

namespace DirectoryStore.Log

/-! ## Records -/

structure Record where
  buffer : Bytes
  len : Nat
  anchor : Option LogAnchor
  deriving DecidableEq, Repr

namespace Record

def withCapacity (capacity : Nat) : Record := ⟨Bytes.zeros capacity, 0, none⟩

def empty : Record := withCapacity 0

def payload (record : Record) : Bytes := record.buffer.take record.len

def capacity (record : Record) : Nat := record.buffer.length

def isEmpty (record : Record) : Bool := record.len == 0

def lsn (record : Record) : Option Lsn := record.anchor.bind LogAnchor.lsn

/-- Makes room for a payload of `len` bytes; a buffer never shrinks. -/
def prepare (record : Record) (len : Nat) : Record :=
  { record with
    buffer := record.buffer.resize (max record.buffer.length len)
    len := len }

def fill (record : Record) (payload : Bytes) : Record :=
  { record with buffer := payload ++ record.buffer.drop payload.length }

end Record

/-! ## Scanners -/

inductive ScanState where
  | needFileHeader
  | reading
  | eof
  | invalid (fault : LogFault)
  | closed
  deriving DecidableEq, Repr

structure ReadPosition where
  segment : OpenSegment
  offset : Nat
  deriving DecidableEq, Repr

structure Scanner where
  home : Home
  start : LogAnchor
  position : Option ReadPosition
  state : ScanState
  lastGood : LogAnchor
  nextLsn : Option Lsn
  deriving DecidableEq, Repr

namespace Scanner

def startAt (home : Home) (start : LogAnchor) : Scanner :=
  { home := home
    start := start
    position := none
    state := .needFileHeader
    lastGood := { start with lsn := none }
    nextLsn := start.lsn }

/-- Stops the scan; a scan that found invalid content stays invalid. -/
def close (scanner : Scanner) : Scanner :=
  match scanner.state with
  | .invalid _ => { scanner with position := none }
  | _ => { scanner with position := none, state := .closed }

end Scanner

/-- What a read works on: the logs, the scanner, and the record to fill. -/
structure Scan where
  log : LogFiles
  scanner : Scanner
  record : Record

abbrev ScanM := ExceptT Error (StateM Scan)

namespace Scan

def onLog {α : Type} (action : LogM α) : ScanM α := fun scan =>
  let (result, log) := action scan.log
  (result, { scan with log := log })

def modifyScanner (change : Scanner → Scanner) : ScanM Unit :=
  modify fun scan => { scan with scanner := change scan.scanner }

def modifyRecord (change : Record → Record) : ScanM Unit :=
  modify fun scan => { scan with record := change scan.record }

def reject {α : Type} (fault : LogFault) : ScanM α :=
  throw (.invalidLog fault)

def readBytes (position : ReadPosition) (len : Nat) :
    ScanM (Bytes × ReadPosition) := do
  let bytes ← onLog (position.segment.readAt position.offset len)
  return (bytes, { position with offset := position.offset + len })

def openSegment (number : SegmentNumber) : ScanM (Option ReadPosition) := do
  let home := (← get).scanner.home
  let some segment ← onLog (LogFiles.openSegment home number)
    | return none
  modifyScanner fun scanner =>
    { scanner with
      lastGood := { scanner.lastGood with segment := number, offset := 0 } }
  let (bytes, position) ← readBytes ⟨segment, 0⟩ SegmentHeader.size
  let header := SegmentHeader.decode bytes
  if header.number.toNat ≠ number then
    reject (.wrongSegment number header.number.toNat)
  if header.magic ≠ SegmentHeader.validMagic then
    reject (.badSegmentMagic header.magic number)
  modifyScanner fun scanner =>
    { scanner with
      lastGood := { scanner.lastGood with offset := SegmentHeader.size } }
  return some position

def openStart : ScanM (Option ReadPosition) := do
  let start := (← get).scanner.start
  let some position ← openSegment start.segment
    | return none
  if start.offset = 0 then
    return some position
  if start.offset < SegmentHeader.size then
    reject (.startInsideSegmentHeader start.offset)
  modifyScanner fun scanner =>
    { scanner with lastGood := { scanner.lastGood with offset := start.offset } }
  return some { position with offset := start.offset }

/--
Follows the segments to the first one with bytes left to read, if there is one.
The fuel is at least the number of segments that can be opened on the way.
-/
def seek : (fuel : Nat) → ReadPosition → ScanM (Option ReadPosition)
  | 0, _ => return none
  | fuel + 1, position => do
      let size ← onLog position.segment.size
      let number := position.segment.number
      if size < position.offset then
        reject (.startPastEnd position.offset number size)
      if position.offset < size then
        return some position
      let some next ← openSegment (number + 1)
        | return none
      seek fuel next

def readHeader (position : ReadPosition) :
    ScanM (Lsn × Nat × ReadPosition) := do
  let (bytes, after) ← readBytes position RecordHeader.size
  let header := RecordHeader.decode bytes
  let lsn : Lsn := header.lsn.toNat
  if header.magic ≠ RecordHeader.validMagic then
    reject (.badRecordMagic header.magic position.segment.number position.offset)
  let some payloadSize := header.payloadSize?
    | reject (.noRoomForPayload header.length)
  if let some previous := (← get).scanner.lastGood.lsn then
    if lsn < previous then
      reject (.wentBackwards lsn previous)
  if header.checksum ≠ RecordHeader.checksumOf header.lsn header.length then
    reject (.checksumMismatch lsn)
  return (lsn, payloadSize, after)

def requireStartLsn (lsn : Lsn) : ScanM Unit := do
  if let some expected := (← get).scanner.start.lsn then
    if expected ≠ lsn then
      reject (.unexpectedFirst lsn expected)

def readRecord : ScanM Bool := do
  let scan ← get
  let starting := scan.scanner.position.isNone
  let opened ←
    match scan.scanner.position with
    | some position => pure (some position)
    | none => openStart
  let some opened := opened
    | return false
  let some position ← seek (scan.log.segmentBound scan.scanner.home + 1) opened
    | return false
  let (lsn, payloadSize, position') ← readHeader position
  if starting then
    requireStartLsn lsn
  modifyRecord (·.prepare payloadSize)
  let (payload, position') ← readBytes position' payloadSize
  modifyRecord (·.fill payload)
  let (bytes, position') ← readBytes position' RecordFooter.size
  let footer := RecordFooter.decode bytes
  if footer.magic ≠ RecordFooter.validMagic then
    reject (.badFooterMagic footer.magic lsn)
  let number := position.segment.number
  modifyRecord fun record =>
    { record with anchor := some ⟨number, position.offset, some lsn⟩ }
  modifyScanner fun scanner =>
    { scanner with
      position := some position'
      lastGood := ⟨number, position'.offset, some lsn⟩
      nextLsn := some lsn.next }
  return true

def markInvalid (fault : LogFault) : ScanM Bool := do
  modifyScanner fun scanner =>
    { scanner with position := none, state := .invalid fault }
  reject fault

/-- Moves the scanner to the state that the outcome of a read leads to. -/
def settle : Except Error Bool → ScanM Bool
  | .ok true => do
      modifyScanner ({ · with state := .reading })
      return true
  | .ok false => do
      modifyScanner ({ · with position := none, state := .eof })
      return false
  | .error (.invalidLog fault) => markInvalid fault
  | .error (.access fault) => do
      if fault.isShortRead then
        markInvalid (.truncated fault)
      else
        modifyScanner Scanner.close
        throw (.access fault)
  | .error error => do
      modifyScanner Scanner.close
      throw error

def attempt {α : Type} (action : ScanM α) : ScanM (Except Error α) :=
  fun scan =>
    let (result, scan) := action scan
    (.ok result, scan)

/--
Reads the next record and answers whether there was one.  Once the scan has
stopped, every later call answers in the same way and reads nothing.
-/
def next : ScanM Bool := do
  match (← get).scanner.state with
  | .invalid fault => reject fault
  | .closed => throw .scannerClosed
  | .eof => return false
  | .needFileHeader | .reading => settle (← attempt readRecord)

end Scan

namespace Scanner

/-! ## Reading with a scanner -/

structure Step where
  result : Except Error Bool
  scanner : Scanner
  record : Record

def next (scanner : Scanner) (record : Record) : StateM LogFiles Step :=
  fun log =>
    let (result, scan) := Scan.next ⟨log, scanner, record⟩
    (⟨result, scan.scanner, scan.record⟩, scan.log)

/--
The next records, at most `limit` of them, each in a buffer of its own.  An
error is the last item, and a scan that has failed before has no items.
-/
def take (scanner : Scanner) :
    (limit : Nat) → StateM LogFiles (List (Except Error Record) × Scanner)
  | 0 => return ([], scanner)
  | limit + 1 => do
      match scanner.state with
      | .invalid _ | .closed => return ([], scanner)
      | _ =>
          let step ← scanner.next Record.empty
          match step.result with
          | .ok true =>
              let (items, last) ← take step.scanner limit
              return (.ok step.record :: items, last)
          | .ok false => return ([], step.scanner)
          | .error error => return ([.error error], step.scanner)

end Scanner

end DirectoryStore.Log
