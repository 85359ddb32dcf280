import DirectoryStore.Identifier

/-!
# Errors

An error is the cause of a failure, and its wording is a function of the cause.
The medium fails with an `IoFault`, a byte store with a `StorageFault`, and the
log, the page file and the query engine with an `Error`.

A *short read* is a read that ran out of bytes.  The log scanner takes it for a
torn log and every other failure of the medium for a failure to read at all.
-/

namespace DirectoryStore

def hexText (width value : Nat) : String :=
  let digits := Nat.toDigits 16 value
  "0x" ++ String.ofList (List.replicate (width - digits.length) '0' ++ digits)

/-! ## Failures of the medium -/

inductive SystemRefusal where
  | notFound
  | alreadyExists
  | isADirectory
  | notADirectory
  | nameTooLong
  /-- The path cannot be handed to the operating system at all. -/
  | nulInPath
  deriving DecidableEq, Repr

def SystemRefusal.message : SystemRefusal → String
  | notFound => "<os NotFound>"
  | alreadyExists => "<os AlreadyExists>"
  | isADirectory => "<os IsADirectory>"
  | notADirectory => "<os NotADirectory>"
  | nameTooLong => "<os InvalidFilename>"
  | nulInPath => "file name contained an unexpected NUL byte"

inductive IoFault where
  | system (reason : SystemRefusal)
  /-- The file held fewer bytes than a read asked for. -/
  | outOfFile
  | injected
  | injectedShortRead
  | described (text : String) (endOfFile : Bool)
  deriving DecidableEq, Repr

namespace IoFault

def message : IoFault → String
  | system reason => reason.message
  | outOfFile => "failed to fill whole buffer"
  | injected => "injected fault"
  | injectedShortRead => "injected short read"
  | described text _ => text

def isShortRead : IoFault → Bool
  | outOfFile | injectedShortRead => true
  | described _ endOfFile => endOfFile
  | system _ | injected => false

end IoFault

/-! ## Failures of a byte store -/

inductive StorageFault where
  | io (fault : IoFault)
  | readPastEnd (offset len size : Nat)
  | writePastEnd (offset size : Nat)
  | truncateBeyondEnd (requested size : Nat)
  deriving DecidableEq, Repr

namespace StorageFault

def message : StorageFault → String
  | io fault => "I/O error: " ++ fault.message
  | readPastEnd offset len size =>
      s!"read beyond end of storage: offset {offset}, len {len}, size {size}"
  | writePastEnd offset size =>
      s!"write beyond end of storage: offset {offset}, size {size}"
  | truncateBeyondEnd requested size =>
      s!"cannot truncate to size {requested} which is greater than current size {size}"

def isShortRead : StorageFault → Bool
  | io fault => fault.isShortRead
  | readPastEnd .. => true
  | writePastEnd .. | truncateBeyondEnd .. => false

end StorageFault

/-- A failure to reach the bytes: through an open byte store, or around one. -/
inductive AccessFault where
  | storage (fault : StorageFault)
  | io (fault : IoFault)
  deriving DecidableEq, Repr

namespace AccessFault

def message : AccessFault → String
  | storage fault => "storage error: " ++ fault.message
  | io fault => "I/O error: " ++ fault.message

def isShortRead : AccessFault → Bool
  | storage fault => fault.isShortRead
  | io fault => fault.isShortRead

end AccessFault

/-! ## Content that breaks a format -/

inductive LogFault where
  | startInsideSegmentHeader (offset : Nat)
  | startPastEnd (offset : Nat) (segment : SegmentNumber) (size : Nat)
  | wrongSegment (segment claimed : SegmentNumber)
  | badSegmentMagic (magic : UInt32) (segment : SegmentNumber)
  | badRecordMagic (magic : UInt32) (segment : SegmentNumber) (offset : Nat)
  | noRoomForPayload (length : Int32)
  | wentBackwards (lsn previous : Lsn)
  | checksumMismatch (lsn : Lsn)
  | unexpectedFirst (lsn expected : Lsn)
  | badFooterMagic (magic : UInt32) (lsn : Lsn)
  | truncated (cause : AccessFault)
  | described (text : String)
  deriving DecidableEq, Repr

def LogFault.message : LogFault → String
  | startInsideSegmentHeader offset =>
      s!"starting offset {offset} lies inside the segment header"
  | startPastEnd offset segment size =>
      s!"position {offset} is past the end of segment {segment} ({size} bytes)"
  | wrongSegment segment claimed =>
      s!"segment {segment} claims to be segment {claimed}"
  | badSegmentMagic magic segment =>
      "bad segment magic " ++ hexText 8 magic.toNat ++ s!" in segment {segment}"
  | badRecordMagic magic segment offset =>
      "bad record magic " ++ hexText 8 magic.toNat ++
        s!" at segment {segment} offset {offset}"
  | noRoomForPayload length => s!"record length {length} cannot hold a payload"
  | wentBackwards lsn previous =>
      lsn.text ++ " follows " ++ previous.text ++ "; sequence numbers went backwards"
  | checksumMismatch lsn => "header checksum mismatch for " ++ lsn.text
  | unexpectedFirst lsn expected =>
      "first record has " ++ lsn.text ++ ", expected " ++ expected.text
  | badFooterMagic magic lsn =>
      "bad footer magic " ++ hexText 8 magic.toNat ++ " for " ++ lsn.text
  | truncated cause => "truncated log: " ++ cause.message
  | described text => text

inductive PageFault where
  | partialPage (size pageSize : Nat)
  | fileHeaderTruncated
  | badFileMagic (magic : UInt16)
  | pageHeaderTruncated
  | badPageMagic (magic : UInt16)
  | negativeLink (link : Int64)
  | wrongKind (block : BlockId) (found expected : PageKind)
  | negativeSlot (slot : Nat) (block : BlockId)
  | slotCountOverflow (block : BlockId)
  | described (text : String)
  deriving DecidableEq, Repr

def PageFault.message : PageFault → String
  | partialPage size pageSize =>
      s!"file size {size} is not a multiple of page size {pageSize}"
  | fileHeaderTruncated => "file header truncated"
  | badFileMagic magic => "bad file header magic " ++ hexText 4 magic.toNat
  | pageHeaderTruncated => "page header truncated"
  | badPageMagic magic => "bad page magic " ++ hexText 4 magic.toNat
  | negativeLink link => s!"negative block link {link}"
  | wrongKind block found expected =>
      "page " ++ block.text ++ " is " ++ found.text ++ ", not " ++ expected.text
  | negativeSlot slot block =>
      s!"negative field in free slot {slot} of page " ++ block.text
  | slotCountOverflow block =>
      "free slot count overflows on page " ++ block.text
  | described text => text

/-! ## Requests that cannot be served -/

inductive ExpressionFault where
  | assertionEvaluated
  | assertionSearched
  | emptyConjunction
  | emptyDisjunction
  | described (text : String)
  deriving DecidableEq, Repr

def ExpressionFault.message : ExpressionFault → String
  | assertionEvaluated => "a bare assertion node cannot be evaluated"
  | assertionSearched => "cannot build a cursor over a bare assertion node"
  | emptyConjunction => "empty conjunction"
  | emptyDisjunction => "empty disjunction"
  | described text => text

/-- Requests refused before they change anything. -/
inductive Refusal where
  | pageSizeTooSmall (size least : Nat)
  | pageSizeTooLarge (size most : Nat)
  | allocateFreePage
  | freeFileHeader
  | emptySlot
  | slotBlockTooLarge
  | slotOffsetTooLarge
  | slotSizeTooLarge
  /-- The walk is not at its end after all the steps it was given; it may end behind them. -/
  | outOfSteps (kind : PageKind)
  | emptyPayload
  | payloadTooLong (len most : Nat)
  | folderMissing (path : String)
  | notAFolder (path : String)
  | resumeWithoutLsn (anchor : LogAnchor)
  | resumeInMissingSegment (segment : SegmentNumber)
  | resumePastEnd (offset : Nat) (segment : SegmentNumber) (size : Nat)
  | entryExists (entry : EntryId)
  | parentMissing (parent entry : EntryId)
  | entryHasChildren (entry : EntryId)
  | noIndex (name : String)
  | described (text : String)
  deriving DecidableEq, Repr

def Refusal.message : Refusal → String
  | pageSizeTooSmall size least =>
      s!"page size {size} is below the minimum of {least}"
  | pageSizeTooLarge size most =>
      s!"page size {size} is above the maximum of {most}"
  | allocateFreePage => "free pages are produced by free(), not allocate()"
  | freeFileHeader => "cannot free the file header"
  | emptySlot => "cannot put a zero-sized record on the free list"
  | slotBlockTooLarge => "block id does not fit the slot layout"
  | slotOffsetTooLarge => "offset does not fit the slot layout"
  | slotSizeTooLarge => "size does not fit the slot layout"
  | outOfSteps kind => "the walk along the " ++ kind.text ++ " pages is out of steps"
  | emptyPayload => "log record payload is empty"
  | payloadTooLong len most =>
      s!"log record payload of {len} bytes exceeds the maximum of {most}"
  | folderMissing path => "log directory does not exist: " ++ path
  | notAFolder path => "path is not a directory: " ++ path
  | resumeWithoutLsn anchor =>
      "cannot resume at " ++ anchor.text ++ " without the next sequence number"
  | resumeInMissingSegment segment =>
      s!"cannot resume in missing log segment {segment}"
  | resumePastEnd offset segment size =>
      s!"resume offset {offset} is past the end of segment {segment} ({size} bytes)"
  | entryExists entry => entry.text ++ " already exists"
  | parentMissing parent entry =>
      "parent " ++ parent.text ++ " of " ++ entry.text ++ " does not exist"
  | entryHasChildren entry => entry.text ++ " has children and cannot be removed"
  | noIndex name => "no index on " ++ name
  | described text => text

/-! ## The error of an operation -/

inductive Error where
  | access (fault : AccessFault)
  | invalidLog (fault : LogFault)
  | scannerClosed
  | folderLocked
  | pageInUse (block : BlockId)
  | invalidFormat (fault : PageFault)
  | unsupportedFilter (kind : String)
  | invalidExpression (fault : ExpressionFault)
  | refused (refusal : Refusal)
  deriving DecidableEq, Repr

namespace Error

def storage (fault : StorageFault) : Error := access (.storage fault)

def io (fault : IoFault) : Error := access (.io fault)

def message : Error → String
  | access fault => fault.message
  | invalidLog fault => "invalid log content: " ++ fault.message
  | scannerClosed => "log scanner is closed"
  | folderLocked => "log directory locked: another process has exclusive access"
  | pageInUse block => "page " ++ block.text ++ " is already in use"
  | invalidFormat fault => "invalid page format: " ++ fault.message
  | unsupportedFilter kind => "unimplemented filter: " ++ kind
  | invalidExpression fault => "invalid expression: " ++ fault.message
  | refused refusal => "invalid operation: " ++ refusal.message

def isInvalidLog : Error → Bool
  | invalidLog _ => true
  | _ => false

def isShortRead : Error → Bool
  | access fault => fault.isShortRead
  | _ => false

end Error

end DirectoryStore
