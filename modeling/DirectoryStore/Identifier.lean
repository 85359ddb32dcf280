/-!
# Identifiers and positions

Pages, log records and directory entries are numbered.  A page is named by its
block, a record of the page file by a location inside a block, and a record of
the log by an anchor: the segment it lies in, its offset there, and, when
known, its sequence number.
-/

namespace DirectoryStore

/-! ## Blocks and locations -/

/-- A page of the page file. Block 0 holds the file header, so it also stands for "no page". -/
abbrev BlockId := UInt64

namespace BlockId

/-- The block of the file header, which ends every chain of pages. -/
def header : BlockId := 0

def isNull (block : BlockId) : Bool := block == header

def text (block : BlockId) : String := s!"blk:{block}"

end BlockId

structure Location where
  block : BlockId
  offset : UInt32
  deriving DecidableEq, Repr

namespace Location

def text (location : Location) : String :=
  location.block.text ++ s!"+{location.offset}"

def order (a b : Location) : Ordering :=
  (compare a.block b.block).then (compare a.offset b.offset)

end Location

inductive PageKind where
  | free
  | data
  | freeList
  deriving DecidableEq, Repr

def PageKind.text : PageKind → String
  | free => "Free"
  | data => "Data"
  | freeList => "FreeList"

/-! ## Sequence numbers and entries -/

/-- A log sequence number. Stored ones are words of 64 bits, and the last word has no next. -/
abbrev Lsn := Nat

namespace Lsn

def first : Lsn := 1

def next (lsn : Lsn) : Lsn := lsn + 1

def text (lsn : Lsn) : String := s!"lsn:{lsn}"

end Lsn

abbrev EntryId := Nat

def EntryId.text (entry : EntryId) : String := s!"entry:{entry}"

/-! ## Positions in the log -/

/-- The number of a log segment, a word of 64 bits like a sequence number. -/
abbrev SegmentNumber := Nat

/--
A position in the log.  Offset 0 means the start of the segment.  A scan that
starts at a position with a sequence number must find that number first.
-/
structure LogAnchor where
  segment : SegmentNumber
  offset : Nat
  lsn : Option Lsn
  deriving DecidableEq, Repr

namespace LogAnchor

def startOf (segment : SegmentNumber) : LogAnchor := ⟨segment, 0, none⟩

def text (anchor : LogAnchor) : String :=
  let place := s!"log:{anchor.segment}+{anchor.offset}"
  match anchor.lsn with
  | some lsn => place ++ "@" ++ Lsn.text lsn
  | none => place

end LogAnchor

end DirectoryStore
