/-!
# Settings

The sizes and policies that a page file and a log are opened with.
-/

namespace DirectoryStore

structure Settings where
  pageSize : Nat := 8192
  /-- A segment that would grow past this size is closed and the next one started. -/
  maxSegmentSize : Nat := 64 * 1024 * 1024
  syncOnWrite : Bool := true
  createIfMissing : Bool := true
  deriving DecidableEq, Repr

namespace Settings

/-- Room for a page header and two free slots. -/
def minPageSize : Nat := 64

/-- The largest size whose free slots a counter of 16 bits can count. -/
def maxPageSize : Nat := 1024 * 1024

end Settings

end DirectoryStore
