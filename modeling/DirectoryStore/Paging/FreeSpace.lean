import DirectoryStore.Paging.PageFile

/-!
# Free space

Records that are no longer used leave free space inside data pages.  It is kept
in the pages of the free-list kind: after its page header such a page holds a
count and an array of slots, each naming a location and a size.  A slot of size
zero is empty.

`put` fills the first empty slot and adds a page when there is none.  `get`
takes the first slot that is large enough, and a page whose last slot was taken
goes back to the free pages.
-/

namespace DirectoryStore.Paging

/-! ## Slots -/

/-- A record's worth of space that can be used again. -/
structure FreeSlot where
  location : Location
  size : UInt32
  deriving DecidableEq, Repr

namespace FreeSlot

def width : Nat := 16

def empty : FreeSlot := ⟨⟨BlockId.header, 0⟩, 0⟩

def isUsed (slot : FreeSlot) : Bool := slot.size != 0

/-- A slot stores signed words, which are too narrow for the largest values. -/
def requireFits (slot : FreeSlot) : Except Error Unit := do
  if 0x8000000000000000 ≤ slot.location.block then
    throw (.refused .slotBlockTooLarge)
  if 0x80000000 ≤ slot.location.offset then
    throw (.refused .slotOffsetTooLarge)
  if 0x80000000 ≤ slot.size then
    throw (.refused .slotSizeTooLarge)

def encode (slot : FreeSlot) : Bytes :=
  Bytes.ofWord64 slot.location.block ++ Bytes.ofWord32 slot.location.offset ++
    Bytes.ofWord32 slot.size

def decode? (bytes : Bytes) : Option FreeSlot :=
  let block := bytes.word64 0
  let offset := bytes.word32 8
  let size := bytes.word32 12
  if block < 0x8000000000000000 ∧ offset < 0x80000000 ∧
      size < 0x80000000 then
    some ⟨⟨block, offset⟩, size⟩
  else
    none

end FreeSlot

/-! ## Pages of slots -/

def slotCountOffset : Nat := PageHeader.size

def slotsOffset : Nat := slotCountOffset + 2

def slotsPerPage (pageSize : Nat) : Nat :=
  (pageSize - slotsOffset) / FreeSlot.width

namespace Page

def slotCapacity (page : Page) : Nat := slotsPerPage page.data.length

def slotCount (page : Page) : UInt16 := page.data.word16 slotCountOffset

/--
The first of the next `left` slots that `accepts`, with its number.  The slots
before it are looked at in order, and a negative one ends the search.
-/
def findSlotFrom (page : Page) (accepts : FreeSlot → Bool) :
    (index left : Nat) → Bytes → Except Error (Option (Nat × FreeSlot))
  | _, 0, _ => .ok none
  | index, left + 1, bytes =>
      match FreeSlot.decode? bytes with
      | none => .error (.invalidFormat (.negativeSlot index page.block))
      | some slot =>
          if accepts slot then .ok (some (index, slot))
          else
            findSlotFrom page accepts (index + 1) left
              (bytes.drop FreeSlot.width)

def findSlot (page : Page) (accepts : FreeSlot → Bool) :
    Except Error (Option (Nat × FreeSlot)) :=
  page.findSlotFrom accepts 0 page.slotCapacity (page.data.drop slotsOffset)

def usedSlotsFrom (page : Page) :
    (index left : Nat) → Bytes → List FreeSlot → Except Error (List FreeSlot)
  | _, 0, _, found => .ok found.reverse
  | index, left + 1, bytes, found =>
      match FreeSlot.decode? bytes with
      | none => .error (.invalidFormat (.negativeSlot index page.block))
      | some slot =>
          usedSlotsFrom page (index + 1) left (bytes.drop FreeSlot.width)
            (if slot.isUsed then slot :: found else found)

def usedSlots (page : Page) : Except Error (List FreeSlot) :=
  page.usedSlotsFrom 0 page.slotCapacity (page.data.drop slotsOffset) []

def setSlot (page : Page) (index : Nat) (slot : FreeSlot) (count : UInt16) :
    Page :=
  let offset := slotsOffset + index * FreeSlot.width
  { page with
    data := (page.data.overwrite offset slot.encode).overwrite slotCountOffset
      (Bytes.ofWord16 count) }

def fillSlot (page : Page) (index : Nat) (slot : FreeSlot) :
    Except Error Page :=
  let count := page.slotCount
  if count = 0xFFFF then
    .error (.invalidFormat (.slotCountOverflow page.block))
  else
    .ok (page.setSlot index slot (count + 1))

/-- Empties a slot and counts it out; the count never goes below zero. -/
def clearSlot (page : Page) (index : Nat) : Page :=
  let count := page.slotCount
  page.setSlot index .empty (if count = 0 then 0 else count - 1)

end Page

/-! ## Taking and giving back -/

namespace FreeSpace

def fetchFor {α : Type} (block : BlockId) (compute : Page → Except Error α) :
    PageM (Page × α) := do
  let page ← PageFile.fetch block
  match compute page with
  | .ok value => return (page, value)
  | .error error =>
      PageFile.release page false
      throw error

def takeFrom (size : UInt32) (block : BlockId) : PageM (Option Location) := do
  let fits := fun slot : FreeSlot => slot.isUsed && size ≤ slot.size
  let (page, found) ← fetchFor block (·.findSlot fits)
  match found with
  | none =>
      PageFile.release page false
      return none
  | some (index, slot) =>
      let cleared := page.clearSlot index
      if cleared.slotCount = 0 then
        PageFile.release cleared false
        PageFile.free .freeList block
      else
        PageFile.release cleared true
      return some slot.location

/-- Space for at least `size` bytes, taken from the first slot that has it. -/
def get (size : UInt32) (limit : Nat := PageFile.stepLimit) : PageM (Option Location) :=
  PageFile.search .freeList (takeFrom size) limit

def fillAndRelease (page : Page) (index : Nat) (slot : FreeSlot) :
    PageM Unit := do
  match page.fillSlot index slot with
  | .ok filled => PageFile.release filled true
  | .error error =>
      PageFile.release page false
      throw error

def giveTo (slot : FreeSlot) (block : BlockId) : PageM (Option Unit) := do
  let (page, found) ← fetchFor block (·.findSlot (!·.isUsed))
  match found with
  | none =>
      PageFile.release page false
      return none
  | some (index, _) =>
      fillAndRelease page index slot
      return some ()

/-- Keeps `size` bytes at `location` for a later `get`. -/
def put (location : Location) (size : UInt32) (limit : Nat := PageFile.stepLimit) :
    PageM Unit := do
  if size = 0 then
    throw (.refused .emptySlot)
  let slot : FreeSlot := ⟨location, size⟩
  MonadExcept.ofExcept slot.requireFits
  if (← PageFile.search .freeList (giveTo slot) limit).isSome then
    return
  let block ← PageFile.allocate .freeList
  let page ← PageFile.fetch block
  fillAndRelease page 0 slot

def slotsOf (block : BlockId) : PageM (List FreeSlot) := do
  let (page, slots) ← fetchFor block (·.usedSlots)
  PageFile.release page false
  return slots

def slots (limit : Nat := PageFile.stepLimit) : PageM (List FreeSlot) :=
  PageFile.collect .freeList slotsOf limit

end FreeSpace

end DirectoryStore.Paging
