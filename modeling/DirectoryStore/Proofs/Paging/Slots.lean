import DirectoryStore.Paging.FreeSpace
import DirectoryStore.Proofs.Words

/-!
# Arrays of slots

Behind its header a page of slots holds a count and an array.  `SlotsIn` says which
slots these are and that the count is the number of the used ones.  A search finds the
first slot that it accepts, and filling or emptying a slot replaces it in the array and
keeps the count right.
-/

namespace DirectoryStore.Paging

/-! ## One slot -/

namespace FreeSlot

/-- The words of the slot are not negative where they are stored as signed ones. -/
structure Fits (slot : FreeSlot) : Prop where
  block : slot.location.block < 0x8000000000000000
  offset : slot.location.offset < 0x80000000
  size : slot.size < 0x80000000

instance (slot : FreeSlot) : Decidable slot.Fits :=
  decidable_of_iff (slot.location.block < 0x8000000000000000 ∧
      slot.location.offset < 0x80000000 ∧ slot.size < 0x80000000)
    ⟨fun ⟨block, offset, size⟩ => ⟨block, offset, size⟩,
      fun ⟨block, offset, size⟩ => ⟨block, offset, size⟩⟩

variable {slot : FreeSlot}

theorem fits_empty : empty.Fits := ⟨by decide, by decide, by decide⟩

theorem Fits.requireFits_eq (fits : slot.Fits) : slot.requireFits = .ok () := by
  obtain ⟨block, offset, size⟩ := fits
  simp only [requireFits, UInt64.not_le.mpr block, UInt32.not_le.mpr offset,
    UInt32.not_le.mpr size, if_false]
  rfl

theorem requireFits_eq_error (unfit : ¬ slot.Fits) :
    ∃ error, slot.requireFits = .error error := by
  unfold requireFits
  by_cases block : 0x8000000000000000 ≤ slot.location.block
  · exact ⟨_, by rw [if_pos block]; rfl⟩
  by_cases offset : 0x80000000 ≤ slot.location.offset
  · exact ⟨_, by rw [if_neg block, if_pos offset]; rfl⟩
  by_cases size : 0x80000000 ≤ slot.size
  · exact ⟨_, by rw [if_neg block, if_neg offset, if_pos size]; rfl⟩
  exact absurd ⟨UInt64.not_le.mp block, UInt32.not_le.mp offset, UInt32.not_le.mp size⟩ unfit

@[simp] theorem length_encode : slot.encode.length = width := by
  simp [encode, width]

theorem Fits.decode?_append (fits : slot.Fits) (rest : Bytes) :
    decode? (slot.encode ++ rest) = some slot := by
  have block : (slot.encode ++ rest).word64 0 = slot.location.block := by
    simp [encode, Bytes.word64_append_left]
  have offset : (slot.encode ++ rest).word32 8 = slot.location.offset := by
    rw [Bytes.word32_append_left (by simp [width])]
    simp [encode, Bytes.word32_append_left, Bytes.word32_append_right]
  have size : (slot.encode ++ rest).word32 12 = slot.size := by
    rw [Bytes.word32_append_left (by simp [width])]
    simp [encode, Bytes.word32_append_right]
  simp only [decode?, block, offset, size]
  rw [if_pos ⟨fits.block, fits.offset, fits.size⟩]

theorem drop_encode_append (slot : FreeSlot) (rest : Bytes) :
    (slot.encode ++ rest).drop width = rest := by
  rw [← slot.length_encode, List.drop_left]

theorem encode_empty : empty.encode = Bytes.zeros width := by
  decide

end FreeSlot

/-! ## Searches in an array -/

def FirstAccepted (accepts : FreeSlot → Bool) (slots : List FreeSlot) :
    Option (Nat × FreeSlot) → Prop
  | none => ∀ slot ∈ slots, accepts slot = false
  | some (index, slot) => ∃ before after, slots = before ++ slot :: after ∧
      before.length = index ∧ (∀ earlier ∈ before, accepts earlier = false) ∧
      accepts slot = true

namespace Page

variable {page : Page} {slots : List FreeSlot}

theorem length_take_header (page : Page) {width : Nat} (long : page.data.length = width)
    (wide : Settings.minPageSize ≤ width) :
    (page.data.take PageHeader.size).length = PageHeader.size := by
  have least : Settings.minPageSize = 64 := rfl
  have size : PageHeader.size = 18 := rfl
  rw [List.length_take]
  omega

theorem findSlotFrom_encoded (page : Page) (accepts : FreeSlot → Bool)
    (fit : ∀ slot ∈ slots, slot.Fits) (start : Nat) (rest : Bytes) :
    (page.findSlotFrom accepts start slots.length
        (slots.flatMap FreeSlot.encode ++ rest) = .ok none ∧
      FirstAccepted accepts slots none) ∨
    ∃ index slot, page.findSlotFrom accepts start slots.length
        (slots.flatMap FreeSlot.encode ++ rest) = .ok (some (start + index, slot)) ∧
      FirstAccepted accepts slots (some (index, slot)) := by
  induction slots generalizing start with
  | nil => exact .inl ⟨rfl, fun _ impossible => nomatch impossible⟩
  | cons slot slots ih =>
      have read := (fit slot List.mem_cons_self).decode?_append
        (slots.flatMap FreeSlot.encode ++ rest)
      simp only [List.flatMap_cons, List.append_assoc, List.length_cons, findSlotFrom, read,
        slot.drop_encode_append]
      cases accepted : accepts slot with
      | true =>
          refine .inr ⟨0, slot, rfl, [], slots, rfl, rfl, ?_, accepted⟩
          exact fun _ impossible => nomatch impossible
      | false =>
          have fit' : ∀ later ∈ slots, later.Fits :=
            fun later member => fit later (List.mem_cons_of_mem _ member)
          rcases ih fit' (start + 1) with ⟨found, none_accepted⟩ | ⟨index, found, found_eq, first⟩
          · refine .inl ⟨found, ?_⟩
            rintro later (_ | ⟨_, member⟩)
            · exact accepted
            · exact none_accepted later member
          · obtain ⟨before, after, parts, length, rejected, accepted'⟩ := first
            refine .inr ⟨index + 1, found, ?_, slot :: before, after, ?_, ?_, ?_, accepted'⟩
            · rw [show start + (index + 1) = start + 1 + index by omega]
              exact found_eq
            · rw [parts, List.cons_append]
            · rw [List.length_cons, length]
            · rintro earlier (_ | ⟨_, member⟩)
              · exact accepted
              · exact rejected earlier member

theorem usedSlotsFrom_encoded (page : Page) (fit : ∀ slot ∈ slots, slot.Fits) (start : Nat)
    (rest : Bytes) (found : List FreeSlot) :
    page.usedSlotsFrom start slots.length (slots.flatMap FreeSlot.encode ++ rest) found =
      .ok (found.reverse ++ slots.filter FreeSlot.isUsed) := by
  induction slots generalizing start found with
  | nil => simp [usedSlotsFrom]
  | cons slot slots ih =>
      have read := (fit slot List.mem_cons_self).decode?_append
        (slots.flatMap FreeSlot.encode ++ rest)
      have fit' : ∀ later ∈ slots, later.Fits :=
        fun later member => fit later (List.mem_cons_of_mem _ member)
      simp only [List.flatMap_cons, List.append_assoc, List.length_cons, usedSlotsFrom, read,
        slot.drop_encode_append, ih fit']
      cases used : slot.isUsed <;> simp [used]

end Page

/-! ## The array of a page -/

/-- The slots behind the header of a page, and their count before them. -/
structure SlotsIn (width : Nat) (slots : List FreeSlot) (body : Bytes) : Prop where
  length_eq : slots.length = slotsPerPage width
  fit : ∀ slot ∈ slots, slot.Fits
  stored : ∃ count rest, body = Bytes.ofWord16 count ++ (slots.flatMap FreeSlot.encode ++ rest) ∧
    count.toNat = (slots.filter FreeSlot.isUsed).length

/-- A counter of 16 bits can count the slots of the largest page and one more. -/
theorem slotsPerPage_lt {width : Nat} (narrow : width ≤ Settings.maxPageSize) :
    slotsPerPage width < 0xFFFF := by
  have most : Settings.maxPageSize = 1048576 := rfl
  have offset : slotsOffset = 20 := rfl
  have slot : FreeSlot.width = 16 := rfl
  unfold slotsPerPage
  rw [offset, slot]
  omega

theorem length_flatMap_encode (slots : List FreeSlot) :
    (slots.flatMap FreeSlot.encode).length = slots.length * FreeSlot.width := by
  induction slots with
  | nil => simp
  | cons slot slots ih =>
      rw [List.flatMap_cons, List.length_append, ih, slot.length_encode, List.length_cons,
        Nat.add_mul, Nat.one_mul, Nat.add_comm]

theorem slotsIn_zeros {width : Nat} (wide : Settings.minPageSize ≤ width) :
    SlotsIn width (List.replicate (slotsPerPage width) .empty)
      (Bytes.zeros (width - PageHeader.size)) := by
  have least : Settings.minPageSize = 64 := rfl
  have size : PageHeader.size = 18 := rfl
  have offset : slotsOffset = 20 := rfl
  have room : slotsPerPage width * FreeSlot.width ≤ width - slotsOffset := Nat.div_mul_le_self _ _
  have cells (count : Nat) : (List.replicate count FreeSlot.empty).flatMap FreeSlot.encode =
      Bytes.zeros (count * FreeSlot.width) := by
    induction count with
    | zero => simp [Bytes.zeros]
    | succ count ih =>
        rw [List.replicate_succ, List.flatMap_cons, ih, FreeSlot.encode_empty]
        simp only [Bytes.zeros, List.replicate_append_replicate]
        congr 1
        rw [Nat.add_mul, Nat.one_mul, Nat.add_comm]
  refine ⟨List.length_replicate, ?_, 0,
    Bytes.zeros (width - slotsOffset - slotsPerPage width * FreeSlot.width), ?_, ?_⟩
  · intro slot member
    rw [List.eq_of_mem_replicate member]
    exact FreeSlot.fits_empty
  · have word : Bytes.ofWord16 0 = Bytes.zeros 2 := by decide
    rw [cells, word]
    simp only [Bytes.zeros, List.replicate_append_replicate]
    congr 1
    omega
  · have unused : FreeSlot.empty.isUsed = false := rfl
    simp [unused]

namespace SlotsIn

variable {width : Nat} {slots before after : List FreeSlot} {page : Page} {old slot : FreeSlot}

theorem used_le {body : Bytes} (slotsIn : SlotsIn width slots body) :
    (slots.filter FreeSlot.isUsed).length ≤ slotsPerPage width :=
  slotsIn.length_eq ▸ List.length_filter_le _ _

theorem drop_slotsOffset (slotsIn : SlotsIn width slots (page.data.drop PageHeader.size)) :
    ∃ rest, page.data.drop slotsOffset = slots.flatMap FreeSlot.encode ++ rest := by
  obtain ⟨count, rest, body_eq, -⟩ := slotsIn.stored
  refine ⟨rest, ?_⟩
  have behind : page.data.drop slotsOffset = (page.data.drop PageHeader.size).drop 2 := by
    rw [List.drop_drop]
    rfl
  rw [behind, body_eq, ← Bytes.length_ofWord16 count, List.drop_left]

theorem decode?_eq (slotsIn : SlotsIn width slots (page.data.drop PageHeader.size)) {index : Nat}
    (here : slots[index]? = some slot) :
    FreeSlot.decode? (page.data.drop (slotsOffset + index * FreeSlot.width)) = some slot := by
  obtain ⟨inside, rfl⟩ := List.getElem?_eq_some_iff.mp here
  obtain ⟨rest, cells⟩ := slotsIn.drop_slotsOffset
  have place : ((slots.take index).flatMap FreeSlot.encode).length =
      index * FreeSlot.width := by
    rw [length_flatMap_encode, List.length_take, Nat.min_eq_left (Nat.le_of_lt inside)]
  have parts : slots.flatMap FreeSlot.encode ++ rest =
      (slots.take index).flatMap FreeSlot.encode ++ (slots[index].encode ++
        ((slots.drop (index + 1)).flatMap FreeSlot.encode ++ rest)) := by
    conv => lhs; rw [← List.take_append_drop index slots, List.drop_eq_getElem_cons inside]
    rw [List.flatMap_append, List.flatMap_cons, List.append_assoc, List.append_assoc]
  rw [← List.drop_drop, cells, parts, List.drop_left' place]
  exact (slotsIn.fit _ (List.getElem_mem inside)).decode?_append _

section

variable (long : page.data.length = width) (wide : Settings.minPageSize ≤ width)
  (slotsIn : SlotsIn width slots (page.data.drop PageHeader.size))

include long slotsIn

theorem slotCapacity_eq : page.slotCapacity = slots.length := by
  rw [Page.slotCapacity, long, slotsIn.length_eq]

theorem findSlot_cases (accepts : FreeSlot → Bool) :
    ∃ found, page.findSlot accepts = .ok found ∧ FirstAccepted accepts slots found := by
  obtain ⟨rest, cells⟩ := slotsIn.drop_slotsOffset
  rw [Page.findSlot, slotsIn.slotCapacity_eq long, cells]
  rcases page.findSlotFrom_encoded accepts slotsIn.fit 0 rest with
    ⟨found_eq, first⟩ | ⟨index, slot, found_eq, first⟩
  · exact ⟨none, found_eq, first⟩
  · rw [Nat.zero_add] at found_eq
    exact ⟨some (index, slot), found_eq, first⟩

theorem usedSlots_eq : page.usedSlots = .ok (slots.filter FreeSlot.isUsed) := by
  obtain ⟨rest, cells⟩ := slotsIn.drop_slotsOffset
  rw [Page.usedSlots, slotsIn.slotCapacity_eq long, cells,
    page.usedSlotsFrom_encoded slotsIn.fit, List.reverse_nil, List.nil_append]

include wide in
theorem slotCount_eq : page.slotCount.toNat = (slots.filter FreeSlot.isUsed).length := by
  obtain ⟨count, rest, body_eq, counted⟩ := slotsIn.stored
  have front := page.length_take_header long wide
  have word : page.slotCount = count := by
    rw [Page.slotCount, slotCountOffset, ← List.take_append_drop PageHeader.size page.data,
      Bytes.word16_append_right (Nat.le_of_eq front), front, Nat.sub_self, body_eq,
      Bytes.word16_append_left (by simp), Bytes.word16_ofWord16]
  rw [word, counted]

end

theorem setSlot (long : page.data.length = width) (wide : Settings.minPageSize ≤ width)
    (slotsIn : SlotsIn width (before ++ old :: after) (page.data.drop PageHeader.size))
    (fits : slot.Fits) {count : UInt16}
    (counted : count.toNat = ((before ++ slot :: after).filter FreeSlot.isUsed).length) :
    SlotsIn width (before ++ slot :: after)
      ((page.setSlot before.length slot count).data.drop PageHeader.size) := by
  obtain ⟨length_eq, fit, count₀, rest, body_eq, -⟩ := slotsIn
  have front := page.length_take_header long wide
  refine ⟨?_, ?_, count, rest, ?_, counted⟩
  · rw [← length_eq]
    simp
  · intro other member
    rcases List.mem_append.mp member with member | member
    · exact fit other (List.mem_append_left _ member)
    · rcases List.mem_cons.mp member with rfl | member
      · exact fits
      · exact fit other (List.mem_append_right _ (List.mem_cons_of_mem _ member))
  · have parts : page.data = (page.data.take PageHeader.size ++ (Bytes.ofWord16 count₀ ++
        before.flatMap FreeSlot.encode)) ++
          (old.encode ++ (after.flatMap FreeSlot.encode ++ rest)) := by
      conv => lhs; rw [← List.take_append_drop PageHeader.size page.data, body_eq]
      simp [List.append_assoc]
    have place : (page.data.take PageHeader.size ++ (Bytes.ofWord16 count₀ ++
        before.flatMap FreeSlot.encode)).length =
          slotsOffset + before.length * FreeSlot.width := by
      rw [List.length_append, List.length_append, front, Bytes.length_ofWord16,
        length_flatMap_encode, ← Nat.add_assoc]
      rfl
    have patched : page.data.overwrite (slotsOffset + before.length * FreeSlot.width)
        slot.encode = page.data.take PageHeader.size ++ (Bytes.ofWord16 count₀ ++
          ((before ++ slot :: after).flatMap FreeSlot.encode ++ rest)) := by
      conv => lhs; rw [parts, ← place]
      rw [Bytes.overwrite_middle _ _ (by simp)]
      simp [List.append_assoc]
    have counter : slotCountOffset = (page.data.take PageHeader.size).length := front.symm
    rw [Page.setSlot]
    simp only
    rw [patched, counter, Bytes.overwrite_middle _ _ (by simp)]
    exact List.drop_left' front

theorem fillSlot (long : page.data.length = width) (wide : Settings.minPageSize ≤ width)
    (narrow : width ≤ Settings.maxPageSize)
    (slotsIn : SlotsIn width (before ++ old :: after) (page.data.drop PageHeader.size))
    (unused : old.isUsed = false) (fits : slot.Fits) (used : slot.isUsed = true) :
    ∃ filled, page.fillSlot before.length slot = .ok filled ∧
      SlotsIn width (before ++ slot :: after) (filled.data.drop PageHeader.size) := by
  have counted := slotsIn.slotCount_eq long wide
  have most := slotsPerPage_lt narrow
  have few := slotsIn.used_le
  have below : page.slotCount ≠ 0xFFFF := by
    intro full
    rw [full] at counted
    have number : (0xFFFF : UInt16).toNat = 0xFFFF := rfl
    omega
  refine ⟨_, if_neg below, slotsIn.setSlot long wide fits ?_⟩
  have next : (page.slotCount + 1).toNat = page.slotCount.toNat + 1 := by
    rw [UInt16.toNat_add, Nat.mod_eq_of_lt]
    · rfl
    · have one : (1 : UInt16).toNat = 1 := rfl
      omega
  rw [next, counted]
  simp [unused, used]
  omega

theorem clearSlot (long : page.data.length = width) (wide : Settings.minPageSize ≤ width)
    (slotsIn : SlotsIn width (before ++ old :: after) (page.data.drop PageHeader.size))
    (used : old.isUsed = true) :
    SlotsIn width (before ++ .empty :: after)
      ((page.clearSlot before.length).data.drop PageHeader.size) := by
  have counted := slotsIn.slotCount_eq long wide
  have unused : FreeSlot.empty.isUsed = false := rfl
  simp only [List.filter_append, List.filter_cons, used, if_true, List.length_append,
    List.length_cons] at counted
  have positive : page.slotCount ≠ 0 := by
    intro zero
    rw [zero] at counted
    have number : (0 : UInt16).toNat = 0 := rfl
    omega
  unfold Page.clearSlot
  simp only [positive, if_false]
  refine slotsIn.setSlot long wide FreeSlot.fits_empty ?_
  have one : (1 : UInt16).toNat = 1 := rfl
  rw [UInt16.toNat_sub_of_le _ _ (by rw [UInt16.le_iff_toNat_le]; omega), counted]
  simp [unused]

end SlotsIn

end DirectoryStore.Paging
