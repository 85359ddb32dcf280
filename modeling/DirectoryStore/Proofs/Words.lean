import DirectoryStore.Bytes

/-!
# Words inside byte strings

A word is read by cutting its bytes out and converting them.  The first section
says where the cut falls in a byte string that was put together from parts or patched,
the second that a written word is read back, and the third that a word determines the
bytes that it was read from.
-/

namespace DirectoryStore.Bytes

/-! ## Cutting -/

theorem slice_append_left {front back : Bytes} {offset len : Nat}
    (inside : offset + len ≤ front.length) :
    (front ++ back).slice offset len = front.slice offset len := by
  unfold slice
  rw [List.drop_append_of_le_length (by omega),
    List.take_append_of_le_length (by simp; omega)]

theorem slice_append_right {front back : Bytes} {offset len : Nat}
    (beyond : front.length ≤ offset) :
    (front ++ back).slice offset len =
      back.slice (offset - front.length) len := by
  unfold slice
  rw [List.drop_append, List.drop_of_length_le beyond, List.nil_append]

theorem slice_all {bytes : Bytes} {len : Nat} (whole : bytes.length = len) :
    bytes.slice 0 len = bytes := by
  simp [slice, ← whole]

theorem slice_middle (front middle back : Bytes) :
    (front ++ (middle ++ back)).slice front.length middle.length = middle := by
  simp [slice]

theorem slice_slice {bytes : Bytes} {offset len start width : Nat}
    (inside : start + width ≤ len) :
    (bytes.slice offset len).slice start width = bytes.slice (offset + start) width := by
  unfold slice
  rw [List.drop_take, List.take_take, List.drop_drop, Nat.min_eq_left (by omega)]

theorem slice_append_slice (bytes : Bytes) (offset len len' : Nat) :
    bytes.slice offset len ++ bytes.slice (offset + len) len' =
      bytes.slice offset (len + len') := by
  rw [slice, slice, slice, List.take_add, List.drop_drop]

theorem overwrite_zero {bytes patch : Bytes} (nonempty : patch ≠ []) :
    bytes.overwrite 0 patch = patch ++ bytes.drop patch.length := by
  simp [overwrite_eq, nonempty, resize, zeros]

theorem overwrite_middle (front back : Bytes) {middle patch : Bytes}
    (same : middle.length = patch.length) :
    (front ++ (middle ++ back)).overwrite front.length patch = front ++ (patch ++ back) := by
  by_cases nonempty : patch = []
  · have empty : middle = [] := by simpa [nonempty] using same
    simp [overwrite, nonempty, empty]
  · simp [overwrite_eq, nonempty, resize, zeros, ← same]

theorem overwrite_end (bytes patch : Bytes) :
    bytes.overwrite bytes.length patch = bytes ++ patch := by
  by_cases nonempty : patch = []
  · simp [overwrite, nonempty]
  · simp [overwrite_eq, nonempty, resize, zeros]

theorem overwrite_behind (bytes rest : Bytes) (offset : Nat) {patch : Bytes}
    (nonempty : patch ≠ []) :
    (bytes.overwrite offset patch).overwrite (offset + patch.length) rest =
      bytes.overwrite offset (patch ++ rest) := by
  by_cases nothing : rest = []
  · simp [overwrite, nothing]
  have front : (bytes.resize offset ++ patch).length = offset + patch.length := by simp
  have kept : Bytes.resize (bytes.overwrite offset patch) (offset + patch.length) =
      bytes.resize offset ++ patch := by
    rw [overwrite_eq _ _ _ nonempty, resize, List.take_left' front]
    simp [zeros]
  have behind : (bytes.overwrite offset patch).drop (offset + patch.length + rest.length) =
      bytes.drop (offset + patch.length + rest.length) := by
    rw [overwrite_eq _ _ _ nonempty, ← List.drop_drop, List.drop_left' front, List.drop_drop]
  rw [overwrite_eq _ _ _ nothing, kept, behind,
    overwrite_eq _ _ _ (List.append_ne_nil_of_left_ne_nil nonempty rest), List.append_assoc,
    List.append_assoc, List.append_assoc, List.append_assoc, List.length_append, Nat.add_assoc]

theorem take_overwrite {bytes patch : Bytes} {size offset : Nat}
    (before : size ≤ offset) (inside : offset ≤ bytes.length) :
    (bytes.overwrite offset patch).take size = bytes.take size := by
  by_cases nonempty : patch = []
  · simp [overwrite, nonempty]
  · have front : bytes.resize offset = bytes.take offset := by
      simp [resize, zeros, Nat.sub_eq_zero_of_le inside]
    rw [overwrite_eq _ _ _ nonempty, front, List.append_assoc,
      List.take_append_of_le_length (by simp; omega), List.take_take,
      Nat.min_eq_left before]

theorem overwrite_inside {bytes patch : Bytes} {offset : Nat}
    (inside : offset + patch.length ≤ bytes.length) :
    bytes.overwrite offset patch =
      bytes.take offset ++ (patch ++ bytes.drop (offset + patch.length)) := by
  by_cases nonempty : patch = []
  · simp [overwrite, nonempty]
  · have none_missing : offset - bytes.length = 0 := by omega
    simp [overwrite_eq, nonempty, resize, zeros, none_missing]

theorem length_overwrite_inside {bytes patch : Bytes} {offset : Nat}
    (inside : offset + patch.length ≤ bytes.length) :
    (bytes.overwrite offset patch).length = bytes.length := by
  rw [overwrite_inside inside]
  simp
  omega

theorem slice_overwrite {bytes patch : Bytes} {offset : Nat}
    (inside : offset + patch.length ≤ bytes.length) :
    (bytes.overwrite offset patch).slice offset patch.length = patch := by
  have front : (bytes.take offset).length = offset := List.length_take_of_le (by omega)
  have middle := slice_middle (bytes.take offset) patch (bytes.drop (offset + patch.length))
  rwa [front, ← overwrite_inside inside] at middle

theorem slice_overwrite_apart {bytes patch : Bytes} {offset place len : Nat}
    (inside : offset + patch.length ≤ bytes.length)
    (apart : place + len ≤ offset ∨ offset + patch.length ≤ place) :
    (bytes.overwrite offset patch).slice place len = bytes.slice place len := by
  have front : (bytes.take offset).length = offset := List.length_take_of_le (by omega)
  rw [overwrite_inside inside]
  rcases apart with before | behind
  · rw [slice_append_left (by omega), slice, List.drop_take, List.take_take,
      Nat.min_eq_left (by omega), slice]
  · rw [slice_append_right (by omega), slice_append_right (by omega), front, slice,
      List.drop_drop, slice]
    congr 2
    omega

/-! ## Reading written words -/

theorem word16_append_left {front back : Bytes} {offset : Nat}
    (inside : offset + 2 ≤ front.length) :
    (front ++ back).word16 offset = front.word16 offset := by
  rw [word16, slice_append_left inside, word16]

theorem word32_append_left {front back : Bytes} {offset : Nat}
    (inside : offset + 4 ≤ front.length) :
    (front ++ back).word32 offset = front.word32 offset := by
  rw [word32, slice_append_left inside, word32]

theorem word64_append_left {front back : Bytes} {offset : Nat}
    (inside : offset + 8 ≤ front.length) :
    (front ++ back).word64 offset = front.word64 offset := by
  rw [word64, slice_append_left inside, word64]

theorem word16_append_right {front back : Bytes} {offset : Nat}
    (beyond : front.length ≤ offset) :
    (front ++ back).word16 offset = back.word16 (offset - front.length) := by
  rw [word16, slice_append_right beyond, word16]

theorem word32_append_right {front back : Bytes} {offset : Nat}
    (beyond : front.length ≤ offset) :
    (front ++ back).word32 offset = back.word32 (offset - front.length) := by
  rw [word32, slice_append_right beyond, word32]

theorem word64_append_right {front back : Bytes} {offset : Nat}
    (beyond : front.length ≤ offset) :
    (front ++ back).word64 offset = back.word64 (offset - front.length) := by
  rw [word64, slice_append_right beyond, word64]

@[simp] theorem word16_ofWord16 (word : UInt16) :
    (ofWord16 word).word16 0 = word := by
  have small := word.toNat_lt
  rw [word16, slice_all (length_ofWord16 word), ofWord16, ofBigEndian_bigEndian]
  simp [span, Nat.mod_eq_of_lt small]

@[simp] theorem word32_ofWord32 (word : UInt32) :
    (ofWord32 word).word32 0 = word := by
  have small := word.toNat_lt
  rw [word32, slice_all (length_ofWord32 word), ofWord32, ofBigEndian_bigEndian]
  simp [span, Nat.mod_eq_of_lt small]

@[simp] theorem word64_ofWord64 (word : UInt64) :
    (ofWord64 word).word64 0 = word := by
  have small := word.toNat_lt
  rw [word64, slice_all (length_ofWord64 word), ofWord64, ofBigEndian_bigEndian]
  simp [span, Nat.mod_eq_of_lt small]

/-! ## Words and their bytes -/

theorem ofBigEndian_slice_lt {bytes : Bytes} {offset width : Nat}
    (inside : offset + width ≤ bytes.length) :
    ofBigEndian (bytes.slice offset width) < span width := by
  have length : (bytes.slice offset width).length = width := by simp; omega
  have small := ofBigEndian_lt (bytes.slice offset width)
  rwa [length] at small

theorem bigEndian_slice {bytes : Bytes} {offset width : Nat}
    (inside : offset + width ≤ bytes.length) :
    bigEndian width (ofBigEndian (bytes.slice offset width)) = bytes.slice offset width := by
  have length : (bytes.slice offset width).length = width := by simp; omega
  have written := bigEndian_ofBigEndian (bytes.slice offset width)
  rwa [length] at written

theorem ofWord16_word16 {bytes : Bytes} {offset : Nat} (inside : offset + 2 ≤ bytes.length) :
    ofWord16 (bytes.word16 offset) = bytes.slice offset 2 := by
  rw [ofWord16, word16, UInt16.toNat_ofNat_of_lt' (ofBigEndian_slice_lt inside),
    bigEndian_slice inside]

theorem ofWord32_word32 {bytes : Bytes} {offset : Nat} (inside : offset + 4 ≤ bytes.length) :
    ofWord32 (bytes.word32 offset) = bytes.slice offset 4 := by
  rw [ofWord32, word32, UInt32.toNat_ofNat_of_lt' (ofBigEndian_slice_lt inside),
    bigEndian_slice inside]

theorem ofWord64_word64 {bytes : Bytes} {offset : Nat} (inside : offset + 8 ≤ bytes.length) :
    ofWord64 (bytes.word64 offset) = bytes.slice offset 8 := by
  rw [ofWord64, word64, UInt64.toNat_ofNat_of_lt' (ofBigEndian_slice_lt inside),
    bigEndian_slice inside]

theorem ofBigEndian_inj {first second : Bytes} (same : first.length = second.length) :
    ofBigEndian first = ofBigEndian second ↔ first = second := by
  refine ⟨fun equal => ?_, congrArg ofBigEndian⟩
  rw [← bigEndian_ofBigEndian first, same, equal, bigEndian_ofBigEndian]

theorem slice_eq_iff {first second : Bytes} {offset offset' len : Nat}
    (inside : offset + len ≤ first.length) (inside' : offset' + len ≤ second.length) :
    ofBigEndian (first.slice offset len) % span len =
        ofBigEndian (second.slice offset' len) % span len ↔
      first.slice offset len = second.slice offset' len := by
  have same : (first.slice offset len).length = (second.slice offset' len).length := by
    simp
    omega
  rw [Nat.mod_eq_of_lt (ofBigEndian_slice_lt inside),
    Nat.mod_eq_of_lt (ofBigEndian_slice_lt inside'), ofBigEndian_inj same]

theorem word32_eq_iff {first second : Bytes} {offset offset' : Nat}
    (inside : offset + 4 ≤ first.length) (inside' : offset' + 4 ≤ second.length) :
    first.word32 offset = second.word32 offset' ↔
      first.slice offset 4 = second.slice offset' 4 := by
  rw [← slice_eq_iff inside inside', word32, word32, ← UInt32.toNat_inj, UInt32.toNat_ofNat',
    UInt32.toNat_ofNat']
  rfl

theorem word64_eq_iff {first second : Bytes} {offset offset' : Nat}
    (inside : offset + 8 ≤ first.length) (inside' : offset' + 8 ≤ second.length) :
    first.word64 offset = second.word64 offset' ↔
      first.slice offset 8 = second.slice offset' 8 := by
  rw [← slice_eq_iff inside inside', word64, word64, ← UInt64.toNat_inj, UInt64.toNat_ofNat',
    UInt64.toNat_ofNat']
  rfl

theorem word32_slice {bytes : Bytes} {offset len start : Nat} (inside : start + 4 ≤ len) :
    (bytes.slice offset len).word32 start = bytes.word32 (offset + start) := by
  rw [word32, slice_slice inside, word32]

theorem word64_slice {bytes : Bytes} {offset len start : Nat} (inside : start + 8 ≤ len) :
    (bytes.slice offset len).word64 start = bytes.word64 (offset + start) := by
  rw [word64, slice_slice inside, word64]

end DirectoryStore.Bytes
