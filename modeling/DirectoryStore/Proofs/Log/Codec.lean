import DirectoryStore.Log.Frame
import DirectoryStore.Proofs.Words

/-!
# Reading frames back

Decoding and encoding are inverse for the three frames of a log, on byte strings
of the right length.  The header made for a payload that can be stored passes
every check of a scan, and gives the length and the sequence number back.
-/

namespace DirectoryStore.Log

/-! ## Decoding what was encoded -/

theorem SegmentHeader.decode_encode (header : SegmentHeader) :
    SegmentHeader.decode header.encode = header := by
  have number : header.encode.word64 0 = header.number := by
    rw [encode, Bytes.word64_append_left (by simp), Bytes.word64_ofWord64]
  have magic : header.encode.word32 8 = header.magic := by
    rw [encode, Bytes.word32_append_right (by simp)]
    simp
  rw [decode, number, magic]

theorem RecordHeader.decode_encode (header : RecordHeader) :
    RecordHeader.decode header.encode = header := by
  have magic : header.encode.word32 0 = header.magic := by
    unfold encode
    rw [Bytes.word32_append_left (by simp), Bytes.word32_append_left (by simp),
      Bytes.word32_append_left (by simp), Bytes.word32_ofWord32]
  have length : header.encode.word32 4 = header.length.toUInt32 := by
    unfold encode
    rw [Bytes.word32_append_left (by simp), Bytes.word32_append_left (by simp),
      Bytes.word32_append_right (by simp)]
    simp
  have lsn : header.encode.word64 8 = header.lsn := by
    unfold encode
    rw [Bytes.word64_append_left (by simp), Bytes.word64_append_right (by simp)]
    simp
  have checksum : header.encode.word64 16 = header.checksum := by
    unfold encode
    rw [Bytes.word64_append_right (by simp)]
    simp
  rw [decode, magic, length, lsn, checksum]
  rfl

theorem RecordFooter.decode_encode (footer : RecordFooter) :
    RecordFooter.decode footer.encode = footer := by
  have checksum : footer.encode.word32 0 = footer.checksum := by
    rw [encode, Bytes.word32_append_left (by simp), Bytes.word32_ofWord32]
  have magic : footer.encode.word32 4 = footer.magic := by
    rw [encode, Bytes.word32_append_right (by simp)]
    simp
  rw [decode, checksum, magic]

/-! ## Encoding what was decoded -/

theorem SegmentHeader.encode_decode {bytes : Bytes} (whole : bytes.length = size) :
    encode (decode bytes) = bytes := by
  have length : bytes.length = 12 := whole
  rw [encode, decode, Bytes.ofWord64_word64 (by omega), Bytes.ofWord32_word32 (by omega),
    Bytes.slice_append_slice bytes 0 8 4, Bytes.slice_all length]

theorem RecordHeader.encode_decode {bytes : Bytes} (whole : bytes.length = size) :
    encode (decode bytes) = bytes := by
  have length : bytes.length = 24 := whole
  have signed : (bytes.word32 4).toInt32.toUInt32 = bytes.word32 4 := rfl
  rw [encode, decode, signed, Bytes.ofWord32_word32 (by omega), Bytes.ofWord32_word32 (by omega),
    Bytes.ofWord64_word64 (by omega), Bytes.ofWord64_word64 (by omega),
    Bytes.slice_append_slice bytes 0 4 4, Bytes.slice_append_slice bytes 0 8 8,
    Bytes.slice_append_slice bytes 0 16 8, Bytes.slice_all length]

theorem RecordFooter.encode_decode {bytes : Bytes} (whole : bytes.length = size) :
    encode (decode bytes) = bytes := by
  have length : bytes.length = 8 := whole
  rw [encode, decode, Bytes.ofWord32_word32 (by omega), Bytes.ofWord32_word32 (by omega),
    Bytes.slice_append_slice bytes 0 4 4, Bytes.slice_all length]

/-! ## Records that can be stored -/

/-- Payloads that a record can hold. -/
structure Storable (payload : Bytes) : Prop where
  nonempty : payload ≠ []
  length_le : payload.length ≤ maxPayloadSize

instance (payload : Bytes) : Decidable (Storable payload) :=
  decidable_of_iff (payload ≠ [] ∧ payload.length ≤ maxPayloadSize)
    ⟨fun ⟨nonempty, length_le⟩ => ⟨nonempty, length_le⟩,
      fun storable => ⟨storable.nonempty, storable.length_le⟩⟩

theorem Storable.length_pos {payload : Bytes} (storable : Storable payload) :
    0 < payload.length :=
  List.length_pos_iff.mpr storable.nonempty

namespace RecordHeader

def standard (lsn : Lsn) (payloadSize : Nat) : RecordHeader :=
  let length := Int32.ofNat (payloadSize + frameSize)
  let number := UInt64.ofNat lsn
  ⟨validMagic, length, number, checksumOf number length⟩

theorem payloadSize?_standard {lsn : Lsn} {payloadSize : Nat}
    (positive : 0 < payloadSize) (small : payloadSize ≤ maxPayloadSize) :
    (standard lsn payloadSize).payloadSize? = some payloadSize := by
  have frame : frameSize = 32 := rfl
  have most : maxPayloadSize = 2147483615 := rfl
  have length :
      (standard lsn payloadSize).length.toInt = (payloadSize + frameSize : Nat) :=
    Int32.toInt_ofNat_of_lt (by omega)
  unfold payloadSize?
  rw [length, if_pos (by omega)]
  congr
  omega

theorem lsn_standard {lsn : Lsn} (fits : lsn < UInt64.size) (payloadSize : Nat) :
    (standard lsn payloadSize).lsn.toNat = lsn :=
  UInt64.toNat_ofNat_of_lt fits

end RecordHeader

def recordBytes (lsn : Lsn) (payload : Bytes) : Bytes :=
  (RecordHeader.standard lsn payload.length).encode ++
    (payload ++ RecordFooter.standard.encode)

@[simp] theorem length_recordBytes (lsn : Lsn) (payload : Bytes) :
    (recordBytes lsn payload).length = frameSize + payload.length := by
  simp [recordBytes, frameSize]
  omega

theorem encodeRecord_of_storable {payload : Bytes} (storable : Storable payload)
    (lsn : Lsn) : encodeRecord lsn payload = .ok (recordBytes lsn payload) := by
  have positive := storable.length_pos
  have small := storable.length_le
  have header : RecordHeader.forPayload lsn payload.length =
      .ok (RecordHeader.standard lsn payload.length) := by
    unfold RecordHeader.forPayload
    rw [if_neg (by omega), if_neg (by omega)]
    rfl
  rw [encodeRecord, header]
  simp [recordBytes, bind, Except.bind, pure, Except.pure]

theorem encodeRecord_of_not_storable {payload : Bytes}
    (unfit : ¬ Storable payload) (lsn : Lsn) :
    ∃ refusal, encodeRecord lsn payload = .error (.refused refusal) := by
  unfold encodeRecord RecordHeader.forPayload
  by_cases empty : payload.length = 0
  · refine ⟨.emptyPayload, ?_⟩
    rw [if_pos empty]
    rfl
  · have long : maxPayloadSize < payload.length :=
      Nat.lt_of_not_le fun short => unfit ⟨by simpa using empty, short⟩
    refine ⟨.payloadTooLong payload.length maxPayloadSize, ?_⟩
    rw [if_neg empty, if_pos long]
    rfl

end DirectoryStore.Log
