import DirectoryStore.Log.Segments
import DirectoryStore.Proofs.Log.Codec

/-!
# The grammar of a log

This file says what a log is, without a scanner.  A segment is headed by its own
number, and a record stands at an offset when its frame and its payload are
there in full.  `checkHeader` and `recordAt` look for them in the order of a
scan, so they also name the first thing that is wrong; they succeed exactly when
`Headed` and `RecordAt` hold.

Whether a record stands at an offset depends on its own bytes alone.  Bytes may
be cut off or added behind it.
-/

namespace DirectoryStore.Log

/-! ## Checks -/

def require (holds : Prop) [Decidable holds] (fault : LogFault) :
    Except LogFault Unit :=
  if holds then .ok () else .error fault

@[simp] theorem require_eq_ok_iff {holds : Prop} [Decidable holds]
    {fault : LogFault} {answer : Unit} :
    require holds fault = .ok answer ↔ holds := by
  unfold require
  split <;> simp_all

theorem ok_bind {ε α β : Type} (value : α) (following : α → Except ε β) :
    (Except.ok value >>= following) = following value :=
  rfl

theorem error_bind {ε α β : Type} (error : ε) (following : α → Except ε β) :
    (Except.error error >>= following) = .error error :=
  rfl

theorem require_eq_error_iff {holds : Prop} [Decidable holds]
    {fault fault' : LogFault} :
    require holds fault = .error fault' ↔ ¬ holds ∧ fault = fault' := by
  unfold require
  split <;> simp_all

theorem pure_eq {ε α : Type} (value : α) :
    (pure value : Except ε α) = .ok value :=
  rfl

theorem bind_eq_ok_iff {ε α β : Type} {first : Except ε α}
    {following : α → Except ε β} {result : β} :
    (first >>= following) = .ok result ↔
      ∃ value, first = .ok value ∧ following value = .ok result := by
  cases first <;> simp [bind, Except.bind]

theorem bind_eq_error_iff {ε α β : Type} {first : Except ε α}
    {following : α → Except ε β} {error : ε} :
    (first >>= following) = .error error ↔
      first = .error error ∨
        ∃ value, first = .ok value ∧ following value = .error error := by
  cases first <;> simp [bind, Except.bind]

/-! ## Cutting bytes out -/

def readSlice (bytes : Bytes) (offset len : Nat) : Except LogFault Bytes :=
  if offset + len ≤ bytes.length then
    .ok (bytes.slice offset len)
  else
    .error (.truncated (.storage (.readPastEnd offset len bytes.length)))

theorem readSlice_eq_ok_iff {bytes found : Bytes} {offset len : Nat} :
    readSlice bytes offset len = .ok found ↔
      offset + len ≤ bytes.length ∧ bytes.slice offset len = found := by
  unfold readSlice
  split
  · simp_all
  · simp
    omega

structure SameUpTo (size : Nat) (first second : Bytes) : Prop where
  le_first : size ≤ first.length
  le_second : size ≤ second.length
  take_eq : first.take size = second.take size

namespace SameUpTo

variable {size : Nat} {first second : Bytes}

theorem refl {bytes : Bytes} (inside : size ≤ bytes.length) :
    SameUpTo size bytes bytes :=
  ⟨inside, inside, rfl⟩

theorem take {bytes : Bytes} (inside : size ≤ bytes.length) :
    SameUpTo size bytes (bytes.take size) :=
  ⟨inside, by simp [inside], by rw [List.take_take, Nat.min_self]⟩

theorem append (bytes more : Bytes) :
    SameUpTo bytes.length bytes (bytes ++ more) :=
  ⟨Nat.le_refl _, by simp, by simp⟩

theorem mono (same : SameUpTo size first second) {smaller : Nat}
    (le : smaller ≤ size) : SameUpTo smaller first second := by
  have le_first := same.le_first
  have le_second := same.le_second
  have cut (bytes : Bytes) : bytes.take smaller = (bytes.take size).take smaller := by
    rw [List.take_take, Nat.min_eq_left le]
  exact ⟨by omega, by omega, by rw [cut first, cut second, same.take_eq]⟩

theorem slice_eq (same : SameUpTo size first second) {offset len : Nat}
    (inside : offset + len ≤ size) :
    first.slice offset len = second.slice offset len := by
  have cut (bytes : Bytes) :
      bytes.slice offset len = Bytes.slice (bytes.take size) offset len := by
    unfold Bytes.slice
    rw [List.drop_take, List.take_take, Nat.min_eq_left (by omega)]
  rw [cut first, cut second, same.take_eq]

end SameUpTo

/-! ## Segment headers -/

def checkHeader (number : SegmentNumber) (bytes : Bytes) :
    Except LogFault Unit := do
  let header := SegmentHeader.decode (← readSlice bytes 0 SegmentHeader.size)
  require (header.number.toNat = number)
    (.wrongSegment number header.number.toNat)
  require (header.magic = SegmentHeader.validMagic)
    (.badSegmentMagic header.magic number)

structure Headed (number : SegmentNumber) (bytes : Bytes) : Prop where
  inside : SegmentHeader.size ≤ bytes.length
  number_eq :
    (SegmentHeader.decode (bytes.slice 0 SegmentHeader.size)).number.toNat = number
  magic_eq :
    (SegmentHeader.decode (bytes.slice 0 SegmentHeader.size)).magic =
      SegmentHeader.validMagic

theorem checkHeader_eq_ok_iff {number : SegmentNumber} {bytes : Bytes} :
    checkHeader number bytes = .ok () ↔ Headed number bytes := by
  simp only [checkHeader, bind_eq_ok_iff, readSlice_eq_ok_iff, require_eq_ok_iff]
  constructor
  · rintro ⟨_, ⟨inside, rfl⟩, -, number_eq, magic_eq⟩
    exact ⟨by omega, number_eq, magic_eq⟩
  · intro headed
    have inside := headed.inside
    exact ⟨_, ⟨by omega, rfl⟩, (), headed.number_eq, headed.magic_eq⟩

theorem Headed.of_same {number : SegmentNumber} {first second : Bytes} {size : Nat}
    (headed : Headed number first) (same : SameUpTo size first second)
    (enough : SegmentHeader.size ≤ size) : Headed number second := by
  have longer := same.le_second
  have cut := same.slice_eq (show 0 + SegmentHeader.size ≤ size by omega)
  exact ⟨by omega, cut ▸ headed.number_eq, cut ▸ headed.magic_eq⟩

def headerBytes (number : SegmentNumber) : Bytes :=
  (SegmentHeader.ofNumber number).encode

@[simp] theorem length_headerBytes (number : SegmentNumber) :
    (headerBytes number).length = SegmentHeader.size := by
  simp [headerBytes]

theorem headed_headerBytes {number : SegmentNumber} (fits : number < UInt64.size)
    (rest : Bytes) : Headed number (headerBytes number ++ rest) := by
  have cut : (headerBytes number ++ rest).slice 0 SegmentHeader.size =
      headerBytes number := by
    rw [Bytes.slice_append_left (by simp), Bytes.slice_all (by simp)]
  have decoded : SegmentHeader.decode (headerBytes number) =
      SegmentHeader.ofNumber number :=
    SegmentHeader.decode_encode _
  refine ⟨by simp, ?_, ?_⟩
  · rw [cut, decoded]
    exact UInt64.toNat_ofNat_of_lt fits
  · rw [cut, decoded]
    rfl

/-! ## Records -/

/-- What is known of the sequence number that the next record must carry. -/
inductive Prior where
  | start (expected : Option Lsn)
  | after (previous : Lsn)
  deriving DecidableEq, Repr

namespace Prior

def checkOrder (prior : Prior) (lsn : Lsn) : Except LogFault Unit :=
  match prior with
  | start _ => .ok ()
  | after previous => require (previous ≤ lsn) (.wentBackwards lsn previous)

def checkStart (prior : Prior) (lsn : Lsn) : Except LogFault Unit :=
  match prior with
  | start (some expected) =>
      require (expected = lsn) (.unexpectedFirst lsn expected)
  | _ => .ok ()

def Admits (prior : Prior) (lsn : Lsn) : Prop :=
  match prior with
  | start none => True
  | start (some expected) => expected = lsn
  | after previous => previous ≤ lsn

theorem admits_iff {prior : Prior} {lsn : Lsn} :
    prior.Admits lsn ↔
      prior.checkOrder lsn = .ok () ∧ prior.checkStart lsn = .ok () := by
  cases prior with
  | start expected => cases expected <;> simp [Admits, checkOrder, checkStart]
  | after previous => simp [Admits, checkOrder, checkStart]

end Prior

def RecordHeader.checkSize (header : RecordHeader) : Except LogFault Nat :=
  match header.payloadSize? with
  | some payloadSize => .ok payloadSize
  | none => .error (.noRoomForPayload header.length)

theorem RecordHeader.checkSize_eq_ok_iff {header : RecordHeader}
    {payloadSize : Nat} :
    header.checkSize = .ok payloadSize ↔
      header.payloadSize? = some payloadSize := by
  unfold checkSize
  split <;> simp_all

/-- Looks for a record header; answers the number and the size of the payload. -/
def headerAt (number : SegmentNumber) (bytes : Bytes) (offset : Nat)
    (prior : Prior) : Except LogFault (Lsn × Nat) := do
  let header := RecordHeader.decode (← readSlice bytes offset RecordHeader.size)
  require (header.magic = RecordHeader.validMagic)
    (.badRecordMagic header.magic number offset)
  let payloadSize ← header.checkSize
  prior.checkOrder header.lsn.toNat
  require (header.checksum = RecordHeader.checksumOf header.lsn header.length)
    (.checksumMismatch header.lsn.toNat)
  return (header.lsn.toNat, payloadSize)

def bodyAt (bytes : Bytes) (offset : Nat) (lsn : Lsn) (payloadSize : Nat) :
    Except LogFault Bytes := do
  let start := offset + RecordHeader.size
  let payload ← readSlice bytes start payloadSize
  let footer := RecordFooter.decode
    (← readSlice bytes (start + payloadSize) RecordFooter.size)
  require (footer.magic = RecordFooter.validMagic)
    (.badFooterMagic footer.magic lsn)
  return payload

/-- Looks for a record at an offset; answers its number and its payload. -/
def recordAt (number : SegmentNumber) (bytes : Bytes) (offset : Nat)
    (prior : Prior) : Except LogFault (Lsn × Bytes) := do
  let (lsn, payloadSize) ← headerAt number bytes offset prior
  prior.checkStart lsn
  let payload ← bodyAt bytes offset lsn payloadSize
  return (lsn, payload)

structure RecordHeader.Announces (header : RecordHeader) (lsn : Lsn)
    (payloadSize : Nat) : Prop where
  magic_eq : header.magic = RecordHeader.validMagic
  size_eq : header.payloadSize? = some payloadSize
  lsn_eq : header.lsn.toNat = lsn
  checksum_eq : header.checksum = checksumOf header.lsn header.length

/-- A whole record stands at an offset. -/
structure RecordAt (bytes : Bytes) (offset : Nat) (lsn : Lsn)
    (payload : Bytes) : Prop where
  inside : offset + frameSize + payload.length ≤ bytes.length
  announced : (RecordHeader.decode (bytes.slice offset RecordHeader.size)).Announces
    lsn payload.length
  payload_eq : bytes.slice (offset + RecordHeader.size) payload.length = payload
  footer_eq : (RecordFooter.decode (bytes.slice
    (offset + RecordHeader.size + payload.length) RecordFooter.size)).magic =
      RecordFooter.validMagic

theorem headerAt_eq_ok_iff {number : SegmentNumber} {bytes : Bytes} {offset : Nat}
    {prior : Prior} {lsn : Lsn} {payloadSize : Nat} :
    headerAt number bytes offset prior = .ok (lsn, payloadSize) ↔
      offset + RecordHeader.size ≤ bytes.length ∧
        (RecordHeader.decode (bytes.slice offset RecordHeader.size)).Announces
          lsn payloadSize ∧
        prior.checkOrder lsn = .ok () := by
  simp only [headerAt, bind_eq_ok_iff, readSlice_eq_ok_iff, require_eq_ok_iff,
    RecordHeader.checkSize_eq_ok_iff, pure_eq, Except.ok.injEq,
    Prod.mk.injEq]
  constructor
  · rintro ⟨_, ⟨inside, rfl⟩, -, magic_eq, _, size_eq, _, order, -, checksum_eq,
      rfl, rfl⟩
    exact ⟨inside, ⟨magic_eq, size_eq, rfl, checksum_eq⟩, order⟩
  · rintro ⟨inside, ⟨magic_eq, size_eq, rfl, checksum_eq⟩, order⟩
    exact ⟨_, ⟨inside, rfl⟩, (), magic_eq, _, size_eq, (), order, (),
      checksum_eq, rfl, rfl⟩

theorem recordAt_eq_ok_iff {number : SegmentNumber} {bytes : Bytes} {offset : Nat}
    {prior : Prior} {lsn : Lsn} {payload : Bytes} :
    recordAt number bytes offset prior = .ok (lsn, payload) ↔
      RecordAt bytes offset lsn payload ∧ prior.Admits lsn := by
  have frame : frameSize = RecordHeader.size + RecordFooter.size := rfl
  simp only [recordAt, bodyAt, bind_eq_ok_iff, Prod.exists, headerAt_eq_ok_iff,
    readSlice_eq_ok_iff, require_eq_ok_iff, Prior.admits_iff, pure_eq,
    Except.ok.injEq, Prod.mk.injEq]
  constructor
  · rintro ⟨_, payloadSize, ⟨-, announced, order⟩, _, start, _,
      ⟨found, ⟨inside, payload_eq⟩, _, ⟨_, rfl⟩, -, footer_eq, rfl⟩, rfl, rfl⟩
    have length : found.length = payloadSize := by
      rw [← payload_eq, Bytes.length_slice]
      omega
    subst length
    exact ⟨⟨by omega, announced, payload_eq, footer_eq⟩, order, start⟩
  · rintro ⟨⟨inside, announced, payload_eq, footer_eq⟩, order, start⟩
    exact ⟨_, _, ⟨by omega, announced, order⟩, (), start, _,
      ⟨_, ⟨by omega, payload_eq⟩, _, ⟨by omega, rfl⟩, (), footer_eq, rfl⟩, rfl, rfl⟩

theorem RecordAt.of_same {first second : Bytes} {size offset : Nat} {lsn : Lsn}
    {payload : Bytes} (found : RecordAt first offset lsn payload)
    (same : SameUpTo size first second)
    (enough : offset + frameSize + payload.length ≤ size) :
    RecordAt second offset lsn payload := by
  have frame : frameSize = RecordHeader.size + RecordFooter.size := rfl
  have longer := same.le_second
  have header := same.slice_eq
    (show offset + RecordHeader.size ≤ size by omega)
  have body := same.slice_eq
    (show offset + RecordHeader.size + payload.length ≤ size by omega)
  have footer := same.slice_eq
    (show offset + RecordHeader.size + payload.length + RecordFooter.size ≤ size
      by omega)
  exact ⟨by omega, header ▸ found.announced, body ▸ found.payload_eq,
    footer ▸ found.footer_eq⟩

theorem RecordHeader.announces_standard {lsn : Lsn} (fits : lsn < UInt64.size)
    {payload : Bytes} (storable : Storable payload) :
    (standard lsn payload.length).Announces lsn payload.length :=
  ⟨rfl, payloadSize?_standard storable.length_pos storable.length_le,
    lsn_standard fits _, rfl⟩

theorem recordAt_recordBytes (front back : Bytes) {lsn : Lsn}
    (fits : lsn < UInt64.size) {payload : Bytes} (storable : Storable payload) :
    RecordAt (front ++ (recordBytes lsn payload ++ back)) front.length lsn
      payload := by
  have frame : frameSize = RecordHeader.size + RecordFooter.size := rfl
  let header := (RecordHeader.standard lsn payload.length).encode
  let footer := RecordFooter.standard.encode
  have header_length : header.length = RecordHeader.size := by simp [header]
  have footer_length : footer.length = RecordFooter.size := by simp [footer]
  have parts : front ++ (recordBytes lsn payload ++ back) =
      front ++ (header ++ (payload ++ (footer ++ back))) := by
    simp [recordBytes, header, footer]
  rw [parts]
  refine ⟨by simp [header_length, footer_length]; omega, ?_, ?_, ?_⟩
  · rw [← header_length, Bytes.slice_middle, RecordHeader.decode_encode]
    exact RecordHeader.announces_standard fits storable
  · rw [← List.append_assoc, ← header_length, ← List.length_append,
      Bytes.slice_middle]
  · have front_eq : front.length + RecordHeader.size + payload.length =
        (front ++ header ++ payload).length := by
      simp [header_length, Nat.add_assoc]
    have regroup : front ++ (header ++ (payload ++ (footer ++ back))) =
        (front ++ header ++ payload) ++ (footer ++ back) := by
      simp
    rw [regroup, front_eq, ← footer_length, Bytes.slice_middle,
      RecordFooter.decode_encode]
    rfl

end DirectoryStore.Log
