import DirectoryStore.Proofs.Log.Anchors

/-!
# Frames, both ways

Each of the three frames of a log is one way of writing a byte string of its length:
decoding undoes encoding, and encoding undoes decoding.  A header announces a payload
exactly when it is the header that a writer makes for a payload of that size, so what a
writer writes is what a scan accepts.  The one word of a record that a scan does not look
at is the checksum of the footer, which a writer sets to zero.
-/

namespace DirectoryStore.Log

/-! ## Values and byte strings -/

/-- Values and the byte strings of this length are the same thing in two forms. -/
structure Inverse {α : Type} (size : Nat) (encode : α → Bytes) (decode : Bytes → α) : Prop where
  length_encode : ∀ value, (encode value).length = size
  decode_encode : ∀ value, decode (encode value) = value
  encode_decode : ∀ bytes : Bytes, bytes.length = size → encode (decode bytes) = bytes

theorem SegmentHeader.inverse : Inverse size encode decode :=
  ⟨length_encode, decode_encode, fun _ => encode_decode⟩

theorem RecordHeader.inverse : Inverse size encode decode :=
  ⟨length_encode, decode_encode, fun _ => encode_decode⟩

theorem RecordFooter.inverse : Inverse size encode decode :=
  ⟨length_encode, decode_encode, fun _ => encode_decode⟩

/-! ## Headers that announce a payload -/

namespace RecordHeader

theorem toInt_length_standard (lsn : Lsn) {payloadSize : Nat}
    (small : payloadSize ≤ maxPayloadSize) :
    (standard lsn payloadSize).length.toInt = (payloadSize + frameSize : Nat) := by
  have frame : frameSize = 32 := rfl
  have most : maxPayloadSize = 2147483615 := rfl
  exact Int32.toInt_ofNat_of_lt (by omega)

example : (standard 0 maxPayloadSize).length = Int32.maxValue := by decide

theorem forPayload_eq_ok_iff {header : RecordHeader} {lsn : Lsn} {payloadSize : Nat} :
    forPayload lsn payloadSize = .ok header ↔
      1 ≤ payloadSize ∧ payloadSize ≤ maxPayloadSize ∧ header = standard lsn payloadSize := by
  unfold forPayload
  by_cases empty : payloadSize = 0
  · simp [empty]
  by_cases long : maxPayloadSize < payloadSize
  · rw [if_neg empty, if_pos long]
    exact ⟨nofun, fun ⟨_, small, _⟩ => absurd long (Nat.not_lt.mpr small)⟩
  · rw [if_neg empty, if_neg long, Except.ok.injEq]
    exact ⟨fun made => ⟨Nat.pos_of_ne_zero empty, Nat.le_of_not_lt long, made.symm⟩,
      fun ⟨_, _, made⟩ => made.symm⟩

/-- A length word that leaves room for a payload is the one made for that payload. -/
theorem payloadSize?_eq_some_iff {header : RecordHeader} {payloadSize : Nat} :
    header.payloadSize? = some payloadSize ↔
      1 ≤ payloadSize ∧ payloadSize ≤ maxPayloadSize ∧
        header.length = Int32.ofNat (payloadSize + frameSize) := by
  have frame : frameSize = 32 := rfl
  have most : maxPayloadSize = 2147483615 := rfl
  constructor
  · intro room
    unfold payloadSize? at room
    split at room
    case isFalse => cases room
    rename_i beyond
    have size_eq : (header.length.toInt - frameSize).toNat = payloadSize := Option.some.inj room
    have limit : header.length.toInt < 2147483648 := header.length.toInt_lt
    have length : header.length.toInt = (payloadSize + frameSize : Nat) := by omega
    refine ⟨by omega, by omega, Int32.toInt_inj.mp ?_⟩
    rw [length, Int32.toInt_ofNat_of_lt (by omega)]
  · rintro ⟨positive, small, made⟩
    have room : (standard 0 payloadSize).payloadSize? = some payloadSize :=
      payloadSize?_standard positive small
    rwa [payloadSize?, ← show header.length = (standard 0 payloadSize).length from made] at room

theorem announces_iff {header : RecordHeader} {lsn : Lsn} {payloadSize : Nat} :
    header.Announces lsn payloadSize ↔
      header.lsn.toNat = lsn ∧ forPayload lsn payloadSize = .ok header := by
  rw [forPayload_eq_ok_iff]
  constructor
  · rintro ⟨magic_eq, size_eq, rfl, checksum_eq⟩
    obtain ⟨positive, small, length_eq⟩ := payloadSize?_eq_some_iff.mp size_eq
    refine ⟨rfl, positive, small, ?_⟩
    obtain ⟨magic, length, number, checksum⟩ := header
    obtain rfl : magic = validMagic := magic_eq
    obtain rfl : checksum = checksumOf number length := checksum_eq
    obtain rfl : length = Int32.ofNat (payloadSize + frameSize) := length_eq
    rw [standard, UInt64.ofNat_toNat]
  · rintro ⟨number_eq, positive, small, rfl⟩
    exact ⟨rfl, payloadSize?_standard positive small, number_eq, rfl⟩

end RecordHeader

/-! ## Records and their bytes -/

def footerOf (bytes : Bytes) (offset : Nat) (payload : Bytes) : RecordFooter :=
  RecordFooter.decode
    (bytes.slice (offset + RecordHeader.size + payload.length) RecordFooter.size)

theorem encodeRecord_eq_ok_iff {lsn : Lsn} {payload record : Bytes} :
    encodeRecord lsn payload = .ok record ↔
      Storable payload ∧ record = recordBytes lsn payload := by
  by_cases storable : Storable payload
  · rw [encodeRecord_of_storable storable, Except.ok.injEq]
    exact ⟨fun made => ⟨storable, made.symm⟩, fun ⟨_, made⟩ => made.symm⟩
  · obtain ⟨refusal, refused⟩ := encodeRecord_of_not_storable storable lsn
    rw [refused]
    exact ⟨nofun, fun ⟨fits, _⟩ => absurd fits storable⟩

theorem RecordAt.of_slice {bytes payload : Bytes} {offset : Nat} {lsn : Lsn}
    (fits : lsn < UInt64.size) (storable : Storable payload)
    (written : bytes.slice offset (recordBytes lsn payload).length = recordBytes lsn payload) :
    RecordAt bytes offset lsn payload := by
  have length := length_recordBytes lsn payload
  have frame : frameSize = 32 := rfl
  have inside : offset + (recordBytes lsn payload).length ≤ bytes.length := by
    have whole := congrArg List.length written
    rw [Bytes.length_slice] at whole
    omega
  have front : (bytes.take offset).length = offset := List.length_take_of_le (by omega)
  have parts : bytes.take offset ++ (recordBytes lsn payload ++
      bytes.drop (offset + (recordBytes lsn payload).length)) = bytes := by
    nth_rewrite 1 [← written]
    rw [Bytes.slice, ← List.drop_drop, List.take_append_drop, List.take_append_drop]
  have stands := recordAt_recordBytes (bytes.take offset)
    (bytes.drop (offset + (recordBytes lsn payload).length)) fits storable
  rwa [parts, front] at stands

namespace RecordAt

variable {bytes payload : Bytes} {offset : Nat} {lsn : Lsn}

theorem storable (stands : RecordAt bytes offset lsn payload) : Storable payload := by
  obtain ⟨positive, small, -⟩ :=
    RecordHeader.payloadSize?_eq_some_iff.mp stands.announced.size_eq
  exact ⟨List.length_pos_iff.mp positive, small⟩

theorem slice_eq (stands : RecordAt bytes offset lsn payload) :
    bytes.slice offset (frameSize + payload.length) =
      (RecordHeader.standard lsn payload.length).encode ++
        (payload ++ (footerOf bytes offset payload).encode) := by
  have inside := stands.inside
  have frame : frameSize = RecordHeader.size + RecordFooter.size := rfl
  have header : bytes.slice offset RecordHeader.size =
      (RecordHeader.standard lsn payload.length).encode := by
    obtain ⟨-, made⟩ := RecordHeader.announces_iff.mp stands.announced
    obtain ⟨-, -, header_eq⟩ := RecordHeader.forPayload_eq_ok_iff.mp made
    rw [← header_eq, RecordHeader.encode_decode (by rw [Bytes.length_slice]; omega)]
  have footer : bytes.slice (offset + RecordHeader.size + payload.length) RecordFooter.size =
      (footerOf bytes offset payload).encode := by
    rw [footerOf, RecordFooter.encode_decode (by rw [Bytes.length_slice]; omega)]
  rw [← header, ← footer]
  nth_rewrite 2 [← stands.payload_eq]
  rw [Bytes.slice_append_slice, Bytes.slice_append_slice]
  congr 1
  omega

/-- A record is what a writer writes when the checksum of its footer is zero. -/
theorem checksum_eq_zero_iff (stands : RecordAt bytes offset lsn payload) :
    (footerOf bytes offset payload).checksum = 0 ↔
      encodeRecord lsn payload = .ok (bytes.slice offset (frameSize + payload.length)) := by
  rw [encodeRecord_of_storable stands.storable, stands.slice_eq, Except.ok.injEq, recordBytes,
    List.append_cancel_left_eq, List.append_cancel_left_eq]
  constructor
  · intro zero
    have magic : (footerOf bytes offset payload).magic = RecordFooter.validMagic :=
      stands.footer_eq
    calc RecordFooter.standard.encode
        = RecordFooter.encode ⟨(footerOf bytes offset payload).checksum,
            (footerOf bytes offset payload).magic⟩ := by
          rw [zero, magic]
          rfl
      _ = (footerOf bytes offset payload).encode := rfl
  · intro same
    have decoded := congrArg RecordFooter.decode same
    rw [RecordFooter.decode_encode, RecordFooter.decode_encode] at decoded
    rw [← decoded]
    rfl

end RecordAt

/-! ## Scanning a written record -/

/--
A scanner that looks for its next record at this offset of an open segment.  The segment
is the one that the scan starts in, or the one that it read the record before from.
-/
inductive StandsBefore (log : LogFiles) (segment : OpenSegment) (bytes : Bytes) (offset : Nat) :
    Scanner → Prior → Prop where
  | first {home : Home} {start : LogAnchor}
      (opens : Looks log (LogFiles.openSegment home start.segment) (.ok (some segment)))
      (headed : Headed start.segment bytes)
      (place : start.offset = 0 ∧ offset = SegmentHeader.size ∨
        start.offset = offset ∧ SegmentHeader.size ≤ offset) :
      StandsBefore log segment bytes offset (Scanner.startAt home start) (.start start.lsn)
  | later {scanner : Scanner} {previous : Lsn} (reading : scanner.state = .reading)
      (position_eq : scanner.position = some ⟨segment, offset⟩)
      (last_eq : scanner.lastGood.lsn = some previous) :
      StandsBefore log segment bytes offset scanner (.after previous)

namespace StandsBefore

variable {log : LogFiles} {segment : OpenSegment} {bytes : Bytes} {offset : Nat}
  {scanner : Scanner} {prior : Prior}

theorem going (stands : StandsBefore log segment bytes offset scanner prior) :
    scanner.state = .needFileHeader ∨ scanner.state = .reading := by
  cases stands with
  | first => exact .inl rfl
  | later reading => exact .inr reading

theorem openStart_does {home : Home} {start : LogAnchor} (sees : Sees log segment bytes)
    (opens : Looks log (LogFiles.openSegment home start.segment) (.ok (some segment)))
    (headed : Headed start.segment bytes)
    (place : start.offset = 0 ∧ offset = SegmentHeader.size ∨
      start.offset = offset ∧ SegmentHeader.size ≤ offset) (record : Record) :
    Does log Scan.openStart (Scanner.startAt home start, record) (.ok (some ⟨segment, offset⟩))
      ((Scanner.startAt home start).movedTo start.segment offset, record) := by
  have opened := @Does.openSegment_passed _ (Scanner.startAt home start, record) _ _ _ opens sees
    (checkHeader_eq_ok_iff.mpr headed)
  unfold Scan.openStart
  have start_eq : (Scanner.startAt home start).start = start := rfl
  refine Does.get_bind fun _ => Does.bind opened ?_
  simp only [start_eq]
  rcases place with ⟨at_start, rfl⟩ | ⟨inside, past_header⟩
  · rw [if_pos at_start]
    exact .pure _
  · have some_header : 0 < SegmentHeader.size := by decide
    rw [if_neg (by omega), inside]
    exact Does.passes (Nat.not_lt.mpr past_header) (Does.bind (.modifyScanner _) (.pure _))

theorem readRecord_does (stands : StandsBefore log segment bytes offset scanner prior)
    (sees : Sees log segment bytes) (inside : offset < bytes.length) {lsn : Lsn}
    {payload : Bytes} (found : recordAt segment.number bytes offset prior = .ok (lsn, payload))
    (record : Record) :
    ∃ held : Scanner × Record, Does log Scan.readRecord (scanner, record) (.ok true)
      (Does.recorded held segment offset lsn payload) := by
  rw [Scan.readRecord_eq]
  have sought (held : Scanner × Record) (known : prior.KnownTo held.1) (fuel : Nat) :
      Does log (Scan.readRecordFrom prior.isStart (fuel + 1) (some ⟨segment, offset⟩)) held
        (.ok true) (Does.recorded held segment offset lsn payload) :=
    Does.bind (Does.seek_inside sees inside (Nat.succ_pos fuel))
      (Does.readRecordAt_ok held sees known found)
  cases stands with
  | @first home start opens headed place =>
      refine ⟨((Scanner.startAt home start).movedTo start.segment offset, record), ?_⟩
      exact Does.get_bind fun _ => Does.bind (openStart_does sees opens headed place record)
        (sought _ ⟨rfl, fun _ same => Prior.start.inj same⟩ _)
  | later reading position_eq last_eq =>
      refine ⟨(scanner, record), Does.get_bind fun _ => ?_⟩
      simp only [position_eq]
      exact Does.bind (.pure _) (sought _ ⟨last_eq, nofun⟩ _)

theorem next_reads (stands : StandsBefore log segment bytes offset scanner prior)
    (sees : Sees log segment bytes) (inside : offset < bytes.length) {lsn : Lsn}
    {payload : Bytes} (found : recordAt segment.number bytes offset prior = .ok (lsn, payload))
    (record : Record) (calls : Nat) :
    ∃ calls' step, scanner.next record (log.atCall calls) = (step, log.atCall calls') ∧
      (step.Reads ⟨segment.number, offset, lsn, payload⟩ ∧
          StandsBefore log segment bytes (offset + frameSize + payload.length) step.scanner
            (.after lsn) ∨
        Interrupted log step) := by
  obtain ⟨held, does⟩ := stands.readRecord_does sees inside found record
  obtain ⟨calls', step, ran, ⟨settled, record_eq⟩ | interrupted⟩ :=
    does.settled stands.going calls
  · obtain ⟨result_eq, scanner_eq⟩ := Prod.mk.inj settled
    have reads : step.Reads ⟨segment.number, offset, lsn, payload⟩ := by
      refine ⟨result_eq, ?_, ?_⟩
      · rw [record_eq]
        exact payload_recorded _ _ _
      · rw [record_eq]
        rfl
    have behind : StandsBefore log segment bytes (offset + frameSize + payload.length)
        step.scanner (.after lsn) := by
      rw [scanner_eq]
      exact .later rfl rfl rfl
    exact ⟨calls', step, ran, .inl ⟨reads, behind⟩⟩
  · exact ⟨calls', step, ran, .inr interrupted⟩

theorem memory {number : SegmentNumber} (stored : log.segments number = some bytes)
    (headed : Headed number bytes) (expected : Option Lsn) :
    ∃ segment, segment.number = number ∧ Sees log segment bytes ∧
      StandsBefore log segment bytes SegmentHeader.size
        (Scanner.startAt .memory ⟨number, 0, expected⟩) (.start expected) := by
  obtain ⟨segment, number_eq, opens, sees⟩ := (log.provides number).opens stored
  exact ⟨segment, number_eq, sees, .first opens headed (.inl ⟨rfl, rfl⟩)⟩

end StandsBefore

/-! ## Every record that a scan accepts -/

theorem Scanner.next_of_halted {scanner : Scanner} (halted : scanner.state ≠ .needFileHeader)
    (halted' : scanner.state ≠ .reading) (record : Record) (log : LogFiles) :
    ∃ answer, answer ≠ .ok true ∧
      scanner.next record log = (⟨answer, scanner, record⟩, log) := by
  obtain ⟨home, start, position, state, lastGood, nextLsn⟩ := scanner
  cases state with
  | needFileHeader => exact absurd rfl halted
  | reading => exact absurd rfl halted'
  | eof => exact ⟨.ok false, nofun, rfl⟩
  | invalid fault => exact ⟨.error (.invalidLog fault), nofun, rfl⟩
  | closed => exact ⟨.error .scannerClosed, nofun, rfl⟩

theorem Scanner.nextEach_of_halted {scanner : Scanner}
    (halted : scanner.state ≠ .needFileHeader) (halted' : scanner.state ≠ .reading)
    (buffers : List Record) (log : LogFiles) :
    ∀ step ∈ (scanner.nextEach buffers log).1, step.result ≠ .ok true := by
  induction buffers with
  | nil => exact fun step none_left => absurd none_left List.not_mem_nil
  | cons record buffers ih =>
      obtain ⟨answer, refused, ran⟩ := Scanner.next_of_halted halted halted' record log
      rw [nextEach_cons_apply, ran]
      intro step member
      rcases List.mem_cons.mp member with rfl | later
      · exact refused
      · exact ih step later

theorem Interrupted.result_ne {log : LogFiles} {step : Scanner.Step}
    (interrupted : Interrupted log step) : step.result ≠ .ok true := by
  obtain ⟨fault, -, ⟨-, failed, -⟩ | ⟨-, failed, -⟩⟩ := interrupted <;>
    rw [failed] <;> exact nofun

theorem Interrupted.halted {log : LogFiles} {step : Scanner.Step}
    (interrupted : Interrupted log step) :
    step.scanner.state ≠ .needFileHeader ∧ step.scanner.state ≠ .reading := by
  obtain ⟨fault, -, ⟨-, -, state_eq⟩ | ⟨-, -, state_eq⟩⟩ := interrupted <;>
    rw [state_eq] <;> exact ⟨nofun, nofun⟩

theorem Stop.halted (stop : Stop) : stop.state ≠ .needFileHeader ∧ stop.state ≠ .reading := by
  unfold state
  cases stop.fault <;> exact ⟨nofun, nofun⟩

/-- What the calls of a scan accept are records of its chain, whichever of them fail. -/
theorem WillRead.nextEach_reads {log : LogFiles} {scanner : Scanner} {records : List Found}
    {stop : Stop} (will : WillRead log scanner records stop) (buffers : List Record)
    (calls : Nat) :
    ∀ step ∈ (scanner.nextEach buffers (log.atCall calls)).1, step.result = .ok true →
      ∃ found ∈ records, step.Reads found := by
  induction buffers generalizing scanner records calls with
  | nil => exact fun step none_left => absurd none_left List.not_mem_nil
  | cons record buffers ih =>
      obtain ⟨calls', step, ran, reads | interrupted⟩ := will.next record calls <;>
        rw [nextEach_cons_apply, ran] <;> intro step' member accepted <;>
        rcases List.mem_cons.mp member with rfl | later
      · cases records with
        | nil =>
            have ends : step'.Stops stop := (show FindsStop _ _ _ from reads).toStops
            exact absurd (ends.result_eq ▸ accepted) stop.answer_ne
        | cons found rest =>
            have finds : FindsRecord log step' found rest stop := reads
            exact ⟨found, List.mem_cons_self, finds.toReads⟩
      · cases records with
        | nil =>
            have ends : step.Stops stop := (show FindsStop _ _ _ from reads).toStops
            have halted := ends.state_eq ▸ stop.halted
            exact absurd accepted
              (Scanner.nextEach_of_halted halted.1 halted.2 buffers _ step' later)
        | cons found rest =>
            have finds : FindsRecord log step found rest stop := reads
            obtain ⟨found', member', reads'⟩ := ih finds.will calls' step' later accepted
            exact ⟨found', List.mem_cons_of_mem _ member', reads'⟩
      · exact absurd accepted interrupted.result_ne
      · obtain ⟨halted, halted'⟩ := interrupted.halted
        exact absurd accepted (Scanner.nextEach_of_halted halted halted' buffers _ step' later)

theorem Provides.accepts {log : LogFiles} {home : Home} {start : LogAnchor}
    {segments : Segments} (provides : Provides log home start.segment segments)
    {buffers : List Record} {step : Scanner.Step}
    (member : step ∈ ((Scanner.startAt home start).nextEach buffers log).1)
    (accepted : step.result = .ok true) :
    ∃ found bytes, step.Reads found ∧ segments found.segment = some bytes ∧
      RecordAt bytes found.offset found.lsn found.payload := by
  obtain ⟨numbers, -, covers⟩ := provides.few
  obtain ⟨bound, finite⟩ := Covers.endsBefore covers
  obtain ⟨records, stop, reading⟩ := Reading.exists_of_endsBefore finite start
  have will : WillRead log (Scanner.startAt home start) records stop :=
    .opening provides reading
  obtain ⟨found, found_member, reads⟩ :=
    will.nextEach_reads buffers log.injection.callsMade step member accepted
  obtain ⟨front, back, rfl⟩ := List.append_of_mem found_member
  obtain ⟨bytes, stored, -, stands⟩ := reading.passes.record
  exact ⟨found, bytes, reads, stored, stands⟩

/-! ## The frames are exact -/

/--
Frames and their bytes are the same in two forms, and what scans accept is what writers
write, whatever the start of a scan and whichever calls fail.
-/
structure FramesAreExact : Prop where
  segmentHeader : Inverse SegmentHeader.size SegmentHeader.encode SegmentHeader.decode
  recordHeader : Inverse RecordHeader.size RecordHeader.encode RecordHeader.decode
  recordFooter : Inverse RecordFooter.size RecordFooter.encode RecordFooter.decode
  /-- A header passes the checks of a scan when it is the one made for some payload. -/
  accepted_iff : ∀ (header : RecordHeader) (payloadSize : Nat),
    (header.magic = RecordHeader.validMagic ∧ header.payloadSize? = some payloadSize ∧
        header.checksum = RecordHeader.checksumOf header.lsn header.length) ↔
      1 ≤ payloadSize ∧ payloadSize ≤ maxPayloadSize ∧
        RecordHeader.forPayload header.lsn.toNat payloadSize = .ok header
  /-- The length word of a header that is made holds the whole length, with its sign. -/
  length_eq : ∀ (lsn : Lsn) (payloadSize : Nat) (header : RecordHeader),
    RecordHeader.forPayload lsn payloadSize = .ok header →
      payloadSize + frameSize < 2 ^ 31 ∧
        header.length.toInt = (payloadSize + frameSize : Nat)
  /-- A scan that starts in a segment stands behind its header, whatever number it expects. -/
  begins : ∀ {log : LogFiles} {number : SegmentNumber} {bytes : Bytes},
    log.segments number = some bytes → Headed number bytes → ∀ expected : Option Lsn,
      ∃ segment, segment.number = number ∧ Sees log segment bytes ∧
        StandsBefore log segment bytes SegmentHeader.size
          (Scanner.startAt .memory ⟨number, 0, expected⟩) (.start expected)
  /-- A scan that stands before a written record reads it, if its number may come next. -/
  written_accepted : ∀ {log : LogFiles} {segment : OpenSegment} {bytes : Bytes} {offset : Nat}
    {scanner : Scanner} {prior : Prior}, Sees log segment bytes →
    StandsBefore log segment bytes offset scanner prior →
    ∀ (lsn : UInt64) (payload record : Bytes), encodeRecord lsn.toNat payload = .ok record →
      bytes.slice offset record.length = record → prior.Admits lsn.toNat →
      ∀ (buffer : Record) (calls : Nat), ∃ calls' step,
        scanner.next buffer (log.atCall calls) = (step, log.atCall calls') ∧
          (step.Reads ⟨segment.number, offset, lsn.toNat, payload⟩ ∧
              StandsBefore log segment bytes (offset + record.length) step.scanner
                (.after lsn.toNat) ∨
            Interrupted log step)
  /-- A record that a scan accepts was written just so, but for the checksum of its footer. -/
  accepted_written : ∀ {log : LogFiles} {home : Home} {start : LogAnchor} {segments : Segments},
    Provides log home start.segment segments → ∀ (buffers : List Record) (step : Scanner.Step),
      step ∈ ((Scanner.startAt home start).nextEach buffers log).1 → step.result = .ok true →
      ∃ found bytes, step.Reads found ∧ segments found.segment = some bytes ∧
        found.finish ≤ bytes.length ∧
        ((footerOf bytes found.offset found.payload).checksum = 0 ↔
          encodeRecord found.lsn found.payload =
            .ok (bytes.slice found.offset (frameSize + found.payload.length)))

theorem frames_are_exact : FramesAreExact where
  segmentHeader := SegmentHeader.inverse
  recordHeader := RecordHeader.inverse
  recordFooter := RecordFooter.inverse
  accepted_iff header payloadSize := by
    constructor
    · rintro ⟨magic_eq, size_eq, checksum_eq⟩
      obtain ⟨positive, small, -⟩ := RecordHeader.payloadSize?_eq_some_iff.mp size_eq
      obtain ⟨-, made⟩ :=
        RecordHeader.announces_iff.mp ⟨magic_eq, size_eq, rfl, checksum_eq⟩
      exact ⟨positive, small, made⟩
    · rintro ⟨-, -, made⟩
      obtain ⟨magic_eq, size_eq, -, checksum_eq⟩ :=
        RecordHeader.announces_iff.mpr ⟨rfl, made⟩
      exact ⟨magic_eq, size_eq, checksum_eq⟩
  length_eq lsn payloadSize header made := by
    obtain ⟨-, small, rfl⟩ := RecordHeader.forPayload_eq_ok_iff.mp made
    have frame : frameSize = 32 := rfl
    have most : maxPayloadSize = 2147483615 := rfl
    exact ⟨by omega, RecordHeader.toInt_length_standard lsn small⟩
  begins := StandsBefore.memory
  written_accepted sees stands lsn payload record made written admits buffer calls := by
    obtain ⟨storable, rfl⟩ := encodeRecord_eq_ok_iff.mp made
    have whole := RecordAt.of_slice lsn.toNat_lt storable written
    have frame : frameSize = 32 := rfl
    have inside := whole.inside
    rw [length_recordBytes, ← Nat.add_assoc]
    exact stands.next_reads sees (by omega) (recordAt_eq_ok_iff.mpr ⟨whole, admits⟩) buffer calls
  accepted_written provides buffers step member accepted := by
    obtain ⟨found, bytes, reads, stored, stands⟩ := provides.accepts member accepted
    exact ⟨found, bytes, reads, stored, stands.inside, stands.checksum_eq_zero_iff⟩

end DirectoryStore.Log
