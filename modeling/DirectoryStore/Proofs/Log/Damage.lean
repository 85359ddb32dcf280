import DirectoryStore.Proofs.Log.Sessions

/-!
# Damaged frames

The frame of a record protects itself.  Two fields have one good value, and any two of
the length, the sequence number and the checksum determine the third.  So a scan notices
any other value in any one of them, whatever the rest of the log looks like under it, and
stops in front of the record.  A writer that opens the log goes on there.
-/

namespace DirectoryStore.Log

/-! ## Fields of a frame -/

/-- The fields of a frame; the checksum of the footer is not one, for nothing reads it. -/
inductive FrameField where
  | magic
  | length
  | lsn
  | checksum
  | footerMagic
  deriving DecidableEq, Repr

namespace FrameField

def start (payloadSize : Nat) : FrameField → Nat
  | magic => 0
  | length => 4
  | lsn => 8
  | checksum => 16
  | footerMagic => RecordHeader.size + payloadSize + 4

def width : FrameField → Nat
  | magic | length | footerMagic => 4
  | lsn | checksum => 8

theorem inside (field : FrameField) (payloadSize : Nat) :
    field.start payloadSize + field.width ≤ frameSize + payloadSize := by
  have frame : frameSize = 32 := rfl
  have header : RecordHeader.size = 24 := rfl
  cases field <;> simp only [start, width] <;> omega

end FrameField

theorem RecordHeader.decode_slice (bytes : Bytes) (offset : Nat) :
    decode (bytes.slice offset size) =
      ⟨bytes.word32 offset, (bytes.word32 (offset + 4)).toInt32, bytes.word64 (offset + 8),
        bytes.word64 (offset + 16)⟩ := by
  simp [decode, size, Bytes.word32_slice, Bytes.word64_slice]

theorem RecordFooter.magic_slice (bytes : Bytes) (offset : Nat) :
    (decode (bytes.slice offset size)).magic = bytes.word32 (offset + 4) := by
  simp [decode, size, Bytes.word32_slice]

theorem RecordHeader.checksumOf_lsn_inj {lsn lsn' : UInt64} {length : Int32} :
    checksumOf lsn length = checksumOf lsn' length ↔ lsn = lsn' :=
  UInt64.xor_left_inj _

theorem RecordHeader.checksumOf_length_inj {lsn : UInt64} {length length' : Int32} :
    checksumOf lsn length = checksumOf lsn length' ↔ length = length' := by
  refine ⟨fun same => ?_, congrArg _⟩
  have extended := (UInt64.xor_right_inj lsn).mp same
  exact (Function.LeftInverse.injective Int64.toInt64_toUInt64).comp
    (Function.LeftInverse.injective Int32.toInt32_toInt64) extended

/-! ## A field with another value -/

structure SameBut (place width : Nat) (first second : Bytes) : Prop where
  length_eq : second.length = first.length
  slice_eq : ∀ {offset len : Nat}, offset + len ≤ place ∨ place + width ≤ offset →
    second.slice offset len = first.slice offset len

section

variable {bytes bytes' value payload payload' : Bytes} {place width offset : Nat}
  {lsn lsn' : Lsn} {field : FrameField}

theorem SameBut.overwrite (inside : place + value.length ≤ bytes.length) :
    SameBut place value.length bytes (bytes.overwrite place value) :=
  ⟨Bytes.length_overwrite_inside inside, Bytes.slice_overwrite_apart inside⟩

theorem SameBut.word32_eq (same : SameBut place width bytes bytes')
    (apart : offset + 4 ≤ place ∨ place + width ≤ offset) :
    bytes'.word32 offset = bytes.word32 offset := by
  rw [Bytes.word32, same.slice_eq apart, Bytes.word32]

theorem SameBut.word64_eq (same : SameBut place width bytes bytes')
    (apart : offset + 8 ≤ place ∨ place + width ≤ offset) :
    bytes'.word64 offset = bytes.word64 offset := by
  rw [Bytes.word64, same.slice_eq apart, Bytes.word64]

theorem RecordAt.checksum_eq (stands : RecordAt bytes offset lsn payload) :
    bytes.word64 (offset + 16) = RecordHeader.checksumOf (bytes.word64 (offset + 8))
      (bytes.word32 (offset + 4)).toInt32 := by
  have announced := stands.announced
  rw [RecordHeader.decode_slice] at announced
  exact announced.checksum_eq

theorem RecordAt.magic_eq (stands : RecordAt bytes offset lsn payload) :
    bytes.word32 offset = RecordHeader.validMagic := by
  have announced := stands.announced
  rw [RecordHeader.decode_slice] at announced
  exact announced.magic_eq

theorem RecordAt.footerMagic_eq (stands : RecordAt bytes offset lsn payload) :
    bytes.word32 (offset + FrameField.footerMagic.start payload.length) =
      RecordFooter.validMagic := by
  have footer := stands.footer_eq
  rw [RecordFooter.magic_slice] at footer
  simpa only [FrameField.start, Nat.add_assoc] using footer

theorem RecordAt.field_eq (stands : RecordAt bytes offset lsn payload)
    (stands' : RecordAt bytes' offset lsn' payload')
    (same : SameBut (offset + field.start payload.length) field.width bytes bytes') :
    bytes'.slice (offset + field.start payload.length) field.width =
      bytes.slice (offset + field.start payload.length) field.width := by
  have inside : offset + field.start payload.length + field.width ≤ bytes.length := by
    have within := field.inside payload.length
    have enough := stands.inside
    omega
  have inside' := same.length_eq ▸ inside
  have checksum := stands.checksum_eq
  have checksum' := stands'.checksum_eq
  cases field with
  | magic =>
      have word := stands'.magic_eq.trans stands.magic_eq.symm
      exact (Bytes.word32_eq_iff inside' inside).mp word
  | length =>
      have same : SameBut (offset + 4) 4 bytes bytes' := same
      rw [same.word64_eq (.inr (by omega)), same.word64_eq (.inr (by omega)), checksum]
        at checksum'
      have word := (RecordHeader.checksumOf_length_inj.mp checksum').symm
      exact (Bytes.word32_eq_iff inside' inside).mp
        (Function.LeftInverse.injective UInt32.toUInt32_toInt32 word)
  | lsn =>
      have same : SameBut (offset + 8) 8 bytes bytes' := same
      rw [same.word64_eq (.inr (by omega)), same.word32_eq (.inl (by omega)), checksum]
        at checksum'
      have word := (RecordHeader.checksumOf_lsn_inj.mp checksum').symm
      exact (Bytes.word64_eq_iff inside' inside).mp word
  | checksum =>
      have same : SameBut (offset + 16) 8 bytes bytes' := same
      have before : offset + 8 + 8 ≤ offset + 16 := by omega
      rw [same.word64_eq (.inl before), same.word32_eq (.inl (by omega)), ← checksum]
        at checksum'
      exact (Bytes.word64_eq_iff inside' inside).mp checksum'
  | footerMagic =>
      -- The header is the same, so that the footer is looked for where it was.
      have before : offset + RecordHeader.size ≤
          offset + (RecordHeader.size + payload.length + 4) := by omega
      have size_eq := stands'.announced.size_eq
      rw [same.slice_eq (.inl before), stands.announced.size_eq] at size_eq
      have footer := stands'.footerMagic_eq
      rw [← Option.some.inj size_eq] at footer
      exact (Bytes.word32_eq_iff inside' inside).mp (footer.trans stands.footerMagic_eq.symm)

/-- No record stands where one stood whose frame has another value in one field. -/
theorem RecordAt.not_of_changed (stands : RecordAt bytes offset lsn payload)
    (same_width : value.length = field.width)
    (changed : value ≠ bytes.slice (offset + field.start payload.length) field.width)
    (number : SegmentNumber) (prior : Prior) :
    ∃ fault, recordAt number (bytes.overwrite (offset + field.start payload.length) value)
      offset prior = .error fault := by
  have within := field.inside payload.length
  have enough := stands.inside
  have inside : offset + field.start payload.length + value.length ≤ bytes.length := by omega
  cases read : recordAt number (bytes.overwrite (offset + field.start payload.length) value)
    offset prior with
  | error fault => exact ⟨fault, rfl⟩
  | ok found =>
      have stands' := (recordAt_eq_ok_iff.mp read).1
      have same := SameBut.overwrite inside
      have written := Bytes.slice_overwrite inside
      rw [same_width] at same written
      exact absurd (written.symm.trans (stands.field_eq stands' same)) changed

end

/-! ## Damaged logs -/

def overwriteAt (number : SegmentNumber) (offset : Nat) (value : Bytes) : LogM Unit := do
  if let some segment ← LogFiles.openWithoutFailure .memory number then
    discard (segment.writeWithoutFailure offset value)

section

variable {log : LogFiles} {number : SegmentNumber} {bytes value : Bytes} {place : Nat}
  {records front back : List Found} {found : Found} {size : Nat} {field : FrameField}

theorem overwriteAt_becomes (sound : log.Sound) (stored : log.segments number = some bytes)
    (inside : place ≤ bytes.length) (value : Bytes) :
    ∃ log', overwriteAt number place value log = (.ok (), log') ∧
      Becomes log log' (log.segments.put number (some (bytes.overwrite place value))) := by
  obtain ⟨file, present, rfl⟩ := LogFiles.segments_eq_some_iff.mp stored
  let contents := log.system.contents file
  let segment : OpenSegment := ⟨number, file, .buffer⟩
  have opened : LogFiles.openWithoutFailure .memory number log = (.ok (some segment), log) := by
    rw [LogFiles.openWithoutFailure, get_bind_apply, present]
    rfl
  have wrote : segment.handle.write (segment.contents log) place value =
      .ok (.buffer, contents.overwrite place value) :=
    congrArg (Except.map (Handle.buffer, ·)) (if_pos (contents.size_eq ▸ inside))
  have written : segment.writeWithoutFailure place value log =
      (.ok segment, log.setFile file (contents.overwrite place value)) := by
    rw [OpenSegment.writeWithoutFailure, get_bind_apply, wrote]
    rfl
  refine ⟨log.setFile file (contents.overwrite place value), ?_, sound.setFile _ _, rfl, ?_⟩
  · have run : overwriteAt number place value log =
        (segment.writeWithoutFailure place value >>= fun _ => pure ()) log := by
      rw [overwriteAt, bind_apply, opened]
      rfl
    rw [run, bind_apply, written]
    rfl
  · rw [LogFiles.segments_setFile sound present, Contents.bytes_overwrite]

theorem Chain.damage (chain : Chain log.segments 0 0 (.start none) (front ++ found :: back)
      ⟨none, number, size⟩)
    (stored : log.segments found.segment = some bytes) (same_width : value.length = field.width)
    (changed : value ≠
      bytes.slice (found.offset + field.start found.payload.length) field.width) :
    ∃ fault, Chain (log.segments.put found.segment
        (some (bytes.overwrite (found.offset + field.start found.payload.length) value)))
      0 0 (.start none) front ⟨some fault, found.segment, found.offset⟩ := by
  have past_header := (chain.place_le_of_mem (List.mem_append_right _ List.mem_cons_self)).2
  obtain ⟨held, held_stored, read, -⟩ := chain.finds
  obtain rfl := Option.some.inj (held_stored.symm.trans stored)
  have stands := (recordAt_eq_ok_iff.mp read).1
  have within := field.inside found.payload.length
  have enough := stands.inside
  have frame := frameSize_eq
  have inside : found.offset + field.start found.payload.length + value.length ≤
      held.length := by omega
  have length := Bytes.length_overwrite_inside inside
  obtain ⟨fault, broken⟩ := stands.not_of_changed same_width changed found.segment
    ((Prior.start none).following front)
  have before : SameUpTo found.offset held
      (held.overwrite (found.offset + field.start found.payload.length) value) :=
    ⟨by omega, by omega, (Bytes.take_overwrite (Nat.le_add_right _ _) (by omega)).symm⟩
  have agree : AgreeUpTo log.segments (log.segments.put found.segment
      (some (held.overwrite (found.offset + field.start found.payload.length) value)))
      found.segment found.offset :=
    ⟨fun other earlier => if_neg earlier.ne, held, _, stored, if_pos rfl, before⟩
  have tail := chain.resume_before agree
    (.damaged past_header (if_pos rfl) (by omega) broken)
  rw [List.append_nil] at tail
  exact ⟨fault, tail⟩

/-- Every segment but the first was begun behind a record, however many records came later. -/
def Packed (records : List Found) : Prop :=
  ∀ front found, front ++ [found] <+: records →
    found.segment ≤ (front.filter (·.segment < found.segment)).length

theorem Packed.stays : StaysBehind Packed := by
  intro log writer records bytes ready packed payload front found is_front
  rcases List.prefix_concat_iff.mp is_front with whole | earlier
  · obtain ⟨rfl, same⟩ := List.append_inj' whole rfl
    obtain rfl := List.head_eq_of_cons_eq same
    have next : (writer.nextFound bytes payload).segment = writer.segment.number ∨
        (writer.nextFound bytes payload).segment = writer.segment.number + 1 ∧
          SegmentHeader.size < bytes.length := by
      rcases recordPlace_cases writer bytes payload with here | ⟨onward, filled⟩
      · exact .inl (congrArg Prod.fst here)
      · exact .inr ⟨congrArg Prod.fst onward, filled⟩
    have crowded := ready.written.crowded_after _ next
    rwa [List.filter_append, List.filter_cons_of_neg (by simp), List.filter_nil,
      List.append_nil] at crowded
  · exact packed front found earlier

/--
A scan reads these payloads, and from then on every call finds one and the same fault at
the place of the anchor.  A writer that opens the log goes on with the number of the anchor.
-/
def StopsAt (log : LogFiles) (before : List (Bytes × LogAnchor)) (anchor : LogAnchor) :
    Prop :=
  ∃ fault, ∀ (buffers : List Record) (steps : List Scanner.Step) (scanned : LogFiles),
    (Scanner.startAt .memory (.startOf 0)).nextEach buffers log = (steps, scanned) →
    steps.length = buffers.length ∧
    (∀ (index : Nat) (step : Scanner.Step), steps[index]? = some step →
      match before[index]? with
      | some (payload, anchor) =>
          step.result = .ok true ∧ step.record.payload = payload ∧
            step.record.anchor = some anchor
      | none =>
          step.result = .error (.invalidLog fault) ∧ step.scanner.state = .invalid fault ∧
            step.scanner.lastGood =
              ⟨anchor.segment, anchor.offset, before.getLast?.bind (·.2.lsn)⟩) ∧
    ∀ settings : Settings, ∃ writer opened,
      Writer.openLog .memory settings scanned = (.ok writer, opened) ∧
        anchor.lsn = some writer.nextLsn

theorem Chain.stopsAt (sound : log.Sound) (quiet : log.Quiet) {fault : LogFault}
    (chain : Chain log.segments 0 0 (.start none) front
      ⟨some fault, found.segment, found.offset⟩)
    (numbered : NumberedFromOne (front ++ found :: back))
    (packed : Packed (front ++ found :: back))
    (fits : (front ++ found :: back).length < UInt64.size) :
    StopsAt log (front.map Found.stored) found.anchor := by
  have fits : front.length < UInt64.size := by
    rw [List.length_append] at fits
    omega
  refine ⟨fault, fun buffers steps scanned ran => ?_⟩
  obtain ⟨calls, steps', ran', length, conclude⟩ :=
    (WillRead.starting (.whole rfl chain)).nextEach_concludes quiet
      (.start .memory (.startOf 0)) buffers log.injection.callsMade
  obtain ⟨rfl, rfl⟩ := Prod.mk.inj (ran.symm.trans ran')
  refine ⟨length, fun index step held => ?_, fun settings => ?_⟩
  · have answer := conclude index step held
    rw [List.getElem?_map]
    cases here : front[index]? with
    | some other =>
        rw [here] at answer
        exact ⟨answer.1.result_eq, answer.1.payload_eq, answer.1.anchor_eq⟩
    | none =>
        rw [here] at answer
        refine ⟨answer.result_eq, answer.state_eq, answer.lastGood_eq.trans ?_⟩
        rw [List.getLast?_map, List.nil_append, Stop.anchor]
        cases front.getLast? <;> rfl
  · have crowded := packed front found ⟨back, by simp⟩
    obtain ⟨writer, opened, bytes, ran, ready⟩ := opens_behind (sound.atCall calls) quiet chain
      (numbered.of_prefix (List.prefix_append _ _)) crowded fits settings
    refine ⟨writer, opened, ran, ?_⟩
    rw [ready.nextLsn_eq]
    exact congrArg some (numbered front.length found (by simp))

end

/--
Sessions leave a log, and in the frame of one of its records one field gets another value.
Then a scan reads exactly the records before that one, and finds the fault there whenever
it is called again.  A writer opens the log and gives the number of that record anew.
-/
theorem damaged_sessions_stop {sessions : List Session}
    (few : ((sessions.flatMap (·.payloads)).filter Storable).length < UInt64.size) :
    ∃ answers writer log, runSessions sessions .empty = (.ok (answers, writer), log) ∧
      ∀ (index : Nat) (payload : Bytes) (anchor : LogAnchor),
        (accepted answers)[index]? = some (payload, anchor) →
        ∃ bytes, log.segments anchor.segment = some bytes ∧
          ∀ (field : FrameField) (value : Bytes), value.length = field.width →
            value ≠ bytes.slice (anchor.offset + field.start payload.length) field.width →
            ∃ damaged,
              overwriteAt anchor.segment (anchor.offset + field.start payload.length) value
                log = (.ok (), damaged) ∧
              StopsAt damaged ((accepted answers).take index) anchor := by
  obtain ⟨answers, writer, log, new, ran, answered, rests, packed, -⟩ :=
    rests_empty.runSessions_keeps Packed.stays (fun _ _ is_front => by simp at is_front)
      (by simpa using few)
  rw [List.nil_append] at rests packed
  refine ⟨answers, writer, log, ran, fun index payload anchor at_index => ?_⟩
  rw [answered.accepted_eq, List.getElem?_map] at at_index
  obtain ⟨found, at_found, same⟩ := Option.map_eq_some_iff.mp at_index
  obtain ⟨rfl, rfl⟩ := Prod.mk.inj same
  obtain ⟨number, size, written⟩ := rests.resolve_left fun ⟨_, _, _, none_left⟩ => by
    simp [none_left] at at_found
  have fits : new.length < UInt64.size := answered.length_eq ▸ few
  have split : new = new.take index ++ found :: new.drop (index + 1) := by
    obtain ⟨inside, rfl⟩ := List.getElem?_eq_some_iff.mp at_found
    simp
  have chain := written.chain
  have numbered := written.numbered
  rw [split] at chain numbered packed fits
  obtain ⟨bytes, stored, finish_le⟩ :=
    chain.stored_of_mem (List.mem_append_right _ List.mem_cons_self)
  refine ⟨bytes, stored, fun field value same_width changed => ?_⟩
  obtain ⟨fault, damage⟩ := chain.damage stored same_width changed
  have within := field.inside found.payload.length
  obtain ⟨damaged, overwritten, becomes⟩ := overwriteAt_becomes written.sound stored
    (show found.offset + field.start found.payload.length ≤ bytes.length by
      unfold Found.finish at finish_le
      omega) value
  rw [← becomes.segments_eq] at damage
  have quiet : damaged.Quiet := becomes.plan_eq.trans written.quiet
  refine ⟨damaged, overwritten, ?_⟩
  rw [answered.accepted_eq, ← List.map_take]
  exact damage.stopsAt becomes.sound quiet numbered packed fits

/-- The second record says that it is longer than it is. -/
theorem damaged_sessions_stop_sampleSessions :
    ∃ answers writer log damaged,
      runSessions sampleSessions .empty = (.ok (answers, writer), log) ∧
      overwriteAt 1 16 [0, 0, 0, 40] log = (.ok (), damaged) ∧
      StopsAt damaged [([1, 2, 3], ⟨0, 12, some 1⟩)] ⟨1, 12, some 2⟩ := by
  obtain ⟨answers, writer, log, ran, damages⟩ :=
    @damaged_sessions_stop sampleSessions (by decide)
  have log_eq : (runSessions sampleSessions .empty).2 = log := by rw [ran]
  have accepted_eq : accepted answers = [([1, 2, 3], ⟨0, 12, some 1⟩),
      ([4], ⟨1, 12, some 2⟩), ([5], ⟨1, 45, some 3⟩)] := by
    have said : (runSessions sampleSessions .empty).1.toOption.map (accepted ·.1) =
        some [([1, 2, 3], ⟨0, 12, some 1⟩), ([4], ⟨1, 12, some 2⟩),
          ([5], ⟨1, 45, some 3⟩)] := by
      decide +kernel
    rw [ran] at said
    exact Option.some.inj said
  rw [accepted_eq] at damages
  obtain ⟨bytes, stored, changes⟩ := damages 1 _ _ rfl
  have length_field : bytes.slice 16 4 = [0, 0, 0, 33] := by
    have held : ((runSessions sampleSessions .empty).2.segments 1).map (·.slice 16 4) =
        some [0, 0, 0, 33] := by
      decide +kernel
    rw [log_eq, stored] at held
    exact Option.some.inj held
  have changed : ([0, 0, 0, 40] : Bytes) ≠ bytes.slice 16 4 := by
    rw [length_field]
    decide
  obtain ⟨damaged, overwritten, stops⟩ := changes .length [0, 0, 0, 40] rfl changed
  exact ⟨answers, writer, log, damaged, ran, overwritten, stops⟩

end DirectoryStore.Log
