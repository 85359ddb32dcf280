import DirectoryStore.Proofs.Log.Accepting

/-!
# Scans that start at a record

The position of a record that a scan returned is a place to start another scan at.  The
scan from there knows of no record before, opens the segment anew and skips to the
record, and from then on the two scans go on alike, wherever they stop.  The sequence
number of the position is checked before anything is read into a record.
-/

namespace DirectoryStore.Log

/-! ## Records on the way of a chain -/

/-- The record stands in a segment with a header, and a scan goes on behind it. -/
structure Passes (segments : Segments) (found : Found) (back : List Found) (stop : Stop) :
    Prop where
  past_header : SegmentHeader.size ≤ found.offset
  record : ∃ bytes, segments found.segment = some bytes ∧
    checkHeader found.segment bytes = .ok () ∧
    RecordAt bytes found.offset found.lsn found.payload
  tail : Chain segments found.segment found.finish (.after found.lsn) back stop

section

variable {segments : Segments} {number : SegmentNumber} {offset : Nat} {prior : Prior}
  {start : LogAnchor} {front back : List Found} {found : Found} {stop : Stop}

theorem Chain.headed_of_mem {records : List Found}
    (chain : Chain segments number offset prior records stop)
    (headed : offset ≠ 0 → ∀ bytes, segments number = some bytes →
      checkHeader number bytes = .ok ()) (member : found ∈ records) :
    ∀ bytes, segments found.segment = some bytes → checkHeader found.segment bytes = .ok () := by
  induction chain with
  | header stored passed _ ih =>
      refine ih (fun _ bytes stored' => ?_) member
      rwa [← Option.some.inj (stored.symm.trans stored')]
  | record past_header _ _ _ ih =>
      have some_header : 0 < SegmentHeader.size := by decide
      have inside := Nat.ne_of_gt (Nat.lt_of_lt_of_le some_header past_header)
      rcases List.mem_cons.mp member with rfl | later
      · exact headed inside
      · exact ih (fun _ => headed inside) later
  | onward _ _ _ _ ih => exact ih (fun inside => absurd rfl inside) member
  | unheaded | damaged | pastEnd | ended => cases member

theorem Chain.passes (chain : Chain segments number offset prior (front ++ found :: back) stop)
    (headed : offset ≠ 0 → ∀ bytes, segments number = some bytes →
      checkHeader number bytes = .ok ()) : Passes segments found back stop := by
  have member : found ∈ front ++ found :: back := List.mem_append_right _ List.mem_cons_self
  obtain ⟨bytes, stored, read, tail⟩ := chain.finds
  exact ⟨(chain.place_le_of_mem member).2, ⟨bytes, stored,
    chain.headed_of_mem headed member bytes stored, (recordAt_eq_ok_iff.mp read).1⟩, tail⟩

theorem Reading.passes (reading : Reading segments start (front ++ found :: back) stop) :
    Passes segments found back stop := by
  generalize same : front ++ found :: back = records at reading
  cases reading with
  | whole _ chain =>
      subst same
      exact chain.passes fun inside => absurd rfl inside
  | part stored passed _ chain =>
      subst same
      refine chain.passes fun _ bytes stored' => ?_
      rwa [← Option.some.inj (stored.symm.trans stored')]
  | missing | unheaded | insideHeader => simp at same

theorem Passes.reading (passes : Passes segments found back stop) :
    Reading segments found.anchor (found :: back) stop := by
  obtain ⟨past_header, ⟨bytes, stored, passed, stands⟩, tail⟩ := passes
  have read : recordAt found.segment bytes found.offset (.start (some found.lsn)) =
      .ok (found.lsn, found.payload) :=
    recordAt_eq_ok_iff.mpr ⟨stands, rfl⟩
  exact .part stored passed past_header (.record past_header stored read tail)

theorem Provides.later {log : LogFiles} {home : Home} {first : SegmentNumber} {bytes : Bytes}
    (provides : Provides log home first segments) (stored : segments number = some bytes) :
    Provides log home number segments where
  opens := provides.opens
  misses missing asked := by
    cases asked with
    | start => cases missing.symm.trans stored
    | behind stored' => exact provides.misses missing (.behind stored')
  few := provides.few

end

/-! ## Another sequence number -/

section

variable {log : LogFiles} {home : Home} {segments : Segments} {first : SegmentNumber}
  {found : Found} {back : List Found} {stop : Stop}

def Found.anchorWith (found : Found) (other : Lsn) : LogAnchor :=
  { found.anchor with lsn := some other }

/-- A scan that expects another number at the record leaves its own record as it was. -/
theorem Passes.readRecord_unexpected (passes : Passes segments found back stop)
    (provides : Provides log home first segments) {other : Lsn} (different : other ≠ found.lsn)
    (record : Record) :
    let scanner := Scanner.startAt home (found.anchorWith other)
    Does log Scan.readRecord (scanner, record) (.error (.unexpectedFirst found.lsn other))
      (scanner.movedTo found.segment found.offset, record) := by
  intro scanner
  obtain ⟨past_header, ⟨bytes, stored, passed, stands⟩, -⟩ := passes
  have frame : frameSize = RecordHeader.size + 8 := rfl
  have inside := stands.inside
  have before_end : found.offset < bytes.length := by omega
  let moved := scanner.movedTo found.segment found.offset
  obtain ⟨segment, -, shows, starts⟩ :=
    @Does.openStart_inside log (scanner, record) bytes first home segments
      (found.anchorWith other) provides rfl rfl stored passed past_header
  have known : moved.lastGood.lsn = (Prior.start (some other)).lsn? := rfl
  have header : headerAt segment.number bytes found.offset (.start (some other)) =
      .ok (found.lsn, found.payload.length) :=
    headerAt_eq_ok_iff.mpr ⟨by omega, stands.announced, rfl⟩
  have reads := @Does.readHeader_does log (moved, record) _ _ shows.sees found.offset _ known
  rw [header] at reads
  have requires := @Does.requireStartLsn_does log (moved, record) (some other) rfl found.lsn
  rw [Prior.checkStart, require, if_neg different] at requires
  rw [Scan.readRecord_eq]
  refine Does.get_bind fun _ => Does.bind starts (Does.bind
    (Does.seek_inside shows.sees before_end (Nat.succ_pos _)) ?_)
  exact Does.bind reads (Does.stop requires)

theorem Passes.unexpected (passes : Passes segments found back stop) (quiet : log.Quiet)
    (provides : Provides log home first segments) {other : Lsn} (different : other ≠ found.lsn)
    (calls : Nat) :
    ∃ scanner : Scanner, scanner.lastGood = { found.anchor with lsn := none } ∧
      scanner.nextLsn = some other ∧ ∀ buffers : List Record,
        ((Scanner.startAt home (found.anchorWith other)).nextEach buffers
          (log.atCall calls)).1 = buffers.map fun record =>
            ⟨.error (.invalidLog (.unexpectedFirst found.lsn other)), scanner, record⟩ := by
  let scanner := Scanner.startAt home (found.anchorWith other)
  let fault := LogFault.unexpectedFirst found.lsn other
  let ended : Scanner :=
    { scanner.movedTo found.segment found.offset with position := none, state := .invalid fault }
  refine ⟨ended, rfl, rfl, fun buffers => ?_⟩
  cases buffers with
  | nil => rfl
  | cons record rest =>
      have does := passes.readRecord_unexpected provides different record
      obtain ⟨calls', step, ran, ⟨settled, record_eq⟩ | interrupted⟩ :=
        does.settled (.inl rfl) calls
      case inr => exact absurd interrupted (quiet.not_interrupted step)
      obtain ⟨result_eq, scanner_eq⟩ := Prod.mk.inj settled
      have stopped : step.scanner.state = (⟨some fault, 0, 0⟩ : Stop).state := by
        rw [scanner_eq]
        rfl
      rw [nextEach_cons_apply, ran]
      simp only [nextEach_of_stopped stopped]
      obtain ⟨result, scanner', record'⟩ := step
      obtain rfl : result = _ := result_eq
      obtain rfl : scanner' = ended := scanner_eq
      obtain rfl : record' = record := record_eq
      rfl

end

/-! ## The same scan again -/

/-- Both calls answer alike and find the same record, and both scanners say the same. -/
structure Scanner.Step.Repeats (again first : Scanner.Step) : Prop where
  result_eq : again.result = first.result
  record_eq : first.result = .ok true →
    again.record.payload = first.record.payload ∧ again.record.anchor = first.record.anchor
  state_eq : again.scanner.state = first.scanner.state
  lastGood_eq : again.scanner.lastGood = first.scanner.lastGood
  nextLsn_eq : again.scanner.nextLsn = first.scanner.nextLsn

section

variable {start start' : LogAnchor} {records front back : List Found} {found : Found}
  {stop : Stop} {first again : Scanner.Step} {steps steps' : List Scanner.Step} {index : Nat}

theorem Scanner.Step.Returns.repeats (returned : first.Returns found)
    (reading : first.scanner.state = .reading) (returned' : again.Returns found)
    (reading' : again.scanner.state = .reading) : again.Repeats first where
  result_eq := returned'.result_eq.trans returned.result_eq.symm
  record_eq _ := ⟨returned'.payload_eq.trans returned.payload_eq.symm,
    returned'.anchor_eq.trans returned.anchor_eq.symm⟩
  state_eq := reading'.trans reading.symm
  lastGood_eq := returned'.lastGood_eq.trans returned.lastGood_eq.symm
  nextLsn_eq := returned'.nextLsn_eq.trans returned.nextLsn_eq.symm

theorem Scanner.Step.Concludes.repeats
    (concluded : first.Concludes start (front ++ found :: back) stop)
    (concluded' : again.Concludes start' (found :: back) stop) : again.Repeats first where
  result_eq := concluded'.result_eq.trans concluded.result_eq.symm
  record_eq returned := absurd (concluded.result_eq.symm.trans returned) stop.answer_ne
  state_eq := concluded'.state_eq.trans concluded.state_eq.symm
  lastGood_eq := by
    rw [concluded'.lastGood_eq, concluded.lastGood_eq]
    simp [Stop.anchor, List.getLast?_cons]
  nextLsn_eq := by
    rw [concluded'.nextLsn_eq, concluded.nextLsn_eq]
    simp [nextLsnAfter, List.getLast?_cons]

/-- A scan from a record on repeats what the other scan does from there on. -/
theorem StepsConclude.repeats
    (conclude : StepsConclude start [] (front ++ found :: back) stop steps)
    (conclude' : StepsConclude start' [] (found :: back) stop steps')
    (at_first : steps[front.length + index]? = some first)
    (at_again : steps'[index]? = some again) : again.Repeats first := by
  have told := conclude _ _ at_first
  have told' := conclude' _ _ at_again
  rw [List.getElem?_append_right (Nat.le_add_right _ _), Nat.add_sub_cancel_left] at told
  cases here : (found :: back)[index]? with
  | some found =>
      rw [here] at told told'
      exact told.1.repeats told.2 told'.1 told'.2
  | none =>
      rw [here] at told told'
      exact Scanner.Step.Concludes.repeats told told'

theorem StepsConclude.returned_iff
    (conclude : StepsConclude start [] records stop steps) (at_index : steps[index]? = some first) :
    first.result = .ok true ↔ ∃ found, records[index]? = some found ∧ first.Reads found := by
  have told := conclude _ _ at_index
  cases here : records[index]? with
  | some found =>
      rw [here] at told
      exact iff_of_true told.1.result_eq ⟨found, rfl, told.1.toReads⟩
  | none =>
      rw [here] at told
      exact iff_of_false (told.result_eq ▸ stop.answer_ne) nofun

end

/--
A scan has returned a record.  Then a scan from the position of that record repeats, call
by call and for as long as it is called, what the first scan does from that record on:
it returns the same records, stops in the same way, and says the same of the last good
position and of the next number.  From the same position with any other sequence number
every call fails, and no call reads anything.
-/
theorem scan_repeats_from_anchor {log : LogFiles} {home : Home} {start : LogAnchor}
    (quiet : log.Quiet) (answers : log.Answers home start.segment) {buffers : List Record}
    {steps : List Scanner.Step} {scanned : LogFiles}
    (ran : (Scanner.startAt home start).nextEach buffers log = (steps, scanned))
    {index : Nat} {step : Scanner.Step} (at_index : steps[index]? = some step)
    (returned : step.result = .ok true) :
    ∃ anchor lsn, step.record.anchor = some anchor ∧ anchor.lsn = some lsn ∧
      (∀ buffers' : List Record,
        let steps' := ((Scanner.startAt home anchor).nextEach buffers' scanned).1
        steps'.length = buffers'.length ∧
        ∀ (later : Nat) (first again : Scanner.Step), steps[index + later]? = some first →
          steps'[later]? = some again → again.Repeats first) ∧
      ∀ other ≠ lsn, ∃ scanner : Scanner, scanner.lastGood = { anchor with lsn := none } ∧
        scanner.nextLsn = some other ∧ ∀ buffers' : List Record,
          ((Scanner.startAt home { anchor with lsn := some other }).nextEach buffers'
            scanned).1 = buffers'.map fun record =>
              ⟨.error (.invalidLog (.unexpectedFirst lsn other)), scanner, record⟩ := by
  have provides := answers.provides
  obtain ⟨numbers, -, covers⟩ := provides.few
  obtain ⟨bound, finite⟩ := covers.endsBefore
  obtain ⟨records, stop, reading⟩ := Reading.exists_of_endsBefore finite start
  obtain ⟨calls, steps', ran', -, conclude⟩ :=
    (WillRead.opening provides reading).nextEach_concludes quiet (.start home start) buffers
      log.injection.callsMade
  obtain ⟨rfl, rfl⟩ := Prod.mk.inj (ran.symm.trans ran')
  obtain ⟨found, at_found, reads⟩ := (conclude.returned_iff at_index).mp returned
  obtain ⟨front, back, rfl, rfl⟩ : ∃ front back, records = front ++ found :: back ∧
      front.length = index := by
    obtain ⟨inside, at_found⟩ := List.getElem?_eq_some_iff.mp at_found
    exact ⟨records.take index, records.drop (index + 1), by simp [← at_found],
      List.length_take_of_le inside.le⟩
  have passes := reading.passes
  obtain ⟨bytes, stored, -⟩ := passes.record
  have provides' := provides.later stored
  refine ⟨found.anchor, found.lsn, reads.anchor_eq, rfl, fun buffers' => ?_,
    fun other different => passes.unexpected quiet provides' different calls⟩
  obtain ⟨calls', again, ran', length, conclude'⟩ :=
    (WillRead.opening provides' passes.reading).nextEach_concludes quiet
      (.start home found.anchor) buffers' calls
  rw [ran']
  exact ⟨length, fun later _ _ at_first at_again => conclude.repeats conclude' at_first at_again⟩

theorem scan_repeats_from_anchor_sampleFolder :
    ∃ steps scanned step, (Scanner.startAt (.folder [] 2) (.startOf 0)).nextEach
        [.empty, .empty, .empty] sampleFolder = (steps, scanned) ∧
      steps[1]? = some step ∧ step.result = .ok true ∧
      ∃ anchor lsn, step.record.anchor = some anchor ∧ anchor.lsn = some lsn ∧
        (∀ buffers' : List Record,
          let steps' := ((Scanner.startAt (.folder [] 2) anchor).nextEach buffers' scanned).1
          steps'.length = buffers'.length ∧
          ∀ (later : Nat) (first again : Scanner.Step), steps[1 + later]? = some first →
            steps'[later]? = some again → again.Repeats first) ∧
        ∀ other ≠ lsn, ∃ scanner : Scanner, scanner.lastGood = { anchor with lsn := none } ∧
          scanner.nextLsn = some other ∧ ∀ buffers' : List Record,
            ((Scanner.startAt (.folder [] 2) { anchor with lsn := some other }).nextEach
              buffers' scanned).1 = buffers'.map fun record =>
                ⟨.error (.invalidLog (.unexpectedFirst lsn other)), scanner, record⟩ := by
  have returned : ((Scanner.startAt (.folder [] 2) (.startOf 0)).nextEach
      [.empty, .empty, .empty] sampleFolder).1[1]?.map (·.result) = some (.ok true) := by
    decide +kernel
  rcases ran : (Scanner.startAt (.folder [] 2) (.startOf 0)).nextEach
    [.empty, .empty, .empty] sampleFolder with ⟨steps, scanned⟩
  rw [ran] at returned
  obtain ⟨step, at_index, result_eq⟩ := Option.map_eq_some_iff.mp returned
  have quiet : sampleFolder.Quiet := rfl
  exact ⟨steps, scanned, step, rfl, at_index, result_eq,
    scan_repeats_from_anchor quiet sampleFolder_answers ran at_index result_eq⟩

end DirectoryStore.Log
