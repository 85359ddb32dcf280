import DirectoryStore.Proofs.Log.Continuing
import DirectoryStore.Proofs.Log.FailedOpening

/-!
# Going on after what was read

A scanner can be asked at any time where the last good record ends and which sequence
number comes next.  Whatever the segments hold, this is a place at which the log can be
cut: a writer that goes on there keeps the records that the scanner has returned and
nothing else, and puts its own behind them.
-/

namespace DirectoryStore.Log

/-! ## Places to cut at -/

/-- A log that is cut at this place and ends there has these records. -/
structure CutsTo (segments : Segments) (first : SegmentNumber) (records : List Found)
    (number : SegmentNumber) (offset : Nat) : Prop where
  can_cut : CanCut segments number offset
  ended : ∀ {segments' : Segments}, CutLike segments segments' number offset →
    segments' (number + 1) = none →
    Chain segments' first 0 (.start none) records ⟨none, number, cutEnd offset⟩

section

variable {segments : Segments} {first : SegmentNumber} {records front back : List Found}
  {found : Found} {stop : Stop}

theorem CutsTo.start (fits : first < UInt64.size) : CutsTo segments first [] first 0 := by
  refine ⟨.inl (by decide), fun cut missing => ?_⟩
  have stored := cut.at_cut
  rw [cutBytes, if_pos (by decide)] at stored
  exact .of_headerBytes stored fits missing

theorem CutsTo.of_chain (chain : Chain segments first 0 (.start none) records stop)
    (fits : stop.segment < UInt64.size) :
    CutsTo segments first records stop.segment stop.offset := by
  obtain ⟨bytes, stored⟩ := chain.stored
  exact ⟨.inr (chain.stop_inside stored (Nat.zero_le _)),
    fun cut missing => cut.ended chain fits missing⟩

theorem CutsTo.behind
    (chain : Chain segments first 0 (.start none) (front ++ found :: back) stop) :
    CutsTo segments first (front ++ [found]) found.segment found.finish := by
  have member : found ∈ front ++ found :: back := by simp
  obtain ⟨bytes, stored, inside⟩ := chain.stored_of_mem member
  have past_header : SegmentHeader.size ≤ found.finish := by
    have := (chain.place_le_of_mem member).2
    unfold Found.finish
    omega
  refine ⟨.inr ⟨bytes, stored, inside⟩, fun cut missing => ?_⟩
  obtain ⟨kept, agree⟩ := cut.agree stored past_header inside
  have whole : cutEnd found.finish = found.finish := Nat.max_eq_right past_header
  have length : (bytes.take found.finish).length = found.finish :=
    List.length_take_of_le inside
  rw [whole]
  exact chain.resume_behind agree (.ended past_header kept length missing)

end

/-! ## Scanners between two calls -/

def Scanner.after (scanner : Scanner) (steps : List Scanner.Step) : Scanner :=
  (steps.getLast?.map (·.scanner)).getD scanner

def validated (steps : List Scanner.Step) : List (Bytes × LogAnchor) :=
  steps.filterMap fun step =>
    match step.result, step.record.anchor with
    | .ok true, some anchor => some (step.record.payload, anchor)
    | _, _ => none

theorem Scanner.after_cons (scanner : Scanner) (step : Scanner.Step)
    (rest : List Scanner.Step) : scanner.after (step :: rest) = step.scanner.after rest := by
  unfold after
  rw [List.getLast?_cons]
  cases rest.getLast? <;> rfl

theorem Scanner.after_map {buffers : List Record} (scanner : Scanner)
    (answer : Except Error Bool) :
    scanner.after (buffers.map fun record => ⟨answer, scanner, record⟩) = scanner := by
  unfold after
  rw [List.getLast?_map]
  cases buffers.getLast? <;> rfl

theorem validated_cons_of_reads {step : Scanner.Step} {found : Found}
    (reads : step.Reads found) (rest : List Scanner.Step) :
    validated (step :: rest) = found.stored :: validated rest := by
  refine List.filterMap_cons_some ?_
  rw [reads.result_eq, reads.anchor_eq, reads.payload_eq]
  rfl

theorem validated_cons_of_not_read {step : Scanner.Step} (no_record : step.result ≠ .ok true)
    (rest : List Scanner.Step) : validated (step :: rest) = validated rest := by
  refine List.filterMap_cons_none ?_
  rcases result_eq : step.result with error | _ | _
  · rfl
  · rfl
  · exact absurd result_eq no_record

theorem validated_eq_nil {steps : List Scanner.Step}
    (none_read : ∀ step ∈ steps, step.result ≠ .ok true) : validated steps = [] := by
  induction steps with
  | nil => rfl
  | cons step rest ih =>
      obtain ⟨here, later⟩ := List.forall_mem_cons.mp none_read
      rw [validated_cons_of_not_read here, ih later]

/-- The scanner has read these records from the start of a segment. -/
structure HasRead (segments : Segments) (first : SegmentNumber) (scanner : Scanner)
    (records : List Found) : Prop where
  cuts : CutsTo segments first records scanner.lastGood.segment scanner.lastGood.offset
  nextLsn_eq : scanner.nextLsn = nextLsnAfter (.startOf first) records

theorem HasRead.start {segments : Segments} {first : SegmentNumber}
    (fits : first < UInt64.size) :
    HasRead segments first (Scanner.startAt .memory (.startOf first)) [] :=
  ⟨.start fits, rfl⟩

section

variable {log : LogFiles} {first : SegmentNumber} {records seen rest : List Found}
  {stop : Stop} {scanner : Scanner}

theorem Reading.cutsTo (reading : Reading log.segments (.startOf first) records stop)
    (fits : log.NumbersFit) (first_fits : first < UInt64.size) :
    CutsTo log.segments first records stop.segment stop.offset := by
  cases reading with
  | missing => exact .start first_fits
  | whole _ chain =>
      obtain ⟨bytes, stored⟩ := chain.stop_stored
      exact .of_chain chain (fits _ bytes stored)
  | unheaded inside | insideHeader inside => exact absurd rfl inside
  | part _ _ past_header => simp [LogAnchor.startOf, SegmentHeader.size] at past_header

theorem Reading.cutsTo_behind {found : Found}
    (reading : Reading log.segments (.startOf first) (seen ++ found :: rest) stop) :
    CutsTo log.segments first (seen ++ [found]) found.segment found.finish := by
  generalize same : seen ++ found :: rest = records at reading
  cases reading with
  | missing | unheaded | insideHeader => simp at same
  | whole _ chain => exact .behind (same ▸ chain)
  | part _ _ past_header => simp [LogAnchor.startOf, SegmentHeader.size] at past_header

theorem FindsRecord.hasRead {step : Scanner.Step} {found : Found}
    (finds : FindsRecord log step found rest stop)
    (reading : Reading log.segments (.startOf first) (seen ++ found :: rest) stop) :
    HasRead log.segments first step.scanner (seen ++ [found]) := by
  refine ⟨?_, ?_⟩
  · rw [finds.lastGood_eq]
    exact reading.cutsTo_behind
  · rw [finds.nextLsn_eq, nextLsnAfter, List.getLast?_concat]

theorem FindsStop.hasRead {step : Scanner.Step} (finds : FindsStop scanner step stop)
    (reading : Reading log.segments (.startOf first) seen stop)
    (fits : log.NumbersFit) (first_fits : first < UInt64.size)
    (has : HasRead log.segments first scanner seen) :
    HasRead log.segments first step.scanner seen := by
  refine ⟨?_, finds.nextLsn_eq.trans has.nextLsn_eq⟩
  rw [finds.lastGood_eq]
  exact reading.cutsTo fits first_fits

/-- After any number of calls a scanner knows where the records end that it returned. -/
theorem WillRead.nextEach_hasRead (quiet : log.Quiet) (fits : log.NumbersFit)
    (first_fits : first < UInt64.size)
    (reading : Reading log.segments (.startOf first) (seen ++ rest) stop)
    (will : WillRead log scanner rest stop) (has : HasRead log.segments first scanner seen)
    (buffers : List Record) (calls : Nat) :
    ∃ calls' steps more,
      scanner.nextEach buffers (log.atCall calls) = (steps, log.atCall calls') ∧
        validated steps = more.map Found.stored ∧
        HasRead log.segments first (scanner.after steps) (seen ++ more) := by
  induction buffers generalizing scanner seen rest calls with
  | nil => exact ⟨calls, [], [], rfl, rfl, (List.append_nil seen).symm ▸ has⟩
  | cons record buffers ih =>
      cases rest with
      | nil =>
          -- From here on every call answers the same and leaves the scanner as it is.
          rw [List.append_nil] at reading
          obtain ⟨calls', step, finds, ran⟩ := will.nextEach_stop quiet record buffers calls
          refine ⟨calls', _, [], ran, validated_eq_nil ?_, ?_⟩
          · simp [finds.result_eq, stop.answer_ne]
          · rw [Scanner.after_cons, Scanner.after_map, List.append_nil]
            exact finds.hasRead reading fits first_fits has
      | cons found rest =>
          obtain ⟨calls', step, finds, ran⟩ := will.nextEach_record quiet record buffers calls
          have has' := finds.hasRead reading
          rw [List.append_cons] at reading
          obtain ⟨last, steps, more, ran', validated_eq, has''⟩ :=
            ih reading finds.will has' calls'
          rw [ran'] at ran
          refine ⟨last, step :: steps, found :: more, ran, ?_, ?_⟩
          · rw [validated_cons_of_reads finds.toReads, validated_eq, List.map_cons]
          · rw [Scanner.after_cons, List.append_cons]
            exact has''

end

/-! ## A writer that goes on there -/

theorem CutLike.of_cutAfter (segments : Segments) (place : LogAnchor) :
    CutLike segments (segments.cutAfter place) place.segment place.offset :=
  ⟨fun _ earlier => (if_neg (Nat.lt_asymm earlier)).trans
    (cutAt_of_ne (Nat.ne_of_lt earlier) _), (if_neg (Nat.lt_irrefl _)).trans (if_pos rfl)⟩

theorem Segments.cutAfter_behind (segments : Segments) {place : LogAnchor}
    {other : SegmentNumber} (behind : place.segment < other) :
    segments.cutAfter place other = none :=
  if_pos behind

theorem admits_nextLsnAfter (first : SegmentNumber) (records : List Found) :
    ((Prior.start none).following records).Admits
      ((nextLsnAfter (.startOf first) records).getD Lsn.first) := by
  unfold Prior.following nextLsnAfter
  cases records.getLast? with
  | none => trivial
  | some found => exact Nat.le_succ found.lsn

theorem Resumed.continues {log log' : LogFiles} {settings : Settings} {place : LogAnchor}
    {first : SegmentNumber} {records : List Found} {writer : Writer} (quiet : log.Quiet)
    (cuts : CutsTo log.segments first records place.segment place.offset)
    (resumed : Resumed log settings place (nextLsnAfter (.startOf first) records)
      writer log') :
    Continues log' writer first records
      (cutBytes log.segments place.segment place.offset) := by
  obtain ⟨writer_eq, number_eq, opened, becomes, -⟩ := resumed
  have cut := CutLike.of_cutAfter log.segments place
  have chain := cuts.ended cut (log.segments.cutAfter_behind (Nat.lt_succ_self _))
  have length : (cutBytes log.segments place.segment place.offset).length =
      cutEnd place.offset := by
    obtain ⟨-, ⟨bytes, stored, length⟩, -⟩ := chain.eof_place rfl
    obtain rfl := Option.some.inj (cut.at_cut.symm.trans stored)
    exact length
  have still_quiet : log'.Quiet := becomes.plan_eq.trans quiet
  refine ⟨⟨becomes.sound, still_quiet, ?_, opened⟩, ⟨becomes.sound, still_quiet, ?_, ?_⟩, ?_⟩
  · rw [writer_eq]
    rfl
  · rw [number_eq, length, becomes.segments_eq]
    exact chain
  · rw [number_eq, becomes.segments_eq]
    exact fun _ => log.segments.cutAfter_behind
  · rw [writer_eq]
    exact admits_nextLsnAfter first records

theorem LogFiles.Quiet.openLog_cases {log : LogFiles} (quiet : log.Quiet) (sound : log.Sound)
    (settings : Settings) {records : List Found} {stop : Stop}
    (chain : Chain log.segments log.lowest 0 (.start none) records stop) :
    (∃ writer log', Writer.openLog .memory settings log = (.ok writer, log') ∧
      Resumed log settings (stop.anchor records)
        (nextLsnAfter (.startOf log.lowest) records) writer log') ∨
    NumberUnknown log (stop.anchor records) (nextLsnAfter (.startOf log.lowest) records) ∧
      ∃ log', Writer.openLog .memory settings log =
          (.error (.refused (.resumeWithoutLsn (stop.anchor records))), log') ∧
        Becomes log log' log.segments := by
  obtain ⟨bytes, stored⟩ := chain.stored
  obtain ⟨others, row⟩ := LogFiles.row_of_stored stored
  have leads := openLog_leads sound quiet.noShortRead settings row chain
  rcases ran : Writer.openLog .memory settings log with ⟨error | writer, log'⟩
  · rcases (leads.of_error ran).refused_or_injected with ⟨unknown, rfl, same⟩ | injected
    · exact .inr ⟨unknown, log', rfl, same⟩
    · exact absurd injected quiet.no_error
  · exact .inl ⟨writer, log', rfl, leads.of_ok ran⟩

theorem Continues.keeps {log : LogFiles} {writer : Writer} {first : SegmentNumber}
    {records : List Found} {bytes : Bytes}
    (continues : Continues log writer first records bytes) {payloads : List Bytes}
    {answers : List Answer} {log' : LogFiles} {writer' : Writer}
    (ran : Writer.appendEach payloads (log, writer) = (answers, log', writer'))
    (fits : writer'.nextLsn ≤ UInt64.size)
    (number_fits : writer'.segment.number < UInt64.size) :
    (accepted answers).map (·.1) = payloads.filter Storable ∧
      ReadsTo log' first (records.map Found.stored ++ accepted answers) True := by
  obtain ⟨new, bytes', answered, continues'⟩ := continues.appendEach ran fits number_fits
  have reads := continues'.ended.readsTo
  rw [List.map_append, ← answered.accepted_eq] at reads
  exact ⟨answered.stores, reads⟩

end DirectoryStore.Log
