import DirectoryStore.Proofs.Log.Sessions

/-!
# Checkpoints

A writer can be asked at any time where its next record goes.  That position marks
the log: it stays between the records that were there and those that come later,
whatever segments these go to and whoever writes them.  So a scan from the mark reads
the later records alone, and a log is recovered from the mark as well as from its
start.  A mark carries the number of the next record, which tells recovery how to go
on when no record came later.
-/

namespace DirectoryStore.Log

/-! ## Headers on the way of a chain -/

section

variable {segments : Segments} {number : SegmentNumber} {offset size : Nat} {prior : Prior}
  {records : List Found} {stop : Stop}

theorem Chain.passes_headers (chain : Chain segments number offset prior records stop)
    (eof : stop.fault = none) {other : SegmentNumber}
    (entered : number < other ∨ number = other ∧ offset = 0) (le : other ≤ stop.segment) :
    ∃ bytes, segments other = some bytes ∧ checkHeader other bytes = .ok () := by
  induction chain with
  | header stored passed tail ih =>
      rcases entered with later | ⟨rfl, -⟩
      · exact ih eof (.inl later) le
      · exact ⟨_, stored, passed⟩
  | unheaded | damaged | pastEnd => cases eof
  | record past_header _ _ _ ih =>
      refine ih eof (.inl ?_) le
      rcases entered with later | ⟨-, rfl⟩
      · exact later
      · simp [SegmentHeader.size] at past_header
  | onward past_header _ _ _ ih =>
      refine ih eof ?_ le
      rcases entered with later | ⟨-, rfl⟩
      · exact (Nat.eq_or_lt_of_le (Nat.succ_le_of_lt later)).symm.imp id fun same => ⟨same, rfl⟩
      · simp [SegmentHeader.size] at past_header
  | ended past_header =>
      rcases entered with later | ⟨-, rfl⟩
      · exact absurd later (Nat.not_lt.mpr le)
      · simp [SegmentHeader.size] at past_header

end

/-! ## Marked logs -/

/-- The place of the anchor stands between the records before and those since. -/
structure Marks (segments : Segments) (anchor : LogAnchor) (before since : List Found)
    (number : SegmentNumber) (size : Nat) : Prop where
  chain : Chain segments anchor.segment anchor.offset (.start anchor.lsn) since
    ⟨none, number, size⟩
  past_header : SegmentHeader.size ≤ anchor.offset
  lsn_eq : anchor.lsn = some (before.length + 1)

section

variable {log log' : LogFiles} {anchor : LogAnchor} {before since : List Found}
  {number : SegmentNumber} {size : Nat} {writer writer' : Writer} {bytes : Bytes}

theorem Ready.atCall {records : List Found} (ready : Ready log writer records bytes)
    (calls : Nat) : Ready (log.atCall calls) writer records bytes :=
  ⟨⟨⟨ready.written.sound.atCall calls, ready.written.quiet, ready.written.chain,
      ready.written.last⟩, ready.written.numbered, ready.written.crowded⟩,
    ready.opened.atCall calls, ready.home_eq, ready.nextLsn_eq⟩

theorem Ready.marks {records : List Found} (ready : Ready log writer records bytes) :
    Marks log.segments ⟨writer.segment.number, bytes.length, some writer.nextLsn⟩ records []
      writer.segment.number bytes.length := by
  obtain ⟨past_header, -, missing⟩ := ready.written.chain.eof_place rfl
  exact ⟨.ended past_header ready.opened.segments_eq rfl missing, past_header,
    congrArg some ready.nextLsn_eq⟩

theorem Marks.admits (marks : Marks log.segments anchor before since number size)
    (numbered : NumberedFromOne (before ++ since)) :
    ((Prior.start anchor.lsn).following since).Admits ((before ++ since).length + 1) := by
  unfold Prior.following
  cases is_last : since.getLast? with
  | none =>
      rw [List.getLast?_eq_none_iff.mp is_last, marks.lsn_eq, List.append_nil]
      rfl
  | some found =>
      have whole : (before ++ since).getLast? = some found := by
        rw [List.getLast?_append, is_last]
        rfl
      exact (numbered.last whole).le.trans (Nat.le_succ _)

/-- A log with a mark, and a writer that goes on at its end. -/
structure Marked (log : LogFiles) (writer : Writer) (anchor : LogAnchor)
    (before since : List Found) (bytes : Bytes) : Prop where
  ready : Ready log writer (before ++ since) bytes
  marks : Marks log.segments anchor before since writer.segment.number bytes.length

theorem Marked.append {payload : Bytes} (marked : Marked log writer anchor before since bytes)
    (storable : Storable payload) (fits : (before ++ since).length + 1 < UInt64.size) :
    ∃ log' writer' bytes', Writer.append payload (log, writer) =
        (.ok (writer.nextFound bytes payload).anchor, log', writer') ∧
      Marked log' writer' anchor before (since ++ [writer.nextFound bytes payload])
        bytes' := by
  have continues := marked.ready.continues
  obtain ⟨log', writer', bytes', ran, ready⟩ := marked.ready.append storable fits
  obtain ⟨log₁, writer₁, ran₁, appended⟩ := continues.append storable
  obtain ⟨rfl, rfl⟩ : log₁ = log' ∧ writer₁ = writer' := by
    simpa using congrArg Prod.snd (ran₁.symm.trans ran)
  obtain rfl : (recordPlace writer bytes payload).2 ++ recordBytes writer.nextLsn payload =
      bytes' :=
    Option.some.inj (appended.opened.segments_eq.symm.trans ready.opened.segments_eq)
  have number_le := ready.written.number_le
  rw [appended.number_eq, List.length_append, List.length_singleton] at number_le
  have admits := marked.marks.admits marked.ready.written.numbered
  rw [← marked.ready.nextLsn_eq] at admits
  have chain := marked.marks.chain.record_behind marked.ready.opened.segments_eq
    (marked.ready.written.last _ (Nat.lt_succ_of_lt (Nat.lt_succ_self _))) storable
    (marked.ready.nextLsn_eq ▸ fits) admits
    ((recordPlace_cases writer bytes payload).imp_right And.left)
    (Nat.lt_of_le_of_lt number_le fits)
  rw [← appended.becomes.segments_eq, ← appended.number_eq] at chain
  refine ⟨log₁, writer₁, _, ran, List.append_assoc .. ▸ ready, ?_, marked.marks.past_header,
    marked.marks.lsn_eq⟩
  rw [appended.number_eq] at chain ⊢
  exact chain

theorem Marked.appendEach {payloads : List Bytes}
    (marked : Marked log writer anchor before since bytes)
    (fits : (before ++ since).length + (payloads.filter Storable).length < UInt64.size) :
    ∃ answers log' writer' new bytes',
      Writer.appendEach payloads (log, writer) = (answers, log', writer') ∧
      Answered answers payloads new ∧
      Marked log' writer' anchor before (since ++ new) bytes' := by
  let Keeps (rest : List Bytes) (log : LogFiles) (writer : Writer)
      (since : List Found) : Prop :=
    (∃ bytes, Marked log writer anchor before since bytes) ∧
      (before ++ since).length + (rest.filter Storable).length < UInt64.size
  have start : Keeps payloads log writer since := ⟨⟨bytes, marked⟩, fits⟩
  have kept := Writer.appendEach_keeps Keeps ?_ ?_ payloads since start
  · obtain ⟨answers, log', writer', new, ran, answered, ⟨bytes', marked'⟩, -⟩ := kept
    exact ⟨answers, log', writer', new, bytes', ran, answered, marked'⟩
  · rintro payload rest log writer since ⟨⟨bytes, marked⟩, fits⟩ storable
    rw [List.filter_cons_of_pos (by simpa using storable), List.length_cons] at fits
    obtain ⟨log', writer', bytes', ran, marked'⟩ := marked.append storable (by omega)
    refine ⟨_, log', writer', rfl, ran, ⟨bytes', marked'⟩, ?_⟩
    simp only [List.length_append, List.length_singleton] at fits ⊢
    omega
  · rintro payload rest log writer since ⟨marked, fits⟩ unfit
    rw [List.filter_cons_of_neg (by simpa using unfit)] at fits
    exact ⟨marked, fits⟩

end

/-! ## Going on where a log ends -/

section

variable {log log' : LogFiles} {records : List Found} {number : SegmentNumber} {size : Nat}

theorem Ended.cutAfter_eq {first : SegmentNumber} (ended : Ended log first records number size)
    (lsn : Option Lsn) : log.segments.cutAfter ⟨number, size, lsn⟩ = log.segments := by
  obtain ⟨past_header, ⟨bytes, stored, rfl⟩, -⟩ := ended.chain.eof_place rfl
  have kept : cutAt log.segments number bytes.length = log.segments := by
    rw [cutAt, cutBytes, if_neg (Nat.not_lt.mpr past_header), stored, Option.getD_some,
      List.take_length]
    exact Segments.put_self stored
  funext other
  unfold Segments.cutAfter
  split
  · exact (ended.last other ‹_›).symm
  · exact congrFun kept other

theorem Ended.resumed {first : SegmentNumber} (ended : Ended log first records number size)
    {settings : Settings} {lsn nextLsn : Option Lsn} {writer : Writer}
    (resumed : Resumed log settings ⟨number, size, lsn⟩ nextLsn writer log') :
    log'.segments = log.segments ∧ writer.segment.number = number ∧
      Ended log' first records number size ∧
      ∃ bytes, bytes.length = size ∧ Works log' writer bytes := by
  have same : log'.segments = log.segments :=
    resumed.becomes.segments_eq.trans (ended.cutAfter_eq lsn)
  have number_eq : writer.segment.number = number := resumed.number_eq
  have quiet : log'.Quiet := resumed.becomes.plan_eq.trans ended.quiet
  obtain ⟨bytes, stored, length⟩ := ended.stored
  have opened : Opened log' writer.segment bytes := by
    have held := resumed.opened
    have bytes_eq := held.segments_eq
    rw [same, number_eq, stored] at bytes_eq
    rwa [← Option.some.inj bytes_eq] at held
  have home_eq : writer.home = .memory := by
    rw [resumed.writer_eq]
    rfl
  exact ⟨same, number_eq,
    ⟨resumed.becomes.sound, quiet, same ▸ ended.chain, same ▸ ended.last⟩,
    bytes, length, resumed.becomes.sound, quiet, home_eq, opened⟩

theorem Written.resumed {settings : Settings} {lsn nextLsn : Option Lsn} {writer : Writer}
    (written : Written log records number size)
    (resumed : Resumed log settings ⟨number, size, lsn⟩ nextLsn writer log')
    (next : nextLsn.getD Lsn.first = records.length + 1) :
    log'.segments = log.segments ∧ writer.segment.number = number ∧
      ∃ bytes, bytes.length = size ∧ Ready log' writer records bytes := by
  obtain ⟨same, rfl, ended, bytes, rfl, works⟩ := written.toEnded.resumed resumed
  refine ⟨same, rfl, bytes, rfl, ⟨ended, written.numbered, written.crowded⟩, works.opened,
    works.home_eq, ?_⟩
  rw [resumed.writer_eq]
  exact next

theorem Written.opens (written : Written log records number size)
    (fits : records.length < UInt64.size) (settings : Settings) :
    ∃ writer log', Writer.openLog .memory settings log = (.ok writer, log') ∧
      log'.segments = log.segments ∧ writer.segment.number = number ∧
      ∃ bytes, bytes.length = size ∧ Ready log' writer records bytes := by
  obtain ⟨writer, log', _, ran, _⟩ := opens_behind written.sound written.quiet written.chain
    written.numbered written.crowded fits settings
  obtain ⟨first_bytes, first_stored⟩ := written.chain.stored
  have lowest : log.lowest = 0 := written.sound.lowest_eq first_stored nofun
  have chain : Chain log.segments log.lowest 0 (.start none) records ⟨none, number, size⟩ := by
    rw [lowest]
    exact written.chain
  rcases written.quiet.openLog_cases written.sound settings chain with
    ⟨writer', log'', ran', resumed⟩ | ⟨-, log'', ran', -⟩
  · obtain ⟨same, rfl⟩ := Prod.mk.inj (ran.symm.trans ran')
    obtain rfl := Except.ok.inj same
    refine ⟨writer, log', ran, written.resumed resumed ?_⟩
    rw [lowest, written.numbered.nextLsn_eq]
    by_cases nothing : records.length = 0
    · simp [nothing, Lsn.first]
    · simp [nothing]
  · rw [ran] at ran'
    cases ran'

end

/-! ## Sessions after a mark -/

section

variable {log : LogFiles} {anchor : LogAnchor} {before since : List Found}
  {number : SegmentNumber} {size : Nat}

theorem Marks.run (marks : Marks log.segments anchor before since number size)
    (written : Written log (before ++ since) number size) (session : Session)
    (fits : (before ++ since).length + (session.payloads.filter Storable).length <
      UInt64.size) :
    ∃ answers writer log' new bytes, session.run log = (.ok (answers, writer), log') ∧
      Answered answers session.payloads new ∧
      Marked log' writer anchor before (since ++ new) bytes := by
  have room := Nat.lt_of_le_of_lt (Nat.le_add_right _ _) fits
  obtain ⟨writer, log₁, opened, same, rfl, bytes, rfl, ready⟩ :=
    written.opens room session.settings
  have marked : Marked log₁ writer anchor before since bytes := ⟨ready, same ▸ marks⟩
  obtain ⟨answers, log', writer', new, bytes', ran, answered, marked'⟩ :=
    marked.appendEach fits
  refine ⟨answers, writer', log', new, bytes', ?_, answered, marked'⟩
  rw [Session.run, bind_apply, opened]
  simp only [ran]

theorem Marks.runSessions {sessions : List Session}
    (marks : Marks log.segments anchor before since number size)
    (written : Written log (before ++ since) number size)
    (fits : (before ++ since).length +
      ((sessions.flatMap (·.payloads)).filter Storable).length < UInt64.size) :
    ∃ answers writer log' new number' size',
      runSessions sessions log = (.ok (answers, writer), log') ∧
      Answered answers (sessions.flatMap (·.payloads)) new ∧
      Written log' (before ++ (since ++ new)) number' size' ∧
      Marks log'.segments anchor before (since ++ new) number' size' := by
  induction sessions generalizing log since number size with
  | nil =>
      refine ⟨[], none, log, [], number, size, rfl, ⟨rfl, rfl, rfl⟩, ?_, ?_⟩
      · rwa [List.append_nil]
      · rwa [List.append_nil]
  | cons session rest ih =>
      have total : (((session :: rest).flatMap (·.payloads)).filter Storable).length =
          (session.payloads.filter Storable).length +
            ((rest.flatMap (·.payloads)).filter Storable).length := by
        rw [List.flatMap_cons, List.filter_append, List.length_append]
      obtain ⟨answers, writer, log₁, new, bytes, ran, answered, marked⟩ :=
        marks.run written session (by omega)
      have room : (before ++ (since ++ new)).length +
          ((rest.flatMap (·.payloads)).filter Storable).length < UInt64.size := by
        rw [← List.append_assoc, List.length_append, answered.length_eq]
        omega
      obtain ⟨later, last, log', new', number', size', ran', answered', written', marks'⟩ :=
        ih marked.marks marked.ready.written room
      rw [List.append_assoc] at written' marks'
      refine ⟨answers ++ later, some (last.getD writer), log', new ++ new', number', size',
        ?_, answered.append answered', written', marks'⟩
      rw [Log.runSessions, bind_apply, ran]
      simp only [bind_apply, ran']
      rfl

end

/-! ## Reading from a mark -/

/--
A scan from this position reads these payloads one after the other, each at its
position, and then finds the end of the log for ever, into whatever it reads them.
-/
def ReadsFrom (log : LogFiles) (start : LogAnchor) (stored : List (Bytes × LogAnchor)) :
    Prop :=
  ∀ buffers : List Record,
    let steps := ((Scanner.startAt .memory start).nextEach buffers log).1
    steps.length = buffers.length ∧
    ∀ (index : Nat) (step : Scanner.Step), steps[index]? = some step →
      match stored[index]? with
      | some (payload, anchor) =>
          step.result = .ok true ∧ step.record.payload = payload ∧
            step.record.anchor = some anchor
      | none => step.result = .ok false ∧ step.scanner.state = .eof

/--
Recovery from this position finds where the log ends.  Going on there takes nothing
away, gives the next number, and a scan of the whole log reads whatever is appended
behind all that was stored before.
-/
def ResumesFrom (log : LogFiles) (start : LogAnchor) (stored : List (Bytes × LogAnchor)) :
    Prop :=
  ∀ settings : Settings, ∃ report recovered writer resumed,
    recover .memory start log = (.ok report, recovered) ∧
    Writer.resumeAfter .memory settings report.lastGood report.nextLsn recovered =
      (.ok writer, resumed) ∧
    resumed.segments = log.segments ∧ writer.nextLsn = stored.length + 1 ∧
    ∀ payloads : List Bytes,
      stored.length + (payloads.filter Storable).length < UInt64.size →
      ∃ answers log' writer',
        Writer.appendEach payloads (resumed, writer) = (answers, log', writer') ∧
        (accepted answers).map (·.1) = payloads.filter Storable ∧
        ReadsBack log' (stored ++ accepted answers)

section

variable {log : LogFiles} {anchor : LogAnchor} {before since : List Found}
  {number : SegmentNumber} {size : Nat}

theorem Marks.reading (marks : Marks log.segments anchor before since number size)
    (written : Written log (before ++ since) number size) :
    Reading log.segments anchor since ⟨none, number, size⟩ := by
  obtain ⟨bytes, stored, passed⟩ := written.chain.passes_headers rfl
    ((Nat.eq_zero_or_pos anchor.segment).symm.imp_right fun first => ⟨first.symm, rfl⟩)
    marks.chain.segment_le
  exact .part stored passed marks.past_header marks.chain

theorem Marks.readsFrom (marks : Marks log.segments anchor before since number size)
    (written : Written log (before ++ since) number size) :
    ReadsFrom log anchor (since.map Found.stored) := by
  intro buffers
  obtain ⟨calls, steps, ran, length, read⟩ :=
    (WillRead.starting (marks.reading written)).nextEach written.quiet buffers
      log.injection.callsMade
  have ran : (Scanner.startAt .memory anchor).nextEach buffers log =
      (steps, log.atCall calls) := ran
  rw [ran]
  refine ⟨length, fun index step held => ?_⟩
  have answer := read index step held
  rw [List.getElem?_map]
  cases here : since[index]? with
  | none =>
      rw [here] at answer
      exact ⟨answer.result_eq, answer.state_eq⟩
  | some found =>
      rw [here] at answer
      exact ⟨answer.result_eq, answer.payload_eq, answer.anchor_eq⟩

theorem Marks.nextLsn_eq (marks : Marks log.segments anchor before since number size)
    (numbered : NumberedFromOne (before ++ since)) :
    nextLsnAfter anchor since = some ((before ++ since).length + 1) := by
  unfold nextLsnAfter
  cases is_last : since.getLast? with
  | none => rw [List.getLast?_eq_none_iff.mp is_last, List.append_nil, marks.lsn_eq]
  | some found =>
      have whole : (before ++ since).getLast? = some found := by
        rw [List.getLast?_append, is_last]
        rfl
      exact congrArg (fun lsn => some (lsn + 1)) (numbered.last whole)

theorem Marks.resumesFrom (marks : Marks log.segments anchor before since number size)
    (written : Written log (before ++ since) number size) :
    ResumesFrom log anchor ((before ++ since).map Found.stored) := by
  intro settings
  obtain ⟨calls, outcome, recovered, said⟩ := recover_reads written.sound
    written.quiet.noShortRead (marks.reading written) log.injection.callsMade
  have reported := said.resolve_right
    fun ⟨_, injected, _⟩ => written.quiet.not_injects injected
  subst reported
  obtain ⟨bytes, stored, length⟩ := written.stored
  have can_cut : CanCut log.segments number size := .inr ⟨bytes, stored, length.ge⟩
  have next := marks.nextLsn_eq written.numbered
  have leads := @resumeAfter_leads _ (written.sound.atCall calls) settings
    ((⟨none, number, size⟩ : Stop).anchor since) can_cut (nextLsnAfter anchor since)
  rcases ran : Writer.resumeAfter .memory settings ((⟨none, number, size⟩ : Stop).anchor since)
      (nextLsnAfter anchor since) (log.atCall calls) with ⟨error | writer, log'⟩
  · rcases NotOpened.refused_or_injected (.inr (leads.of_error ran)) with
      ⟨unknown, -⟩ | injected
    · rw [next] at unknown
      cases unknown.unknown
    · exact absurd injected written.quiet.no_error
  obtain ⟨same, -, bytes', -, ready⟩ :=
    written.resumed ((leads.of_ok ran).of_atCall written.sound) (by rw [next]; rfl)
  refine ⟨_, _, writer, log', recovered, ran, same, ?_, fun payloads fits => ?_⟩
  · rw [ready.nextLsn_eq, List.length_map]
  · rw [List.length_map] at fits
    obtain ⟨answers, log'', writer', new, bytes'', ran', answered, ready'⟩ :=
      ready.appendEach fits
    refine ⟨answers, log'', writer', ran', answered.stores, ?_⟩
    rw [answered.accepted_eq, ← List.map_append]
    exact Rests.readsBack (.inr ⟨_, _, ready'.written⟩)

end

/--
Whenever a session asks for the end of the log, that position marks it for good:
whatever that writer and later sessions append is what a scan from there reads, and
recovering from there goes on behind all records of the log.  There are as many
sequence numbers as words of 64 bits.
-/
theorem checkpoints_read_on (sessions later : List Session) (payloads : List Bytes)
    (begun : sessions ≠ [])
    (few : (((sessions.flatMap (·.payloads)) ++ (payloads ++ later.flatMap (·.payloads))).filter
      Storable).length < UInt64.size) :
    ∃ earlier writer log, runSessions sessions .empty = (.ok (earlier, some writer), log) ∧
      (accepted earlier).map (·.1) = (sessions.flatMap (·.payloads)).filter Storable ∧
      ∃ anchor log₁, Writer.endAnchor (log, writer) = (.ok anchor, log₁, writer) ∧
      ∃ own log₂ writer₂, Writer.appendEach payloads (log₁, writer) = (own, log₂, writer₂) ∧
      ∃ others last log₃, runSessions later log₂ = (.ok (others, last), log₃) ∧
        (accepted (own ++ others)).map (·.1) =
          (payloads ++ later.flatMap (·.payloads)).filter Storable ∧
        ReadsFrom log₃ anchor (accepted (own ++ others)) ∧
        ResumesFrom log₃ anchor (accepted (earlier ++ (own ++ others))) := by
  simp only [List.filter_append, List.length_append] at few
  have few_earlier : ([] : List Found).length +
      ((sessions.flatMap (·.payloads)).filter Storable).length < UInt64.size := by
    rw [List.length_nil]
    omega
  obtain ⟨earlier, writer, log, before, ran, answered, -, ends⟩ :=
    rests_empty.runSessions few_earlier
  rw [List.nil_append] at ends
  cases writer with
  | none => exact absurd ends.1 begun
  | some writer =>
      obtain ⟨bytes, ready⟩ := ends
      obtain ⟨calls, anchored⟩ := ready.endAnchor
      have marked : Marked (log.atCall calls) writer
          ⟨writer.segment.number, bytes.length, some writer.nextLsn⟩ before [] bytes :=
        ⟨(List.append_nil before).symm ▸ ready.atCall calls, ready.marks⟩
      have few_own : (before ++ []).length + (payloads.filter Storable).length <
          UInt64.size := by
        rw [List.append_nil, answered.length_eq]
        omega
      obtain ⟨own, log₂, writer₂, new, bytes₂, ran₂, answered₂, marked₂⟩ :=
        marked.appendEach few_own
      rw [List.nil_append] at marked₂
      have few_later : (before ++ new).length +
          ((later.flatMap (·.payloads)).filter Storable).length < UInt64.size := by
        rw [List.length_append, answered.length_eq, answered₂.length_eq]
        omega
      obtain ⟨others, last, log₃, new', number, size, ran₃, answered₃, written, marks⟩ :=
        marked₂.marks.runSessions marked₂.ready.written few_later
      have since := answered₂.append answered₃
      refine ⟨earlier, writer, log, ran, answered.stores, _, _, anchored, own, log₂, writer₂,
        ran₂, others, last, log₃, ran₃, since.stores, ?_, ?_⟩
      · rw [since.accepted_eq]
        exact marks.readsFrom written
      · rw [(answered.append since).accepted_eq]
        exact marks.resumesFrom written

/-- A mark at the end of a full segment, with a record and another session after it. -/
theorem checkpoints_read_on_sampleSessions :
    ∃ earlier writer log,
      runSessions sampleSessions .empty = (.ok (earlier, some writer), log) ∧
      (accepted earlier).map (·.1) = [[1, 2, 3], [4], [5]] ∧
      ∃ anchor log₁, Writer.endAnchor (log, writer) = (.ok anchor, log₁, writer) ∧
      ∃ own log₂ writer₂, Writer.appendEach [[6]] (log₁, writer) = (own, log₂, writer₂) ∧
      ∃ others last log₃,
        runSessions [⟨{ maxSegmentSize := 60 }, [[7]]⟩] log₂ = (.ok (others, last), log₃) ∧
        (accepted (own ++ others)).map (·.1) = [[6], [7]] ∧
        ReadsFrom log₃ anchor (accepted (own ++ others)) ∧
        ResumesFrom log₃ anchor (accepted (earlier ++ (own ++ others))) :=
  checkpoints_read_on sampleSessions [⟨{ maxSegmentSize := 60 }, [[7]]⟩] [[6]] (by decide)
    (by decide)

end DirectoryStore.Log
