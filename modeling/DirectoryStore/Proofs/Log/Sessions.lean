import DirectoryStore.Proofs.Log.Validating

/-!
# Sessions

A session opens a log, appends payloads, and drops the writer.  After any number of
sessions on an empty log, the log is a chain of the accepted payloads, numbered from
one, that ends where the last writer would go on.  One append makes the chain longer
by one record, and opening the log changes nothing.
-/

namespace DirectoryStore.Log

/-! ## Runs of sessions -/

structure Session where
  settings : Settings
  payloads : List Bytes

def Session.run (session : Session) : LogM (List Answer × Writer) := do
  let writer ← Writer.openLog .memory session.settings
  fun log =>
    let (answers, (log, writer)) := Writer.appendEach session.payloads (log, writer)
    (.ok (answers, writer), log)

def runSessions : List Session → LogM (List Answer × Option Writer)
  | [] => return ([], none)
  | session :: rest => do
      let (answers, writer) ← session.run
      let (later, last) ← runSessions rest
      return (answers ++ later, some (last.getD writer))

/-! ## Logs that sessions leave -/

def NumberedFromOne (records : List Found) : Prop :=
  ∀ index found, records[index]? = some found → found.lsn = index + 1

/-- The log holds these records and ends at the place. -/
structure Written (log : LogFiles) (records : List Found) (number : SegmentNumber)
    (size : Nat) : Prop extends Ended log 0 records number size where
  numbered : NumberedFromOne records
  /-- Every segment but the first was begun behind a record. -/
  crowded : number ≤ (records.filter (·.segment < number)).length

/-- The writer stands at the end of such a log. -/
structure Ready (log : LogFiles) (writer : Writer) (records : List Found)
    (bytes : Bytes) : Prop where
  written : Written log records writer.segment.number bytes.length
  opened : Opened log writer.segment bytes
  home_eq : writer.home = .memory
  nextLsn_eq : writer.nextLsn = records.length + 1

theorem NumberedFromOne.concat {records : List Found} (numbered : NumberedFromOne records)
    {found : Found} (next : found.lsn = records.length + 1) :
    NumberedFromOne (records ++ [found]) := by
  intro index other held
  rw [List.getElem?_append] at held
  split at held
  · exact numbered index other held
  · rename_i beyond
    cases offset : index - records.length with
    | zero =>
        have index_eq : index = records.length := by omega
        rw [offset] at held
        obtain rfl := Option.some.inj held
        rw [next, index_eq]
    | succ rest => simp [offset] at held

theorem NumberedFromOne.of_prefix {records front : List Found}
    (numbered : NumberedFromOne records) (is_front : front <+: records) : NumberedFromOne front := by
  intro index found held
  obtain ⟨inside, rfl⟩ := List.getElem?_eq_some_iff.mp held
  exact numbered index _ (List.prefix_iff_getElem?.mp is_front index inside)

theorem NumberedFromOne.last {records : List Found} (numbered : NumberedFromOne records)
    {found : Found} (is_last : records.getLast? = some found) :
    found.lsn = records.length := by
  rw [List.getLast?_eq_getElem?] at is_last
  have some_left : records ≠ [] := by
    rintro rfl
    cases is_last
  have positive := List.length_pos_iff.mpr some_left
  rw [numbered _ _ is_last]
  exact Nat.sub_add_cancel positive

theorem NumberedFromOne.admits {records : List Found} (numbered : NumberedFromOne records) :
    ((Prior.start none).following records).Admits (records.length + 1) := by
  unfold Prior.following
  cases is_last : records.getLast? with
  | none => trivial
  | some found => exact (numbered.last is_last).le.trans (Nat.le_succ _)

/-! ## One more record -/

section

variable {log : LogFiles} {records : List Found} {number : SegmentNumber} {size : Nat}

theorem Written.number_le (written : Written log records number size) :
    number ≤ records.length :=
  written.crowded.trans (List.length_filter_le _ _)

theorem Written.crowded_after (written : Written log records number size) (found : Found)
    (next : found.segment = number ∨
      found.segment = number + 1 ∧ SegmentHeader.size < size) :
    found.segment ≤ ((records ++ [found]).filter (·.segment < found.segment)).length := by
  rw [List.filter_append, List.filter_cons_of_neg (by simp), List.filter_nil,
    List.append_nil]
  rcases next with here | ⟨onward, filled⟩
  · rw [here]
    exact written.crowded
  · have all : records.filter (·.segment < number + 1) = records :=
      List.filter_eq_self.mpr fun other member =>
        decide_eq_true (Nat.lt_succ_of_le (written.chain.segment_le_of_mem member))
    obtain ⟨other, member, same, -⟩ := written.chain.exists_mem_of_lt filled
      fun _ => Nat.zero_lt_of_lt filled
    have fewer : (records.filter (·.segment < number)).length < records.length :=
      List.length_filter_lt_length_iff_exists.mpr ⟨other, member, by simp [same]⟩
    rw [onward, all]
    exact Nat.succ_le_of_lt (Nat.lt_of_le_of_lt written.crowded fewer)

theorem Ready.continues {writer : Writer} {bytes : Bytes}
    (ready : Ready log writer records bytes) : Continues log writer 0 records bytes :=
  ⟨⟨ready.written.sound, ready.written.quiet, ready.home_eq, ready.opened⟩,
    ready.written.toEnded, ready.nextLsn_eq ▸ ready.written.numbered.admits⟩

theorem Ready.append {writer : Writer} {bytes payload : Bytes}
    (ready : Ready log writer records bytes) (storable : Storable payload)
    (fits : records.length + 1 < UInt64.size) :
    ∃ log' writer' bytes', Writer.append payload (log, writer) =
        (.ok (writer.nextFound bytes payload).anchor, log', writer') ∧
      Ready log' writer' (records ++ [writer.nextFound bytes payload]) bytes' := by
  have continues := ready.continues
  obtain ⟨log', writer', ran, appended⟩ := continues.append storable
  have next := appended.number_cases
  rw [appended.number_eq] at next
  have number_le := ready.written.number_le
  have number_fits : (recordPlace writer bytes payload).1 < UInt64.size := by grind
  have longer := continues.appended storable (ready.nextLsn_eq ▸ fits) number_fits appended
  refine ⟨log', writer', _, ran, ⟨longer.ended, ?_, ?_⟩, longer.opened,
    longer.home_eq, ?_⟩
  · exact ready.written.numbered.concat ready.nextLsn_eq
  · rw [appended.number_eq]
    exact ready.written.crowded_after (writer.nextFound bytes payload) next
  · rw [appended.nextLsn_eq, ready.nextLsn_eq, List.length_append]
    rfl

/-- A property of records that stays when a writer puts one more behind them. -/
def StaysBehind (holds : List Found → Prop) : Prop :=
  ∀ {log : LogFiles} {writer : Writer} {records : List Found} {bytes : Bytes},
    Ready log writer records bytes → holds records → ∀ payload : Bytes,
      holds (records ++ [writer.nextFound bytes payload])

theorem Ready.appendEach_keeps {holds : List Found → Prop} (stays : StaysBehind holds)
    {writer : Writer} {bytes : Bytes} (ready : Ready log writer records bytes)
    (held : holds records) {payloads : List Bytes}
    (fits : records.length + (payloads.filter Storable).length < UInt64.size) :
    ∃ answers log' writer' new bytes',
      Writer.appendEach payloads (log, writer) = (answers, log', writer') ∧
      Answered answers payloads new ∧ Ready log' writer' (records ++ new) bytes' ∧
      holds (records ++ new) := by
  let Keeps (rest : List Bytes) (log : LogFiles) (writer : Writer)
      (records : List Found) : Prop :=
    (∃ bytes, Ready log writer records bytes) ∧ holds records ∧
      records.length + (rest.filter Storable).length < UInt64.size
  have start : Keeps payloads log writer records := ⟨⟨bytes, ready⟩, held, fits⟩
  have kept := Writer.appendEach_keeps Keeps ?_ ?_ payloads records start
  · obtain ⟨answers, log', writer', new, ran, answered, ⟨bytes', ready'⟩, held', -⟩ := kept
    exact ⟨answers, log', writer', new, bytes', ran, answered, ready', held'⟩
  · rintro payload rest log writer records ⟨⟨bytes, ready⟩, held, fits⟩ storable
    rw [List.filter_cons_of_pos (by simpa using storable), List.length_cons] at fits
    obtain ⟨log', writer', bytes', ran, ready'⟩ := ready.append storable (by omega)
    exact ⟨_, log', writer', rfl, ran, ⟨bytes', ready'⟩, stays ready held payload,
      by simp; omega⟩
  · rintro payload rest log writer records ⟨ready, held, fits⟩ unfit
    rw [List.filter_cons_of_neg (by simpa using unfit)] at fits
    exact ⟨ready, held, fits⟩

theorem Ready.appendEach {writer : Writer} {bytes : Bytes}
    (ready : Ready log writer records bytes) {payloads : List Bytes}
    (fits : records.length + (payloads.filter Storable).length < UInt64.size) :
    ∃ answers log' writer' new bytes',
      Writer.appendEach payloads (log, writer) = (answers, log', writer') ∧
      Answered answers payloads new ∧ Ready log' writer' (records ++ new) bytes' := by
  have stays : StaysBehind fun _ => True := fun _ _ _ => trivial
  obtain ⟨answers, log', writer', new, bytes', ran, answered, ready', -⟩ :=
    ready.appendEach_keeps stays trivial fits
  exact ⟨answers, log', writer', new, bytes', ran, answered, ready'⟩

end

/-! ## Opening between sessions -/

section

variable {log : LogFiles} {records : List Found} {number : SegmentNumber} {size : Nat}

theorem opens_empty (sound : log.Sound) (quiet : log.Quiet) (empty : log.memory = [])
    (settings : Settings) :
    ∃ writer log' bytes, Writer.openLog .memory settings log = (.ok writer, log') ∧
      Ready log' writer [] bytes := by
  have missing (other : SegmentNumber) : log.segments other = none := by
    rw [LogFiles.segments_eq_none_iff, empty]
    rfl
  have leads := openLog_leads_of_empty sound settings empty
  rcases ran : Writer.openLog .memory settings log with ⟨error | writer, log'⟩
  · exact absurd (leads.of_error ran).injected quiet.no_error
  obtain ⟨writer_eq, number_eq, opened, becomes⟩ := leads.of_ok ran
  have stored : log'.segments 0 = some (headerBytes 0) :=
    becomes.segments_eq ▸ if_pos rfl
  have last : ∀ other, 0 < other → log'.segments other = none := fun other later =>
    becomes.segments_eq ▸ (if_neg (Nat.ne_of_gt later)).trans (missing other)
  have chain : Chain log'.segments 0 0 (.start none) [] ⟨none, 0, (headerBytes 0).length⟩ := by
    rw [length_headerBytes]
    exact .of_headerBytes stored (by decide) (last 1 (by decide))
  have written : Written log' [] 0 (headerBytes 0).length :=
    ⟨⟨becomes.sound, becomes.plan_eq.trans quiet, chain, last⟩, nofun, Nat.le_refl _⟩
  refine ⟨writer, log', _, rfl, number_eq ▸ written, opened, ?_, ?_⟩
  · rw [writer_eq]
    rfl
  · rw [writer_eq]
    rfl

theorem NumberedFromOne.nextLsn_eq (numbered : NumberedFromOne records) :
    nextLsnAfter (.startOf 0) records =
      if records.length = 0 then none else some (records.length + 1) := by
  unfold nextLsnAfter
  cases is_last : records.getLast? with
  | none =>
      rw [List.getLast?_eq_none_iff.mp is_last]
      rfl
  | some found =>
      have some_left : records.length ≠ 0 := by
        intro nothing
        rw [List.length_eq_zero_iff.mp nothing] at is_last
        cases is_last
      rw [if_neg some_left]
      exact congrArg (fun lsn => some (lsn + 1)) (numbered.last is_last)

theorem opens_behind (sound : log.Sound) (quiet : log.Quiet) {stop : Stop}
    (chain : Chain log.segments 0 0 (.start none) records stop)
    (numbered : NumberedFromOne records)
    (crowded : stop.segment ≤ (records.filter (·.segment < stop.segment)).length)
    (fits : records.length < UInt64.size) (settings : Settings) :
    ∃ writer log' bytes, Writer.openLog .memory settings log = (.ok writer, log') ∧
      Ready log' writer records bytes := by
  obtain ⟨first_bytes, first_stored⟩ := chain.stored
  have lowest : log.lowest = 0 := sound.lowest_eq first_stored nofun
  have number_fits : stop.segment < UInt64.size :=
    Nat.lt_of_le_of_lt (crowded.trans (List.length_filter_le _ _)) fits
  have resumable : records ≠ [] ∨ stop.segment = log.lowest := by
    refine or_iff_not_imp_left.mpr fun nothing => ?_
    rw [not_not.mp nothing] at crowded
    rw [lowest]
    exact Nat.le_zero.mp crowded
  have at_lowest : Chain log.segments log.lowest 0 (.start none) records stop := by
    rw [lowest]
    exact chain
  have known := known_of_resumable sound at_lowest resumable
  rcases quiet.openLog_cases sound settings at_lowest with
    ⟨writer, log', ran, resumed⟩ | ⟨unknown, -⟩
  · have continues := resumed.continues quiet (.of_chain at_lowest number_fits)
    rw [lowest] at continues
    have number_eq : writer.segment.number = stop.segment := resumed.number_eq
    refine ⟨writer, log', _, ran, ⟨continues.ended, numbered, number_eq ▸ crowded⟩,
      continues.opened, continues.home_eq, ?_⟩
    rw [resumed.writer_eq, lowest, numbered.nextLsn_eq]
    by_cases nothing : records.length = 0
    · simp [nothing, Writer.onSegment, Lsn.first]
    · simp [nothing, Writer.onSegment]
  · exact absurd unknown known

/-! ## All sessions -/

def Rests (log : LogFiles) (records : List Found) : Prop :=
  (log.Sound ∧ log.Quiet ∧ log.memory = [] ∧ records = []) ∨
    ∃ number size, Written log records number size

theorem Rests.opens (rests : Rests log records) (fits : records.length < UInt64.size)
    (settings : Settings) :
    ∃ writer log' bytes, Writer.openLog .memory settings log = (.ok writer, log') ∧
      Ready log' writer records bytes := by
  rcases rests with ⟨sound, quiet, empty, rfl⟩ | ⟨number, size, written⟩
  · exact opens_empty sound quiet empty settings
  · exact opens_behind written.sound written.quiet written.chain written.numbered
      written.crowded fits settings

theorem Rests.run {holds : List Found → Prop} (stays : StaysBehind holds)
    (rests : Rests log records) (held : holds records) (session : Session)
    (fits : records.length + (session.payloads.filter Storable).length < UInt64.size) :
    ∃ answers writer log' new bytes, session.run log = (.ok (answers, writer), log') ∧
      Answered answers session.payloads new ∧
      Ready log' writer (records ++ new) bytes ∧ holds (records ++ new) := by
  have room : records.length < UInt64.size := Nat.lt_of_le_of_lt (Nat.le_add_right _ _) fits
  obtain ⟨writer, log₁, bytes, opened, ready⟩ := rests.opens room session.settings
  obtain ⟨answers, log', writer', new, bytes', ran, answered, ready', held'⟩ :=
    ready.appendEach_keeps stays held fits
  refine ⟨answers, writer', log', new, bytes', ?_, answered, ready', held'⟩
  rw [Session.run, bind_apply, opened]
  simp only [ran]

theorem Rests.runSessions_keeps {holds : List Found → Prop} (stays : StaysBehind holds)
    {sessions : List Session} (rests : Rests log records) (held : holds records)
    (fits : records.length +
      ((sessions.flatMap (·.payloads)).filter Storable).length < UInt64.size) :
    ∃ answers writer log' new,
      runSessions sessions log = (.ok (answers, writer), log') ∧
      Answered answers (sessions.flatMap (·.payloads)) new ∧
      Rests log' (records ++ new) ∧ holds (records ++ new) ∧
      match writer with
      | none => sessions = [] ∧ log' = log ∧ new = []
      | some last => ∃ bytes, Ready log' last (records ++ new) bytes := by
  induction sessions generalizing log records with
  | nil =>
      exact ⟨[], none, log, [], rfl, ⟨rfl, rfl, rfl⟩, by simpa using rests,
        by simpa using held, rfl, rfl, rfl⟩
  | cons session rest ih =>
      rw [List.flatMap_cons, List.filter_append, List.length_append] at fits
      obtain ⟨answers, writer, log₁, new, bytes, ran, answered, ready, held₁⟩ :=
        rests.run stays held session (by omega)
      obtain ⟨later, last, log', new', ran', answered', rests', held', ends⟩ :=
        ih (.inr ⟨_, _, ready.written⟩) held₁
          (by rw [List.length_append, answered.length_eq]; omega)
      rw [List.append_assoc] at rests' held' ends
      refine ⟨answers ++ later, some (last.getD writer), log', new ++ new', ?_,
        answered.append answered', rests', held', ?_⟩
      · rw [Log.runSessions, bind_apply, ran]
        simp only [bind_apply, ran']
        rfl
      · cases last with
        | none =>
            obtain ⟨-, rfl, rfl⟩ := ends
            exact ⟨bytes, by simpa using ready⟩
        | some last => exact ends

theorem Rests.runSessions {sessions : List Session} (rests : Rests log records)
    (fits : records.length +
      ((sessions.flatMap (·.payloads)).filter Storable).length < UInt64.size) :
    ∃ answers writer log' new,
      runSessions sessions log = (.ok (answers, writer), log') ∧
      Answered answers (sessions.flatMap (·.payloads)) new ∧
      Rests log' (records ++ new) ∧
      match writer with
      | none => sessions = [] ∧ log' = log ∧ new = []
      | some last => ∃ bytes, Ready log' last (records ++ new) bytes := by
  have stays : StaysBehind fun _ => True := fun _ _ _ => trivial
  obtain ⟨answers, writer, log', new, ran, answered, rests', -, ends⟩ :=
    rests.runSessions_keeps stays trivial fits
  exact ⟨answers, writer, log', new, ran, answered, rests', ends⟩

/-! ## Reading back -/

/--
A scan reads these payloads one after the other, numbered from one and each at its
position, and then finds the end of the log for ever, into whatever it reads them.
-/
def ReadsBack (log : LogFiles) (stored : List (Bytes × LogAnchor)) : Prop :=
  ∀ buffers : List Record,
    let steps := ((Scanner.startAt .memory (.startOf 0)).nextEach buffers log).1
    steps.length = buffers.length ∧
    ∀ (index : Nat) (step : Scanner.Step), steps[index]? = some step →
      match stored[index]? with
      | some (payload, anchor) =>
          step.result = .ok true ∧ step.record.payload = payload ∧
            step.record.anchor = some anchor ∧ step.record.lsn = some (index + 1)
      | none => step.result = .ok false ∧ step.scanner.state = .eof

/-- Recovery counts the records and finds the log to end where the writer goes on. -/
def RecoversTo (log : LogFiles) (count : Nat) (writer : Option Writer) : Prop :=
  ∃ report log', recover .memory (.startOf 0) log = (.ok report, log') ∧
    report.records = count ∧ report.stoppedOnInvalid = false ∧
    report.nextLsn = (if count = 0 then none else some (count + 1)) ∧
    ∀ last, writer = some last → ∃ place state,
      Writer.endAnchor (log, last) = (.ok place, state) ∧
        report.lastGood.segment = place.segment ∧
        report.lastGood.offset = place.offset

theorem Ready.endAnchor {writer : Writer} {bytes : Bytes}
    (ready : Ready log writer records bytes) :
    ∃ calls, Writer.endAnchor (log, writer) =
      (.ok ⟨writer.segment.number, bytes.length, some writer.nextLsn⟩,
        log.atCall calls, writer) :=
  ready.continues.endAnchor

theorem Rests.sound (rests : Rests log records) : log.Sound := by
  rcases rests with ⟨sound, -⟩ | ⟨_, _, written⟩
  · exact sound
  · exact written.sound

theorem Rests.quiet (rests : Rests log records) : log.Quiet := by
  rcases rests with ⟨-, quiet, -⟩ | ⟨_, _, written⟩
  · exact quiet
  · exact written.quiet

theorem Rests.numbered (rests : Rests log records) : NumberedFromOne records := by
  rcases rests with ⟨-, -, -, rfl⟩ | ⟨_, _, written⟩
  · exact nofun
  · exact written.numbered

theorem Rests.reading (rests : Rests log records) :
    ∃ stop, stop.fault = none ∧ Reading log.segments (.startOf 0) records stop := by
  rcases rests with ⟨-, -, empty, rfl⟩ | ⟨number, size, written⟩
  · refine ⟨_, rfl, .missing ?_⟩
    have missing : log.segments 0 = none := by
      rw [LogFiles.segments_eq_none_iff, empty]
      rfl
    exact missing
  · exact ⟨_, rfl, .whole rfl written.chain⟩

theorem Rests.readsBack (rests : Rests log records) :
    ReadsBack log (records.map Found.stored) := by
  obtain ⟨_, eof, reading⟩ := rests.reading
  obtain ⟨⟨fault, number, offset⟩, at_end, reads⟩ := reading.readsTo rests.quiet
  obtain rfl : fault = none := at_end.mpr eof
  intro buffers
  obtain ⟨length, read⟩ := reads buffers
  refine ⟨length, fun index step held => ?_⟩
  have answer := read index step held
  rw [List.getElem?_map] at answer ⊢
  cases here : records[index]? with
  | none =>
      rw [here] at answer
      exact ⟨answer.result_eq, answer.state_eq⟩
  | some found =>
      rw [here] at answer
      obtain ⟨result_eq, payload_eq, anchor_eq⟩ := answer
      refine ⟨result_eq, payload_eq, anchor_eq, ?_⟩
      rw [Record.lsn, anchor_eq]
      exact congrArg some (rests.numbered index found here)

theorem Rests.recoversTo (rests : Rests log records) {writer : Option Writer}
    (ends : ∀ last, writer = some last → ∃ bytes, Ready log last records bytes) :
    RecoversTo log records.length writer := by
  obtain ⟨⟨fault, number, offset⟩, rfl, reading⟩ := rests.reading
  obtain ⟨calls, outcome, ran, said⟩ :=
    recover_reads rests.sound rests.quiet.noShortRead reading log.injection.callsMade
  have reported := said.resolve_right
    fun ⟨_, injected, _⟩ => rests.quiet.not_injects injected
  subst reported
  refine ⟨_, _, ran, rfl, rfl, rests.numbered.nextLsn_eq, ?_⟩
  intro last same
  obtain ⟨bytes, ready⟩ := ends last same
  obtain ⟨calls, answered⟩ := ready.endAnchor
  have place := (reading.unique (.whole rfl ready.written.chain)).2
  exact ⟨_, _, answered, congrArg Stop.segment place, congrArg Stop.offset place⟩

end

theorem rests_empty : Rests .empty [] :=
  .inl ⟨⟨.nil, nofun, nofun⟩, rfl, rfl, rfl⟩

/--
Whatever sessions store in an empty log is read back in order, and the log ends
behind it.  There are as many sequence numbers as words of 64 bits.
-/
theorem sessions_read_back (sessions : List Session)
    (few : ((sessions.flatMap (·.payloads)).filter Storable).length < UInt64.size) :
    ∃ answers writer log,
      runSessions sessions .empty = (.ok (answers, writer), log) ∧
      answers.map (·.1) = sessions.flatMap (·.payloads) ∧
      (accepted answers).map (·.1) = (sessions.flatMap (·.payloads)).filter Storable ∧
      (writer = none → sessions = []) ∧
      ReadsBack log (accepted answers) ∧
      RecoversTo log (accepted answers).length writer := by
  obtain ⟨answers, writer, log, new, ran, answered, rests, ends⟩ :=
    rests_empty.runSessions (by simpa using few)
  rw [List.nil_append] at rests ends
  refine ⟨answers, writer, log, ran, answered.payloads_eq, answered.stores, ?_, ?_, ?_⟩
  · rintro rfl
    exact ends.1
  · rw [answered.accepted_eq]
    exact rests.readsBack
  · rw [answered.accepted_eq, List.length_map]
    refine rests.recoversTo ?_
    rintro last rfl
    exact ends

/-- Two sessions: one fills two segments and is given an empty payload. -/
def sampleSessions : List Session :=
  [⟨{ maxSegmentSize := 60 }, [[1, 2, 3], [], [4]]⟩, ⟨{ syncOnWrite := false }, [[5]]⟩]

theorem sessions_read_back_sampleSessions :
    ∃ answers writer log,
      runSessions sampleSessions .empty = (.ok (answers, writer), log) ∧
      (accepted answers).map (·.1) = [[1, 2, 3], [4], [5]] ∧
      ReadsBack log (accepted answers) ∧ RecoversTo log 3 writer := by
  obtain ⟨answers, writer, log, ran, -, stored, -, reads, recovers⟩ :=
    sessions_read_back sampleSessions (by decide)
  have stored : (accepted answers).map (·.1) = [[1, 2, 3], [4], [5]] := stored
  have count : (accepted answers).length = 3 := by
    rw [← List.length_map, stored]
    rfl
  exact ⟨answers, writer, log, ran, stored, reads, count ▸ recovers⟩

end DirectoryStore.Log
