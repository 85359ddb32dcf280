import DirectoryStore.Proofs.Log.Checkpoints

/-!
# Opening a log again

Opening a log takes away what follows its valid records.  What is left ends where the
writer stands, and the writer knows its number from the last record, or starts with the
first number in the lowest segment.  Opening such a log has nothing to take away: it finds
the same records, the same end and the same number, whatever the first opening has found.
-/

namespace DirectoryStore.Log

section

variable {log log' : LogFiles} {writer : Writer} {records : List Found} {bytes : Bytes}

/-- The writer stands at the end of the log, where opening the log finds it again. -/
structure Settled (log : LogFiles) (writer : Writer) (records : List Found) (bytes : Bytes) :
    Prop extends Works log writer bytes where
  ended : Ended log log.lowest records writer.segment.number bytes.length
  resumable : records ≠ [] ∨ writer.segment.number = log.lowest
  nextLsn_eq :
    writer.nextLsn = (nextLsnAfter (.startOf log.lowest) records).getD Lsn.first

theorem Settled.atCall (settled : Settled log writer records bytes) (calls : Nat) :
    Settled (log.atCall calls) writer records bytes :=
  ⟨⟨settled.sound.atCall calls, settled.quiet, settled.home_eq, settled.opened.atCall calls⟩,
    ⟨settled.sound.atCall calls, settled.quiet, settled.ended.chain, settled.ended.last⟩,
    settled.resumable, settled.nextLsn_eq⟩

/-! ## The first opening -/

theorem Chain.lowest_cutAfter {stop : Stop} (sound : log.Sound) (sound' : log'.Sound)
    (chain : Chain log.segments log.lowest 0 (.start none) records stop)
    (cut : log'.segments = log.segments.cutAfter (stop.anchor records))
    (stored : log'.segments log.lowest = some bytes) : log'.lowest = log.lowest := by
  refine sound'.lowest_eq stored fun other below => ?_
  have before : other < stop.segment := Nat.lt_of_lt_of_le below chain.segment_le
  have kept : log.segments.cutAfter (stop.anchor records) other = log.segments other :=
    (CutLike.of_cutAfter log.segments (stop.anchor records)).before other before
  rw [cut, kept]
  exact sound.nothing_below below

theorem Resumed.settled {stop : Stop} {settings : Settings} (sound : log.Sound)
    (quiet : log.Quiet) (fits : log.NumbersFit)
    (chain : Chain log.segments log.lowest 0 (.start none) records stop)
    (resumed : Resumed log settings (stop.anchor records)
      (nextLsnAfter (.startOf log.lowest) records) writer log') :
    ∃ bytes, Settled log' writer records bytes := by
  obtain ⟨stop_bytes, stop_stored⟩ := chain.stop_stored
  have continues := resumed.continues quiet (.of_chain chain (fits _ _ stop_stored))
  obtain ⟨first_bytes, first_stored⟩ := continues.ended.chain.stored
  have lowest : log'.lowest = log.lowest := chain.lowest_cutAfter sound
    resumed.becomes.sound resumed.becomes.segments_eq first_stored
  have number_eq : writer.segment.number = stop.segment := resumed.number_eq
  refine ⟨_, continues.toWorks, lowest.symm ▸ continues.ended, ?_, ?_⟩
  · rw [number_eq, lowest]
    exact resumable_of_known chain resumed.known
  · rw [lowest, resumed.writer_eq]
    rfl

theorem Ready.settled (ready : Ready log writer [] bytes) : Settled log writer [] bytes := by
  have number_eq : writer.segment.number = 0 := Nat.le_zero.mp ready.written.number_le
  obtain ⟨first_bytes, first_stored⟩ := ready.written.chain.stored
  have lowest : log.lowest = 0 := ready.written.sound.lowest_eq first_stored nofun
  refine ⟨ready.continues.toWorks, lowest.symm ▸ ready.written.toEnded, .inr ?_, ?_⟩
  · rw [number_eq, lowest]
  · rw [ready.nextLsn_eq]
    rfl

/-- However a log was opened, it is left settled. -/
theorem LogFiles.Quiet.opened_settled (quiet : log.Quiet) (sound : log.Sound)
    (fits : log.NumbersFit) {settings : Settings}
    (opened : Writer.openLog .memory settings log = (.ok writer, log')) :
    ∃ records bytes, Settled log' writer records bytes := by
  cases row : log.memory.map (·.1) with
  | nil =>
      obtain ⟨writer', log'', bytes, ran, ready⟩ :=
        opens_empty sound quiet (List.map_eq_nil_iff.mp row) settings
      cases opened.symm.trans ran
      exact ⟨[], bytes, ready.settled⟩
  | cons lowest others =>
      obtain ⟨bytes, stored⟩ : ∃ bytes, log.segments lowest = some bytes :=
        LogFiles.mem_numbers_iff.mp (row ▸ List.mem_cons_self)
      have lowest_eq : log.lowest = lowest := by simp [LogFiles.lowest, row]
      subst lowest_eq
      obtain ⟨bound, finite⟩ := log.exists_bound
      obtain ⟨records, stop, chain⟩ :=
        Chain.exists_of_endsBefore finite stored (.inl rfl) (.start none)
      rcases quiet.openLog_cases sound settings chain with
        ⟨writer', log'', ran, resumed⟩ | ⟨-, log'', ran, -⟩
      · cases opened.symm.trans ran
        exact ⟨records, resumed.settled sound quiet fits chain⟩
      · cases opened.symm.trans ran

/-! ## The next opening -/

theorem Settled.opens (settled : Settled log writer records bytes) (settings : Settings) :
    ∃ writer' log' bytes', Writer.openLog .memory settings log = (.ok writer', log') ∧
      log'.segments = log.segments ∧
      writer'.segment.number = writer.segment.number ∧ writer'.nextLsn = writer.nextLsn ∧
      bytes'.length = bytes.length ∧ Settled log' writer' records bytes' := by
  have chain := settled.ended.chain
  have known := known_of_resumable settled.sound chain settled.resumable
  rcases settled.quiet.openLog_cases settled.sound settings chain with
    ⟨writer', log', ran, resumed⟩ | ⟨unknown, -⟩
  · obtain ⟨same, number_eq, ended, bytes', length, works⟩ := settled.ended.resumed resumed
    have nextLsn_eq : writer'.nextLsn = writer.nextLsn := by
      rw [settled.nextLsn_eq, resumed.writer_eq]
      rfl
    obtain ⟨first_bytes, first_stored⟩ := ended.chain.stored
    have lowest : log'.lowest = log.lowest :=
      works.sound.lowest_eq first_stored fun other below => by
        rw [same]
        exact settled.sound.nothing_below below
    refine ⟨writer', log', bytes', ran, same, number_eq, nextLsn_eq, length, works, ?_, ?_, ?_⟩
    · rw [lowest, number_eq, length]
      exact ended
    · rw [lowest, number_eq]
      exact settled.resumable
    · rw [lowest, nextLsn_eq]
      exact settled.nextLsn_eq
  · exact absurd unknown known

end

/--
A log that was opened can be opened again with any settings, after any number of calls
that change nothing.  The second writer has the same segment, the same number for its
next record and the same end anchor, and every segment has the bytes that the first
opening left there.
-/
theorem opens_again {log log' : LogFiles} (sound : log.Sound) (quiet : log.Quiet)
    (fits : log.NumbersFit) {settings : Settings} {writer : Writer}
    (opened : Writer.openLog .memory settings log = (.ok writer, log'))
    (settings' : Settings) (calls : Nat) :
    ∃ writer' log'', Writer.openLog .memory settings' (log'.atCall calls) =
        (.ok writer', log'') ∧
      writer'.segment.number = writer.segment.number ∧
      writer'.nextLsn = writer.nextLsn ∧
      (∃ anchor, (Writer.endAnchor (log', writer)).1 = .ok anchor ∧
        (Writer.endAnchor (log'', writer')).1 = .ok anchor) ∧
      log''.segments = log'.segments := by
  obtain ⟨records, bytes, settled⟩ := quiet.opened_settled sound fits opened
  obtain ⟨writer', log'', bytes', opened', same, number_eq, nextLsn_eq, length, settled'⟩ :=
    (settled.atCall calls).opens settings'
  obtain ⟨_, anchored⟩ := settled.endAnchor
  obtain ⟨_, anchored'⟩ := settled'.endAnchor
  rw [number_eq, nextLsn_eq, length] at anchored'
  exact ⟨writer', log'', opened', number_eq, nextLsn_eq,
    ⟨_, congrArg Prod.fst anchored, congrArg Prod.fst anchored'⟩, same⟩

/-- The torn log, opened again with small segments: the next record is the second one. -/
theorem opens_again_tornLog :
    tornLog.Sound ∧ tornLog.Quiet ∧ tornLog.NumbersFit ∧ ∃ writer log' writer' log'',
      Writer.openLog .memory {} tornLog = (.ok writer, log') ∧
      writer.segment.number = 0 ∧ writer.nextLsn = 2 ∧
      Writer.openLog .memory { maxSegmentSize := 64 } (log'.atCall 0) =
        (.ok writer', log'') ∧
      writer'.segment.number = writer.segment.number ∧ writer'.nextLsn = writer.nextLsn ∧
      (∃ anchor, (Writer.endAnchor (log', writer)).1 = .ok anchor ∧
        (Writer.endAnchor (log'', writer')).1 = .ok anchor) ∧
      log''.segments = log'.segments := by
  have answer : (Writer.openLog .memory {} tornLog).1.toOption.map
      (fun writer => (writer.segment.number, writer.nextLsn)) = some (0, 2) := by
    decide +kernel
  rcases opened : Writer.openLog .memory {} tornLog with ⟨error | writer, log'⟩ <;>
    rw [opened] at answer
  · cases answer
  obtain ⟨number_eq, nextLsn_eq⟩ := Prod.mk.inj (Option.some.inj answer)
  obtain ⟨writer', log'', again⟩ := opens_again tornLog_sound rfl tornLog_numbersFit opened
    { maxSegmentSize := 64 } 0
  exact ⟨tornLog_sound, rfl, tornLog_numbersFit, writer, log', writer', log'', rfl,
    number_eq, nextLsn_eq, again⟩

end DirectoryStore.Log
