import DirectoryStore.Proofs.Log.Sessions
import DirectoryStore.Proofs.Log.Validating

/-!
# Logs that can be opened

A log is opened at the end of its valid records, and what follows them is taken away.
One kind of log is refused although no call fails: its lowest segment holds nothing but
a header, so that the scan goes on to the next segment, and there is no record behind
it.  Then the number to go on with is not known.  Every other log is opened.
-/

namespace DirectoryStore.Log

/-! ## Scans that leave a segment without a record -/

section

variable {segments : Segments} {number : SegmentNumber} {offset : Nat} {prior : Prior}
  {stop : Stop} {bytes : Bytes}

theorem Chain.leaves_iff (chain : Chain segments number offset prior [] stop)
    (past_header : SegmentHeader.size ≤ offset) (stored : segments number = some bytes) :
    stop.segment ≠ number ↔
      bytes.length = offset ∧ ∃ next, segments (number + 1) = some next := by
  cases chain with
  | header | unheaded => simp [SegmentHeader.size] at past_header
  | damaged _ stored' inside =>
      obtain rfl := Option.some.inj (stored.symm.trans stored')
      exact ⟨fun other => absurd rfl other, fun empty => absurd empty.1 (by omega)⟩
  | pastEnd _ stored' beyond =>
      obtain rfl := Option.some.inj (stored.symm.trans stored')
      exact ⟨fun other => absurd rfl other, fun empty => absurd empty.1 (by omega)⟩
  | onward _ stored' at_end tail =>
      obtain rfl := Option.some.inj (stored.symm.trans stored')
      exact ⟨fun _ => ⟨at_end, tail.stored⟩, fun _ => Nat.ne_of_gt tail.segment_le⟩
  | ended _ _ _ missing =>
      refine ⟨fun other => absurd rfl other, ?_⟩
      rintro ⟨-, next, next_stored⟩
      rw [missing] at next_stored
      cases next_stored

theorem Chain.leaves_front_iff (chain : Chain segments number 0 prior [] stop)
    (stored : segments number = some bytes) :
    stop.segment ≠ number ↔ checkHeader number bytes = .ok () ∧
      bytes.length = SegmentHeader.size ∧ ∃ next, segments (number + 1) = some next := by
  obtain ⟨held, stored', ⟨passed, tail⟩ | ⟨fault, broken, -, rfl⟩⟩ := chain.front_cases <;>
    obtain rfl := Option.some.inj (stored.symm.trans stored')
  · rw [tail.leaves_iff (Nat.le_refl _) stored]
    exact ⟨fun leaves => ⟨passed, leaves⟩, And.right⟩
  · refine ⟨fun other => absurd rfl other, fun ⟨passed, _⟩ => ?_⟩
    rw [broken] at passed
    cases passed

end

/-! ## Logs without a number to go on with -/

/-- There are segments but no records, and a scan does not end in the first segment. -/
structure LogFiles.Recordless (log : LogFiles) : Prop where
  silent : log.said = []
  bare : ∃ bytes, log.segments log.lowest = some bytes ∧
    checkHeader log.lowest bytes = .ok () ∧ bytes.length = SegmentHeader.size
  followed : ∃ bytes, log.segments (log.lowest + 1) = some bytes

section

variable {log : LogFiles} {records : List Found} {stop : Stop}

theorem recordless_iff (sound : log.Sound)
    (chain : Chain log.segments log.lowest 0 (.start none) records stop) :
    log.Recordless ↔ records = [] ∧ stop.segment ≠ log.lowest := by
  obtain ⟨bytes, stored⟩ := chain.stored
  have said_eq := sound.said_eq (.whole rfl chain)
  constructor
  · rintro ⟨silent, ⟨bytes', stored', passed, length⟩, followed⟩
    obtain rfl : records = [] := by simpa [said_eq] using silent
    obtain rfl := Option.some.inj (stored.symm.trans stored')
    exact ⟨rfl, (chain.leaves_front_iff stored).mpr ⟨passed, length, followed⟩⟩
  · rintro ⟨rfl, other⟩
    obtain ⟨passed, length, followed⟩ := (chain.leaves_front_iff stored).mp other
    exact ⟨said_eq, ⟨bytes, stored, passed, length⟩, followed⟩

theorem numberUnknown_iff (sound : log.Sound)
    (chain : Chain log.segments log.lowest 0 (.start none) records stop) :
    NumberUnknown log (stop.anchor records) (nextLsnAfter (.startOf log.lowest) records) ↔
      log.Recordless := by
  rw [recordless_iff sound chain]
  constructor
  · intro unknown
    have neither := fun resumable => known_of_resumable sound chain resumable unknown
    have ⟨empty, other⟩ := not_or.mp neither
    exact ⟨not_not.mp empty, other⟩
  · rintro ⟨rfl, other⟩
    by_contra known
    exact (resumable_of_known chain known).elim (absurd rfl) other

end

/-! ## Opening -/

/-- The log was opened behind its valid records, and nothing else is left. -/
structure OpensBehind (log : LogFiles) (writer : Writer) (log' : LogFiles) : Prop where
  kept : ∃ stored at_end, ReadsTo log log.lowest stored at_end ∧
    ReadsTo log' log.lowest stored True
  last : ∀ number ∈ log'.memory.map (·.1), number ≤ writer.segment.number

theorem Continues.opensBehind {log log' : LogFiles} {writer : Writer}
    {records : List Found} {bytes : Bytes}
    (continues : Continues log' writer log.lowest records bytes) (quiet : log.Quiet)
    {stop : Stop} (reading : Reading log.segments (.startOf log.lowest) records stop) :
    OpensBehind log writer log' :=
  ⟨⟨_, _, reading.readsTo quiet, continues.ended.readsTo⟩, continues.ended.number_le⟩

/--
A log is opened behind its valid records, whatever follows them, unless it has none and
the scan did not stop in its first segment.  Then opening it is refused, since the number
to go on with is not known, and changes nothing.
-/
theorem opens_unless_recordless {log : LogFiles} (sound : log.Sound) (quiet : log.Quiet)
    (fits : log.NumbersFit) (settings : Settings) :
    (¬ log.Recordless → ∃ writer log',
      Writer.openLog .memory settings log = (.ok writer, log') ∧
        OpensBehind log writer log') ∧
    (log.Recordless → ∃ place log',
      Writer.openLog .memory settings log =
          (.error (.refused (.resumeWithoutLsn place)), log') ∧
        log'.segments = log.segments) := by
  cases row : log.memory.map (·.1) with
  | nil =>
      have empty : log.memory = [] := List.map_eq_nil_iff.mp row
      have lowest : log.lowest = 0 := by simp [LogFiles.lowest, empty]
      have missing : log.segments log.lowest = none := by
        simp [LogFiles.segments_eq_none_iff, empty]
      constructor
      · intro _
        obtain ⟨writer, log', bytes, ran, ready⟩ := opens_empty sound quiet empty settings
        have continues := ready.continues
        rw [← lowest] at continues
        exact ⟨writer, log', ran, continues.opensBehind quiet (.missing missing)⟩
      · rintro ⟨-, ⟨bytes, stored, -⟩, -⟩
        rw [missing] at stored
        cases stored
  | cons lowest others =>
      have lowest_eq : log.lowest = lowest := by simp [LogFiles.lowest, row]
      subst lowest_eq
      obtain ⟨bytes, stored⟩ : ∃ bytes, log.segments log.lowest = some bytes :=
        LogFiles.mem_numbers_iff.mp (row ▸ List.mem_cons_self)
      obtain ⟨bound, finite⟩ := log.exists_bound
      obtain ⟨records, stop, chain⟩ :=
        Chain.exists_of_endsBefore finite stored (.inl rfl) (.start none)
      have unknown_iff := numberUnknown_iff sound chain
      rcases quiet.openLog_cases sound settings chain with
        ⟨writer, log', ran, resumed⟩ | ⟨unknown, log', ran, same⟩
      · obtain ⟨stop_bytes, stop_stored⟩ := chain.stop_stored
        have continues := resumed.continues quiet
          (.of_chain chain (fits _ _ stop_stored))
        exact ⟨fun _ => ⟨writer, log', ran, continues.opensBehind quiet (.whole rfl chain)⟩,
          fun recordless => absurd (unknown_iff.mpr recordless) resumed.known⟩
      · exact ⟨fun some_record => absurd (unknown_iff.mp unknown) some_record,
          fun _ => ⟨_, log', ran, same.segments_eq⟩⟩

/-- Two segments with nothing but their headers. -/
def bareLog : LogFiles where
  system := { FileSystem.empty "" with
    files := [.ofBytes (headerBytes 0), .ofBytes (headerBytes 1)] }
  memory := [(0, 0), (1, 1)]
  injection := .never

theorem bareLog_sound : bareLog.Sound :=
  ⟨tornLog_sound.ascending, tornLog_sound.file_lt, tornLog_sound.files_distinct⟩

theorem bareLog_numbersFit : bareLog.NumbersFit := by
  intro number bytes stored
  obtain ⟨file, present, -⟩ := LogFiles.segments_eq_some_iff.mp stored
  rcases tornLog_lookup present with ⟨rfl, -⟩ | ⟨rfl, -⟩ <;> decide

theorem bareLog_recordless : bareLog.Recordless := by
  have chain : Chain bareLog.segments 0 0 (.start none) [] ⟨none, 1, 12⟩ :=
    .header rfl rfl (.onward (by decide) rfl rfl
      (.header rfl rfl (.ended (by decide) rfl rfl rfl)))
  exact (recordless_iff bareLog_sound chain).mpr ⟨rfl, by decide⟩

theorem opens_unless_recordless_bareLog :
    bareLog.Sound ∧ bareLog.Quiet ∧ bareLog.NumbersFit ∧
      ∃ place log', Writer.openLog .memory {} bareLog =
          (.error (.refused (.resumeWithoutLsn place)), log') ∧
        log'.segments = bareLog.segments :=
  ⟨bareLog_sound, rfl, bareLog_numbersFit,
    (opens_unless_recordless bareLog_sound rfl bareLog_numbersFit {}).2 bareLog_recordless⟩

end DirectoryStore.Log
