import DirectoryStore.Proofs.Log.Resuming

/-!
# Logs that could not be opened

Opening a log cuts away the content at which a scan stops and only then removes
the segments behind it.  When a call fails in between, the next scan reads on
into the first of these segments.  A log that could not be opened therefore keeps
its records under every plan of failures exactly when that segment has none that
could follow.
-/

namespace DirectoryStore.Log

/-! ## What a log says -/

namespace LogFiles

def under (log : LogFiles) (plan : FailurePlan Request) : LogFiles :=
  { log with injection := ⟨plan, 0⟩ }

/-- What a scan without failures reads from the lowest segment on. -/
def said (log : LogFiles) : List (Option Lsn × Bytes) :=
  let reading := readLog .memory (.startOf log.lowest) (log.under .never)
  reading.1.1.map fun record => (record.lsn, record.payload)

variable {log log' : LogFiles}

theorem Sound.under (sound : log.Sound) (plan : FailurePlan Request) :
    (log.under plan).Sound :=
  ⟨sound.ascending, sound.file_lt, sound.files_distinct⟩

theorem saying_eq {items : List Record} {records : List Found}
    (held : List.Forall₂ Record.Holds items records) :
    items.map (fun record => (record.lsn, record.payload)) =
      records.map fun found => (some found.lsn, found.payload) := by
  induction held with
  | nil => rfl
  | cons holds _ ih =>
      rw [List.map_cons, List.map_cons, ih, holds.payload_eq, Record.lsn,
        holds.anchor_eq]
      rfl

theorem Sound.said_eq (sound : log.Sound) {records : List Found} {stop : Stop}
    (reading : Reading log.segments (.startOf log.lowest) records stop) :
    log.said = records.map fun found => (some found.lsn, found.payload) := by
  obtain ⟨calls, items, last, ran, held⟩ :=
    readLog_reads (sound.under .never) rfl reading 0
  have read : readLog .memory (.startOf log.lowest) (log.under .never) =
      ((items, last), (log.under .never).atCall calls) := ran
  unfold said
  rw [read]
  exact saying_eq held

end LogFiles

/-! ## States between -/

/-- These segments are read like those of the log, as far as the records given. -/
structure StillReads (log : LogFiles) (records : List Found) (segments : Segments) :
    Prop where
  chain : ∃ stop, Chain segments log.lowest 0 (.start none) records stop
  first : ∀ number < log.lowest, segments number = none

theorem StillReads.said_eq {log log' : LogFiles} {records : List Found}
    (still : StillReads log records log'.segments) (sound' : log'.Sound) :
    log'.said = records.map fun found => (some found.lsn, found.payload) := by
  obtain ⟨stop, chain⟩ := still.chain
  obtain ⟨bytes, stored⟩ := chain.stored
  have lowest := sound'.lowest_eq stored still.first
  rw [← lowest] at chain
  exact sound'.said_eq (.whole rfl chain)

section

variable {log : LogFiles} {records : List Found} {stop : Stop}

theorem CutLike.of_cutAt (segments : Segments) (number : SegmentNumber)
    (offset : Nat) : CutLike segments (cutAt segments number offset) number offset :=
  ⟨fun _ earlier => cutAt_of_ne (Nat.ne_of_lt earlier) offset, if_pos rfl⟩

theorem CutLike.without {segments segments' : Segments} {number : SegmentNumber}
    {offset : Nat} (cut : CutLike segments segments' number offset)
    {gone : List SegmentNumber} (behind : ∀ other ∈ gone, number < other) :
    CutLike segments (segments'.without gone) number offset := by
  have kept {other : SegmentNumber} (le : other ≤ number) :
      segments'.without gone other = segments' other :=
    if_neg fun member => absurd (behind other member) (Nat.not_lt.mpr le)
  exact ⟨fun other earlier => (kept earlier.le).trans (cut.before _ earlier),
    (kept (Nat.le_refl _)).trans cut.at_cut⟩

theorem StillReads.of_chain (sound : log.Sound)
    (chain : Chain log.segments log.lowest 0 (.start none) records stop)
    {segments : Segments}
    (before : ∀ other < stop.segment, segments other = log.segments other)
    {records' : List Found} {stop' : Stop}
    (chain' : Chain segments log.lowest 0 (.start none) records' stop') :
    StillReads log records' segments := by
  refine ⟨⟨stop', chain'⟩, fun number below => ?_⟩
  have earlier := Nat.lt_of_lt_of_le below chain.segment_le
  exact (before number earlier).trans (sound.nothing_below below)

theorem StillReads.put_nil (sound : log.Sound)
    (chain : Chain log.segments log.lowest 0 (.start none) records stop)
    (headless : stop.offset = 0) :
    StillReads log records (log.segments.put stop.segment (some [])) := by
  obtain ⟨bytes, stored⟩ := chain.stop_stored
  have empty : log.segments.put stop.segment (some []) stop.segment = some [] :=
    if_pos rfl
  have before : ∀ other < stop.segment,
      log.segments.put stop.segment (some []) other = log.segments other :=
    fun _ earlier => if_neg (Nat.ne_of_lt earlier)
  have agree : Chain.AgreeUpTo log.segments (log.segments.put stop.segment (some []))
      stop.segment stop.offset :=
    ⟨before, bytes, [], stored, empty, by simp [headless], by simp [headless],
      by simp [headless]⟩
  have broken : checkHeader stop.segment [] =
      .error (.truncated (.storage (.readPastEnd 0 SegmentHeader.size 0))) := rfl
  have tail := @Chain.unheaded _ _ ((Prior.start none).following records) _ _ empty broken
  rw [← headless] at tail
  have whole := chain.resume agree tail
  rw [List.append_nil] at whole
  exact .of_chain sound chain before whole

theorem StillReads.of_ended (sound : log.Sound)
    (chain : Chain log.segments log.lowest 0 (.start none) records stop)
    (fits : stop.segment < UInt64.size) {segments : Segments}
    (cut : CutLike log.segments segments stop.segment stop.offset)
    (missing : segments (stop.segment + 1) = none) :
    StillReads log records segments :=
  .of_chain sound chain cut.before (cut.ended chain fits missing)

end

/-! ## Records behind the cut -/

/--
Records stand behind the place where a scan stops.  They follow the records
before it, and the log can be gone on with there.
-/
structure Hides (log : LogFiles) (records : List Found) (stop : Stop)
    (hidden : List Found) : Prop where
  before : Chain log.segments log.lowest 0 (.start none) records stop
  behind : ∃ stop', Chain log.segments (stop.segment + 1) 0
    ((Prior.start none).following records) hidden stop'
  some_hidden : hidden ≠ []
  resumable : records ≠ [] ∨ stop.segment = log.lowest

def HidesRecords (log : LogFiles) : Prop :=
  ∃ records stop hidden, Hides log records stop hidden

theorem HidesRecords.of_under {log : LogFiles} {plan : FailurePlan Request}
    (hides : HidesRecords (log.under plan)) : HidesRecords log := by
  obtain ⟨records, stop, hidden, before, behind, some_hidden, resumable⟩ := hides
  exact ⟨records, stop, hidden, before, behind, some_hidden, resumable⟩

section

variable {log : LogFiles} {records : List Found} {stop : Stop}

theorem resumable_of_known
    (chain : Chain log.segments log.lowest 0 (.start none) records stop)
    (known : ¬ NumberUnknown log (stop.anchor records)
      (nextLsnAfter (.startOf log.lowest) records)) :
    records ≠ [] ∨ stop.segment = log.lowest := by
  by_contra neither
  have ⟨empty, different⟩ := not_or.mp neither
  obtain rfl := not_not.mp empty
  have lower : log.lowest < stop.segment :=
    Nat.lt_of_le_of_ne chain.segment_le (Ne.symm different)
  exact known ⟨rfl, .inr ⟨log.lowest, lower, chain.stored⟩⟩

theorem known_of_resumable (sound : log.Sound)
    (chain : Chain log.segments log.lowest 0 (.start none) records stop)
    (resumable : records ≠ [] ∨ stop.segment = log.lowest) :
    ¬ NumberUnknown log (stop.anchor records)
      (nextLsnAfter (.startOf log.lowest) records) := by
  rintro ⟨unknown, room⟩
  have empty : records = [] := by
    cases last : records.getLast? with
    | none => exact List.getLast?_eq_none_iff.mp last
    | some found => simp [nextLsnAfter, last] at unknown
  have at_lowest := resumable.resolve_left (not_not.mpr empty)
  subst empty
  rcases room with inside | ⟨number, smaller, bytes, stored⟩
  · obtain ⟨found, member, -⟩ :=
      chain.exists_mem_of_lt inside fun _ => Nat.zero_lt_of_lt inside
    cases member
  · have below : number < log.lowest := at_lowest ▸ smaller
    rw [sound.nothing_below below] at stored
    cases stored

theorem StillReads.of_cutAt (sound : log.Sound)
    (chain : Chain log.segments log.lowest 0 (.start none) records stop)
    (fits : stop.segment < UInt64.size)
    (resumable : records ≠ [] ∨ stop.segment = log.lowest)
    (bare : ¬ HidesRecords log) :
    StillReads log records (cutAt log.segments stop.segment stop.offset) := by
  have cut := CutLike.of_cutAt log.segments stop.segment stop.offset
  have behind {other : SegmentNumber} (later : stop.segment < other) :
      cutAt log.segments stop.segment stop.offset other = log.segments other :=
    cutAt_of_ne (Nat.ne_of_gt later) _
  cases stored : log.segments (stop.segment + 1) with
  | none =>
      exact .of_ended sound chain fits cut ((behind (Nat.lt_succ_self _)).trans stored)
  | some bytes =>
      obtain ⟨bound, finite⟩ := log.exists_bound
      obtain ⟨hidden, stop', next⟩ := Chain.exists_of_endsBefore finite stored (.inl rfl)
        ((Prior.start none).following records)
      have nothing : hidden = [] := by
        by_contra some_hidden
        exact bare ⟨records, stop, hidden, chain, ⟨stop', next⟩, some_hidden, resumable⟩
      subst nothing
      have whole := cut.onward chain fits (fun _ => behind) next
      rw [List.append_nil] at whole
      exact .of_chain sound chain cut.before whole

theorem missing_of_removed (sound : log.Sound) {number : SegmentNumber} {offset : Nat}
    {gone : List SegmentNumber} (some_gone : gone ≠ [])
    (some_left : ∃ other rest, log.behind number = gone ++ other :: rest) :
    (cutAt log.segments number offset).without gone (number + 1) = none := by
  obtain ⟨other, rest, parts⟩ := some_left
  cases stored : log.segments (number + 1) with
  | none =>
      unfold Segments.without
      split
      · rfl
      · exact (cutAt_of_ne (Nat.succ_ne_self _) _).trans stored
  | some bytes =>
      have member : number + 1 ∈ log.behind number :=
        LogFiles.mem_behind_iff.mpr ⟨Nat.lt_succ_self _, bytes, stored⟩
      have ascending : (log.behind number).Pairwise (· < ·) := sound.ascending.filter _
      cases gone with
      | nil => exact absurd rfl some_gone
      | cons first gone =>
          have beyond : number < first :=
            (LogFiles.mem_behind_iff.mp (by rw [parts]; exact List.mem_cons_self)).1
          rw [parts, List.cons_append] at member ascending
          have first_eq : number + 1 = first := by
            rcases List.mem_cons.mp member with same | later
            · exact same
            · have := (List.pairwise_cons.mp ascending).1 _ later
              grind
          exact if_pos (first_eq ▸ List.mem_cons_self)

end

/-! ## Logs that keep their records -/

section

variable {log log' : LogFiles} {error : Error}

/-- The numbers of segments are words of 64 bits. -/
def LogFiles.NumbersFit (log : LogFiles) : Prop :=
  ∀ number bytes, log.segments number = some bytes → number < UInt64.size

theorem StillReads.same {records : List Found} {stop : Stop} (sound : log.Sound)
    (chain : Chain log.segments log.lowest 0 (.start none) records stop) :
    StillReads log records log.segments :=
  .of_chain sound chain (fun _ _ => rfl) chain

theorem StillReads.of_cutting {records : List Found} {stop : Stop} (sound : log.Sound)
    (chain : Chain log.segments log.lowest 0 (.start none) records stop)
    (kept : StillReads log records (cutAt log.segments stop.segment stop.offset))
    (failed : FailedAmong log (cutFailures log.segments stop.segment stop.offset)
      error log') :
    StillReads log records log'.segments := by
  obtain ⟨⟨kinds, segments⟩, member, -, becomes⟩ := failed
  rw [becomes.segments_eq]
  unfold cutFailures startFailures at member
  split at member
  case isTrue short =>
      have headless : stop.offset = 0 :=
        chain.stop_place.resolve_right (Nat.not_le.mpr short)
      have headed : cutAt log.segments stop.segment stop.offset =
          log.segments.put stop.segment (some (headerBytes stop.segment)) := by
        rw [cutAt, cutBytes, if_pos short]
      rw [headed] at kept
      simp only [List.mem_cons, Prod.mk.injEq, List.not_mem_nil, or_false] at member
      rcases member with ⟨-, rfl⟩ | ⟨-, rfl⟩ | ⟨-, rfl⟩
      · exact .same sound chain
      · exact .put_nil sound chain headless
      · exact kept
  case isFalse =>
      have unchanged : segments = log.segments := by
        simp only [List.mem_cons, Prod.mk.injEq, List.not_mem_nil, or_false] at member
        rcases member with ⟨-, same⟩ | ⟨-, same⟩ | ⟨-, same⟩ <;> exact same
      subst unchanged
      exact .same sound chain

theorem stillReads_of_notOpened {records : List Found} {stop : Stop} (sound : log.Sound)
    (fits : log.NumbersFit) (bare : ¬ HidesRecords log)
    (chain : Chain log.segments log.lowest 0 (.start none) records stop)
    (failed : NotOpened log (stop.anchor records)
      (nextLsnAfter (.startOf log.lowest) records) error log') :
    StillReads log records log'.segments := by
  have unchanged := StillReads.same sound chain
  obtain ⟨bytes, stored⟩ := chain.stop_stored
  have number_lt := fits _ _ stored
  have cut (known : ¬ NumberUnknown log (stop.anchor records)
      (nextLsnAfter (.startOf log.lowest) records)) :
      StillReads log records (cutAt log.segments stop.segment stop.offset) :=
    .of_cutAt sound chain number_lt (resumable_of_known chain known) bare
  rcases failed with ⟨-, becomes⟩ | failed
  · rwa [becomes.segments_eq]
  cases failed with
  | refused _ _ becomes => rwa [becomes.segments_eq]
  | uncut failed => rwa [failed.2.segments_eq]
  | cutting known failed => exact .of_cutting sound chain (cut known) failed
  | unlisted known failed =>
      rw [failed.2.segments_eq]
      exact cut known
  | @removing known gone some_left _ failed =>
      rw [failed.2.segments_eq]
      have later : ∀ other ∈ gone, stop.segment < other := by
        intro other member
        obtain ⟨_, _, parts⟩ := some_left
        have behind : other ∈ log.behind stop.segment := by
          have parts : log.behind stop.segment = _ := parts
          rw [parts]
          exact List.mem_append_left _ member
        exact (LogFiles.mem_behind_iff.mp behind).1
      by_cases none_gone : gone = []
      · subst none_gone
        rw [Segments.without_nil]
        exact cut known
      · exact .of_ended sound chain number_lt
          ((CutLike.of_cutAt log.segments stop.segment stop.offset).without later)
          (missing_of_removed sound none_gone some_left)

theorem said_eq_nil_of_empty (sound' : log'.Sound)
    (failed : FailedAmong log (([.listSegments], log.segments) ::
      startFailures log.segments 0) error log') (empty : log.memory = []) :
    log'.said = [] := by
  have missing (number : SegmentNumber) : log.segments number = none := by
    rw [LogFiles.segments_eq_none_iff, empty]
    rfl
  obtain ⟨⟨kinds, segments⟩, member, -, becomes⟩ := failed
  have stored_eq {bytes : Bytes} (same : segments = log.segments.put 0 (some bytes)) :
      log'.segments 0 = some bytes ∧ ∀ other ≠ 0, log'.segments other = none := by
    have held : log'.segments = log.segments.put 0 (some bytes) :=
      becomes.segments_eq.trans same
    rw [held]
    exact ⟨if_pos rfl, fun other different => (if_neg different).trans (missing other)⟩
  have nothing_read {bytes : Bytes} (same : segments = log.segments.put 0 (some bytes))
      {stop : Stop} (chain : Chain log'.segments 0 0 (.start none) [] stop) :
      log'.said = [] := by
    have lowest := sound'.lowest_eq (stored_eq same).1 fun _ below =>
      absurd below (Nat.not_lt_zero _)
    have whole : Chain log'.segments log'.lowest 0 (.start none) [] stop := by
      rw [lowest]
      exact chain
    exact sound'.said_eq (.whole rfl whole)
  simp only [startFailures, List.mem_cons, Prod.mk.injEq, List.not_mem_nil, or_false] at member
  have cases : segments = log.segments ∨ segments = log.segments.put 0 (some []) ∨
      segments = log.segments.put 0 (some (headerBytes 0)) := by
    rcases member with ⟨-, same⟩ | ⟨-, same⟩ | ⟨-, same⟩ | ⟨-, same⟩ <;> simp [same]
  rcases cases with same | same | same
  · have missing' : log'.segments log'.lowest = none := by
      rw [becomes.segments_eq, same]
      exact missing _
    exact sound'.said_eq (.missing missing')
  · have broken : checkHeader 0 [] =
        .error (.truncated (.storage (.readPastEnd 0 SegmentHeader.size 0))) := rfl
    exact nothing_read same (.unheaded (stored_eq same).1 broken)
  · have headed := headed_headerBytes (show 0 < UInt64.size by decide) []
    rw [List.append_nil] at headed
    obtain ⟨stored, missing⟩ := stored_eq same
    exact nothing_read same (.header stored (checkHeader_eq_ok_iff.mpr headed)
      (.ended (Nat.le_refl _) stored (length_headerBytes 0) (missing 1 (by decide))))

theorem said_eq_of_failed (sound : log.Sound) (fits : log.NumbersFit)
    (bare : ¬ HidesRecords log) {plan : FailurePlan Request}
    (noShortRead : plan.NoShortRead) {settings : Settings}
    (failed : Writer.openLog .memory settings (log.under plan) = (.error error, log')) :
    log'.said = log.said := by
  have sound_under := sound.under plan
  cases row : log.memory.map (·.1) with
  | nil =>
      have empty : log.memory = [] := List.map_eq_nil_iff.mp row
      have left := (openLog_leads_of_empty sound_under settings empty).of_error failed
      have missing : log.segments log.lowest = none := by
        rw [LogFiles.segments_eq_none_iff, empty]
        rfl
      have before : log.said = [] := sound.said_eq (.missing missing)
      have ⟨_, _, _, becomes⟩ := left
      rw [before]
      exact said_eq_nil_of_empty becomes.sound left empty
  | cons lowest others =>
      have lowest_eq : log.lowest = lowest := by simp [LogFiles.lowest, row]
      obtain ⟨bytes, stored⟩ : ∃ bytes, log.segments log.lowest = some bytes :=
        LogFiles.mem_numbers_iff.mp (by rw [lowest_eq, row]; exact List.mem_cons_self)
      obtain ⟨bound, finite⟩ := log.exists_bound
      obtain ⟨records, stop, chain⟩ :=
        Chain.exists_of_endsBefore finite stored (.inl rfl) (.start none)
      rw [← lowest_eq] at row
      have left := (openLog_leads sound_under noShortRead settings row chain).of_error failed
      have still := stillReads_of_notOpened sound_under fits (bare ∘ .of_under) chain left
      rw [sound.said_eq (.whole rfl chain), still.said_eq left.sound]

/-! ## Logs that do not -/

def refuseRemovals : FailurePlan Request := fun _ request =>
  if request.call.kind = .removeSegment then some .injected else none

theorem noShortRead_refuseRemovals : refuseRemovals.NoShortRead := by
  intro callNumber request fault planned
  unfold refuseRemovals at planned
  split at planned
  · obtain rfl := Option.some.inj planned
    rfl
  · cases planned

theorem refuses_removals {kinds : List CallKind} {fault : AccessFault}
    (injected : (log.under refuseRemovals).Injects kinds fault) :
    .removeSegment ∈ kinds := by
  obtain ⟨callNumber, request, cause, planned, member, -⟩ := injected
  have planned : refuseRemovals callNumber request = some cause := planned
  unfold refuseRemovals at planned
  split at planned
  case isTrue removes => rwa [← removes]
  case isFalse => cases planned

theorem lets_remove_none {gone : List SegmentNumber}
    (let_through : LetsRemove (log.under refuseRemovals) gone) : gone = [] := by
  cases gone with
  | nil => rfl
  | cons number rest =>
      obtain ⟨callNumber, planned⟩ := let_through number List.mem_cons_self
      cases planned

theorem cut_of_refused {records : List Found} {stop : Stop}
    (known : ¬ NumberUnknown log (stop.anchor records)
      (nextLsnAfter (.startOf log.lowest) records))
    (failed : NotOpened (log.under refuseRemovals) (stop.anchor records)
      (nextLsnAfter (.startOf log.lowest) records) error log') :
    log'.segments = cutAt log.segments stop.segment stop.offset := by
  rcases failed with ⟨⟨fault, injected, -⟩, -⟩ | failed
  · have := refuses_removals injected
    simp [scanCalls] at this
  cases failed with
  | refused unknown => exact absurd ⟨unknown.unknown, unknown.room⟩ known
  | uncut failed | unlisted _ failed =>
      obtain ⟨⟨fault, injected, -⟩, -⟩ := failed
      have := refuses_removals injected
      simp at this
  | cutting _ failed =>
      obtain ⟨⟨kinds, segments⟩, member, ⟨fault, injected, -⟩, -⟩ := failed
      have removes : CallKind.removeSegment ∈ kinds := refuses_removals injected
      unfold cutFailures startFailures at member
      split at member <;>
        simp only [List.mem_cons, Prod.mk.injEq, List.not_mem_nil, or_false] at member <;>
        rcases member with ⟨rfl, -⟩ | ⟨rfl, -⟩ | ⟨rfl, -⟩ <;> simp at removes
  | removing _ _ let_through failed =>
      obtain rfl := lets_remove_none let_through
      rw [failed.2.segments_eq, Segments.without_nil]
      rfl

/-- The hidden records are read once the log was cut and nothing else was done. -/
theorem said_ne_of_hides (sound : log.Sound) (fits : log.NumbersFit)
    {records hidden : List Found} {stop : Stop} (hides : Hides log records stop hidden)
    (settings : Settings) :
    ∃ error log', Writer.openLog .memory settings (log.under refuseRemovals) =
      (.error error, log') ∧ log'.said ≠ log.said := by
  have chain := hides.before
  obtain ⟨stop', next⟩ := hides.behind
  obtain ⟨bytes, stored⟩ := chain.stop_stored
  obtain ⟨next_bytes, next_stored⟩ := next.stored
  have known := known_of_resumable sound chain hides.resumable
  obtain ⟨lowest_bytes, lowest_stored⟩ := chain.stored
  obtain ⟨others, row⟩ := LogFiles.row_of_stored lowest_stored
  have leads := openLog_leads (sound.under refuseRemovals) noShortRead_refuseRemovals
    settings row chain
  rcases ran : Writer.openLog .memory settings (log.under refuseRemovals) with
    ⟨error | writer, log'⟩
  · have left := leads.of_error ran
    have cut := CutLike.of_cutAt log.segments stop.segment stop.offset
    have whole := cut.onward chain (fits _ _ stored)
      (fun _ later => cutAt_of_ne (Nat.ne_of_gt later) _) next
    have still := StillReads.of_chain sound chain cut.before whole
    rw [← cut_of_refused known left] at still
    refine ⟨error, log', rfl, fun same => hides.some_hidden ?_⟩
    rw [still.said_eq left.sound, sound.said_eq (.whole rfl chain)] at same
    have lengths := congrArg List.length same
    simpa using lengths
  · have resumed := leads.of_ok ran
    have none_behind := lets_remove_none resumed.let_through
    have member : stop.segment + 1 ∈ (log.under refuseRemovals).behind stop.segment :=
      LogFiles.mem_behind_iff.mpr ⟨Nat.lt_succ_self _, next_bytes, next_stored⟩
    have none_behind : (log.under refuseRemovals).behind stop.segment = [] := none_behind
    simp [none_behind] at member

end

/--
A log that could not be opened says what it said before, whichever calls were
made to fail, exactly when it hides no records.
-/
theorem failedOpening_keeps_records_iff {log : LogFiles} (sound : log.Sound)
    (fits : log.NumbersFit) :
    (∀ (plan : FailurePlan Request) (settings : Settings) (error : Error)
        (log' : LogFiles), plan.NoShortRead →
      Writer.openLog .memory settings (log.under plan) = (.error error, log') →
      log'.said = log.said) ↔ ¬ HidesRecords log := by
  constructor
  · rintro keeps ⟨records, stop, hidden, hides⟩
    obtain ⟨error, log', failed, different⟩ := said_ne_of_hides sound fits hides {}
    exact different (keeps _ _ _ _ noShortRead_refuseRemovals failed)
  · intro bare plan settings error log' noShortRead failed
    exact said_eq_of_failed sound fits bare noShortRead failed

/-- A torn segment with a record before the tear, and a segment behind it. -/
def tornLog : LogFiles where
  system := { FileSystem.empty "" with
    files := [.ofBytes (headerBytes 0 ++ (recordBytes 1 [7] ++ [0xFF])),
      .ofBytes (headerBytes 1 ++ recordBytes 2 [8])] }
  memory := [(0, 0), (1, 1)]
  injection := .never

theorem tornLog_lookup {number : SegmentNumber} {file : FileId}
    (stored : tornLog.memory.lookup number = some file) :
    number = 0 ∧ file = 0 ∨ number = 1 ∧ file = 1 := by
  have stored : [((0 : SegmentNumber), (0 : FileId)), (1, 1)].lookup number = some file :=
    stored
  rw [LogFiles.lookup_cons, LogFiles.lookup_cons] at stored
  grind

theorem tornLog_sound : tornLog.Sound := by
  refine ⟨by decide, fun stored => ?_, fun stored stored' => ?_⟩
  · rcases tornLog_lookup stored with ⟨-, rfl⟩ | ⟨-, rfl⟩ <;> decide
  · have := tornLog_lookup stored
    have := tornLog_lookup stored'
    grind

theorem tornLog_numbersFit : tornLog.NumbersFit := by
  intro number bytes stored
  obtain ⟨file, present, -⟩ := LogFiles.segments_eq_some_iff.mp stored
  rcases tornLog_lookup present with ⟨rfl, -⟩ | ⟨rfl, -⟩ <;> decide

theorem tornLog_hides : HidesRecords tornLog := by
  let tear : Stop := ⟨some (.truncated (.storage (.readPastEnd 45 24 46))), 0, 45⟩
  have before : Chain tornLog.segments 0 0 (.start none) [⟨0, 12, 1, [7]⟩] tear :=
    .header rfl rfl (.record (Nat.le_refl _) rfl rfl
      (.damaged (by decide) rfl (by decide) rfl))
  have behind : Chain tornLog.segments 1 0 (.after 1) [⟨1, 12, 2, [8]⟩] ⟨none, 1, 45⟩ :=
    .header rfl rfl (.record (Nat.le_refl _) rfl rfl (.ended (by decide) rfl rfl rfl))
  exact ⟨_, tear, _, before, ⟨_, behind⟩, nofun, .inl nofun⟩

theorem failedOpening_loses_tornLog :
    tornLog.Sound ∧ tornLog.NumbersFit ∧
      ¬ ∀ (plan : FailurePlan Request) (settings : Settings) (error : Error)
          (log' : LogFiles), plan.NoShortRead →
        Writer.openLog .memory settings (tornLog.under plan) = (.error error, log') →
        log'.said = tornLog.said :=
  ⟨tornLog_sound, tornLog_numbersFit, fun keeps =>
    (failedOpening_keeps_records_iff tornLog_sound tornLog_numbersFit).mp keeps
      tornLog_hides⟩

end DirectoryStore.Log
