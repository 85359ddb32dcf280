import DirectoryStore.Proofs.Log.Attempts

/-!
# How segments fill up

Sessions are run on an empty log while calls fail.  A writer goes on to the next segment
only when the one it writes to holds a record and has no room for another, so a segment
that holds nothing but a header, or not even that, has no other behind it.  `Filled` says
this of the bytes of the segments alone.  It stays true whatever an append or an opening
does, and it is why every segment up to the one of an acknowledged record holds a record.
-/

namespace DirectoryStore.Log

/-! ## Appends of a run -/

structure AppendStep where
  settings : Settings
  payload : Bytes
  before : LogFiles
  result : Except Error LogAnchor
  after : LogFiles

def Writer.appendStep (settings : Settings) (payload : Bytes) :
    StateM (LogFiles × Writer) AppendStep := fun state =>
  let (result, after) := append payload state
  (⟨settings, payload, state.1, result, after.1⟩, after)

def Writer.appendSteps (settings : Settings) :
    List Bytes → StateM (LogFiles × Writer) (List AppendStep)
  | [] => return []
  | payload :: rest => do
      let step ← appendStep settings payload
      return step :: (← appendSteps settings rest)

def Session.appendSteps (session : Session) : StateM LogFiles (List AppendStep) := fun log =>
  match Writer.openLog .memory session.settings log with
  | (.error _, log) => ([], log)
  | (.ok writer, log) =>
      let (steps, (log, _)) :=
        Writer.appendSteps session.settings session.payloads (log, writer)
      (steps, log)

def appendStepsOf : List Session → StateM LogFiles (List AppendStep)
  | [] => return []
  | session :: rest => do
      let steps ← session.appendSteps
      return steps ++ (← appendStepsOf rest)

/-- The places and payloads of the records that a scan finds from the first segment on. -/
def LogFiles.placed (log : LogFiles) : List (Option LogAnchor × Bytes) :=
  log.scanned.map fun record => (record.anchor, record.payload)

/-! ## What an acknowledged append leaves behind -/

/-- The segment has its own header, and a scan finds a record in it. -/
structure LogFiles.HoldsRecord (log : LogFiles) (number : SegmentNumber) (bytes : Bytes) :
    Prop where
  stored : log.segments number = some bytes
  headed : Headed number bytes
  record : ∃ offset lsn payload, RecordAt bytes offset lsn payload ∧
    (some ⟨number, offset, some lsn⟩, payload) ∈ log.placed

namespace AppendStep

/-- The segment before this one holds a record, and has no room for another. -/
structure RollsInto (step : AppendStep) (number : SegmentNumber) (previous : SegmentNumber)
    (bytes : Bytes) : Prop where
  number_eq : number = previous + 1
  stored : step.before.segments previous = some bytes
  holds_record : SegmentHeader.size < bytes.length
  too_long : step.settings.maxSegmentSize <
    bytes.length + (frameSize + step.payload.length)

/-- The record went behind these bytes, which were the segment before it was written. -/
structure PutsBehind (step : AppendStep) (anchor : LogAnchor) (lsn : Lsn) (base : Bytes) :
    Prop where
  anchor_eq : anchor = ⟨anchor.segment, base.length, some lsn⟩
  header_le : SegmentHeader.size ≤ base.length
  before : step.before.segments anchor.segment = some base ∨
    base = headerBytes anchor.segment ∧
      ∃ previous bytes, step.RollsInto anchor.segment previous bytes
  after : step.after.segments anchor.segment = some (base ++ recordBytes lsn step.payload)
  /-- The segment keeps to the limit of its session, or holds this one record only. -/
  room : (base ++ recordBytes lsn step.payload).length ≤ step.settings.maxSegmentSize ∨
    base = headerBytes anchor.segment

/-- The record is in its place, and it stands in the last of an unbroken row of segments. -/
structure FillsInOrder (step : AppendStep) (anchor : LogAnchor) : Prop where
  placed : ∃ lsn base, step.PutsBehind anchor lsn base
  row : ∀ number ≤ anchor.segment, ∃ bytes, step.after.HoldsRecord number bytes
  last : ∀ place payload, (some place, payload) ∈ step.after.placed →
    place.segment ≤ anchor.segment

end AppendStep

/-! ## Segments with records in front of others -/

def Long (segments : Segments) (number : SegmentNumber) : Prop :=
  ∃ bytes, segments number = some bytes ∧ SegmentHeader.size < bytes.length

/-- A segment that has another behind it is longer than its header. -/
def Filled (segments : Segments) : Prop :=
  ∀ number, segments (number + 1) ≠ none → Long segments number

namespace Filled

variable {segments : Segments} {number : SegmentNumber} {bytes left : Bytes}

theorem of_empty (empty : ∀ number, segments number = none) : Filled segments :=
  fun number some_next => absurd (empty (number + 1)) some_next

theorem put (filled : Filled segments)
    (before : ∀ previous, previous + 1 = number → Long segments previous)
    (behind : segments (number + 1) ≠ none → SegmentHeader.size < left.length) :
    Filled (segments.put number (some left)) := by
  intro other some_next
  by_cases here : other = number
  · subst here
    have next_same : segments.put other (some left) (other + 1) = segments (other + 1) :=
      if_neg (Nat.succ_ne_self other)
    exact ⟨left, if_pos rfl, behind (next_same ▸ some_next)⟩
  · have long : Long segments other := by
      by_cases next : other + 1 = number
      · exact before other next
      · rw [Segments.put, if_neg next] at some_next
        exact filled other some_next
    obtain ⟨bytes, stored, inside⟩ := long
    exact ⟨bytes, (if_neg here).trans stored, inside⟩

theorem long_before (filled : Filled segments) (stored : segments number = some bytes)
    (previous : SegmentNumber) (next : previous + 1 = number) : Long segments previous := by
  subst next
  exact filled previous (by simp [stored])

theorem append (filled : Filled segments) (stored : segments number = some bytes)
    (more : Bytes) : Filled (segments.put number (some (bytes ++ more))) := by
  refine filled.put (filled.long_before stored) fun some_next => ?_
  obtain ⟨bytes', stored', inside⟩ := filled number some_next
  obtain rfl := Option.some.inj (stored.symm.trans stored')
  rw [List.length_append]
  omega

theorem put_last (filled : Filled segments) (stored : segments number = some bytes)
    (missing : segments (number + 1) = none) : Filled (segments.put number (some left)) :=
  filled.put (filled.long_before stored) fun some_next => absurd missing some_next

theorem begun (filled : Filled segments) (long : Long segments number)
    (missing : segments (number + 1 + 1) = none) : Filled (segments.begun number left) :=
  filled.put (fun _ next => Nat.succ.inj next ▸ long) fun some_next => absurd missing some_next

theorem first (empty : ∀ number, segments number = none) :
    Filled (segments.put 0 (some left)) :=
  (of_empty empty).put nofun fun some_next => absurd (empty _) some_next

end Filled

/-! ## Rows of segments -/

section

variable {segments : Segments} {number : SegmentNumber} {offset : Nat} {prior : Prior}
  {records : List Found} {stop : Stop}

theorem Chain.headed_upto (chain : Chain segments number offset prior records stop)
    (eof : stop.fault = none) {passed : SegmentNumber} (upto : passed ≤ stop.segment)
    (ahead : number < passed ∨ number = passed ∧ offset = 0) :
    ∃ bytes, segments passed = some bytes ∧ Headed passed bytes := by
  have behind {place : Nat} (past_header : SegmentHeader.size ≤ place) : place ≠ 0 :=
    Nat.ne_of_gt (Nat.lt_of_lt_of_le (by decide) past_header)
  induction chain with
  | @header number _ bytes _ stop stored checked _ ih =>
      by_cases here : number = passed
      · exact ⟨bytes, here ▸ stored, here ▸ checkHeader_eq_ok_iff.mp checked⟩
      · exact ih eof upto (.inl (by grind))
  | record past_header _ _ _ ih =>
      exact ih eof upto (ahead.imp_right fun ⟨_, front⟩ => absurd front (behind past_header))
  | @onward number offset _ bytes _ _ past_header _ _ _ ih =>
      have later : number < passed :=
        ahead.resolve_right fun ⟨_, front⟩ => behind past_header front
      exact ih eof upto (by grind)
  | ended past_header =>
      have later := ahead.resolve_right fun ⟨_, front⟩ => behind past_header front
      exact absurd upto (Nat.not_le.mpr later)
  | unheaded | damaged | pastEnd => cases eof

theorem Chain.exists_mem_of_passed (chain : Chain segments number offset prior records stop)
    {passed : SegmentNumber} {bytes : Bytes} (stored : segments passed = some bytes)
    (long : SegmentHeader.size < bytes.length) (before : passed < stop.segment)
    (ahead : number < passed ∨ number = passed ∧ offset < bytes.length) :
    ∃ found ∈ records, found.segment = passed := by
  induction chain with
  | header _ _ _ ih => exact ih before (ahead.imp_right fun ⟨here, _⟩ => ⟨here, long⟩)
  | @record number _ _ _ _ _ _ _ _ _ _ _ ih =>
      by_cases here : number = passed
      · exact ⟨_, List.mem_cons_self, here⟩
      · obtain ⟨found, member, same⟩ := ih before (.inl (by grind))
        exact ⟨found, List.mem_cons_of_mem _ member, same⟩
  | @onward number offset _ bytes' _ _ _ stored' at_end _ ih =>
      have later : number < passed := ahead.resolve_right fun ⟨here, inside⟩ => by
        subst here
        obtain rfl := Option.some.inj (stored.symm.trans stored')
        omega
      exact ih before (by grind)
  | unheaded | damaged | pastEnd | ended => grind

theorem Headed.eq_headerBytes {bytes : Bytes} (headed : Headed number bytes)
    (short : bytes.length ≤ SegmentHeader.size) : bytes = headerBytes number := by
  have length : bytes.length = SegmentHeader.size := Nat.le_antisymm short headed.inside
  have whole : bytes.slice 0 SegmentHeader.size = bytes := Bytes.slice_all length
  obtain ⟨-, number_eq, magic_eq⟩ := headed
  rw [whole] at number_eq magic_eq
  have header_eq : SegmentHeader.decode bytes = .ofNumber number := by
    rw [SegmentHeader.ofNumber, ← magic_eq, ← number_eq, UInt64.ofNat_toNat]
  rw [headerBytes, ← header_eq, SegmentHeader.encode_decode length]

end

/-! ## Opening -/

section

variable {log log' : LogFiles} {records : List Found}

theorem Remains.opens_filled (remains : Remains log records) (filled : Filled log.segments)
    (settings : Settings) :
    Leads (Writer.openLog .memory settings) log
      (fun writer log' => Filled log'.segments ∧
        writer.maxSegmentSize = settings.maxSegmentSize)
      (fun _ log' => Filled log'.segments) := by
  rcases remains.ends with ⟨-, empty⟩ | ⟨stop, stopped⟩
  · refine (openLog_leads_of_empty remains.sound settings (LogFiles.memory_eq_nil empty)).mono
      ?_ ?_
    · rintro writer log' ⟨writer_eq, -, -, becomes⟩
      exact ⟨becomes.segments_eq ▸ .first empty, by rw [writer_eq]; rfl⟩
    · rintro error log' ⟨state, member, failed⟩
      rcases List.mem_cons.mp member with rfl | member
      · exact failed.2.segments_eq ▸ filled
      · rcases startSegment_failed ⟨state, member, failed⟩ rfl with becomes | ⟨left, -, becomes⟩
        · exact becomes.segments_eq ▸ filled
        · exact becomes.segments_eq ▸ .first empty
  obtain ⟨first_bytes, first_stored⟩ := stopped.chain.stored
  obtain ⟨others, row⟩ := LogFiles.row_of_stored first_stored
  rw [remains.sound.lowest_eq first_stored nofun] at row
  obtain ⟨bytes, stored⟩ := stopped.chain.stop_stored
  have changed (left : Bytes) : Filled (log.segments.put stop.segment (some left)) :=
    filled.put_last stored (stopped.last _ (Nat.lt_succ_self _))
  refine (openLog_leads remains.sound remains.noShortRead settings row stopped.chain).mono ?_ ?_
  · rintro writer log' ⟨writer_eq, -, -, becomes, -⟩
    have cut : log.segments.cutAfter (stop.anchor records) =
        cutAt log.segments stop.segment stop.offset := stopped.cutAfter_eq _
    rw [becomes.segments_eq, cut]
    exact ⟨changed _, by rw [writer_eq]; rfl⟩
  · intro error log' failed
    rcases stopped.not_opened failed with becomes | ⟨-, left, -, becomes⟩ | becomes <;>
      rw [becomes.segments_eq]
    · exact filled
    · exact changed left
    · exact changed _

/-! ## Appending -/

structure Filling (settings : Settings) (log : LogFiles) (writer : Writer)
    (records : List Found) (bytes : Bytes) : Prop extends Working log writer records bytes where
  filled : Filled log.segments
  limit_eq : writer.maxSegmentSize = settings.maxSegmentSize

variable {settings : Settings} {writer writer' : Writer} {bytes payload : Bytes}

theorem Filling.long_of_rolls (filling : Filling settings log writer records bytes) {size : Nat}
    (rolls : writer.mustRollOver bytes.length size = true) :
    Long log.segments writer.segment.number :=
  ⟨bytes, filling.grown.stored, Writer.full_of_rolls rolls⟩

theorem Filling.filled_record (filling : Filling settings log writer records bytes)
    (payload more : Bytes) :
    Filled (log.segments.put (recordPlace writer bytes payload).1
      (some ((recordPlace writer bytes payload).2 ++ more))) := by
  unfold recordPlace
  split
  · rename_i rolls
    exact filling.filled.begun (filling.long_of_rolls rolls)
      (filling.grown.last _ (Nat.lt_succ_self _))
  · exact filling.filled.append filling.grown.stored more

theorem Writer.rolls_iff {size : Nat} : writer.mustRollOver bytes.length size = true ↔
    SegmentHeader.size < bytes.length ∧ writer.maxSegmentSize < bytes.length + size := by
  rw [Writer.mustRollOver, Bool.and_eq_true, decide_eq_true_eq, decide_eq_true_eq]

theorem Working.headed (working : Working log writer records bytes) {number : SegmentNumber}
    (upto : number ≤ writer.segment.number) :
    ∃ bytes, log.segments number = some bytes ∧ Headed number bytes := by
  obtain ⟨bytes', stored, headed⟩ := working.grown.chain.headed_upto rfl upto
    ((Nat.eq_or_lt_of_le (Nat.zero_le number)).symm.imp_right fun here => ⟨here, rfl⟩)
  exact ⟨bytes', (Segments.upTo_of_le upto).symm.trans stored, headed⟩

theorem Filling.putsBehind (filling : Filling settings log writer records bytes)
    {anchor : LogAnchor}
    (appended : Appended log writer (recordPlace writer bytes payload).1
      (recordPlace writer bytes payload).2 payload anchor log' writer') :
    AppendStep.PutsBehind ⟨settings, payload, log, .ok anchor, log'⟩ anchor writer.nextLsn
      (recordPlace writer bytes payload).2 := by
  have stored := filling.grown.stored
  obtain ⟨bytes', stored', headed⟩ := filling.headed (Nat.le_refl writer.segment.number)
  obtain rfl := Option.some.inj (stored.symm.trans stored')
  obtain ⟨rfl, -, -, -, becomes⟩ := appended
  have after : log'.segments (recordPlace writer bytes payload).1 =
      some ((recordPlace writer bytes payload).2 ++ recordBytes writer.nextLsn payload) := by
    rw [becomes.segments_eq]
    exact if_pos rfl
  refine ⟨rfl, ?_, ?_, after, ?_⟩ <;> unfold recordPlace <;> split <;> rename_i rolls
  · simp
  · exact headed.inside
  · obtain ⟨holds_record, too_long⟩ := Writer.rolls_iff.mp rolls
    rw [filling.limit_eq] at too_long
    exact .inr ⟨rfl, _, bytes, rfl, stored, holds_record, too_long⟩
  · exact .inl stored
  · exact .inr rfl
  · rw [Writer.rolls_iff, not_and, filling.limit_eq, Nat.not_lt] at rolls
    by_cases long : SegmentHeader.size < bytes.length
    · rw [List.length_append, length_recordBytes]
      exact .inl (rolls long)
    · exact .inr (headed.eq_headerBytes (Nat.le_of_not_lt long))

theorem placed_eq_of_held {items : List Record} (held : List.Forall₂ Record.Holds items records) :
    items.map (fun record => (record.anchor, record.payload)) =
      records.map fun found => (some found.anchor, found.payload) := by
  induction held with
  | nil => rfl
  | cons holds _ ih => rw [List.map_cons, List.map_cons, ih, holds.payload_eq, holds.anchor_eq]

theorem Working.placed_eq (working : Working log writer records bytes)
    (fits : records.length < UInt64.size) :
    log.placed = records.map fun found => (some found.anchor, found.payload) :=
  placed_eq_of_held (working.remains fits).scanned

theorem Working.record_of_mem (working : Working log writer records bytes)
    (fits : records.length < UInt64.size) {found : Found} (member : found ∈ records) :
    ∃ bytes, log.HoldsRecord found.segment bytes := by
  have upto : found.segment ≤ writer.segment.number :=
    working.grown.chain.segment_le_of_mem member
  obtain ⟨bytes', stored, headed⟩ := working.headed upto
  have placed : (some found.anchor, found.payload) ∈ log.placed := by
    rw [working.placed_eq fits]
    exact List.mem_map.mpr ⟨found, member, rfl⟩
  obtain ⟨front, back, rfl⟩ := List.append_of_mem member
  obtain ⟨bytes'', stored', read, -⟩ := working.grown.chain.finds
  obtain rfl : bytes' = bytes'' :=
    Option.some.inj (stored.symm.trans ((Segments.upTo_of_le upto).symm.trans stored'))
  exact ⟨bytes', stored, headed, found.offset, found.lsn, found.payload,
    (recordAt_eq_ok_iff.mp read).1, placed⟩

/-- Every segment up to the one of the last record holds a record. -/
theorem Filling.row (filling : Filling settings log writer records bytes)
    (fits : records.length < UInt64.size) {found : Found} (member : found ∈ records)
    (here : found.segment = writer.segment.number) {number : SegmentNumber}
    (upto : number ≤ writer.segment.number) :
    ∃ bytes, log.HoldsRecord number bytes := by
  rcases Nat.eq_or_lt_of_le upto with rfl | before
  · exact here ▸ filling.record_of_mem fits member
  · obtain ⟨next_bytes, next_stored, -⟩ := filling.headed (Nat.succ_le_of_lt before)
    obtain ⟨bytes', stored, long⟩ := filling.filled number (by simp [next_stored])
    have stored' := (Segments.upTo_of_le upto).trans stored
    obtain ⟨found', member', rfl⟩ :=
      filling.grown.chain.exists_mem_of_passed stored' long before
        ((Nat.eq_or_lt_of_le (Nat.zero_le number)).symm.imp_right fun front =>
          ⟨front, Nat.zero_lt_of_lt long⟩)
    exact filling.record_of_mem fits member'

theorem Filling.appended (filling : Filling settings log writer records bytes)
    (storable : Storable payload) (fits : records.length + 1 < UInt64.size) {anchor : LogAnchor}
    (appended : Appended log writer (recordPlace writer bytes payload).1
      (recordPlace writer bytes payload).2 payload anchor log' writer') :
    ∃ records' bytes', records'.length = records.length + 1 ∧
      Filling settings log' writer' records' bytes' ∧
      AppendStep.FillsInOrder ⟨settings, payload, log, .ok anchor, log'⟩ anchor := by
  have puts := filling.putsBehind appended
  obtain ⟨found, bytes', -, -, anchor_eq, -, -, working'⟩ :=
    filling.toWorking.appended storable fits appended
  obtain ⟨place_eq, writer_eq, number_eq, -, becomes⟩ := appended
  have longer : (records ++ [found]).length = records.length + 1 := by simp
  have filling' : Filling settings log' writer' (records ++ [found]) bytes' := by
    refine ⟨working', ?_, by rw [writer_eq]; exact filling.limit_eq⟩
    rw [becomes.segments_eq]
    exact filling.filled_record payload _
  have segment_eq : anchor.segment = writer'.segment.number := by rw [place_eq, number_eq]
  have here : found.segment = writer'.segment.number := by rw [← segment_eq, anchor_eq]; rfl
  rw [← longer] at fits
  refine ⟨records ++ [found], bytes', longer, filling', ⟨_, _, puts⟩, fun number upto => ?_,
    fun place payload' member => ?_⟩
  · exact filling'.row fits (by simp) here (segment_eq ▸ upto)
  · rw [working'.placed_eq fits] at member
    obtain ⟨other, other_member, same⟩ := List.mem_map.mp member
    obtain rfl : other.anchor = place := Option.some.inj (congrArg Prod.fst same)
    rw [segment_eq]
    exact working'.grown.chain.segment_le_of_mem other_member

theorem Filling.unfinished (filling : Filling settings log writer records bytes)
    (storable : Storable payload) (fits : records.length + 1 < UInt64.size)
    (unfinished : Unfinished log writer bytes payload log' writer') :
    ∃ records' bytes', records'.length ≤ records.length + 1 ∧
      Filling settings log' writer' records' bytes' := by
  have changed : Filled log'.segments ∧ writer'.maxSegmentSize = writer.maxSegmentSize := by
    have missing := filling.grown.last _ (Nat.lt_succ_self _)
    cases unfinished with
    | unchanged moves =>
        rw [moves.becomes.segments_eq, moves.writer_eq]
        exact ⟨filling.filled, rfl⟩
    | begun rolls _ moves | moved rolls moves =>
        rw [moves.becomes.segments_eq, moves.writer_eq]
        exact ⟨filling.filled.begun (filling.long_of_rolls rolls) missing, rfl⟩
    | written uncounted =>
        rw [uncounted.moves.becomes.segments_eq, uncounted.moves.writer_eq]
        exact ⟨filling.filled_record payload _, rfl⟩
  have goes_on {records' : List Found} {bytes' : Bytes}
      (working' : Working log' writer' records' bytes') :
      Filling settings log' writer' records' bytes' :=
    ⟨working', changed.1, changed.2.trans filling.limit_eq⟩
  obtain ⟨-, -, ⟨bytes', working'⟩ | ⟨-, found, bytes', -, -, working'⟩⟩ :=
    filling.toWorking.unfinished storable fits unfinished
  · exact ⟨records, bytes', Nat.le_succ _, goes_on working'⟩
  · exact ⟨records ++ [found], bytes', by simp, goes_on working'⟩

/-! ## Runs -/

def AllFillInOrder (steps : List AppendStep) : Prop :=
  ∀ step ∈ steps, ∀ anchor, step.result = .ok anchor → step.FillsInOrder anchor

theorem Filling.appendStep (filling : Filling settings log writer records bytes)
    (payload : Bytes)
    (fits : records.length + ([payload].filter Storable).length < UInt64.size) :
    ∃ step log' writer' records' bytes',
      Writer.appendStep settings payload (log, writer) = (step, log', writer') ∧
      (∀ anchor, step.result = .ok anchor → step.FillsInOrder anchor) ∧
      records'.length ≤ records.length + ([payload].filter Storable).length ∧
      Filling settings log' writer' records' bytes' := by
  by_cases storable : Storable payload
  case neg =>
    obtain ⟨refusal, ran⟩ : ∃ refusal,
        Writer.append payload (log, writer) = (.error (.refused refusal), log, writer) :=
      append_rejected storable
    exact ⟨⟨settings, payload, log, .error (.refused refusal), log⟩, log, writer, records, bytes,
      by simp [Writer.appendStep, ran], nofun, Nat.le_add_right _ _, filling⟩
  have one : ([payload].filter Storable).length = 1 := by simp [storable]
  rw [one] at fits ⊢
  have leads := append_leads filling.sound filling.home_eq filling.opened storable
  rcases ran : Writer.append payload (log, writer) with ⟨error | anchor, log', writer'⟩
  · obtain ⟨records', bytes', few, filling'⟩ :=
      filling.unfinished storable fits (leads.of_error ran).2
    exact ⟨⟨settings, payload, log, .error error, log'⟩, log', writer', records', bytes',
      by simp [Writer.appendStep, ran], nofun, few, filling'⟩
  · obtain ⟨records', bytes', few, filling', fills⟩ :=
      filling.appended storable fits (leads.of_ok ran)
    refine ⟨⟨settings, payload, log, .ok anchor, log'⟩, log', writer', records', bytes',
      by simp [Writer.appendStep, ran], fun other same => ?_, few.le, filling'⟩
    exact Except.ok.inj same ▸ fills

theorem Filling.appendSteps {payloads : List Bytes}
    (filling : Filling settings log writer records bytes)
    (fits : records.length + (payloads.filter Storable).length < UInt64.size) :
    ∃ steps log' writer' records' bytes',
      Writer.appendSteps settings payloads (log, writer) = (steps, log', writer') ∧
      AllFillInOrder steps ∧
      records'.length ≤ records.length + (payloads.filter Storable).length ∧
      Filling settings log' writer' records' bytes' := by
  induction payloads generalizing log writer records bytes with
  | nil =>
      exact ⟨[], log, writer, records, bytes, rfl, List.forall_mem_nil _, Nat.le_refl _, filling⟩
  | cons payload rest ih =>
      have split : (payload :: rest).filter Storable =
          [payload].filter Storable ++ rest.filter Storable := List.filter_append [payload] rest
      rw [split, List.length_append] at fits ⊢
      obtain ⟨step, log₁, writer₁, records₁, bytes₁, ran, fills, few, filling₁⟩ :=
        filling.appendStep payload (by omega)
      obtain ⟨steps, log', writer', records', bytes', ran', all, few', filling'⟩ :=
        ih filling₁ (by omega)
      refine ⟨step :: steps, log', writer', records', bytes', ?_,
        List.forall_mem_cons.mpr ⟨fills, all⟩, by omega, filling'⟩
      simp only [Writer.appendSteps, stateM_bind_apply, ran, ran', stateM_pure_apply]

theorem Remains.appendSteps (remains : Remains log records) (filled : Filled log.segments)
    (session : Session)
    (fits : records.length + (session.payloads.filter Storable).length < UInt64.size) :
    ∃ steps log' records', session.appendSteps log = (steps, log') ∧ AllFillInOrder steps ∧
      records'.length ≤ records.length + (session.payloads.filter Storable).length ∧
      Remains log' records' ∧ Filled log'.segments := by
  have leads := (remains.opens (by omega) session.settings).both
    (remains.opens_filled filled session.settings)
  rcases opened : Writer.openLog .memory session.settings log with ⟨error | writer, log₁⟩
  · obtain ⟨remains₁, filled₁⟩ := leads.of_error opened
    exact ⟨[], log₁, records, by simp [Session.appendSteps, opened], List.forall_mem_nil _,
      Nat.le_add_right _ _, remains₁, filled₁⟩
  · obtain ⟨⟨⟨bytes, working⟩, -, -⟩, filled₁, limit_eq⟩ := leads.of_ok opened
    have filling : Filling session.settings log₁ writer records bytes :=
      ⟨working, filled₁, limit_eq⟩
    obtain ⟨steps, log', writer', records', bytes', ran, all, few, filling'⟩ :=
      filling.appendSteps fits
    exact ⟨steps, log', records', by simp [Session.appendSteps, opened, ran], all, few,
      filling'.remains (by omega), filling'.filled⟩

theorem Remains.appendStepsOf {sessions : List Session} (remains : Remains log records)
    (filled : Filled log.segments)
    (fits : records.length + ((sessions.flatMap (·.payloads)).filter Storable).length <
      UInt64.size) :
    AllFillInOrder (Log.appendStepsOf sessions log).1 := by
  induction sessions generalizing log records with
  | nil => exact List.forall_mem_nil _
  | cons session rest ih =>
      rw [List.flatMap_cons, List.filter_append, List.length_append] at fits
      obtain ⟨steps, log₁, records₁, ran, all, few, remains₁, filled₁⟩ :=
        remains.appendSteps filled session (by omega)
      have later := ih remains₁ filled₁ (by omega)
      simp only [Log.appendStepsOf, stateM_bind_apply, ran, stateM_pure_apply]
      exact List.forall_mem_append.mpr ⟨all, later⟩

end

/--
Whatever calls fail, an append that is acknowledged puts its record behind the bytes of its
segment.  It goes to a new segment only when the one before holds a record and has no room
for it.  All segments up to its own are there, each with its own header and with records.
-/
theorem segments_fill_in_order (plan : FailurePlan Request) (noShortRead : plan.NoShortRead)
    (sessions : List Session)
    (few : ((sessions.flatMap (·.payloads)).filter Storable).length < UInt64.size) :
    ∀ step ∈ (appendStepsOf sessions (LogFiles.empty.under plan)).1, ∀ anchor,
      step.result = .ok anchor → step.FillsInOrder anchor :=
  (remains_empty noShortRead).appendStepsOf (.of_empty fun _ => rfl) (by simpa using few)

/-- Each record of the first session has a segment of its own; the last session puts one behind. -/
theorem segments_fill_in_order_interruptedSessions :
    ∃ steps log, appendStepsOf interruptedSessions
        (LogFiles.empty.under (failingCalls [8, 13, 30])) = (steps, log) ∧
      steps.map (fun step => (step.payload, step.result.toOption)) =
        [([1], none), ([2], none), ([3], some ⟨1, 12, some 1⟩), ([5], some ⟨1, 45, some 2⟩)] ∧
      ∀ step ∈ steps, ∀ anchor, step.result = .ok anchor → step.FillsInOrder anchor := by
  have fill := segments_fill_in_order (failingCalls [8, 13, 30]) (noShortRead_failingCalls _)
    interruptedSessions (by decide)
  rcases ran : appendStepsOf interruptedSessions
    (LogFiles.empty.under (failingCalls [8, 13, 30])) with ⟨steps, log⟩
  rw [ran] at fill
  refine ⟨steps, log, rfl, ?_, fill⟩
  have steps_eq : steps = (appendStepsOf interruptedSessions
      (LogFiles.empty.under (failingCalls [8, 13, 30]))).1 := by rw [ran]
  rw [steps_eq]
  decide +kernel

end DirectoryStore.Log
