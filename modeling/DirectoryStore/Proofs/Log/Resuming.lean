import DirectoryStore.Proofs.Log.Changes
import DirectoryStore.Proofs.Log.Cutting

/-!
# Opening a log

A log is opened by recovering it, cutting the segment where the scan stopped, and
removing the segments behind it one by one.  Each statement lists, besides the
state after success, the states that a failed call can leave.
-/

namespace DirectoryStore.Log

/-! ## Making a segment -/

/-- One of these calls failed, each with the segments it leaves. -/
def FailedAmong (log : LogFiles) (states : List (List CallKind × Segments))
    (error : Error) (log' : LogFiles) : Prop :=
  ∃ state ∈ states, FailedCall log state.1 state.2 error log'

theorem FailedCall.among {log log' : LogFiles} {kinds : List CallKind}
    {segments : Segments} {error : Error}
    (failed : FailedCall log kinds segments error log')
    {states : List (List CallKind × Segments)}
    (member : (kinds, segments) ∈ states) : FailedAmong log states error log' :=
  ⟨_, member, failed⟩

theorem FailedAmong.injected {log log' : LogFiles}
    {states : List (List CallKind × Segments)} {error : Error}
    (failed : FailedAmong log states error log') : InjectedError log error := by
  obtain ⟨_, -, failed⟩ := failed
  exact failed.injected

def startFailures (segments : Segments) (number : SegmentNumber) :
    List (List CallKind × Segments) :=
  [([.createSegment], segments),
    ([.append], segments.put number (some [])),
    ([.flush, .sync], segments.put number (some (headerBytes number)))]

theorem startSegment_leads {log : LogFiles} (sound : log.Sound)
    (number : SegmentNumber) :
    Leads (Writer.startSegment .memory number) log
      (fun segment log' => segment.number = number ∧
        Opened log' segment (headerBytes number) ∧
        Becomes log log' (log.segments.put number (some (headerBytes number))))
      (FailedAmong log (startFailures log.segments number)) := by
  unfold Writer.startSegment
  refine Leads.bind ((Leads.createSegment sound number).imp_failed
    fun _ _ failed => failed.among (by simp [startFailures])) ?_
  rintro segment log₁ ⟨rfl, opened, becomes⟩
  refine Leads.bind ((Leads.append becomes.sound opened
      (SegmentHeader.ofNumber segment.number).encode).imp_failed ?_) ?_
  · intro error log' failed
    rw [becomes.segments_eq] at failed
    exact (failed.after becomes).among (by simp [startFailures])
  · rintro ⟨offset, segment'⟩ log₂ ⟨-, same, opened', becomes'⟩
    obtain rfl : segment' = segment := same
    rw [List.nil_append] at opened' becomes'
    rw [becomes.segments_eq, Segments.put_put] at becomes'
    have whole := becomes.trans becomes'
    refine Leads.bind ((Leads.sync becomes'.sound).imp_failed ?_) ?_
    · intro error log' failed
      rw [becomes'.segments_eq] at failed
      exact (failed.after whole).among (by simp [startFailures, headerBytes])
    · rintro - log₃ ⟨calls, rfl⟩
      exact Leads.pure ⟨rfl, opened'.atCall calls, whole.sound.atCall calls,
        whole.plan_eq, whole.segments_eq⟩

theorem startSegment_spares {log : LogFiles} (sound : log.Sound)
    (number : SegmentNumber) :
    Leads (Writer.startSegment .memory number) log
      (fun _ => LeavesOpen [number] log) (fun _ => LeavesOpen [number] log) := by
  unfold Writer.startSegment
  refine Leads.bind (((Leads.createSegment sound number).both
    (Leads.createSegment_spares sound number)).imp_failed
      fun _ _ failed => failed.2.mono (List.nil_subset _)) ?_
  rintro segment log₁ ⟨⟨rfl, opened, becomes⟩, leaves⟩
  refine Leads.bind ((Leads.append_spares becomes.sound opened
    (SegmentHeader.ofNumber segment.number).encode).mono (fun _ _ ended => leaves.trans ended)
      fun _ _ failed => leaves.trans (failed.mono (List.nil_subset _))) ?_
  rintro ⟨_, segment'⟩ log₂ leaves'
  exact Leads.bind (Leads.sync_spares.mono
    (fun _ _ ended => leaves'.trans (ended.mono (List.nil_subset _)))
    fun _ _ failed => leaves'.trans (failed.mono (List.nil_subset _)))
    fun _ _ leaves'' => Leads.pure leaves''

/-! ## Cutting a segment -/

def cutFailures (segments : Segments) (number : SegmentNumber) (offset : Nat) :
    List (List CallKind × Segments) :=
  if offset < SegmentHeader.size then startFailures segments number
  else [([.openSegment], segments), ([.size], segments), ([.truncate], segments)]

theorem openCut_leads {log : LogFiles} (sound : log.Sound) {lastGood : LogAnchor}
    (place : CanCut log.segments lastGood.segment lastGood.offset) :
    Leads (Writer.openCut .memory lastGood) log
      (fun segment log' => segment.number = lastGood.segment ∧
        Opened log' segment
          (cutBytes log.segments lastGood.segment lastGood.offset) ∧
        Becomes log log'
          (cutAt log.segments lastGood.segment lastGood.offset))
      (FailedAmong log
        (cutFailures log.segments lastGood.segment lastGood.offset)) := by
  unfold Writer.openCut cutAt cutBytes cutFailures
  by_cases headless : lastGood.offset < SegmentHeader.size
  · simp only [headless, if_true]
    exact startSegment_leads sound lastGood.segment
  simp only [headless, if_false]
  obtain ⟨bytes, stored, inside⟩ := place.resolve_left headless
  obtain ⟨file, present, bytes_eq⟩ := LogFiles.segments_eq_some_iff.mp stored
  let segment : OpenSegment := ⟨lastGood.segment, file, .buffer⟩
  have opened : Opened log segment bytes := ⟨present, rfl, bytes_eq⟩
  refine Leads.bind ((Leads.openSegment sound lastGood.segment).imp_failed
    fun _ _ failed => failed.among (by simp)) ?_
  rintro _ _ ⟨rfl, calls, rfl⟩
  rw [present]
  refine Leads.bind ((Leads.size (sound.atCall calls) (opened.atCall calls)).imp_failed
    fun _ _ failed => (failed.after (.atCall sound calls)).among (by simp)) ?_
  rintro _ _ ⟨rfl, calls', rfl⟩
  simp only [stored, Option.getD_some, Nat.not_lt.mpr inside, if_false]
  by_cases longer : lastGood.offset < bytes.length
  · simp only [longer, if_true]
    refine (Leads.truncate (sound.atCall calls') (opened.atCall calls') inside).mono ?_ ?_
    · rintro _ log' ⟨rfl, opened', becomes⟩
      exact ⟨rfl, opened', (Becomes.atCall sound calls').trans becomes⟩
    · intro error log' failed
      exact (failed.after (.atCall sound calls')).among (by simp)
  · simp only [longer, if_false]
    have whole : bytes.take lastGood.offset = bytes := List.take_of_length_le (by omega)
    rw [whole, Segments.put_self stored]
    exact Leads.pure ⟨rfl, opened.atCall calls', .atCall sound calls'⟩

/-! ## Removing segments -/

theorem FailedAmong.after {log log' log'' : LogFiles}
    {states : List (List CallKind × Segments)} {segments : Segments} {error : Error}
    (failed : FailedAmong log' states error log'') (becomes : Becomes log log' segments) :
    FailedAmong log states error log'' := by
  obtain ⟨state, member, failed⟩ := failed
  exact ⟨state, member, failed.after becomes⟩

theorem FailedAmong.more {log log' : LogFiles}
    {states states' : List (List CallKind × Segments)} {error : Error}
    (failed : FailedAmong log states error log') (more : states ⊆ states') :
    FailedAmong log states' error log' := by
  obtain ⟨state, member, failed⟩ := failed
  exact ⟨state, more member, failed⟩

def LetsRemove (log : LogFiles) (numbers : List SegmentNumber) : Prop :=
  ∀ number ∈ numbers, ∃ callNumber,
    log.injection.plan callNumber ⟨number, .removeSegment⟩ = none

structure Removes (log : LogFiles) (numbers : List SegmentNumber) (log' : LogFiles) :
    Prop where
  becomes : Becomes log log' (log.segments.without numbers)
  still_open : ∀ {segment : OpenSegment} {bytes : Bytes}, Opened log segment bytes →
    segment.number ∉ numbers → Opened log' segment bytes
  let_through : LetsRemove log numbers

structure RemovesSome (log : LogFiles) (numbers gone : List SegmentNumber)
    (error : Error) (log' : LogFiles) : Prop where
  some_left : ∃ number rest, numbers = gone ++ number :: rest
  let_through : LetsRemove log gone
  failed : FailedCall log [.removeSegment] (log.segments.without gone) error log'

theorem removeSegments_leads {log : LogFiles} (sound : log.Sound)
    (numbers : List SegmentNumber) :
    Leads (Writer.removeSegments .memory numbers) log (fun _ => Removes log numbers)
      (fun error log' => ∃ gone, RemovesSome log numbers gone error log') := by
  induction numbers generalizing log with
  | nil =>
      exact Leads.pure ⟨log.segments.without_nil ▸ .refl sound, fun opened _ => opened,
        nofun⟩
  | cons number rest ih =>
      unfold Writer.removeSegments
      refine Leads.bind ((Leads.removeSegment sound number).imp_failed
        fun _ _ failed => ⟨[], ⟨number, rest, rfl⟩, nofun, by simpa using failed⟩) ?_
      rintro - log₁ ⟨becomes, still_open, passed⟩
      have let_through {gone : List SegmentNumber} (later : LetsRemove log₁ gone) :
          LetsRemove log (number :: gone) :=
        List.forall_mem_cons.mpr ⟨passed, becomes.plan_eq ▸ later⟩
      refine (ih becomes.sound).mono ?_ ?_
      · rintro - log' removes
        have whole := becomes.trans removes.becomes
        rw [becomes.segments_eq, ← Segments.without_cons] at whole
        exact ⟨whole, fun opened kept => removes.still_open
          (still_open opened (List.ne_of_not_mem_cons kept))
          (List.not_mem_of_not_mem_cons kept), let_through removes.let_through⟩
      · rintro error log' ⟨gone, ⟨other, others, rfl⟩, later, failed⟩
        rw [becomes.segments_eq, ← Segments.without_cons] at failed
        exact ⟨number :: gone, ⟨other, others, rfl⟩, let_through later,
          failed.after becomes⟩

/-! ## Going on after a position -/

def LogFiles.behind (log : LogFiles) (number : SegmentNumber) : List SegmentNumber :=
  (log.memory.map (·.1)).filter (number < ·)

theorem LogFiles.mem_behind_iff {log : LogFiles} {number other : SegmentNumber} :
    other ∈ log.behind number ↔
      number < other ∧ ∃ bytes, log.segments other = some bytes := by
  rw [behind, List.mem_filter, mem_numbers_iff]
  simp [and_comm]

theorem LogFiles.Sound.behind_eq {log log' : LogFiles} (sound : log.Sound)
    (sound' : log'.Sound) {number : SegmentNumber}
    (same : ∀ other, number < other → log'.segments other = log.segments other) :
    log'.behind number = log.behind number := by
  refine (sound'.ascending.filter _).eq_of_mem_iff (sound.ascending.filter _) ?_
  intro other
  have member : other ∈ log'.behind number ↔ other ∈ log.behind number := by
    rw [mem_behind_iff, mem_behind_iff]
    refine and_congr_right fun beyond => ?_
    rw [same other beyond]
  exact member

theorem LogFiles.without_behind (log : LogFiles) (place : LogAnchor) :
    (cutAt log.segments place.segment place.offset).without (log.behind place.segment) =
      log.segments.cutAfter place := by
  funext number
  unfold Segments.without Segments.cutAfter
  by_cases beyond : place.segment < number
  · rw [if_pos beyond]
    split
    · rfl
    · rename_i not_behind
      rw [cutAt_of_ne (Nat.ne_of_gt beyond)]
      cases stored : log.segments number with
      | none => rfl
      | some bytes => exact absurd (mem_behind_iff.mpr ⟨beyond, bytes, stored⟩) not_behind
  · rw [if_neg beyond, if_neg (fun member => beyond (mem_behind_iff.mp member).1)]

/-- There may be records before a position, but no number to go on with. -/
structure NumberUnknown (log : LogFiles) (place : LogAnchor) (nextLsn : Option Lsn) :
    Prop where
  unknown : nextLsn = none
  room : SegmentHeader.size < place.offset ∨
    ∃ number < place.segment, ∃ bytes, log.segments number = some bytes

/-- The writer and the log when going on after a position succeeds. -/
structure Resumed (log : LogFiles) (settings : Settings) (place : LogAnchor)
    (nextLsn : Option Lsn) (writer : Writer) (log' : LogFiles) : Prop where
  writer_eq : writer =
    .onSegment .memory writer.segment (nextLsn.getD Lsn.first) settings
  number_eq : writer.segment.number = place.segment
  opened : Opened log' writer.segment (cutBytes log.segments place.segment place.offset)
  becomes : Becomes log log' (log.segments.cutAfter place)
  let_through : LetsRemove log (log.behind place.segment)
  known : ¬ NumberUnknown log place nextLsn

/-- The error and the log when it fails. -/
inductive NotResumed (log : LogFiles) (place : LogAnchor) (nextLsn : Option Lsn)
    (error : Error) (log' : LogFiles) : Prop where
  | refused (unknown : NumberUnknown log place nextLsn)
      (error_eq : error = .refused (.resumeWithoutLsn place))
      (same : Becomes log log' log.segments)
  | uncut (failed : FailedCall log [.listSegments] log.segments error log')
  | cutting (known : ¬ NumberUnknown log place nextLsn)
      (failed : FailedAmong log (cutFailures log.segments place.segment place.offset)
        error log')
  | unlisted (known : ¬ NumberUnknown log place nextLsn)
      (failed : FailedCall log [.listSegments]
        (cutAt log.segments place.segment place.offset) error log')
  | removing (known : ¬ NumberUnknown log place nextLsn) {gone : List SegmentNumber}
      (some_left : ∃ number rest, log.behind place.segment = gone ++ number :: rest)
      (let_through : LetsRemove log gone)
      (failed : FailedCall log [.removeSegment]
        ((cutAt log.segments place.segment place.offset).without gone) error log')

theorem firstLsnAt_leads {log : LogFiles} (sound : log.Sound) (place : LogAnchor) :
    Leads (Writer.firstLsnAt .memory place) log
      (fun lsn log' => lsn = Lsn.first ∧ ¬ NumberUnknown log place none ∧
        ∃ calls, log' = log.atCall calls)
      (NotResumed log place none) := by
  unfold Writer.firstLsnAt
  refine Leads.bind ((Leads.segmentNumbers sound).imp_failed
    fun _ _ failed => .uncut failed) ?_
  rintro _ _ ⟨rfl, calls, rfl⟩
  have room_iff : (SegmentHeader.size < place.offset ∨
      (log.memory.map (·.1)).any (· < place.segment)) ↔ NumberUnknown log place none := by
    rw [List.any_eq_true]
    constructor
    · rintro (inside | ⟨number, member, smaller⟩)
      · exact ⟨rfl, .inl inside⟩
      · exact ⟨rfl, .inr ⟨number, of_decide_eq_true smaller,
          LogFiles.mem_numbers_iff.mp member⟩⟩
    · rintro ⟨-, inside | ⟨number, smaller, stored⟩⟩
      · exact .inl inside
      · exact .inr ⟨number, LogFiles.mem_numbers_iff.mpr stored,
          decide_eq_true smaller⟩
  by_cases room : SegmentHeader.size < place.offset ∨
      (log.memory.map (·.1)).any (· < place.segment)
  · simp only [room, if_true]
    exact Leads.throw (.refused (room_iff.mp room) rfl (.atCall sound calls))
  · simp only [room, if_false]
    exact Leads.pure ⟨rfl, room_iff.not.mp room, calls, rfl⟩

/-- Cutting the log comes after the number to go on with is known. -/
theorem cutAfter_leads {log : LogFiles} (sound : log.Sound) (settings : Settings)
    {place : LogAnchor} (can_cut : CanCut log.segments place.segment place.offset)
    {nextLsn : Option Lsn} (known : ¬ NumberUnknown log place nextLsn) (calls : Nat) :
    Leads (do
        let segment ← Writer.openCut .memory place
        let numbers ← LogFiles.segmentNumbers .memory
        Writer.removeSegments .memory (numbers.filter (place.segment < ·))
        return Writer.onSegment .memory segment (nextLsn.getD Lsn.first) settings)
      (log.atCall calls) (Resumed log settings place nextLsn)
      (NotResumed log place nextLsn) := by
  refine Leads.bind ((openCut_leads (sound.atCall calls) can_cut).imp_failed
    fun _ _ failed => .cutting known (failed.after (.atCall sound calls))) ?_
  rintro segment log₁ ⟨number_eq, opened, cut⟩
  have cut := (Becomes.atCall sound calls).trans cut
  rw [LogFiles.segments_atCall] at cut
  have same_behind : log₁.behind place.segment = log.behind place.segment :=
    sound.behind_eq cut.sound fun other beyond => by
      rw [cut.segments_eq]
      exact cutAt_of_ne (Nat.ne_of_gt beyond) _
  refine Leads.bind ((Leads.segmentNumbers cut.sound).imp_failed
    fun _ _ failed => .unlisted known ?_) ?_
  · rw [← cut.segments_eq]
    exact failed.after cut
  rintro _ _ ⟨rfl, calls', rfl⟩
  have lets {numbers : List SegmentNumber} (let_through : LetsRemove log₁ numbers) :
      LetsRemove log numbers := by
    unfold LetsRemove at let_through ⊢
    rwa [cut.plan_eq] at let_through
  have listed : (log₁.memory.map (·.1)).filter (place.segment < ·) =
      log.behind place.segment :=
    same_behind
  rw [listed]
  refine Leads.bind ((removeSegments_leads (cut.sound.atCall calls')
    (log.behind place.segment)).imp_failed ?_) ?_
  · rintro error log' ⟨gone, some_left, let_through, failed⟩
    refine .removing known some_left (lets let_through) ?_
    rw [← cut.segments_eq]
    exact (failed.after (.atCall cut.sound calls')).after cut
  · rintro - log₂ removes
    have whole := cut.trans ((Becomes.atCall cut.sound calls').trans removes.becomes)
    rw [LogFiles.segments_atCall, cut.segments_eq, log.without_behind] at whole
    have not_behind : segment.number ∉ log.behind place.segment := by
      rw [LogFiles.mem_behind_iff, number_eq]
      exact fun member => Nat.lt_irrefl _ member.1
    exact Leads.pure ⟨rfl, number_eq,
      removes.still_open (opened.atCall calls') not_behind, whole,
      lets removes.let_through, known⟩

theorem resumeAfter_leads {log : LogFiles} (sound : log.Sound) (settings : Settings)
    {place : LogAnchor} (can_cut : CanCut log.segments place.segment place.offset)
    (nextLsn : Option Lsn) :
    Leads (Writer.resumeAfter .memory settings place nextLsn) log
      (Resumed log settings place nextLsn) (NotResumed log place nextLsn) := by
  unfold Writer.resumeAfter
  cases nextLsn with
  | some lsn =>
      have known : ¬ NumberUnknown log place (some lsn) :=
        fun unknown => Option.some_ne_none lsn unknown.unknown
      exact cutAfter_leads sound settings can_cut known log.injection.callsMade
  | none =>
      refine Leads.bind (firstLsnAt_leads sound place) ?_
      rintro _ _ ⟨rfl, known, calls, rfl⟩
      exact cutAfter_leads sound settings can_cut known calls

/-! ## Opening -/

theorem Leads.recover {log : LogFiles} (sound : log.Sound)
    (noShortRead : log.injection.plan.NoShortRead) {start : LogAnchor}
    {records : List Found} {stop : Stop}
    (reading : Reading log.segments start records stop) (calls : Nat) :
    Leads (recover .memory start) (log.atCall calls)
      (fun report log' => report = reportFrom start records stop ∧
        ∃ calls, log' = log.atCall calls)
      (FailedCall log scanCalls log.segments) := by
  obtain ⟨calls', outcome, ran, answered⟩ :=
    recover_reads sound noShortRead reading calls
  unfold Leads
  rw [ran]
  rcases answered with rfl | ⟨fault, injected, rfl⟩
  · exact ⟨rfl, calls', rfl⟩
  · exact ⟨⟨fault, injected, rfl⟩, .atCall sound calls'⟩

theorem openLog_leads_of_empty {log : LogFiles} (sound : log.Sound)
    (settings : Settings) (empty : log.memory = []) :
    Leads (Writer.openLog .memory settings) log
      (fun writer log' =>
        writer = .onSegment .memory writer.segment Lsn.first settings ∧
          writer.segment.number = 0 ∧ Opened log' writer.segment (headerBytes 0) ∧
          Becomes log log' (log.segments.put 0 (some (headerBytes 0))))
      (FailedAmong log (([.listSegments], log.segments) :: startFailures log.segments 0)) := by
  unfold Writer.openLog
  refine Leads.bind ((Leads.segmentNumbers sound).imp_failed
    fun _ _ failed => failed.among (by simp)) ?_
  rintro _ _ ⟨rfl, calls, rfl⟩
  rw [empty]
  refine Leads.bind ((startSegment_leads (sound.atCall calls) 0).imp_failed
    fun _ _ failed => (failed.after (.atCall sound calls)).more (List.subset_cons_self _ _)) ?_
  rintro segment log' ⟨number_eq, opened, becomes⟩
  exact Leads.pure ⟨rfl, number_eq, opened, (Becomes.atCall sound calls).trans becomes⟩

def NotOpened (log : LogFiles) (place : LogAnchor) (nextLsn : Option Lsn)
    (error : Error) (log' : LogFiles) : Prop :=
  FailedCall log (.listSegments :: scanCalls) log.segments error log' ∨
    NotResumed log place nextLsn error log'

section

variable {log log' : LogFiles} {place : LogAnchor} {nextLsn : Option Lsn} {calls : Nat}

theorem NumberUnknown.atCall_iff :
    NumberUnknown (log.atCall calls) place nextLsn ↔ NumberUnknown log place nextLsn :=
  ⟨fun ⟨unknown, room⟩ => ⟨unknown, room⟩, fun ⟨unknown, room⟩ => ⟨unknown, room⟩⟩

theorem Resumed.of_atCall {settings : Settings} {writer : Writer} (sound : log.Sound)
    (resumed : Resumed (log.atCall calls) settings place nextLsn writer log') :
    Resumed log settings place nextLsn writer log' :=
  ⟨resumed.writer_eq, resumed.number_eq, resumed.opened,
    (Becomes.atCall sound calls).trans resumed.becomes, resumed.let_through,
    NumberUnknown.atCall_iff.not.mp resumed.known⟩

theorem NotResumed.of_atCall {error : Error} (sound : log.Sound)
    (failed : NotResumed (log.atCall calls) place nextLsn error log') :
    NotResumed log place nextLsn error log' := by
  have before := Becomes.atCall sound calls
  have same := @NumberUnknown.atCall_iff log place nextLsn calls
  cases failed with
  | refused unknown error_eq becomes =>
      exact .refused (same.mp unknown) error_eq (before.trans becomes)
  | uncut failed => exact .uncut (failed.after before)
  | cutting known failed => exact .cutting (same.not.mp known) (failed.after before)
  | unlisted known failed => exact .unlisted (same.not.mp known) (failed.after before)
  | removing known some_left let_through failed =>
      exact .removing (same.not.mp known) some_left let_through (failed.after before)

end

theorem NotOpened.sound {log log' : LogFiles} {place : LogAnchor} {nextLsn : Option Lsn}
    {error : Error} (failed : NotOpened log place nextLsn error log') : log'.Sound := by
  rcases failed with failed | failed
  · exact failed.2.sound
  cases failed with
  | refused _ _ same => exact same.sound
  | uncut failed | unlisted _ failed | removing _ _ _ failed => exact failed.2.sound
  | cutting _ failed =>
      obtain ⟨_, -, -, becomes⟩ := failed
      exact becomes.sound

theorem NotOpened.refused_or_injected {log log' : LogFiles} {place : LogAnchor}
    {nextLsn : Option Lsn} {error : Error}
    (failed : NotOpened log place nextLsn error log') :
    (NumberUnknown log place nextLsn ∧ error = .refused (.resumeWithoutLsn place) ∧
      Becomes log log' log.segments) ∨ InjectedError log error := by
  rcases failed with failed | failed
  · exact .inr failed.injected
  cases failed with
  | refused unknown error_eq same => exact .inl ⟨unknown, error_eq, same⟩
  | uncut failed | unlisted _ failed | removing _ _ _ failed => exact .inr failed.injected
  | cutting _ failed => exact .inr failed.injected

theorem openLog_leads {log : LogFiles} (sound : log.Sound)
    (noShortRead : log.injection.plan.NoShortRead) (settings : Settings)
    {lowest : SegmentNumber} {others : List SegmentNumber}
    (row : log.memory.map (·.1) = lowest :: others) {records : List Found} {stop : Stop}
    (chain : Chain log.segments lowest 0 (.start none) records stop) :
    Leads (Writer.openLog .memory settings) log
      (Resumed log settings (stop.anchor records)
        (nextLsnAfter (.startOf lowest) records))
      (NotOpened log (stop.anchor records)
        (nextLsnAfter (.startOf lowest) records)) := by
  unfold Writer.openLog
  refine Leads.bind ((Leads.segmentNumbers sound).imp_failed
    fun _ _ failed => .inl (failed.mono (by simp))) ?_
  rintro _ _ ⟨rfl, calls, rfl⟩
  rw [row]
  refine Leads.bind ((Leads.recover sound noShortRead
    (.whole rfl chain) calls).imp_failed
      fun _ _ failed => .inl (failed.mono fun _ => List.mem_cons_of_mem _)) ?_
  rintro _ _ ⟨rfl, calls', rfl⟩
  obtain ⟨bytes, stored⟩ := chain.stored
  have can_cut : CanCut log.segments (stop.anchor records).segment
      (stop.anchor records).offset :=
    .inr (chain.stop_inside stored (Nat.zero_le _))
  exact (resumeAfter_leads (sound.atCall calls') settings can_cut
    (nextLsnAfter (.startOf lowest) records)).mono
    (fun _ _ resumed => resumed.of_atCall sound)
    fun _ _ failed => .inr (failed.of_atCall sound)

end DirectoryStore.Log
