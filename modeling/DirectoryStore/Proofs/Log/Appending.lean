import DirectoryStore.Proofs.Log.Resuming

/-!
# Appending a record

A record goes behind the bytes of the writer's segment, or behind the header of a
new segment when there is no room for it.  An append that answers nothing was
given a payload that no record can hold, and then changes nothing, or one of its
calls was made to fail.  `Unfinished` lists what it then leaves behind: the next
segment may have been begun, and the record may be there although its number was
not counted.
-/

namespace DirectoryStore

/-! ## Operations of a writer -/

namespace Leads

open Log

variable {α β : Type} {log : LogFiles} {writer : Writer} {segment : OpenSegment}

theorem onLog {action : LogM α} {done : α → LogFiles → Prop}
    {failed : Error → LogFiles → Prop} {failed' : Error → LogFiles × Writer → Prop}
    (leads : Leads action log done failed)
    (failed_imp : ∀ error log', failed error log' → failed' error (log', writer)) :
    Leads (Writer.onLog action) (log, writer)
      (fun value state => ∃ log', state = (log', writer) ∧ done value log') failed' := by
  rcases ran : action log with ⟨error | value, log'⟩
  · have lifted : Writer.onLog action (log, writer) = (.error error, log', writer) := by
      simp [Writer.onLog, ran]
    unfold Leads
    rw [lifted]
    exact failed_imp error log' (leads.of_error ran)
  · have lifted : Writer.onLog action (log, writer) = (.ok value, log', writer) := by
      simp [Writer.onLog, ran]
    unfold Leads
    rw [lifted]
    exact ⟨log', rfl, leads.of_ok ran⟩

theorem current_bind {following : Writer → WriterM β}
    {done : β → LogFiles × Writer → Prop} {failed : Error → LogFiles × Writer → Prop}
    (rest : Leads (following writer) (log, writer) done failed) :
    Leads (Writer.current >>= following) (log, writer) done failed :=
  rest

theorem setSegment_bind {following : Unit → WriterM β}
    {done : β → LogFiles × Writer → Prop} {failed : Error → LogFiles × Writer → Prop}
    (rest : Leads (following ()) (log, { writer with segment := segment }) done failed) :
    Leads (Writer.setSegment segment >>= following) (log, writer) done failed :=
  rest

end Leads

namespace Log

/-! ## Appending -/

/-- The writer and the log after a step that leaves the log with these segments. -/
structure Moves (log : LogFiles) (writer : Writer) (number : SegmentNumber)
    (bytes : Bytes) (segments : Segments) (log' : LogFiles) (writer' : Writer) :
    Prop where
  writer_eq : writer' = { writer with segment := writer'.segment }
  number_eq : writer'.segment.number = number
  opened : Opened log' writer'.segment bytes
  becomes : Becomes log log' segments

section

variable {log log' : LogFiles} {writer writer' : Writer} {bytes : Bytes}

theorem Moves.stay (sound : log.Sound) (opened : Opened log writer.segment bytes)
    (calls : Nat) :
    Moves log writer writer.segment.number bytes log.segments (log.atCall calls) writer :=
  ⟨rfl, rfl, opened.atCall calls, .atCall sound calls⟩

theorem Moves.spared {number : SegmentNumber} {segments segments' : Segments}
    {touched : List SegmentNumber} {log'' : LogFiles}
    (moves : Moves log writer number bytes segments log' writer')
    (becomes : Becomes log' log'' segments') (leaves : LeavesOpen touched log' log'')
    (untouched : number ∉ touched) :
    Moves log writer number bytes segments' log'' writer' :=
  ⟨moves.writer_eq, moves.number_eq,
    leaves.still moves.opened (moves.number_eq ▸ untouched), moves.becomes.trans becomes⟩

theorem sync_leads {number : SegmentNumber} {segments : Segments}
    (moves : Moves log writer number bytes segments log' writer') :
    Leads Writer.sync (log', writer')
      (fun _ state => state.2 = writer' ∧
        Moves log writer number bytes segments state.1 state.2)
      (fun error state => InjectedError log error ∧
        Moves log writer number bytes segments state.1 state.2) := by
  have synced : Leads writer'.segment.sync log' _ _ :=
    (Leads.sync moves.becomes.sound).both Leads.sync_spares
  unfold Writer.sync
  refine Leads.current_bind ((synced.onLog ?_).imp ?_)
  · rintro error log'' ⟨failed, leaves⟩
    have becomes := failed.2
    rw [moves.becomes.segments_eq] at becomes
    exact ⟨(failed.after moves.becomes).injected,
      moves.spared becomes leaves (List.not_mem_nil)⟩
  · rintro - _ ⟨_, rfl, ⟨calls, rfl⟩, leaves⟩
    have becomes := Becomes.atCall moves.becomes.sound calls
    rw [moves.becomes.segments_eq] at becomes
    exact ⟨rfl, moves.spared becomes leaves (List.not_mem_nil)⟩

/-- The next segment as a step that failed leaves it. -/
def Segments.begun (segments : Segments) (number : SegmentNumber) (left : Bytes) :
    Segments :=
  segments.put (number + 1) (some left)

def IsBegun (number : SegmentNumber) (left : Bytes) : Prop :=
  left = [] ∨ left = headerBytes number

/-- The writer and the log when a writer cannot go on to the next segment. -/
inductive NotRolledOver (log : LogFiles) (writer : Writer) (bytes : Bytes)
    (log' : LogFiles) (writer' : Writer) : Prop where
  | unchanged (moves : Moves log writer writer.segment.number bytes log.segments
      log' writer')
  | begun {left : Bytes} (is_begun : IsBegun (writer.segment.number + 1) left)
      (moves : Moves log writer writer.segment.number bytes
        (log.segments.begun writer.segment.number left) log' writer')

theorem startSegment_failed {log' : LogFiles} {states : List (List CallKind × Segments)}
    {number : SegmentNumber} {segments : Segments} {error : Error}
    (failed : FailedAmong log states error log')
    (states_eq : states = startFailures segments number) :
    Becomes log log' segments ∨ ∃ left, IsBegun number left ∧
      Becomes log log' (segments.put number (some left)) := by
  obtain ⟨state, member, failed⟩ := failed
  simp only [states_eq, startFailures, List.mem_cons, List.not_mem_nil, or_false] at member
  rcases member with rfl | rfl | rfl
  · exact .inl failed.2
  · exact .inr ⟨[], .inl rfl, failed.2⟩
  · exact .inr ⟨_, .inr rfl, failed.2⟩

theorem rollOver_leads (sound : log.Sound) (home : writer.home = .memory)
    (opened : Opened log writer.segment bytes) (calls : Nat) :
    Leads Writer.rollOver (log.atCall calls, writer)
      (fun _ state => Moves log writer (writer.segment.number + 1)
        (headerBytes (writer.segment.number + 1))
        (log.segments.begun writer.segment.number
          (headerBytes (writer.segment.number + 1))) state.1 state.2)
      (fun error state => InjectedError log error ∧
        NotRolledOver log writer bytes state.1 state.2) := by
  unfold Writer.rollOver
  refine Leads.bind ((sync_leads (.stay sound opened calls)).imp_failed
    fun _ _ failed => ⟨failed.1, .unchanged failed.2⟩) ?_
  rintro - ⟨log₁, writer⟩ ⟨rfl, moves⟩
  have becomes := moves.becomes
  have started := (startSegment_leads becomes.sound (writer.segment.number + 1)).both
    (startSegment_spares becomes.sound (writer.segment.number + 1))
  refine Leads.current_bind ?_
  rw [home]
  refine Leads.bind (started.onLog ?_) ?_
  · rintro error log₂ ⟨failed, leaves⟩
    have other : writer.segment.number ∉ [writer.segment.number + 1] := by simp
    refine ⟨(failed.after becomes).injected, ?_⟩
    rcases startSegment_failed failed rfl with becomes' | ⟨left, is_begun, becomes'⟩ <;>
      rw [becomes.segments_eq] at becomes'
    · exact .unchanged (moves.spared becomes' leaves other)
    · exact .begun is_begun (moves.spared becomes' leaves other)
  · rintro segment _ ⟨log₂, rfl, ⟨number_eq, opened, becomes'⟩, -⟩
    rw [becomes.segments_eq] at becomes'
    exact ⟨rfl, number_eq, opened, becomes.trans becomes'⟩

/-- A record was written behind the bytes of a segment. -/
structure Appended (log : LogFiles) (writer : Writer) (number : SegmentNumber)
    (base payload : Bytes) (anchor : LogAnchor) (log' : LogFiles) (writer' : Writer) :
    Prop where
  anchor_eq : anchor = ⟨number, base.length, some writer.nextLsn⟩
  writer_eq : writer' =
    { writer with segment := writer'.segment, nextLsn := writer.nextLsn.next }
  number_eq : writer'.segment.number = number
  opened : Opened log' writer'.segment (base ++ recordBytes writer.nextLsn payload)
  becomes : Becomes log log'
    (log.segments.put number (some (base ++ recordBytes writer.nextLsn payload)))

/-- A record was written there, but its number was not counted. -/
structure Uncounted (log : LogFiles) (writer : Writer) (number : SegmentNumber)
    (base payload : Bytes) (log' : LogFiles) (writer' : Writer) : Prop where
  syncs : writer.syncOnWrite = true
  moves : Moves log writer number (base ++ recordBytes writer.nextLsn payload)
    (log.segments.put number (some (base ++ recordBytes writer.nextLsn payload)))
    log' writer'

/-- Puts a record behind the bytes of the open segment, with the number that `writer` gives. -/
def Writer.putRecord (writer : Writer) (payload : Bytes) : WriterM LogAnchor := do
  let (offset, segment) ← onLog
    ((← current).segment.append (recordBytes writer.nextLsn payload))
  setSegment segment
  if writer.syncOnWrite then
    sync
  modify fun (log, writer') => (log, { writer' with nextLsn := writer.nextLsn.next })
  return ⟨segment.number, offset, some writer.nextLsn⟩

theorem Leads.writerAppend {payload : Bytes} (storable : Storable payload)
    {done : LogAnchor → LogFiles × Writer → Prop} {failed : Error → LogFiles × Writer → Prop}
    (leads : Leads (do
      let size ← Writer.onLog writer.segment.size
      if writer.mustRollOver size (frameSize + payload.length) then
        Writer.rollOver
      writer.putRecord payload) (log, writer) done failed) :
    Leads (Writer.append payload) (log, writer) done failed := by
  unfold Writer.append
  refine Leads.current_bind ?_
  dsimp only
  rw [encodeRecord_of_storable storable]
  refine Leads.ofExcept_bind ?_
  rw [length_recordBytes]
  exact leads

theorem putRecord_leads {number : SegmentNumber} {base : Bytes} (payload : Bytes)
    {segments : Segments} (moves : Moves log writer number base segments log' writer')
    (only : ∀ bytes, segments.put number bytes = log.segments.put number bytes) :
    Leads (writer.putRecord payload) (log', writer')
      (fun anchor state =>
        Appended log writer number base payload anchor state.1 state.2)
      (fun error state => InjectedError log error ∧
        (Moves log writer number base segments state.1 state.2 ∨
          Uncounted log writer number base payload state.1 state.2)) := by
  unfold Writer.putRecord
  have ⟨writer_eq, number_eq, opened, becomes⟩ := moves
  have appended := (Leads.append becomes.sound opened
    (recordBytes writer.nextLsn payload)).both (Leads.append_spares becomes.sound opened _)
  refine Leads.current_bind (Leads.bind (appended.onLog ?_) ?_)
  · rintro error log₂ ⟨failed, leaves⟩
    have becomes' := failed.2
    rw [becomes.segments_eq] at becomes'
    exact ⟨(failed.after becomes).injected,
      .inl (moves.spared becomes' leaves (List.not_mem_nil))⟩
  rintro ⟨offset, segment⟩ _ ⟨log₂, rfl, ⟨rfl, same, opened', becomes'⟩, -⟩
  obtain rfl : segment = writer'.segment := same
  refine Leads.setSegment_bind ?_
  rw [number_eq, becomes.segments_eq, only] at becomes'
  have written : Moves log writer number (base ++ recordBytes writer.nextLsn payload)
      _ log₂ writer' :=
    ⟨writer_eq, number_eq, opened', becomes.trans becomes'⟩
  have numbered {log₃ : LogFiles} (synced : Moves log writer number
      (base ++ recordBytes writer.nextLsn payload)
      (log.segments.put number (some (base ++ recordBytes writer.nextLsn payload)))
      log₃ writer') :
      Appended log writer number base payload
        ⟨writer'.segment.number, base.length, some writer.nextLsn⟩ log₃
        { writer' with nextLsn := writer.nextLsn.next } :=
    ⟨by rw [number_eq], by rw [writer_eq], number_eq, synced.opened, synced.becomes⟩
  cases syncs : writer.syncOnWrite with
  | false => exact numbered written
  | true =>
      simp only [if_true]
      refine Leads.bind ((sync_leads written).imp_failed
        fun _ _ failed => ⟨failed.1, .inr ⟨syncs, failed.2⟩⟩) ?_
      rintro - ⟨log₃, _⟩ ⟨rfl, synced⟩
      exact numbered synced

def recordPlace (writer : Writer) (bytes payload : Bytes) : SegmentNumber × Bytes :=
  if writer.mustRollOver bytes.length (frameSize + payload.length) then
    (writer.segment.number + 1, headerBytes (writer.segment.number + 1))
  else
    (writer.segment.number, bytes)

theorem Writer.full_of_rolls {bytes : Bytes} {size : Nat}
    (rolls : writer.mustRollOver bytes.length size = true) :
    SegmentHeader.size < bytes.length := by
  unfold Writer.mustRollOver at rolls
  exact of_decide_eq_true (Bool.and_eq_true_iff.mp rolls).1

theorem recordPlace_cases (writer : Writer) (bytes payload : Bytes) :
    recordPlace writer bytes payload = (writer.segment.number, bytes) ∨
      recordPlace writer bytes payload =
          (writer.segment.number + 1, headerBytes (writer.segment.number + 1)) ∧
        SegmentHeader.size < bytes.length := by
  unfold recordPlace
  split
  · exact .inr ⟨rfl, Writer.full_of_rolls ‹_›⟩
  · exact .inl rfl

/-- The writer and the log when one of the calls of an append was made to fail. -/
inductive Unfinished (log : LogFiles) (writer : Writer) (bytes payload : Bytes)
    (log' : LogFiles) (writer' : Writer) : Prop where
  | unchanged (moves : Moves log writer writer.segment.number bytes log.segments
      log' writer')
  | begun (rolls : writer.mustRollOver bytes.length (frameSize + payload.length) = true)
      {left : Bytes} (is_begun : IsBegun (writer.segment.number + 1) left)
      (moves : Moves log writer writer.segment.number bytes
        (log.segments.begun writer.segment.number left) log' writer')
  | moved (rolls : writer.mustRollOver bytes.length (frameSize + payload.length) = true)
      (moves : Moves log writer (writer.segment.number + 1)
        (headerBytes (writer.segment.number + 1))
        (log.segments.begun writer.segment.number
          (headerBytes (writer.segment.number + 1))) log' writer')
  | written (uncounted : Uncounted log writer (recordPlace writer bytes payload).1
      (recordPlace writer bytes payload).2 payload log' writer')

theorem append_leads (sound : log.Sound) (home : writer.home = .memory)
    (opened : Opened log writer.segment bytes) {payload : Bytes}
    (storable : Storable payload) :
    Leads (Writer.append payload) (log, writer)
      (fun anchor state =>
        Appended log writer (recordPlace writer bytes payload).1
          (recordPlace writer bytes payload).2 payload anchor state.1 state.2)
      (fun error state => InjectedError log error ∧
        Unfinished log writer bytes payload state.1 state.2) := by
  have sized := (Leads.size sound opened).both (Leads.size_spares writer.segment)
  refine Leads.writerAppend storable (Leads.bind (sized.onLog ?_) ?_)
  · rintro error log₁ ⟨failed, leaves⟩
    exact ⟨failed.injected, .unchanged ⟨rfl, rfl,
      leaves.still opened (List.not_mem_nil), failed.2⟩⟩
  rintro _ _ ⟨_, rfl, ⟨rfl, calls, rfl⟩, -⟩
  unfold recordPlace
  cases rolls : writer.mustRollOver bytes.length (frameSize + payload.length) with
  | false =>
      refine (putRecord_leads payload (.stay sound opened calls) fun _ => rfl).imp_failed ?_
      rintro error _ ⟨injected, moves | uncounted⟩
      · exact ⟨injected, .unchanged moves⟩
      · exact ⟨injected, .written (by simpa [recordPlace, rolls] using uncounted)⟩
  | true =>
      simp only [if_true]
      refine Leads.bind ((rollOver_leads sound home opened calls).imp_failed ?_) ?_
      · rintro error _ ⟨injected, moves | ⟨is_begun, moves⟩⟩
        · exact ⟨injected, .unchanged moves⟩
        · exact ⟨injected, .begun rolls is_begun moves⟩
      rintro - ⟨log₁, writer₁⟩ moves
      refine (putRecord_leads payload moves fun _ => Segments.put_put _ _ _ _).imp_failed ?_
      rintro error _ ⟨injected, moves | uncounted⟩
      · exact ⟨injected, .moved rolls moves⟩
      · exact ⟨injected, .written (by simpa [recordPlace, rolls] using uncounted)⟩

theorem append_rejected {payload : Bytes} (unfit : ¬ Storable payload) :
    ∃ refusal, Writer.append payload (log, writer) =
      (.error (.refused refusal), log, writer) := by
  obtain ⟨refusal, refused⟩ := encodeRecord_of_not_storable unfit writer.nextLsn
  refine ⟨refusal, ?_⟩
  unfold Writer.append
  rw [bind_apply]
  have current : Writer.current (log, writer) = (.ok writer, log, writer) := rfl
  rw [current]
  simp only [refused]
  rfl

end

end Log

end DirectoryStore
