import DirectoryStore.Proofs.Log.Growing

/-!
# Going on at the end of a log

A log ends when a scan reads it from one of its segments up to the end of the last
one.  A writer that stands there stores every payload that a record can hold, and
refuses the others.  Without failures, each record that it stores comes behind the
records that a scan reads already, under a number that the last of them admits, and
the log ends again behind it.
-/

namespace DirectoryStore.Log

/-! ## Appends one after the other -/

/-- A payload that was given to a writer, and what the append answered. -/
abbrev Answer := Bytes × Except Error LogAnchor

def accepted (answers : List Answer) : List (Bytes × LogAnchor) :=
  answers.filterMap fun (payload, result) => result.toOption.map (payload, ·)

def Writer.appendEach : List Bytes → StateM (LogFiles × Writer) (List Answer)
  | [] => return []
  | payload :: rest => fun state =>
      let (result, state) := append payload state
      let (answers, state) := appendEach rest state
      ((payload, result) :: answers, state)

theorem appendEach_cons_apply {payload : Bytes} {rest : List Bytes}
    {result : Except Error LogAnchor} {state state' : LogFiles × Writer}
    (ran : Writer.append payload state = (result, state')) :
    Writer.appendEach (payload :: rest) state =
      ((payload, result) :: (Writer.appendEach rest state').1,
        (Writer.appendEach rest state').2) := by
  rw [Writer.appendEach]
  simp only [ran]
  rfl

def Found.stored (found : Found) : Bytes × LogAnchor :=
  (found.payload, found.anchor)

structure Answered (answers : List Answer) (payloads : List Bytes) (new : List Found) :
    Prop where
  payloads_eq : answers.map (·.1) = payloads
  accepted_eq : accepted answers = new.map Found.stored
  stored_eq : new.map (·.payload) = payloads.filter Storable

theorem Answered.accept {answers : List Answer} {payloads : List Bytes} {new : List Found}
    (answered : Answered answers payloads new) {found : Found}
    (storable : Storable found.payload) :
    Answered ((found.payload, .ok found.anchor) :: answers) (found.payload :: payloads)
      (found :: new) := by
  obtain ⟨payloads_eq, accepted_eq, stored_eq⟩ := answered
  refine ⟨by simp [payloads_eq], ?_, by simp [storable, stored_eq]⟩
  simpa [accepted, Except.toOption, Found.stored] using accepted_eq

theorem Answered.reject {answers : List Answer} {payloads : List Bytes} {new : List Found}
    (answered : Answered answers payloads new) {payload : Bytes}
    (unfit : ¬ Storable payload) (error : Error) :
    Answered ((payload, .error error) :: answers) (payload :: payloads) new := by
  obtain ⟨payloads_eq, accepted_eq, stored_eq⟩ := answered
  refine ⟨by simp [payloads_eq], ?_, by simp [unfit, stored_eq]⟩
  simpa [accepted, Except.toOption] using accepted_eq

theorem Answered.append {answers answers' : List Answer} {payloads payloads' : List Bytes}
    {new new' : List Found} (first : Answered answers payloads new)
    (second : Answered answers' payloads' new') :
    Answered (answers ++ answers') (payloads ++ payloads') (new ++ new') := by
  refine ⟨by simp [first.payloads_eq, second.payloads_eq], ?_,
    by simp [first.stored_eq, second.stored_eq]⟩
  have both : accepted (answers ++ answers') = accepted answers ++ accepted answers' :=
    List.filterMap_append
  rw [both, first.accepted_eq, second.accepted_eq, List.map_append]

theorem Answered.stores {answers : List Answer} {payloads : List Bytes} {new : List Found}
    (answered : Answered answers payloads new) :
    (accepted answers).map (·.1) = payloads.filter Storable := by
  rw [answered.accepted_eq, ← answered.stored_eq, List.map_map]
  rfl

theorem Answered.length_eq {answers : List Answer} {payloads : List Bytes}
    {new : List Found} (answered : Answered answers payloads new) :
    new.length = (payloads.filter Storable).length := by
  rw [← answered.stored_eq, List.length_map]

/--
What each append keeps, given the payloads that are still to come, all of them keep:
an append of a payload that a record can hold stores it, and any other changes nothing.
-/
theorem Writer.appendEach_keeps
    (Keeps : List Bytes → LogFiles → Writer → List Found → Prop)
    (accepts : ∀ {payload : Bytes} {rest : List Bytes} {log : LogFiles} {writer : Writer}
      {records : List Found}, Keeps (payload :: rest) log writer records →
      Storable payload → ∃ found log' writer', found.payload = payload ∧
        append payload (log, writer) = (.ok found.anchor, log', writer') ∧
        Keeps rest log' writer' (records ++ [found]))
    (refuses : ∀ {payload : Bytes} {rest : List Bytes} {log : LogFiles} {writer : Writer}
      {records : List Found}, Keeps (payload :: rest) log writer records →
      ¬ Storable payload → Keeps rest log writer records)
    (payloads : List Bytes) {log : LogFiles} {writer : Writer} (records : List Found)
    (keeps : Keeps payloads log writer records) :
    ∃ answers log' writer' new,
      appendEach payloads (log, writer) = (answers, log', writer') ∧
        Answered answers payloads new ∧ Keeps [] log' writer' (records ++ new) := by
  induction payloads generalizing log writer records with
  | nil => exact ⟨[], log, writer, [], rfl, ⟨rfl, rfl, rfl⟩, by simpa using keeps⟩
  | cons payload rest ih =>
      by_cases storable : Storable payload
      · obtain ⟨found, log₁, writer₁, rfl, ran, keeps₁⟩ := accepts keeps storable
        obtain ⟨answers, log', writer', new, ran', answered, keeps'⟩ := ih _ keeps₁
        rw [List.append_assoc] at keeps'
        refine ⟨_, log', writer', found :: new, ?_, answered.accept storable, keeps'⟩
        rw [appendEach_cons_apply ran, ran']
      · obtain ⟨refusal, ran⟩ := @append_rejected log writer payload storable
        obtain ⟨answers, log', writer', new, ran', answered, keeps'⟩ :=
          ih _ (refuses keeps storable)
        refine ⟨_, log', writer', new, ?_, answered.reject storable (.refused refusal), keeps'⟩
        rw [appendEach_cons_apply ran, ran']

/-! ## A writer without failures -/

theorem LogFiles.Quiet.no_error {log : LogFiles} (quiet : log.Quiet) {error : Error} :
    ¬ InjectedError log error :=
  fun ⟨_, _, injected, _⟩ => quiet.not_injects injected

def Writer.nextFound (writer : Writer) (bytes payload : Bytes) : Found :=
  ⟨(recordPlace writer bytes payload).1, (recordPlace writer bytes payload).2.length,
    writer.nextLsn, payload⟩

structure Works (log : LogFiles) (writer : Writer) (bytes : Bytes) : Prop where
  sound : log.Sound
  quiet : log.Quiet
  home_eq : writer.home = .memory
  opened : Opened log writer.segment bytes

section

variable {log log' : LogFiles} {writer writer' : Writer} {bytes base payload : Bytes}
  {number : SegmentNumber} {anchor : LogAnchor}

theorem Works.append (works : Works log writer bytes) (storable : Storable payload) :
    ∃ log' writer', Writer.append payload (log, writer) =
        (.ok (writer.nextFound bytes payload).anchor, log', writer') ∧
      Appended log writer (recordPlace writer bytes payload).1
        (recordPlace writer bytes payload).2 payload
        (writer.nextFound bytes payload).anchor log' writer' := by
  have leads := append_leads works.sound works.home_eq works.opened storable
  rcases ran : Writer.append payload (log, writer) with ⟨error | anchor, log', writer'⟩
  · exact absurd (leads.of_error ran).1 works.quiet.no_error
  · have appended := leads.of_ok ran
    obtain rfl : anchor = (writer.nextFound bytes payload).anchor := appended.anchor_eq
    exact ⟨log', writer', rfl, appended⟩

theorem Appended.works (appended : Appended log writer number base payload anchor log' writer')
    (works : Works log writer bytes) :
    Works log' writer' (base ++ recordBytes writer.nextLsn payload) :=
  ⟨appended.becomes.sound, appended.becomes.plan_eq.trans works.quiet,
    by rw [appended.writer_eq, works.home_eq], appended.opened⟩

theorem Appended.nextLsn_eq
    (appended : Appended log writer number base payload anchor log' writer') :
    writer'.nextLsn = writer.nextLsn + 1 := by
  rw [appended.writer_eq]
  rfl

theorem Appended.number_cases (appended : Appended log writer
      (recordPlace writer bytes payload).1 (recordPlace writer bytes payload).2 payload
      anchor log' writer') :
    writer'.segment.number = writer.segment.number ∨
      writer'.segment.number = writer.segment.number + 1 ∧
        SegmentHeader.size < bytes.length := by
  rw [appended.number_eq]
  rcases recordPlace_cases writer bytes payload with here | ⟨next, full⟩
  · exact .inl (by rw [here])
  · exact .inr ⟨by rw [next], full⟩

theorem Works.endAnchor (works : Works log writer bytes) :
    ∃ calls, Writer.endAnchor (log, writer) =
      (.ok ⟨writer.segment.number, bytes.length, some writer.nextLsn⟩,
        log.atCall calls, writer) := by
  have sized := Leads.size works.sound works.opened
  have leads : Leads Writer.endAnchor (log, writer)
      (fun place state =>
        place = ⟨writer.segment.number, bytes.length, some writer.nextLsn⟩ ∧
          ∃ calls, state = (log.atCall calls, writer))
      (fun error _ => InjectedError log error) := by
    unfold Writer.endAnchor
    refine Leads.current_bind (Leads.bind
      (sized.onLog fun _ _ failed => failed.injected) ?_)
    rintro _ _ ⟨_, rfl, rfl, calls, rfl⟩
    exact Leads.pure ⟨rfl, calls, rfl⟩
  rcases ran : Writer.endAnchor (log, writer) with ⟨error | place, state⟩
  · exact absurd (leads.of_error ran) works.quiet.no_error
  · obtain ⟨rfl, calls, rfl⟩ := leads.of_ok ran
    exact ⟨calls, rfl⟩

theorem Works.appendEach_le (works : Works log writer bytes) (payloads : List Bytes) :
    writer.nextLsn ≤ (Writer.appendEach payloads (log, writer)).2.2.nextLsn ∧
      writer.segment.number ≤
        (Writer.appendEach payloads (log, writer)).2.2.segment.number := by
  let Keeps (_ : List Bytes) (log' : LogFiles) (writer' : Writer) (_ : List Found) : Prop :=
    (∃ bytes, Works log' writer' bytes) ∧ writer.nextLsn ≤ writer'.nextLsn ∧
      writer.segment.number ≤ writer'.segment.number
  have start : Keeps payloads log writer [] := ⟨⟨bytes, works⟩, Nat.le_refl _, Nat.le_refl _⟩
  have kept := Writer.appendEach_keeps Keeps ?_ (fun keeps _ => keeps) payloads [] start
  · obtain ⟨_, _, _, _, ran, -, -, counted⟩ := kept
    rw [ran]
    exact counted
  · rintro payload rest log writer records ⟨⟨bytes, works⟩, lsn_le, number_le⟩ storable
    obtain ⟨log₁, writer₁, ran, appended⟩ := works.append storable
    have next := appended.nextLsn_eq
    have place := appended.number_cases
    exact ⟨_, log₁, writer₁, rfl, ran, ⟨_, appended.works works⟩, by grind, by grind⟩

end

/-! ## Logs that end -/

/-- From a segment on a scan reads these records, and the log ends behind them. -/
structure Ended (log : LogFiles) (first : SegmentNumber) (records : List Found)
    (number : SegmentNumber) (size : Nat) : Prop where
  sound : log.Sound
  quiet : log.Quiet
  chain : Chain log.segments first 0 (.start none) records ⟨none, number, size⟩
  last : ∀ other, number < other → log.segments other = none

section

variable {log log' : LogFiles} {first number : SegmentNumber} {records : List Found}
  {size : Nat}

theorem Ended.stored (ended : Ended log first records number size) :
    ∃ bytes, log.segments number = some bytes ∧ bytes.length = size :=
  (ended.chain.eof_place rfl).2.1

theorem Chain.record_behind {segments : Segments} {offset : Nat} {prior : Prior}
    {bytes payload : Bytes} {lsn : Lsn}
    (chain : Chain segments first offset prior records ⟨none, number, bytes.length⟩)
    (stored : segments number = some bytes)
    (missing : segments (number + 1 + 1) = none) (storable : Storable payload)
    (fits : lsn < UInt64.size) (admits : (prior.following records).Admits lsn)
    {place : SegmentNumber × Bytes}
    (cases : place = (number, bytes) ∨ place = (number + 1, headerBytes (number + 1)))
    (number_fits : place.1 < UInt64.size) :
    Chain (segments.put place.1 (some (place.2 ++ recordBytes lsn payload))) first offset
      prior (records ++ [⟨place.1, place.2.length, lsn, payload⟩])
      ⟨none, place.1, (place.2 ++ recordBytes lsn payload).length⟩ := by
  rcases cases with rfl | rfl
  · exact chain.append_record stored fits storable admits
  · have begun := chain.begin_segment number_fits missing
    rw [← length_headerBytes (number + 1)] at begun
    have whole := begun.append_record (if_pos rfl) fits storable admits
    rwa [Segments.begun, Segments.put_put] at whole

theorem Ended.record {bytes payload : Bytes} {lsn : Lsn}
    (ended : Ended log first records number bytes.length)
    (stored : log.segments number = some bytes) (storable : Storable payload)
    (fits : lsn < UInt64.size) (admits : ((Prior.start none).following records).Admits lsn)
    {place : SegmentNumber × Bytes}
    (cases : place = (number, bytes) ∨ place = (number + 1, headerBytes (number + 1)))
    (number_fits : place.1 < UInt64.size)
    (becomes : Becomes log log'
      (log.segments.put place.1 (some (place.2 ++ recordBytes lsn payload)))) :
    Ended log' first (records ++ [⟨place.1, place.2.length, lsn, payload⟩]) place.1
      (place.2 ++ recordBytes lsn payload).length := by
  have elsewhere {other : SegmentNumber} (bytes : Option Bytes) (later : number < other)
      (different : other ≠ place.1) : log.segments.put place.1 bytes other = none :=
    (if_neg different).trans (ended.last other later)
  refine ⟨becomes.sound, becomes.plan_eq.trans ended.quiet, ?_, ?_⟩ <;>
    rw [becomes.segments_eq]
  · exact ended.chain.record_behind stored
      (ended.last _ (Nat.lt_succ_of_lt (Nat.lt_succ_self _))) storable fits admits cases
      number_fits
  · rcases cases with rfl | rfl
    · exact fun _ later => elsewhere _ later (Nat.ne_of_gt later)
    · exact fun _ later => elsewhere _ (Nat.lt_of_succ_lt later) (Nat.ne_of_gt later)

end

/-! ## Scanning from a segment on -/

/--
Scans from the start of a segment read these payloads one after the other, each at its
position, and then stop in one way for ever, into whatever they read them: at the end of
the log if the proposition holds, and at content that is no log otherwise.
-/
def ReadsTo (log : LogFiles) (first : SegmentNumber) (stored : List (Bytes × LogAnchor))
    (at_end : Prop) : Prop :=
  ∃ stop : Stop, (stop.fault = none ↔ at_end) ∧ ∀ buffers : List Record,
    let steps := ((Scanner.startAt .memory (.startOf first)).nextEach buffers log).1
    steps.length = buffers.length ∧
    ∀ (index : Nat) (step : Scanner.Step), steps[index]? = some step →
      match stored[index]? with
      | some (payload, anchor) =>
          step.result = .ok true ∧ step.record.payload = payload ∧
            step.record.anchor = some anchor
      | none => step.Stops stop

section

variable {log : LogFiles} {first number : SegmentNumber} {records : List Found}
  {size : Nat}

theorem Reading.readsTo (quiet : log.Quiet) {stop : Stop}
    (reading : Reading log.segments (.startOf first) records stop) :
    ReadsTo log first (records.map Found.stored) (stop.fault = none) := by
  refine ⟨stop, Iff.rfl, fun buffers => ?_⟩
  obtain ⟨calls, steps, ran, length, read⟩ :=
    (WillRead.starting reading).nextEach quiet buffers log.injection.callsMade
  have ran : (Scanner.startAt .memory (.startOf first)).nextEach buffers log =
      (steps, log.atCall calls) := ran
  rw [ran]
  refine ⟨length, fun index step held => ?_⟩
  have answer := read index step held
  rw [List.getElem?_map]
  cases read : records[index]? with
  | none =>
      rw [read] at answer
      exact answer
  | some found =>
      rw [read] at answer
      exact ⟨answer.result_eq, answer.payload_eq, answer.anchor_eq⟩

theorem Ended.readsTo (ended : Ended log first records number size) :
    ReadsTo log first (records.map Found.stored) True := by
  obtain ⟨stop, at_end, reads⟩ := Reading.readsTo ended.quiet (.whole rfl ended.chain)
  exact ⟨stop, at_end.trans (iff_true_intro rfl), reads⟩

theorem Ended.number_le (ended : Ended log first records number size) :
    ∀ other ∈ log.memory.map (·.1), other ≤ number := by
  intro other member
  obtain ⟨bytes, stored⟩ := LogFiles.mem_numbers_iff.mp member
  refine Nat.le_of_not_lt fun behind => ?_
  rw [ended.last other behind] at stored
  cases stored

end

/-! ## A writer at the end of a log -/

/-- A writer that can put one more record behind those of a log. -/
structure Continues (log : LogFiles) (writer : Writer) (first : SegmentNumber)
    (records : List Found) (bytes : Bytes) : Prop extends Works log writer bytes where
  ended : Ended log first records writer.segment.number bytes.length
  admits : ((Prior.start none).following records).Admits writer.nextLsn

section

variable {log log' : LogFiles} {writer writer' : Writer} {first : SegmentNumber}
  {records : List Found} {bytes payload : Bytes}

theorem Continues.appended (continues : Continues log writer first records bytes)
    (storable : Storable payload) (fits : writer.nextLsn < UInt64.size)
    (number_fits : (recordPlace writer bytes payload).1 < UInt64.size)
    {anchor : LogAnchor}
    (appended : Appended log writer (recordPlace writer bytes payload).1
      (recordPlace writer bytes payload).2 payload anchor log' writer') :
    Continues log' writer' first (records ++ [writer.nextFound bytes payload])
      ((recordPlace writer bytes payload).2 ++ recordBytes writer.nextLsn payload) := by
  have longer := continues.ended.record continues.opened.segments_eq storable fits
    continues.admits ((recordPlace_cases writer bytes payload).imp_right And.left)
    number_fits appended.becomes
  refine ⟨appended.works continues.toWorks, appended.number_eq ▸ longer, ?_⟩
  rw [Prior.following_append, appended.nextLsn_eq]
  exact Nat.le_succ writer.nextLsn

theorem Continues.appendEach (continues : Continues log writer first records bytes)
    {payloads : List Bytes} {answers : List Answer}
    (ran : Writer.appendEach payloads (log, writer) = (answers, log', writer'))
    (fits : writer'.nextLsn ≤ UInt64.size)
    (number_fits : writer'.segment.number < UInt64.size) :
    ∃ new bytes', Answered answers payloads new ∧
      Continues log' writer' first (records ++ new) bytes' := by
  let Keeps (rest : List Bytes) (log₁ : LogFiles) (writer₁ : Writer)
      (records : List Found) : Prop :=
    (∃ bytes, Continues log₁ writer₁ first records bytes) ∧
      (Writer.appendEach rest (log₁, writer₁)).2 = (log', writer')
  have start : Keeps payloads log writer records := ⟨⟨bytes, continues⟩, by rw [ran]⟩
  have kept := Writer.appendEach_keeps Keeps ?_ ?_ payloads records start
  · obtain ⟨answers', log₂, writer₂, new, ran', answered, ⟨bytes', continues'⟩, -⟩ := kept
    rw [ran] at ran'
    obtain ⟨rfl, reached⟩ := Prod.mk.inj ran'
    obtain ⟨rfl, rfl⟩ := Prod.mk.inj reached
    exact ⟨new, bytes', answered, continues'⟩
  · rintro payload rest log₁ writer₁ records ⟨⟨bytes, continues⟩, same⟩ storable
    obtain ⟨log₂, writer₂, ran, appended⟩ := continues.append storable
    rw [appendEach_cons_apply ran] at same
    -- The numbers that are given now are no higher than those at the end.
    obtain ⟨lsn_le, number_le⟩ := (appended.works continues.toWorks).appendEach_le rest
    rw [same] at lsn_le number_le
    rw [appended.nextLsn_eq] at lsn_le
    rw [appended.number_eq] at number_le
    exact ⟨_, log₂, writer₂, rfl, ran, ⟨_, continues.appended storable
      (Nat.lt_of_lt_of_le (Nat.lt_of_succ_le lsn_le) fits)
      (Nat.lt_of_le_of_lt number_le number_fits) appended⟩, same⟩
  · rintro payload rest log₁ writer₁ records ⟨continues, same⟩ unfit
    obtain ⟨refusal, ran⟩ := @append_rejected log₁ writer₁ payload unfit
    rw [appendEach_cons_apply ran] at same
    exact ⟨continues, same⟩

end

end DirectoryStore.Log
