import DirectoryStore.Proofs.Log.Sessions

/-!
# Torn logs

The last segment of a log can lose its end at any byte.  A scan of what is left reads
the records that are still whole, and then finds the end of the log or the rest of what
was torn.  A writer that opens the log takes that rest away and goes on behind the
records, with the sequence number of the first one that was lost.
-/

namespace DirectoryStore.Log

/-! ## What is left -/

def endOf (stored : Bytes × LogAnchor) : Nat :=
  stored.2.offset + frameSize + stored.1.length

/-- The record stays whole when the last segment, with this number, is cut to a size. -/
def Survives (number : SegmentNumber) (size : Nat) (stored : Bytes × LogAnchor) : Prop :=
  stored.2.segment < number ∨ endOf stored ≤ size

instance (number : SegmentNumber) (size : Nat) : DecidablePred (Survives number size) :=
  fun _ => inferInstanceAs (Decidable (_ ∨ _))

def surviving (number : SegmentNumber) (size : Nat) (records : List Found) : List Found :=
  records.filter fun found => Survives number size found.stored

section

variable {segments : Segments} {number : SegmentNumber} {offset size : Nat} {prior : Prior}
  {records : List Found} {found : Found} {stop : Stop} {bytes : Bytes}

theorem survives_iff :
    Survives number size found.stored ↔ found.segment < number ∨ found.finish ≤ size :=
  Iff.rfl

theorem surviving_cons_of_survives (survives : Survives number size found.stored) :
    surviving number size (found :: records) = found :: surviving number size records :=
  List.filter_cons_of_pos (by simpa using survives)

theorem surviving_cons_of_lost (lost : ¬ Survives number size found.stored) :
    surviving number size (found :: records) = surviving number size records :=
  List.filter_cons_of_neg (by simpa using lost)

theorem Chain.surviving_eq_nil (chain : Chain segments stop.segment offset prior records stop)
    (behind : size < offset) : surviving stop.segment size records = [] := by
  refine List.filter_eq_nil_iff.mpr fun found member survives => ?_
  have place := (chain.place_le_of_mem member).1
  have segment_le := chain.segment_le_of_mem member
  rcases survives_iff.mp (of_decide_eq_true survives) with earlier | whole
  · grind
  · unfold Found.finish at whole
    grind

/-! ## Scanning a torn log -/

theorem SameUpTo.symm {first second : Bytes} (same : SameUpTo size first second) :
    SameUpTo size second first :=
  ⟨same.le_second, same.le_first, same.take_eq.symm⟩

theorem recordAt_take {lsn : Lsn} {payload : Bytes} (inside : size ≤ bytes.length)
    (read : recordAt number bytes offset prior = .ok (lsn, payload))
    (whole : offset + frameSize + payload.length ≤ size) :
    recordAt number (bytes.take size) offset prior = .ok (lsn, payload) := by
  obtain ⟨stands, admits⟩ := recordAt_eq_ok_iff.mp read
  exact recordAt_eq_ok_iff.mpr ⟨stands.of_same (.take inside) whole, admits⟩

theorem recordAt_take_eq_error {lsn : Lsn} {payload : Bytes} (inside : size ≤ bytes.length)
    (read : recordAt number bytes offset prior = .ok (lsn, payload))
    (torn : size < offset + frameSize + payload.length) :
    ∃ fault, recordAt number (bytes.take size) offset prior = .error fault := by
  cases left : recordAt number (bytes.take size) offset prior with
  | error fault => exact ⟨fault, rfl⟩
  | ok found =>
      -- What stands in the part that is left stands there in the whole segment, too.
      obtain ⟨stands, admits⟩ := recordAt_eq_ok_iff.mp left
      have within := stands.inside
      rw [List.length_take_of_le inside] at within
      have same : recordAt number bytes offset prior = .ok found := recordAt_eq_ok_iff.mpr
        ⟨stands.of_same (SameUpTo.take inside).symm within, admits⟩
      rw [read] at same
      obtain ⟨rfl, rfl⟩ := Prod.mk.inj (Except.ok.inj same)
      exact absurd within (Nat.not_le.mpr torn)

theorem checkHeader_take_eq_error (short : size < SegmentHeader.size) :
    ∃ fault, checkHeader number (bytes.take size) = .error fault := by
  cases left : checkHeader number (bytes.take size) with
  | error fault => exact ⟨fault, rfl⟩
  | ok =>
      have inside := (checkHeader_eq_ok_iff.mp left).inside
      rw [List.length_take] at inside
      omega

/-- At a record that lost its end a scan stops, and so it does at the tear itself. -/
theorem Chain.stops_at_tear {lsn : Lsn} {payload : Bytes}
    (past_header : SegmentHeader.size ≤ offset)
    (left : segments number = some (bytes.take size)) (inside : size ≤ bytes.length)
    (missing : segments (number + 1) = none) (before : offset ≤ size)
    (read : recordAt number bytes offset prior = .ok (lsn, payload))
    (torn : size < offset + frameSize + payload.length) :
    ∃ fault, Chain segments number offset prior [] ⟨fault, number, offset⟩ := by
  have length : (bytes.take size).length = size := List.length_take_of_le inside
  rcases Nat.eq_or_lt_of_le before with at_tear | rest_left
  · exact ⟨none, .ended past_header left (length.trans at_tear.symm) missing⟩
  · obtain ⟨fault, broken⟩ := recordAt_take_eq_error inside read torn
    exact ⟨some fault, .damaged past_header left (rest_left.trans_eq length.symm) broken⟩

theorem Chain.torn (chain : Chain segments number offset prior records stop)
    (eof : stop.fault = none) (stored : segments stop.segment = some bytes)
    (inside : size ≤ bytes.length) (before : number = stop.segment → offset ≤ size) :
    ∃ stop', stop'.segment = stop.segment ∧
      surviving stop.segment size records <+: records ∧
      Chain (segments.put stop.segment (some (bytes.take size))) number offset prior
        (surviving stop.segment size records) stop' := by
  have left (number : SegmentNumber) :
      (segments.put number (some (bytes.take size))) number = some (bytes.take size) :=
    if_pos rfl
  induction chain with
  | @header number prior held records stop stored' passed tail ih =>
      by_cases here : number = stop.segment
      · subst here
        obtain rfl := Option.some.inj (stored.symm.trans stored')
        by_cases whole : SegmentHeader.size ≤ size
        · obtain ⟨stop', same, front, torn⟩ := ih eof stored (fun _ => whole)
          have headed := (checkHeader_eq_ok_iff.mp passed).of_same (.take inside) whole
          exact ⟨stop', same, front,
            .header (left _) (checkHeader_eq_ok_iff.mpr headed) torn⟩
        · -- All the records of the segment stand behind the header, so they are lost, too.
          have short := Nat.lt_of_not_le whole
          obtain ⟨fault, broken⟩ := checkHeader_take_eq_error short
          rw [tail.surviving_eq_nil short]
          exact ⟨⟨some fault, stop.segment, 0⟩, rfl, List.nil_prefix,
            .unheaded (left _) broken⟩
      · obtain ⟨stop', same, front, torn⟩ := ih eof stored fun at_stop => absurd at_stop here
        exact ⟨stop', same, front, .header ((if_neg here).trans stored') passed torn⟩
  | @record number offset prior held lsn payload rest stop past_header stored' read tail ih =>
      by_cases here : number = stop.segment
      · subst here
        obtain rfl := Option.some.inj (stored.symm.trans stored')
        by_cases whole : offset + frameSize + payload.length ≤ size
        · obtain ⟨stop', same, front, torn⟩ := ih eof stored (fun _ => whole)
          rw [surviving_cons_of_survives (.inr whole)]
          exact ⟨stop', same, List.cons_prefix_cons.mpr ⟨rfl, front⟩,
            .record past_header (left _) (recordAt_take inside read whole) torn⟩
        · -- The scan stops here, and the records behind this one begin behind the tear.
          have short := Nat.lt_of_not_le whole
          have lost : ¬ Survives stop.segment size (Found.stored
              ⟨stop.segment, offset, lsn, payload⟩) :=
            not_or.mpr ⟨Nat.lt_irrefl _, whole⟩
          rw [surviving_cons_of_lost lost, tail.surviving_eq_nil short]
          obtain ⟨fault, torn⟩ := stops_at_tear past_header (left stop.segment) inside
            ((if_neg (Nat.succ_ne_self _)).trans (tail.eof_place eof).2.2) (before rfl) read
            short
          exact ⟨⟨fault, stop.segment, offset⟩, rfl, List.nil_prefix, torn⟩
      · have earlier := Nat.lt_of_le_of_ne tail.segment_le here
        obtain ⟨stop', same, front, torn⟩ := ih eof stored fun at_stop => absurd at_stop here
        rw [surviving_cons_of_survives (.inl earlier)]
        exact ⟨stop', same, List.cons_prefix_cons.mpr ⟨rfl, front⟩,
          .record past_header ((if_neg here).trans stored') read torn⟩
  | @onward number offset prior held records stop past_header stored' at_end tail ih =>
      obtain ⟨stop', same, front, torn⟩ := ih eof stored fun _ => Nat.zero_le _
      have here : number ≠ stop.segment := Nat.ne_of_lt tail.segment_le
      exact ⟨stop', same, front,
        .onward past_header ((if_neg here).trans stored') at_end torn⟩
  | @ended number offset prior held past_header stored' at_end missing =>
      obtain rfl := Option.some.inj (stored.symm.trans stored')
      have length : (bytes.take size).length = offset :=
        (List.length_take_of_le inside).trans (Nat.le_antisymm (at_end ▸ inside) (before rfl))
      exact ⟨⟨none, number, offset⟩, rfl, List.nil_prefix, .ended past_header (left _)
        length ((if_neg (Nat.succ_ne_self _)).trans missing)⟩
  | unheaded | damaged | pastEnd => cases eof

theorem Chain.ended_iff (chain : Chain segments number 0 prior records stop)
    (stored : segments stop.segment = some bytes)
    (headed : SegmentHeader.size ≤ bytes.length → checkHeader stop.segment bytes = .ok ()) :
    stop.fault = none ↔ bytes.length = SegmentHeader.size ∨
      ∃ found ∈ records, found.segment = stop.segment ∧ found.finish = bytes.length := by
  obtain ⟨first, first_stored⟩ := chain.stored
  obtain ⟨held, held_stored, stop_le⟩ := chain.stop_inside first_stored (Nat.zero_le _)
  obtain rfl := Option.some.inj (stored.symm.trans held_stored)
  have headed_iff := chain.headed_iff stored fun _ inside => absurd rfl inside
  constructor
  · intro eof
    obtain ⟨past_header, ⟨held, held_stored, at_end⟩, -⟩ := chain.eof_place eof
    obtain rfl := Option.some.inj (stored.symm.trans held_stored)
    rcases Nat.eq_or_lt_of_le past_header with bare | filled
    · exact .inl (at_end.trans bare.symm)
    · rw [at_end]
      exact .inr (chain.exists_mem_of_lt filled fun _ => Nat.zero_lt_of_lt filled)
  · intro boundary
    have whole : SegmentHeader.size ≤ bytes.length := by
      rcases boundary with bare | ⟨found, member, -, finish_eq⟩
      · exact bare.ge
      · have := (chain.place_le_of_mem member).2
        unfold Found.finish at finish_eq
        omega
    have past_header := headed_iff.mp (headed whole)
    refine chain.eof_of_at_end past_header stored (Nat.le_antisymm ?_ stop_le)
    rcases boundary with bare | ⟨found, member, same, finish_eq⟩
    · exact bare.trans_le past_header
    · have := chain.finish_le_of_mem member
      grind

/-- A torn log ends where the header of its last segment or a record ended before. -/
theorem Chain.torn_ended_iff (whole : Chain segments number 0 prior records stop)
    (eof : stop.fault = none) (stored : segments stop.segment = some bytes)
    (inside : size ≤ bytes.length) {stop' : Stop} (same : stop'.segment = stop.segment)
    (torn : Chain (segments.put stop.segment (some (bytes.take size))) number 0 prior
      (surviving stop.segment size records) stop') :
    stop'.fault = none ↔ size = SegmentHeader.size ∨
      ∃ found ∈ records, found.segment = stop.segment ∧ found.finish = size := by
  have length : (bytes.take size).length = size := List.length_take_of_le inside
  have headed : SegmentHeader.size ≤ (bytes.take size).length →
      checkHeader stop'.segment (bytes.take size) = .ok () := by
    intro enough
    have passed := (whole.headed_iff stored fun _ inside => absurd rfl inside).mpr
      (whole.eof_place eof).1
    rw [same]
    exact checkHeader_eq_ok_iff.mpr
      ((checkHeader_eq_ok_iff.mp passed).of_same (.take inside) (length ▸ enough))
  rw [torn.ended_iff (by rw [same]; exact if_pos rfl) headed, length, same]
  refine or_congr_right (exists_congr fun found => ?_)
  constructor
  · exact fun ⟨member, ends⟩ => ⟨List.mem_of_mem_filter member, ends⟩
  · exact fun ⟨member, at_stop, at_tear⟩ => ⟨List.mem_filter.mpr
      ⟨member, decide_eq_true (.inr at_tear.le)⟩, at_stop, at_tear⟩

end

/-! ## Tearing the last segment -/

def tearLast (size : Nat) : LogM Unit := do
  if let some number := (← LogFiles.segmentNumbers .memory).getLast? then
    if let some segment ← LogFiles.openSegment .memory number then
      discard (segment.truncate size)

section

variable {log torn : LogFiles} {first number : SegmentNumber} {records : List Found}
  {size length : Nat} {bytes : Bytes}

theorem Ended.getLast?_eq (ended : Ended log first records number length) :
    (log.memory.map (·.1)).getLast? = some number := by
  obtain ⟨bytes, stored, -⟩ := ended.stored
  have member := LogFiles.mem_numbers_iff.mpr ⟨bytes, stored⟩
  have sorted : (log.memory.map (·.1)).Pairwise (· ≤ ·) :=
    ended.sound.ascending.imp Nat.le_of_lt
  have some_left := List.ne_nil_of_mem member
  have last_le := ended.number_le _ (List.getLast_mem some_left)
  rw [List.getLast?_eq_some_getLast some_left]
  exact congrArg some (Nat.le_antisymm last_le (sorted.rel_getLast member))

theorem Ended.tears (ended : Ended log first records number length)
    (stored : log.segments number = some bytes) (inside : size ≤ bytes.length) :
    ∃ torn, tearLast size log = (.ok (), torn) ∧
      Becomes log torn (log.segments.put number (some (bytes.take size))) := by
  obtain ⟨file, present, bytes_eq⟩ := LogFiles.segments_eq_some_iff.mp stored
  have opened : Opened log ⟨number, file, .buffer⟩ bytes := ⟨present, rfl, bytes_eq⟩
  have leads : Leads (tearLast size) log
      (fun _ torn => Becomes log torn (log.segments.put number (some (bytes.take size))))
      (fun error _ => InjectedError log error) := by
    unfold tearLast
    refine Leads.bind ((Leads.segmentNumbers ended.sound).imp_failed
      fun _ _ failed => failed.injected) ?_
    rintro _ _ ⟨rfl, calls, rfl⟩
    rw [ended.getLast?_eq]
    have sound := ended.sound.atCall calls
    refine Leads.bind ((Leads.openSegment sound number).imp_failed
      fun _ _ failed => failed.injected) ?_
    rintro _ _ ⟨rfl, calls', rfl⟩
    have present : (log.atCall calls).memory.lookup number = some file := present
    rw [present]
    refine Leads.bind ((Leads.truncate (sound.atCall calls') (opened.atCall calls')
      inside).imp_failed fun _ _ failed => failed.injected) ?_
    rintro _ torn rewrites
    exact Leads.pure ((Becomes.atCall ended.sound calls').trans rewrites.becomes)
  rcases ran : tearLast size log with ⟨error | done, torn⟩
  · exact absurd (leads.of_error ran) ended.quiet.no_error
  · exact ⟨torn, rfl, leads.of_ok ran⟩

end

/-! ## Going on behind the tear -/

def numberBehind (stored : List (Bytes × LogAnchor)) : Option Lsn :=
  match stored.getLast? with
  | none => some 1
  | some (_, anchor) => anchor.lsn.map (· + 1)

/--
A scan reads these payloads, and finds the end of the log behind them if the proposition
holds.  A writer goes on with the number behind theirs, and what it appends is read
behind them.
-/
structure Recovers (log : LogFiles) (kept : List (Bytes × LogAnchor)) (clean : Prop) :
    Prop where
  reads : ReadsTo log 0 kept clean
  goes_on : ∀ settings : Settings, ∃ writer opened,
    Writer.openLog .memory settings log = (.ok writer, opened) ∧
    numberBehind kept = some writer.nextLsn ∧
    ∀ payloads : List Bytes,
      kept.length + (payloads.filter Storable).length < UInt64.size →
      ∃ answers log' writer',
        Writer.appendEach payloads (opened, writer) = (answers, log', writer') ∧
        answers.map (·.1) = payloads ∧
        (accepted answers).map (·.1) = payloads.filter Storable ∧
        ReadsTo log' 0 (kept ++ accepted answers) True

section

variable {log torn : LogFiles} {number : SegmentNumber} {records : List Found}
  {size length : Nat} {bytes : Bytes}

theorem NumberedFromOne.numberBehind_eq (numbered : NumberedFromOne records) :
    numberBehind (records.map Found.stored) = some (records.length + 1) := by
  unfold numberBehind
  rw [List.getLast?_map]
  cases is_last : records.getLast? with
  | none =>
      rw [List.getLast?_eq_none_iff.mp is_last]
      rfl
  | some found => exact congrArg (fun lsn => some (lsn + 1)) (numbered.last is_last)

theorem crowded_surviving (number : SegmentNumber) (size : Nat) (records : List Found) :
    (surviving number size records).filter (·.segment < number) =
      records.filter (·.segment < number) := by
  rw [surviving, List.filter_filter]
  refine List.filter_congr fun found _ => ?_
  by_cases earlier : found.segment < number
  · simp [earlier, survives_iff]
  · simp [earlier]

theorem surviving_stored (number : SegmentNumber) (size : Nat) (records : List Found) :
    (records.map Found.stored).filter (Survives number size) =
      (surviving number size records).map Found.stored := by
  rw [List.filter_map]
  rfl

theorem Ready.goes_on {writer : Writer} (ready : Ready log writer records bytes)
    {payloads : List Bytes}
    (fits : records.length + (payloads.filter Storable).length < UInt64.size) :
    ∃ answers log' writer',
      Writer.appendEach payloads (log, writer) = (answers, log', writer') ∧
      answers.map (·.1) = payloads ∧
      (accepted answers).map (·.1) = payloads.filter Storable ∧
      ReadsTo log' 0 (records.map Found.stored ++ accepted answers) True := by
  obtain ⟨answers, log', writer', new, bytes', ran, answered, ready'⟩ := ready.appendEach fits
  refine ⟨answers, log', writer', ran, answered.payloads_eq, answered.stores, ?_⟩
  rw [answered.accepted_eq, ← List.map_append]
  exact ready'.written.toEnded.readsTo

theorem Written.recovers (written : Written log records number length)
    (fits : records.length < UInt64.size) (stored : log.segments number = some bytes)
    (inside : size ≤ bytes.length)
    (becomes : Becomes log torn (log.segments.put number (some (bytes.take size)))) :
    Recovers torn ((records.map Found.stored).filter (Survives number size))
      (size = SegmentHeader.size ∨ ∃ stored ∈ records.map Found.stored,
        stored.2.segment = number ∧ endOf stored = size) := by
  have quiet : torn.Quiet := becomes.plan_eq.trans written.quiet
  obtain ⟨stop, same, front, chain⟩ :=
    written.chain.torn rfl stored inside fun _ => Nat.zero_le _
  have clean_iff := written.chain.torn_ended_iff rfl stored inside same chain
  have same : stop.segment = number := same
  have numbered := written.numbered.of_prefix front
  rw [← becomes.segments_eq] at chain
  rw [surviving_stored]
  refine ⟨?_, fun settings => ?_⟩
  · obtain ⟨stop', at_end, reads⟩ := Reading.readsTo quiet (.whole rfl chain)
    refine ⟨stop', at_end.trans (clean_iff.trans (or_congr_right ?_)), reads⟩
    simp only [List.mem_map, exists_exists_and_eq_and]
    rfl
  · -- Every earlier segment keeps its records, so the writer is let through to the last one.
    have crowded : stop.segment ≤
        ((surviving number size records).filter (·.segment < stop.segment)).length := by
      rw [same, crowded_surviving]
      exact written.crowded
    obtain ⟨writer, opened, bytes', ran, ready⟩ := opens_behind becomes.sound quiet chain
      numbered crowded (Nat.lt_of_le_of_lt front.length_le fits) settings
    refine ⟨writer, opened, ran, ?_, fun payloads room => ?_⟩
    · rw [ready.nextLsn_eq]
      exact numbered.numberBehind_eq
    · rw [List.length_map] at room
      exact ready.goes_on room

end

/--
Sessions leave a log, and its last segment is cut to any size.  Then a scan reads
exactly the records that lie in earlier segments or end before the cut, and finds the
end of the log if the cut is at the end of a record or of the segment header.  A writer
opens the log, goes on with the number behind the last of these records, and what it
appends is read behind them.
-/
theorem torn_sessions_recover {sessions : List Session} (some_session : sessions ≠ [])
    (few : ((sessions.flatMap (·.payloads)).filter Storable).length < UInt64.size) :
    ∃ answers writer log number bytes,
      runSessions sessions .empty = (.ok (answers, writer), log) ∧
      (log.memory.map (·.1)).getLast? = some number ∧ log.segments number = some bytes ∧
      ∀ size ≤ bytes.length, ∃ torn, tearLast size log = (.ok (), torn) ∧
        torn.segments = log.segments.put number (some (bytes.take size)) ∧
        Recovers torn ((accepted answers).filter (Survives number size))
          (size = SegmentHeader.size ∨ ∃ stored ∈ accepted answers,
            stored.2.segment = number ∧ endOf stored = size) := by
  obtain ⟨answers, last, log, new, ran, answered, -, ends⟩ :=
    rests_empty.runSessions (by simpa using few)
  rw [List.nil_append] at ends
  cases last with
  | none => exact absurd ends.1 some_session
  | some writer =>
      obtain ⟨bytes, ready⟩ := ends
      have stored := ready.opened.segments_eq
      have fits : new.length < UInt64.size := answered.length_eq ▸ few
      refine ⟨answers, some writer, log, writer.segment.number, bytes, ran,
        ready.written.getLast?_eq, stored, fun size inside => ?_⟩
      obtain ⟨torn, tears, becomes⟩ := ready.written.tears stored inside
      rw [answered.accepted_eq]
      exact ⟨torn, tears, becomes.segments_eq,
        ready.written.recovers fits stored inside becomes⟩

/-- The cut falls into the third record. -/
theorem torn_sessions_recover_sampleSessions :
    ∃ answers writer log torn,
      runSessions sampleSessions .empty = (.ok (answers, writer), log) ∧
      tearLast 60 log = (.ok (), torn) ∧
      Recovers torn [([1, 2, 3], ⟨0, 12, some 1⟩), ([4], ⟨1, 12, some 2⟩)] False := by
  obtain ⟨answers, writer, log, number, bytes, ran, last, stored, tears⟩ :=
    @torn_sessions_recover sampleSessions (by decide) (by decide)
  have log_eq : (runSessions sampleSessions .empty).2 = log := by rw [ran]
  have accepted_eq : accepted answers = [([1, 2, 3], ⟨0, 12, some 1⟩),
      ([4], ⟨1, 12, some 2⟩), ([5], ⟨1, 45, some 3⟩)] := by
    have said : (runSessions sampleSessions .empty).1.toOption.map (accepted ·.1) =
        some [([1, 2, 3], ⟨0, 12, some 1⟩), ([4], ⟨1, 12, some 2⟩),
          ([5], ⟨1, 45, some 3⟩)] := by
      decide +kernel
    rw [ran] at said
    exact Option.some.inj said
  obtain rfl : number = 1 := by
    have listed : ((runSessions sampleSessions .empty).2.memory.map (·.1)).getLast? =
        some 1 := by
      decide +kernel
    rw [log_eq, last] at listed
    exact Option.some.inj listed
  have long : 60 ≤ bytes.length := by
    have measured : ((runSessions sampleSessions .empty).2.segments 1).map List.length =
        some 78 := by
      decide +kernel
    rw [log_eq, stored] at measured
    exact (Option.some.inj measured).ge.trans' (by decide)
  obtain ⟨torn, cut, -, recovers⟩ := tears 60 long
  rw [accepted_eq] at recovers
  refine ⟨answers, writer, log, torn, ran, cut, ?_, recovers.goes_on⟩
  obtain ⟨stop, at_end, reads⟩ := recovers.reads
  exact ⟨stop, at_end.trans (by decide), reads⟩

end DirectoryStore.Log
