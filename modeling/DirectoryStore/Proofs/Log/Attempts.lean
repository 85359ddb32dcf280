import DirectoryStore.Proofs.Log.FailedOpening
import DirectoryStore.Proofs.Log.Sessions

/-!
# Attempts to append

Sessions are run on an empty log while calls fail.  An attempt to append ends with
an acknowledgement or with an error, and after an error the record may be there or
not.  Acknowledged records are never lost, and whatever else a scan finds comes from
an attempt that failed.

A record whose append failed keeps its number, and the next record of the session
gets the same one.  Sequence numbers therefore increase strictly exactly when no
session stored a record behind one that it did not acknowledge.
-/

namespace DirectoryStore.Log

/-! ## Runs of attempts -/

def LogFiles.scanned (log : LogFiles) : List Record :=
  (readLog .memory (.startOf 0) (log.under .never)).1.1

structure Attempt where
  payload : Bytes
  result : Except Error LogAnchor
  stored : Bool

def Attempt.acknowledged (attempt : Attempt) : Bool := attempt.result.isOk

def Writer.attempt (payload : Bytes) : StateM (LogFiles × Writer) Attempt := fun state =>
  let (result, after) := append payload state
  (⟨payload, result, state.1.scanned.length < after.1.scanned.length⟩, after)

def Writer.attemptEach : List Bytes → StateM (LogFiles × Writer) (List Attempt)
  | [] => return []
  | payload :: rest => do
      let attempt ← attempt payload
      return attempt :: (← attemptEach rest)

/-- A session that cannot open the log attempts nothing. -/
def Session.attempts (session : Session) : StateM LogFiles (List Attempt) := fun log =>
  match Writer.openLog .memory session.settings log with
  | (.error _, log) => ([], log)
  | (.ok writer, log) =>
      let (attempts, (log, _)) := Writer.attemptEach session.payloads (log, writer)
      (attempts, log)

def attemptSessions : List Session → StateM LogFiles (List (List Attempt))
  | [] => return []
  | session :: rest => do
      let attempts ← session.attempts
      return attempts :: (← attemptSessions rest)

/-! ## What attempts write -/

/--
What an attempt writes when it is given a number, and the number after it.  Only
a writer that waits for the medium leaves a record behind without counting it.
-/
inductive Attempt.Writes (syncs : Bool) (next : Lsn) : Attempt → List Found → Lsn → Prop where
  | nothing (payload : Bytes) (error : Error) :
      Writes syncs next ⟨payload, .error error, false⟩ [] next
  | uncounted (waited : syncs = true) {found : Found} (numbered : found.lsn = next)
      (error : Error) : Writes syncs next ⟨found.payload, .error error, true⟩ [found] next
  | counted {found : Found} (numbered : found.lsn = next) :
      Writes syncs next ⟨found.payload, .ok found.anchor, true⟩ [found] next.next

inductive AttemptsWrite (syncs : Bool) : Lsn → List Attempt → List Found → Prop where
  | nil {next : Lsn} : AttemptsWrite syncs next [] []
  | cons {next next' : Lsn} {attempt : Attempt} {new : List Found}
      (writes : attempt.Writes syncs next new next') {attempts : List Attempt}
      {later : List Found} (rest : AttemptsWrite syncs next' attempts later) :
      AttemptsWrite syncs next (attempt :: attempts) (new ++ later)

/-- The attempt put the record where it is. -/
structure Attempt.Wrote (attempt : Attempt) (found : Found) : Prop where
  payload_eq : attempt.payload = found.payload
  anchor_eq : ∀ anchor, attempt.result = .ok anchor → anchor = found.anchor

/-- A record that is stored behind another is only so if the other was acknowledged. -/
def Attempt.Allows (earlier later : Attempt) : Prop :=
  earlier.stored = true → later.stored = true → earlier.acknowledged = true

def Found.Below (earlier later : Found) : Prop := earlier.lsn < later.lsn

namespace AttemptsWrite

variable {syncs : Bool} {next : Lsn} {attempts : List Attempt} {new : List Found}

theorem stored (write : AttemptsWrite syncs next attempts new) :
    List.Forall₂ Attempt.Wrote (attempts.filter (·.stored)) new := by
  induction write with
  | nil => exact .nil
  | cons writes _ ih =>
      cases writes with
      | nothing => exact ih
      | uncounted => exact .cons ⟨rfl, nofun⟩ ih
      | counted => exact .cons ⟨rfl, fun _ same => (Except.ok.inj same).symm⟩ ih

theorem stored_of_acknowledged (write : AttemptsWrite syncs next attempts new) :
    ∀ attempt ∈ attempts, attempt.acknowledged = true → attempt.stored = true := by
  induction write with
  | nil => exact nofun
  | cons writes _ ih =>
      refine List.forall_mem_cons.mpr ⟨?_, ih⟩
      cases writes with
      | nothing => exact nofun
      | uncounted | counted => exact fun _ => rfl

theorem next_le (write : AttemptsWrite syncs next attempts new) :
    ∀ found ∈ new, next ≤ found.lsn := by
  induction write with
  | nil => exact nofun
  | cons writes _ ih =>
      cases writes with
      | nothing => exact ih
      | uncounted _ numbered => exact List.forall_mem_cons.mpr ⟨numbered.ge, ih⟩
      | counted numbered =>
          exact List.forall_mem_cons.mpr ⟨numbered.ge, fun found member =>
            Nat.le_of_succ_le (ih found member)⟩

theorem first_lsn_eq (write : AttemptsWrite syncs next attempts new) {found : Found}
    {rest : List Found} (new_eq : new = found :: rest) : found.lsn = next := by
  induction write with
  | nil => cases new_eq
  | cons writes _ ih =>
      cases writes with
      | nothing => exact ih new_eq
      | uncounted _ numbered | counted numbered =>
          obtain ⟨rfl, -⟩ := List.cons.inj new_eq
          exact numbered

theorem above_iff (write : AttemptsWrite syncs next attempts new) :
    (∀ found ∈ new, next < found.lsn) ↔ ∀ attempt ∈ attempts, attempt.stored = false := by
  have none_stored : new = [] ↔ attempts.filter (·.stored) = [] := by
    rw [← List.length_eq_zero_iff, ← List.length_eq_zero_iff, write.stored.length_eq]
  have none_new : (∀ found ∈ new, next < found.lsn) ↔ new = [] := by
    cases same : new with
    | nil => simp
    | cons found rest =>
        have := write.first_lsn_eq same
        simp [this]
  rw [none_new, none_stored, List.filter_eq_nil_iff]
  simp

theorem increasing_iff (write : AttemptsWrite syncs next attempts new) :
    new.Pairwise Found.Below ↔ attempts.Pairwise Attempt.Allows := by
  induction write with
  | nil => simp
  | @cons next next' attempt new writes attempts later rest ih =>
      cases writes with
      | nothing payload error =>
          have allows (other : Attempt) : Attempt.Allows ⟨payload, .error error, false⟩ other :=
            nofun
          simp [ih, allows]
      | @uncounted _ found numbered error =>
          rw [List.singleton_append, List.pairwise_cons, List.pairwise_cons, ih]
          refine and_congr_left fun _ => ?_
          have none_stored := rest.above_iff
          rw [← numbered] at none_stored
          refine none_stored.trans (forall₂_congr fun other _ => ?_)
          simp [Attempt.Allows, Attempt.acknowledged, Except.isOk, Except.toBool]
      | @counted found numbered =>
          rw [List.singleton_append, List.pairwise_cons, List.pairwise_cons, ih]
          refine and_congr_left fun _ => iff_of_true (fun other member => ?_)
            fun other _ _ _ => rfl
          have beyond := rest.next_le other member
          exact Nat.lt_of_lt_of_le (numbered ▸ Nat.lt_succ_self _) beyond

theorem increasing_of_not_syncs (write : AttemptsWrite false next attempts new) :
    attempts.Pairwise Attempt.Allows := by
  induction write with
  | nil => exact .nil
  | cons writes _ ih =>
      refine List.pairwise_cons.mpr ⟨fun other _ => ?_, ih⟩
      cases writes with
      | nothing => exact nofun
      | uncounted waited => cases waited
      | counted => exact fun _ _ => rfl

end AttemptsWrite

/-! ## Numbers -/

/-- Records that stand in a log before the writer gives this number. -/
structure Numbered (records : List Found) (next : Lsn) : Prop where
  sorted : records.Pairwise fun earlier later => earlier.lsn ≤ later.lsn
  le_next : ∀ found ∈ records, found.lsn ≤ next
  next_le : next ≤ records.length + 1
  lsn_le : ∀ found ∈ records, found.lsn ≤ records.length

section

variable {records : List Found} {next : Lsn}

theorem Numbered.admits (numbered : Numbered records next) :
    ((Prior.start none).following records).Admits next := by
  unfold Prior.following
  cases is_last : records.getLast? with
  | none => trivial
  | some found => exact numbered.le_next found (List.mem_of_getLast? is_last)

theorem Numbered.concat (numbered : Numbered records next) {found : Found}
    (given : found.lsn = next) {next' : Lsn} (next_le : next ≤ next')
    (le_next : next' ≤ next + 1) : Numbered (records ++ [found]) next' := by
  obtain ⟨sorted, below, few, lsn_le⟩ := numbered
  have both {P : Found → Prop} (earlier : ∀ found ∈ records, P found) (this : P found) :
      ∀ other ∈ records ++ [found], P other :=
    List.forall_mem_append.mpr ⟨earlier, List.forall_mem_singleton.mpr this⟩
  rw [← given] at below few next_le le_next
  have longer : (records ++ [found]).length = records.length + 1 := by simp
  refine ⟨List.pairwise_append.mpr ⟨sorted, by simp, by simpa using below⟩,
    both (fun other member => (below other member).trans next_le) next_le, ?_, ?_⟩
  · rw [longer]
    exact le_next.trans (Nat.succ_le_succ few)
  · rw [longer]
    exact both (fun other member => (lsn_le other member).trans (Nat.le_succ _)) few

theorem Numbered.after (numbered : Numbered records next) :
    Numbered records ((nextLsnAfter (.startOf 0) records).getD Lsn.first) ∧
      ∀ found ∈ records, found.lsn < (nextLsnAfter (.startOf 0) records).getD Lsn.first := by
  have ⟨sorted, _, _, lsn_le⟩ := numbered
  have above : ∀ found ∈ records,
      found.lsn < (nextLsnAfter (.startOf 0) records).getD Lsn.first := by
    unfold nextLsnAfter
    cases is_last : records.getLast? with
    | none => simp [List.getLast?_eq_none_iff.mp is_last]
    | some last =>
        obtain ⟨front, rfl⟩ := List.getLast?_eq_some_iff.mp is_last
        intro found member
        refine Nat.lt_succ_of_le ?_
        rcases List.mem_append.mp member with earlier | this
        · exact (List.pairwise_append.mp sorted).2.2 found earlier last (by simp)
        · rw [List.mem_singleton.mp this]
  refine ⟨⟨sorted, fun found member => (above found member).le, ?_, lsn_le⟩, above⟩
  unfold nextLsnAfter
  cases is_last : records.getLast? with
  | none => exact Nat.le_add_left 1 _
  | some last => exact Nat.succ_le_succ (lsn_le last (List.mem_of_getLast? is_last))

end

/-! ## States of a log -/

/-- The log between sessions. -/
structure Remains (log : LogFiles) (records : List Found) : Prop where
  sound : log.Sound
  noShortRead : log.injection.plan.NoShortRead
  numbered : ∃ next, Numbered records next
  ends : (records = [] ∧ ∀ number, log.segments number = none) ∨
    ∃ stop, AtStop log.segments records stop

/-- The log with a writer at its end. -/
structure Working (log : LogFiles) (writer : Writer) (records : List Found)
    (bytes : Bytes) : Prop where
  sound : log.Sound
  noShortRead : log.injection.plan.NoShortRead
  opened : Opened log writer.segment bytes
  home_eq : writer.home = .memory
  grown : Grown log.segments records writer.segment.number bytes
  numbered : Numbered records writer.nextLsn

section

variable {log log' : LogFiles} {writer writer' : Writer} {records : List Found}
  {bytes : Bytes}

theorem Remains.reading (remains : Remains log records) :
    ∃ stop, Reading log.segments (.startOf 0) records stop := by
  rcases remains.ends with ⟨rfl, empty⟩ | ⟨stop, stopped⟩
  · exact ⟨_, .missing (empty 0)⟩
  · exact ⟨stop, .whole rfl stopped.chain⟩

theorem Remains.scanned (remains : Remains log records) :
    List.Forall₂ Record.Holds log.scanned records := by
  obtain ⟨stop, reading⟩ := remains.reading
  obtain ⟨calls, items, last, ran, held⟩ :=
    readLog_reads (remains.sound.under .never) rfl reading 0
  have read : readLog .memory (.startOf 0) (log.under .never) =
      ((items, last), (log.under .never).atCall calls) := ran
  unfold LogFiles.scanned
  rwa [read]

theorem Working.remains (working : Working log writer records bytes)
    (fits : records.length < UInt64.size) : Remains log records :=
  ⟨working.sound, working.noShortRead, ⟨_, working.numbered⟩,
    .inr (working.grown.atStop fits)⟩

/-! ## One attempt -/

theorem Working.moves {number : SegmentNumber} {bytes' : Bytes} {segments : Segments}
    (working : Working log writer records bytes)
    (moves : Moves log writer number bytes' segments log' writer') {records' : List Found}
    (grown : Grown segments records' number bytes')
    (numbered : Numbered records' writer.nextLsn) :
    Working log' writer' records' bytes' where
  sound := moves.becomes.sound
  noShortRead := moves.becomes.plan_eq.symm ▸ working.noShortRead
  opened := moves.opened
  home_eq := by
    rw [moves.writer_eq]
    exact working.home_eq
  grown := by
    rw [moves.becomes.segments_eq, moves.number_eq]
    exact grown
  numbered := by
    rw [moves.writer_eq]
    exact numbered

theorem Working.grown_record (working : Working log writer records bytes)
    {payload : Bytes} (storable : Storable payload)
    (fits : records.length + 1 < UInt64.size) :
    Grown (log.segments.put (recordPlace writer bytes payload).1
        (some ((recordPlace writer bytes payload).2 ++ recordBytes writer.nextLsn payload)))
      (records ++ [⟨(recordPlace writer bytes payload).1,
        (recordPlace writer bytes payload).2.length, writer.nextLsn, payload⟩])
      (recordPlace writer bytes payload).1
      ((recordPlace writer bytes payload).2 ++ recordBytes writer.nextLsn payload) := by
  have lsn_fits := Nat.lt_of_le_of_lt working.numbered.next_le fits
  unfold recordPlace
  split
  · rename_i rolls
    have full := working.grown.full (.inl (Writer.full_of_rolls rolls))
    have moved := working.grown.moved full
      (Nat.lt_of_le_of_lt (Nat.succ_le_succ full.le) fits)
    have whole := moved.record lsn_fits storable working.numbered.admits
    rwa [Segments.begun, Segments.put_put] at whole
  · exact working.grown.record lsn_fits storable working.numbered.admits

theorem Working.appended (working : Working log writer records bytes) {payload : Bytes}
    {anchor : LogAnchor} (storable : Storable payload)
    (fits : records.length + 1 < UInt64.size)
    (appended : Appended log writer (recordPlace writer bytes payload).1
      (recordPlace writer bytes payload).2 payload anchor log' writer') :
    ∃ found bytes', found.payload = payload ∧ found.lsn = writer.nextLsn ∧
      anchor = found.anchor ∧ writer'.nextLsn = writer.nextLsn.next ∧
      writer'.syncOnWrite = writer.syncOnWrite ∧
      Working log' writer' (records ++ [found]) bytes' := by
  obtain ⟨anchor_eq, writer_eq, number_eq, opened, becomes⟩ := appended
  refine ⟨⟨_, _, writer.nextLsn, payload⟩, _, rfl, rfl, anchor_eq, by rw [writer_eq],
    by rw [writer_eq], becomes.sound, becomes.plan_eq.symm ▸ working.noShortRead, opened, ?_,
    ?_, ?_⟩
  · rw [writer_eq]
    exact working.home_eq
  · rw [becomes.segments_eq, number_eq]
    exact working.grown_record storable fits
  · rw [writer_eq]
    exact working.numbered.concat rfl (Nat.le_succ _) (Nat.le_refl _)

theorem Working.unfinished (working : Working log writer records bytes) {payload : Bytes}
    (storable : Storable payload) (fits : records.length + 1 < UInt64.size)
    (unfinished : Unfinished log writer bytes payload log' writer') :
    writer'.nextLsn = writer.nextLsn ∧ writer'.syncOnWrite = writer.syncOnWrite ∧
      ((∃ bytes', Working log' writer' records bytes') ∨
        writer.syncOnWrite = true ∧ ∃ found bytes', found.payload = payload ∧
          found.lsn = writer.nextLsn ∧ Working log' writer' (records ++ [found]) bytes') := by
  have same {number : SegmentNumber} {bytes' : Bytes} {segments : Segments}
      (moves : Moves log writer number bytes' segments log' writer') :
      writer'.nextLsn = writer.nextLsn ∧ writer'.syncOnWrite = writer.syncOnWrite := by
    rw [moves.writer_eq]
    exact ⟨rfl, rfl⟩
  have full (rolls : writer.mustRollOver bytes.length (frameSize + payload.length) = true) :
      writer.segment.number < records.length :=
    working.grown.full (.inl (Writer.full_of_rolls rolls))
  cases unfinished with
  | unchanged moves =>
      exact ⟨(same moves).1, (same moves).2,
        .inl ⟨_, working.moves moves working.grown working.numbered⟩⟩
  | begun rolls is_begun moves =>
      exact ⟨(same moves).1, (same moves).2, .inl ⟨_, working.moves moves
        (working.grown.begun (full rolls) is_begun) working.numbered⟩⟩
  | moved rolls moves =>
      have number_fits := Nat.lt_of_le_of_lt (Nat.succ_le_succ (full rolls).le) fits
      exact ⟨(same moves).1, (same moves).2, .inl ⟨_, working.moves moves
        (working.grown.moved (full rolls) number_fits) working.numbered⟩⟩
  | written uncounted =>
      obtain ⟨syncs, moves⟩ := uncounted
      exact ⟨(same moves).1, (same moves).2, .inr ⟨syncs, ⟨_, _, writer.nextLsn, payload⟩, _,
        rfl, rfl, working.moves moves (working.grown_record storable fits)
          (working.numbered.concat rfl (Nat.le_refl _) (Nat.le_succ _))⟩⟩

theorem Working.attempt (working : Working log writer records bytes) (payload : Bytes)
    (fits : records.length + ([payload].filter Storable).length < UInt64.size) :
    ∃ attempt log' writer' new bytes',
      Writer.attempt payload (log, writer) = (attempt, log', writer') ∧
      attempt.Writes writer.syncOnWrite writer.nextLsn new writer'.nextLsn ∧
      writer'.syncOnWrite = writer.syncOnWrite ∧
      new.length ≤ ([payload].filter Storable).length ∧
      Working log' writer' (records ++ new) bytes' := by
  have before := (working.remains (by omega)).scanned.length_eq
  by_cases storable : Storable payload
  case neg =>
    obtain ⟨refusal, ran⟩ : ∃ refusal,
        Writer.append payload (log, writer) = (.error (.refused refusal), log, writer) :=
      append_rejected storable
    refine ⟨⟨payload, .error (.refused refusal), false⟩, log, writer, [], bytes, ?_,
      .nothing _ _, rfl, Nat.zero_le _, by rwa [List.append_nil]⟩
    simp [Writer.attempt, ran]
  have one : ([payload].filter Storable).length = 1 := by simp [storable]
  rw [one] at fits
  -- A record that is left in the log is told from none by the length of a scan.
  have more {found : Found} {log' : LogFiles} {writer' : Writer} {bytes' : Bytes}
      (longer : Working log' writer' (records ++ [found]) bytes') :
      log.scanned.length < log'.scanned.length := by
    have after := (longer.remains (by simpa using fits)).scanned.length_eq
    rw [before, after, List.length_append]
    exact Nat.lt_succ_self _
  rcases ran : Writer.append payload (log, writer) with ⟨error | anchor, log', writer'⟩
  · have failed := (append_leads working.sound working.home_eq working.opened storable).of_error
      ran
    obtain ⟨next_eq, syncs_eq, ⟨bytes', working'⟩ |
      ⟨waited, found, bytes', rfl, numbered, working'⟩⟩ :=
        working.unfinished storable fits failed.2
    · have after := (working'.remains (by omega)).scanned.length_eq
      refine ⟨⟨payload, .error error, false⟩, log', writer', [], bytes', ?_,
        next_eq ▸ .nothing _ _, syncs_eq, Nat.zero_le _, by rwa [List.append_nil]⟩
      simp [Writer.attempt, ran, before, after]
    · refine ⟨⟨found.payload, .error error, true⟩, log', writer', [found], bytes', ?_,
        next_eq ▸ .uncounted waited numbered _, syncs_eq, one.ge, working'⟩
      simp [Writer.attempt, ran, more working']
  · have appended := (append_leads working.sound working.home_eq working.opened storable).of_ok
      ran
    obtain ⟨found, bytes', rfl, numbered, rfl, next_eq, syncs_eq, working'⟩ :=
      working.appended storable fits appended
    refine ⟨⟨found.payload, .ok found.anchor, true⟩, log', writer', [found], bytes', ?_,
      next_eq ▸ .counted numbered, syncs_eq, one.ge, working'⟩
    simp [Writer.attempt, ran, more working']

theorem Working.attemptEach {payloads : List Bytes}
    (working : Working log writer records bytes)
    (fits : records.length + (payloads.filter Storable).length < UInt64.size) :
    ∃ attempts log' writer' new bytes',
      Writer.attemptEach payloads (log, writer) = (attempts, log', writer') ∧
      AttemptsWrite writer.syncOnWrite writer.nextLsn attempts new ∧
      new.length ≤ (payloads.filter Storable).length ∧
      Working log' writer' (records ++ new) bytes' := by
  induction payloads generalizing log writer records bytes with
  | nil => exact ⟨[], log, writer, [], bytes, rfl, .nil, Nat.zero_le _, by rwa [List.append_nil]⟩
  | cons payload rest ih =>
      have split : (payload :: rest).filter Storable =
          [payload].filter Storable ++ rest.filter Storable := List.filter_append [payload] rest
      rw [split, List.length_append] at fits ⊢
      obtain ⟨attempt, log₁, writer₁, new, bytes₁, ran, writes, syncs_eq, few, working₁⟩ :=
        working.attempt payload (by omega)
      obtain ⟨attempts, log', writer', later, bytes', ran', write, few', working'⟩ :=
        ih working₁ (by rw [List.length_append]; omega)
      rw [syncs_eq] at write
      rw [List.append_assoc] at working'
      refine ⟨attempt :: attempts, log', writer', new ++ later, bytes', ?_,
        .cons writes write, by rw [List.length_append]; omega, working'⟩
      simp only [Writer.attemptEach, stateM_bind_apply, ran, ran', stateM_pure_apply]

/-! ## Opening -/

theorem LogFiles.memory_eq_nil (empty : ∀ number, log.segments number = none) :
    log.memory = [] := by
  have none_listed : log.memory.map (·.1) = [] := by
    refine List.eq_nil_iff_forall_not_mem.mpr fun number member => ?_
    obtain ⟨bytes, stored⟩ := LogFiles.mem_numbers_iff.mp member
    rw [empty number] at stored
    cases stored
  exact List.map_eq_nil_iff.mp none_listed

theorem Remains.becomes (remains : Remains log records) {segments : Segments}
    (becomes : Becomes log log' segments)
    (ends : (records = [] ∧ ∀ number, segments number = none) ∨
      ∃ stop, AtStop segments records stop) : Remains log' records :=
  ⟨becomes.sound, becomes.plan_eq.symm ▸ remains.noShortRead, remains.numbered,
    becomes.segments_eq.symm ▸ ends⟩

structure Opens (log : LogFiles) (records : List Found) (settings : Settings)
    (writer : Writer) (log' : LogFiles) : Prop where
  working : ∃ bytes, Working log' writer records bytes
  syncs_eq : writer.syncOnWrite = settings.syncOnWrite
  fresh : ∀ found ∈ records, found.lsn < writer.nextLsn

theorem Remains.opens_empty (remains : Remains log []) (settings : Settings)
    (empty : ∀ number, log.segments number = none) :
    Leads (Writer.openLog .memory settings) log (Opens log [] settings)
      (fun _ log' => Remains log' []) := by
  refine (openLog_leads_of_empty remains.sound settings (LogFiles.memory_eq_nil empty)).mono
    ?_ ?_
  · rintro writer log' ⟨writer_eq, number_eq, opened, becomes⟩
    refine ⟨⟨_, becomes.sound, becomes.plan_eq.symm ▸ remains.noShortRead, opened, ?_, ?_, ?_⟩,
      ?_, nofun⟩
    · rw [writer_eq]
      rfl
    · rw [becomes.segments_eq, number_eq]
      exact .first empty
    · rw [writer_eq]
      exact ⟨.nil, nofun, Nat.le_refl _, nofun⟩
    · rw [writer_eq]
      rfl
  · rintro error log' ⟨state, member, failed⟩
    rcases List.mem_cons.mp member with rfl | member
    · exact remains.becomes failed.2 (.inl ⟨rfl, empty⟩)
    · rcases startSegment_failed ⟨state, member, failed⟩ rfl with
        becomes | ⟨left, is_begun, becomes⟩
      · exact remains.becomes becomes (.inl ⟨rfl, empty⟩)
      · exact remains.becomes becomes (.inr (AtStop.first empty is_begun))

theorem AtStop.known {stop : Stop} (stopped : AtStop log.segments records stop) :
    ¬ NumberUnknown log (stop.anchor records) (nextLsnAfter (.startOf 0) records) := by
  rintro ⟨unknown, room⟩
  have nothing : records = [] := by
    unfold nextLsnAfter at unknown
    cases is_last : records.getLast? with
    | none => exact List.getLast?_eq_none_iff.mp is_last
    | some found => simp [is_last] at unknown
  have number_le := stopped.number_le
  subst nothing
  rcases room with inside | ⟨number, smaller, -⟩
  · exact absurd (stopped.full inside) (Nat.not_lt_zero _)
  · exact absurd (Nat.lt_of_lt_of_le smaller number_le) (Nat.not_lt_zero _)

/-- A failed attempt to open the log changes at most the segment that the scan stops in. -/
theorem AtStop.not_opened {stop : Stop} {error : Error}
    (stopped : AtStop log.segments records stop)
    (failed : NotOpened log (stop.anchor records) (nextLsnAfter (.startOf 0) records)
      error log') :
    Becomes log log' log.segments ∨
      (stop.offset = 0 ∧ ∃ left, IsBegun stop.segment left ∧
        Becomes log log' (log.segments.put stop.segment (some left))) ∨
      Becomes log log' (cutAt log.segments stop.segment stop.offset) := by
  rcases failed with failed | failed
  · exact .inl failed.2
  cases failed with
  | refused unknown => exact absurd unknown stopped.known
  | uncut failed => exact .inl failed.2
  | cutting _ failed =>
      have failed : FailedAmong log (cutFailures log.segments stop.segment stop.offset)
        error log' := failed
      unfold cutFailures at failed
      split at failed
      · rename_i short
        have headless := stopped.chain.stop_place.resolve_right (Nat.not_le.mpr short)
        exact (startSegment_failed failed rfl).imp_right fun begun => .inl ⟨headless, begun⟩
      · obtain ⟨state, member, failed⟩ := failed
        simp only [List.mem_cons, List.not_mem_nil, or_false] at member
        rcases member with rfl | rfl | rfl <;> exact .inl failed.2
  | unlisted _ failed => exact .inr (.inr failed.2)
  | @removing _ gone some_left =>
      obtain ⟨number, rest, parts⟩ := some_left
      have member : number ∈ log.behind stop.segment :=
        Eq.mpr (congrArg (number ∈ ·) parts) (List.mem_append_right gone List.mem_cons_self)
      obtain ⟨later, bytes, stored⟩ := LogFiles.mem_behind_iff.mp member
      rw [stopped.last number later] at stored
      cases stored

theorem Remains.not_opened {stop : Stop} {error : Error} (remains : Remains log records)
    (stopped : AtStop log.segments records stop) (fits : records.length < UInt64.size)
    (failed : NotOpened log (stop.anchor records) (nextLsnAfter (.startOf 0) records)
      error log') : Remains log' records := by
  rcases stopped.not_opened failed with becomes | ⟨headless, left, is_begun, becomes⟩ | becomes
  · exact remains.becomes becomes (.inr ⟨stop, stopped⟩)
  · exact remains.becomes becomes (.inr (stopped.begun fits headless is_begun))
  · exact remains.becomes becomes (.inr ⟨_, stopped.cut fits⟩)

theorem Remains.opens (remains : Remains log records) (fits : records.length < UInt64.size)
    (settings : Settings) :
    Leads (Writer.openLog .memory settings) log (Opens log records settings)
      (fun _ log' => Remains log' records) := by
  rcases remains.ends with ⟨rfl, empty⟩ | ⟨stop, stopped⟩
  · exact remains.opens_empty settings empty
  obtain ⟨first_bytes, first_stored⟩ := stopped.chain.stored
  obtain ⟨others, row⟩ := LogFiles.row_of_stored first_stored
  rw [remains.sound.lowest_eq first_stored nofun] at row
  refine (openLog_leads remains.sound remains.noShortRead settings row stopped.chain).mono ?_
    fun _ _ failed => remains.not_opened stopped fits failed
  rintro writer log' ⟨writer_eq, number_eq, opened, becomes, -⟩
  have becomes : Becomes log log' (log.segments.cutAfter _) := becomes
  obtain ⟨next, numbered⟩ := remains.numbered
  have cut := stopped.cutAfter_eq (records.getLast?.map (·.lsn))
  refine ⟨⟨_, becomes.sound, becomes.plan_eq.symm ▸ remains.noShortRead, opened, ?_, ?_, ?_⟩,
    ?_, ?_⟩
  · rw [writer_eq]
    rfl
  · rw [becomes.segments_eq, number_eq]
    exact cut ▸ stopped.grown fits
  · rw [writer_eq]
    exact numbered.after.1
  · rw [writer_eq]
    rfl
  · rw [writer_eq]
    exact numbered.after.2

/-! ## All sessions -/

/-- The attempts of sessions one after the other; each goes on above all numbers before. -/
inductive SessionsWrite : List Found → List Session → List (List Attempt) → List Found → Prop where
  | nil {before : List Found} : SessionsWrite before [] [] []
  | cons {before new later : List Found} {next : Lsn} {session : Session}
      {attempts : List Attempt}
      (write : AttemptsWrite session.settings.syncOnWrite next attempts new)
      (fresh : ∀ found ∈ before, found.lsn < next) {sessions : List Session}
      {histories : List (List Attempt)}
      (rest : SessionsWrite (before ++ new) sessions histories later) :
      SessionsWrite before (session :: sessions) (attempts :: histories) (new ++ later)

namespace SessionsWrite

variable {before new : List Found} {sessions : List Session} {histories : List (List Attempt)}

theorem stored (write : SessionsWrite before sessions histories new) :
    List.Forall₂ Attempt.Wrote (histories.flatten.filter (·.stored)) new := by
  induction write with
  | nil => exact .nil
  | cons write _ _ ih =>
      rw [List.flatten_cons, List.filter_append]
      exact List.rel_append write.stored ih

theorem stored_of_acknowledged (write : SessionsWrite before sessions histories new) :
    ∀ attempt ∈ histories.flatten, attempt.acknowledged = true → attempt.stored = true := by
  induction write with
  | nil => exact nofun
  | cons write _ _ ih =>
      exact List.forall_mem_append.mpr ⟨write.stored_of_acknowledged, ih⟩

theorem increasing_iff (write : SessionsWrite before sessions histories new) :
    (before ++ new).Pairwise Found.Below ↔
      before.Pairwise Found.Below ∧
        ∀ attempts ∈ histories, attempts.Pairwise Attempt.Allows := by
  induction write with
  | nil => simp
  | @cons before new later next session attempts write fresh sessions histories rest ih =>
      have above : ∀ earlier ∈ before, ∀ found ∈ new, earlier.Below found :=
        fun earlier member found member' =>
          Nat.lt_of_lt_of_le (fresh earlier member) (write.next_le found member')
      rw [← List.append_assoc, ih, List.pairwise_append, List.forall_mem_cons,
        write.increasing_iff]
      tauto

theorem increasing_of_not_sync (write : SessionsWrite before sessions histories new)
    (never : ∀ session ∈ sessions, session.settings.syncOnWrite = false) :
    ∀ attempts ∈ histories, attempts.Pairwise Attempt.Allows := by
  induction write with
  | nil => exact nofun
  | cons write _ _ ih =>
      have ⟨here, later⟩ := List.forall_mem_cons.mp never
      rw [here] at write
      exact List.forall_mem_cons.mpr ⟨write.increasing_of_not_syncs, ih later⟩

end SessionsWrite

theorem Remains.attempts (remains : Remains log records) (session : Session)
    (fits : records.length + (session.payloads.filter Storable).length < UInt64.size) :
    ∃ attempts log' new next, session.attempts log = (attempts, log') ∧
      AttemptsWrite session.settings.syncOnWrite next attempts new ∧
      (∀ found ∈ records, found.lsn < next) ∧
      new.length ≤ (session.payloads.filter Storable).length ∧
      Remains log' (records ++ new) := by
  have leads := remains.opens (by omega) session.settings
  rcases opened : Writer.openLog .memory session.settings log with ⟨error | writer, log₁⟩
  · have ⟨_, numbered⟩ := remains.numbered
    refine ⟨[], log₁, [], records.length + 1, by simp [Session.attempts, opened], .nil,
      fun found member => Nat.lt_succ_of_le (numbered.lsn_le found member), Nat.zero_le _, ?_⟩
    rw [List.append_nil]
    exact leads.of_error opened
  · obtain ⟨⟨bytes, working⟩, syncs_eq, fresh⟩ := leads.of_ok opened
    obtain ⟨attempts, log', writer', new, bytes', ran, write, few, working'⟩ :=
      working.attemptEach fits
    refine ⟨attempts, log', new, _, by simp [Session.attempts, opened, ran],
      syncs_eq ▸ write, fresh, few, working'.remains ?_⟩
    rw [List.length_append]
    omega

theorem Remains.attemptSessions {sessions : List Session} (remains : Remains log records)
    (fits : records.length + ((sessions.flatMap (·.payloads)).filter Storable).length <
      UInt64.size) :
    ∃ histories log' new, attemptSessions sessions log = (histories, log') ∧
      SessionsWrite records sessions histories new ∧ Remains log' (records ++ new) := by
  induction sessions generalizing log records with
  | nil => exact ⟨[], log, [], rfl, .nil, by rwa [List.append_nil]⟩
  | cons session rest ih =>
      rw [List.flatMap_cons, List.filter_append, List.length_append] at fits
      obtain ⟨attempts, log₁, new, next, ran, write, fresh, few, remains₁⟩ :=
        remains.attempts session (by omega)
      obtain ⟨histories, log', later, ran', write', remains'⟩ :=
        ih remains₁ (by rw [List.length_append]; omega)
      rw [List.append_assoc] at remains'
      refine ⟨attempts :: histories, log', new ++ later, ?_, .cons write fresh write', remains'⟩
      simp only [Log.attemptSessions, stateM_bind_apply, ran, ran', stateM_pure_apply]

end

theorem remains_empty {plan : FailurePlan Request} (noShortRead : plan.NoShortRead) :
    Remains (LogFiles.empty.under plan) [] :=
  ⟨⟨.nil, nofun, nofun⟩, noShortRead, ⟨1, .nil, nofun, Nat.le_refl _, nofun⟩,
    .inl ⟨rfl, fun _ => rfl⟩⟩

/-! ## What is left after all sessions -/

/-- A scan finds the record of the attempt, and at its place if it was acknowledged. -/
structure Attempt.FoundAs (attempt : Attempt) (record : Record) : Prop where
  payload_eq : record.payload = attempt.payload
  anchor_eq : ∀ anchor, attempt.result = .ok anchor → record.anchor = some anchor

theorem Attempt.Wrote.foundAs {attempt : Attempt} {found : Found} {record : Record}
    (wrote : attempt.Wrote found) (holds : record.Holds found) : attempt.FoundAs record where
  payload_eq := holds.payload_eq.trans wrote.payload_eq.symm
  anchor_eq := fun anchor same => by rw [holds.anchor_eq, wrote.anchor_eq anchor same]

theorem foundAs_of_wrote {attempts : List Attempt} {new : List Found} {items : List Record}
    (wrote : List.Forall₂ Attempt.Wrote attempts new)
    (held : List.Forall₂ Record.Holds items new) :
    List.Forall₂ Attempt.FoundAs attempts items := by
  induction wrote generalizing items with
  | nil =>
      cases held
      exact .nil
  | cons wrote _ ih =>
      obtain _ | ⟨holds, held⟩ := held
      exact .cons (wrote.foundAs holds) (ih held)

/--
Whatever calls fail, while logs are opened or while records are appended: a scan
finds the records of all acknowledged attempts in order, and besides them only
records of attempts that failed.
-/
theorem acknowledged_records_kept (plan : FailurePlan Request)
    (noShortRead : plan.NoShortRead) (sessions : List Session)
    (few : ((sessions.flatMap (·.payloads)).filter Storable).length < UInt64.size) :
    ∃ histories log,
      attemptSessions sessions (LogFiles.empty.under plan) = (histories, log) ∧
      ∃ kept, kept.Sublist histories.flatten ∧
        kept.filter (·.acknowledged) = histories.flatten.filter (·.acknowledged) ∧
        List.Forall₂ Attempt.FoundAs kept log.scanned := by
  obtain ⟨histories, log, new, ran, write, remains⟩ :=
    (remains_empty noShortRead).attemptSessions (by simpa using few)
  refine ⟨histories, log, ran, histories.flatten.filter (·.stored), List.filter_sublist, ?_, ?_⟩
  · rw [List.filter_filter]
    refine List.filter_congr fun attempt member => ?_
    have kept := write.stored_of_acknowledged attempt member
    cases known : attempt.acknowledged with
    | false => simp
    | true => simp [kept known]
  · exact foundAs_of_wrote write.stored remains.scanned

def failingCalls (numbers : List Nat) : FailurePlan Request := fun callNumber _ =>
  if callNumber ∈ numbers then some .injected else none

theorem noShortRead_failingCalls (numbers : List Nat) :
    (failingCalls numbers).NoShortRead := by
  intro callNumber request fault planned
  unfold failingCalls at planned
  split at planned
  · cases planned
    rfl
  · cases planned

def interruptedSessions : List Session :=
  [⟨{ maxSegmentSize := 60 }, [[1], [2], [3]]⟩, ⟨{}, [[4]]⟩, ⟨{}, [[5]]⟩]

/--
The first append cannot wait for the medium, the second cannot go on to the next
segment, and the second session cannot list the segments.
-/
theorem acknowledged_records_kept_interruptedSessions :
    ∃ histories log, attemptSessions interruptedSessions
        (LogFiles.empty.under (failingCalls [8, 13, 30])) = (histories, log) ∧
      histories.map (·.map fun attempt => (attempt.payload, attempt.acknowledged)) =
        [[([1], false), ([2], false), ([3], true)], [], [([5], true)]] ∧
      ∃ kept, kept.Sublist histories.flatten ∧
        kept.filter (·.acknowledged) = histories.flatten.filter (·.acknowledged) ∧
        List.Forall₂ Attempt.FoundAs kept log.scanned := by
  obtain ⟨histories, log, ran, kept⟩ := acknowledged_records_kept (failingCalls [8, 13, 30])
    (noShortRead_failingCalls _) interruptedSessions (by decide)
  refine ⟨histories, log, ran, ?_, kept⟩
  have histories_eq : histories = (attemptSessions interruptedSessions
      (LogFiles.empty.under (failingCalls [8, 13, 30]))).1 := by rw [ran]
  rw [histories_eq]
  decide +kernel

def Rises (earlier later : Option Lsn) : Prop :=
  ∃ first second, earlier = some first ∧ later = some second ∧ first < second

theorem rises_iff {items : List Record} {records : List Found}
    (held : List.Forall₂ Record.Holds items records) :
    (items.map Record.lsn).Pairwise Rises ↔ records.Pairwise Found.Below := by
  have numbers : items.map Record.lsn = records.map fun found => some found.lsn := by
    induction held with
    | nil => rfl
    | cons holds _ ih =>
        rw [List.map_cons, List.map_cons, ih, Record.lsn, holds.anchor_eq]
        rfl
  rw [numbers, List.pairwise_map]
  exact List.Pairwise.iff fun earlier later => by simp [Rises, Found.Below]

/--
The sequence numbers that a scan finds increase strictly exactly when no session
stored a record behind one that it did not acknowledge.  A writer that does not wait
for the medium never does so.
-/
theorem numbers_rise_iff (plan : FailurePlan Request) (noShortRead : plan.NoShortRead)
    (sessions : List Session)
    (few : ((sessions.flatMap (·.payloads)).filter Storable).length < UInt64.size) :
    ∃ histories log,
      attemptSessions sessions (LogFiles.empty.under plan) = (histories, log) ∧
      ((log.scanned.map Record.lsn).Pairwise Rises ↔
        ∀ attempts ∈ histories, attempts.Pairwise Attempt.Allows) ∧
      ((∀ session ∈ sessions, session.settings.syncOnWrite = false) →
        (log.scanned.map Record.lsn).Pairwise Rises) := by
  obtain ⟨histories, log, new, ran, write, remains⟩ :=
    (remains_empty noShortRead).attemptSessions (by simpa using few)
  have rise_iff : (log.scanned.map Record.lsn).Pairwise Rises ↔
      ∀ attempts ∈ histories, attempts.Pairwise Attempt.Allows := by
    rw [rises_iff remains.scanned, write.increasing_iff]
    simp
  exact ⟨histories, log, ran, rise_iff, fun never =>
    rise_iff.mpr (write.increasing_of_not_sync never)⟩

instance (earlier later : Attempt) : Decidable (earlier.Allows later) :=
  inferInstanceAs (Decidable (_ → _ → _))

/-- The record of the first append, which is not acknowledged, and the next one share a number. -/
theorem numbers_rise_iff_interruptedSessions :
    ∃ histories log, attemptSessions interruptedSessions
        (LogFiles.empty.under (failingCalls [8])) = (histories, log) ∧
      ¬ (log.scanned.map Record.lsn).Pairwise Rises := by
  obtain ⟨histories, log, ran, rise_iff, -⟩ := numbers_rise_iff (failingCalls [8])
    (noShortRead_failingCalls _) interruptedSessions (by decide)
  refine ⟨histories, log, ran, rise_iff.not.mpr ?_⟩
  have histories_eq : histories = (attemptSessions interruptedSessions
      (LogFiles.empty.under (failingCalls [8]))).1 := by rw [ran]
  rw [histories_eq]
  decide +kernel

end DirectoryStore.Log
