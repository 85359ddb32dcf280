import DirectoryStore.Proofs.Log.Homes
import DirectoryStore.Proofs.Log.Sessions

/-!
# A reader beside a writer

A scanner that stands inside a segment reads on through the handle with which it
opened the segment.  The handle of a file knows the bytes there were at that time, so
the scanner may leave the segment although a writer has put more records into it.
`Within` says what the scanner still sees of its segment, and what there is behind
that; one call of the scanner reads the next record that it sees, or the first record
of the next segment, or none for ever.
-/

namespace DirectoryStore.Log

/-! ## The records of one segment -/

def Segments.only (number : SegmentNumber) (bytes : Bytes) : Segments :=
  fun other => if other = number then some bytes else none

theorem Segments.only_put (number : SegmentNumber) (bytes bytes' : Bytes) :
    (only number bytes).put number (some bytes') = only number bytes' := by
  funext other
  simp only [only, put]
  split <;> rfl

section

variable {segments : Segments} {number : SegmentNumber} {offset : Nat} {prior : Prior}
  {records : List Found} {stop : Stop} {bytes : Bytes}

theorem Chain.only_nil (chain : Chain (Segments.only number bytes) number offset prior []
    ⟨none, number, bytes.length⟩) (past_header : SegmentHeader.size ≤ offset) :
    bytes.length = offset := by
  cases chain with
  | header => simp [SegmentHeader.size] at past_header
  | onward _ _ _ tail =>
      obtain ⟨_, stored⟩ := tail.stored
      simp [Segments.only] at stored
  | ended _ stored at_end =>
      have here : Segments.only number bytes number = some bytes := if_pos rfl
      obtain rfl := Option.some.inj (here.symm.trans stored)
      exact at_end

structure FirstAt (number : SegmentNumber) (bytes : Bytes) (offset : Nat) (prior : Prior)
    (found : Found) : Prop where
  segment_eq : found.segment = number
  offset_eq : found.offset = offset
  read : recordAt number bytes offset prior = .ok (found.lsn, found.payload)

theorem FirstAt.inside {found : Found} (first : FirstAt number bytes offset prior found) :
    found.finish ≤ bytes.length ∧ offset < bytes.length := by
  have within := Chain.recordAt_inside first.read
  have frame := Chain.frameSize_eq
  rw [← first.offset_eq] at within
  exact ⟨within, by rw [first.offset_eq] at within; omega⟩

theorem Chain.only_cons {found : Found} {rest : List Found}
    (chain : Chain (Segments.only number bytes) number offset prior (found :: rest) stop)
    (past_header : SegmentHeader.size ≤ offset) :
    FirstAt number bytes offset prior found ∧ SegmentHeader.size ≤ found.finish ∧
      Chain (Segments.only number bytes) number found.finish (.after found.lsn) rest stop := by
  cases chain with
  | header => simp [SegmentHeader.size] at past_header
  | record _ stored read tail =>
      have here : Segments.only number bytes number = some bytes := if_pos rfl
      obtain rfl := Option.some.inj (here.symm.trans stored)
      exact ⟨⟨rfl, rfl, read⟩, by simp only [Found.finish]; omega, tail⟩
  | onward _ _ _ tail =>
      obtain ⟨_, stored⟩ := tail.stored
      simp [Segments.only] at stored

theorem Chain.split (chain : Chain segments number offset prior records stop)
    (eof : stop.fault = none) (stored : segments number = some bytes)
    (past_header : SegmentHeader.size ≤ offset) :
    ∃ here later, records = here ++ later ∧
      Chain (Segments.only number bytes) number offset prior here
        ⟨none, number, bytes.length⟩ ∧
      Chain segments number bytes.length (prior.following here) later stop := by
  have here : Segments.only number bytes number = some bytes := if_pos rfl
  have nothing : Segments.only number bytes (number + 1) = none :=
    if_neg (Nat.succ_ne_self number)
  induction chain with
  | header => simp [SegmentHeader.size] at past_header
  | unheaded | damaged | pastEnd => cases eof
  | @record number offset prior bytes' lsn payload rest stop _ stored' read tail ih =>
      obtain rfl := Option.some.inj (stored.symm.trans stored')
      obtain ⟨front, later, rfl, chain, rest_chain⟩ :=
        ih eof stored (by omega) here nothing
      rw [← Prior.following_cons prior ⟨number, offset, lsn, payload⟩] at rest_chain
      exact ⟨_ :: front, later, rfl, .record past_header here read chain, rest_chain⟩
  | onward past stored' at_end tail =>
      obtain rfl := Option.some.inj (stored.symm.trans stored')
      subst at_end
      exact ⟨[], _, rfl, .ended past here rfl nothing, .onward past stored rfl tail⟩
  | ended past stored' at_end missing =>
      obtain rfl := Option.some.inj (stored.symm.trans stored')
      subst at_end
      exact ⟨[], [], rfl, .ended past here rfl nothing, .ended past stored rfl missing⟩

theorem Chain.enter (chain : Chain segments number SegmentHeader.size prior records stop)
    (eof : stop.fault = none) (stored : segments number = some bytes)
    (filled : SegmentHeader.size < bytes.length) :
    ∃ found here later, records = found :: (here ++ later) ∧
      FirstAt number bytes SegmentHeader.size prior found ∧
      SegmentHeader.size ≤ found.finish ∧
      Chain (Segments.only number bytes) number found.finish (.after found.lsn) here
        ⟨none, number, bytes.length⟩ ∧
      Chain segments number bytes.length ((Prior.after found.lsn).following here) later
        stop := by
  obtain ⟨here, later, rfl, known, rest⟩ := chain.split eof stored (Nat.le_refl _)
  cases here with
  | nil => exact absurd (known.only_nil (Nat.le_refl _)) (Nat.ne_of_gt filled)
  | cons found here =>
      obtain ⟨first, past, tail⟩ := known.only_cons (Nat.le_refl _)
      rw [Prior.following_cons] at rest
      exact ⟨found, here, later, rfl, first, past, tail, rest⟩

end

theorem Chain.headed {segments : Segments} {number : SegmentNumber} {prior : Prior}
    {records : List Found} {stop : Stop}
    (chain : Chain segments number 0 prior records stop) (eof : stop.fault = none) :
    ∃ bytes, segments number = some bytes ∧ checkHeader number bytes = .ok () ∧
      Chain segments number SegmentHeader.size prior records stop := by
  obtain ⟨bytes, stored, ⟨passed, tail⟩ | ⟨fault, -, -, rfl⟩⟩ := chain.front_cases
  · exact ⟨bytes, stored, passed, tail⟩
  · cases eof

theorem Chain.at_end {segments : Segments} {number : SegmentNumber} {offset : Nat}
    {prior : Prior} {records : List Found} {stop : Stop} {bytes : Bytes}
    (chain : Chain segments number offset prior records stop) (eof : stop.fault = none)
    (stored : segments number = some bytes) (past_header : SegmentHeader.size ≤ offset)
    (at_end : bytes.length = offset) :
    segments (number + 1) = none ∧ records = [] ∨
      Chain segments (number + 1) 0 prior records stop := by
  cases chain with
  | header => simp [SegmentHeader.size] at past_header
  | unheaded | damaged | pastEnd => cases eof
  | record _ stored' read =>
      obtain rfl := Option.some.inj (stored.symm.trans stored')
      have inside := recordAt_inside read
      have frame := frameSize_eq
      omega
  | onward _ _ _ tail => exact .inr tail
  | ended _ _ _ missing => exact .inl ⟨missing, rfl⟩

/-! ## Opening segments in any home -/

section

variable {log : LogFiles} {home : Home} {number : SegmentNumber} {file : FileId}

/-- A handle that was just made knows all bytes, and in memory it always will. -/
structure Fresh (log : LogFiles) (home : Home) (segment : OpenSegment) : Prop where
  size_eq : segment.handle.size (segment.contents log) = (segment.contents log).size
  in_memory : home = .memory → segment.handle = .buffer

theorem Fresh.sees {segment : OpenSegment} {bytes : Bytes} (fresh : Fresh log home segment)
    (bytes_eq : (segment.contents log).bytes = bytes) : Sees log segment bytes :=
  ⟨by rw [fresh.size_eq, Contents.size_eq, bytes_eq], by rw [bytes_eq, List.take_length]⟩

theorem openInFolder_apply (path : Path) (lock : FileId) (number : SegmentNumber)
    (log : LogFiles) :
    LogFiles.openWithoutFailure (.folder path lock) number log =
      (match log.system.openFile (segmentPath path number) with
        | .ok file =>
            .ok (some ⟨number, file, .openFile (log.system.contents file)⟩)
        | .error .notFound => .ok none
        | .error refusal => .error (.storage (.io (.system refusal))), log) := by
  unfold LogFiles.openWithoutFailure
  rw [bind_apply]
  show (match log.system.openFile (segmentPath path number) with
    | .ok file => return some ⟨number, file, .openFile (log.system.contents file)⟩
    | .error .notFound => return none
    | .error refusal => throw (.storage (.io (.system refusal))) :
      LogM (Option OpenSegment)) log = _
  cases log.system.openFile (segmentPath path number) with
  | ok file => rfl
  | error refusal => cases refusal <;> rfl

theorem Looks.openSegment_of_file (stored : log.file? home number = some file) :
    ∃ handle, Looks log (LogFiles.openSegment home number) (.ok (some ⟨number, file, handle⟩)) ∧
      Fresh log home ⟨number, file, handle⟩ := by
  cases home with
  | memory =>
      have looks := @Looks.openSegment log number
      rw [show log.memory.lookup number = some file from stored] at looks
      exact ⟨.buffer, looks, rfl, fun _ => rfl⟩
  | folder path lock =>
      have opened : log.system.openFile (segmentPath path number) = .ok file :=
        LogFiles.file?_folder_eq_some_iff.mp stored
      refine ⟨.openFile (log.system.contents file), ?_, rfl, nofun⟩
      refine of_call (by simp [Call.kind, scanCalls]) (fun _ => .inl rfl)
        (beginOnRow_apply number .openSegment) fun calls => ?_
      have opened' : (log.atCall calls).system.openFile (segmentPath path number) = .ok file :=
        opened
      rw [openInFolder_apply, opened']
      exact ⟨_, rfl, rfl⟩

theorem openSegment_of_no_file (missing : log.file? home number = none) :
    Leads (LogFiles.openSegment home number) log
      (fun found log' => found = none ∧ ∃ calls, log' = log.atCall calls)
      (fun _ log' => ∃ calls, log' = log.atCall calls) := by
  have counted : Leads (LogFiles.beginOnRow number .openSegment) log
      (fun _ log' => ∃ calls, log' = log.atCall calls)
      (fun _ log' => ∃ calls, log' = log.atCall calls) := by
    unfold Leads
    rw [beginOnRow_apply, countCall]
    cases log.injection.plan log.injection.callsMade ⟨number, .openSegment⟩ <;>
      exact ⟨_, rfl⟩
  refine Leads.after_count counted fun calls => ?_
  cases home with
  | memory =>
      have missing : (log.atCall calls).memory.lookup number = none := missing
      have ran : LogFiles.openWithoutFailure .memory number (log.atCall calls) =
          (.ok (((log.atCall calls).memory.lookup number).map (⟨number, ·, .buffer⟩)),
            log.atCall calls) := rfl
      unfold Leads
      rw [ran, missing]
      exact ⟨rfl, calls, rfl⟩
  | folder path lock =>
      unfold Leads
      rw [openInFolder_apply]
      cases opened : (log.atCall calls).system.openFile (segmentPath path number) with
      | ok file =>
          have stored : log.file? (.folder path lock) number = some file :=
            LogFiles.file?_folder_eq_some_iff.mpr opened
          rw [missing] at stored
          cases stored
      | error refusal =>
          cases refusal with
          | notFound => exact ⟨rfl, calls, rfl⟩
          | _ => exact ⟨calls, rfl⟩

theorem segmentBound_pos (stored : log.file? home number = some file) :
    0 < log.segmentBound home := by
  cases home with
  | memory =>
      have stored : log.memory.lookup number = some file := stored
      refine List.length_pos_iff.mpr fun nothing => ?_
      rw [nothing] at stored
      cases stored
  | folder path lock =>
      obtain ⟨place, -, there⟩ :=
        FileSystem.openFile_eq_ok_iff.mp (LogFiles.file?_folder_eq_some_iff.mp stored)
      exact List.length_pos_of_mem (FileSystem.mem_nodes_of_file there)

end

/-! ## Calls that read no record -/

def Gives {α : Type} (log : LogFiles) (action : ScanM α) (held : Scanner × Record)
    (answer : α) : Prop :=
  ∀ calls, Leads action ⟨log.atCall calls, held.1, held.2⟩
    (fun found scan => found = answer ∧ ∃ calls, scan.log = log.atCall calls)
    (fun _ scan => ∃ calls, scan.log = log.atCall calls)

namespace Gives

variable {α β : Type} {log : LogFiles} {held between : Scanner × Record}
  {number : SegmentNumber} {segment : OpenSegment} {bytes : Bytes}

theorem pure (answer : α) : Gives log (pure answer) held answer :=
  fun calls => ⟨rfl, calls, rfl⟩

theorem bind {first : ScanM α} {following : α → ScanM β} {value : α} {answer : β}
    (gives : Gives log first held value)
    (rest : ∀ held, Gives log (following value) held answer) :
    Gives log (first >>= following) held answer := by
  refine fun calls => Leads.bind (gives calls) ?_
  rintro _ ⟨_, scanner, record⟩ ⟨rfl, calls', rfl⟩
  exact rest (scanner, record) calls'

theorem get_bind {following : Scan → ScanM α} {answer : α}
    (rest : ∀ calls, Gives log (following ⟨log.atCall calls, held.1, held.2⟩) held answer) :
    Gives log (get >>= following) held answer :=
  fun calls => rest calls calls

theorem after {first : ScanM α} {following : α → ScanM β} {value : α} {answer : β}
    (does : Does log first held (.ok value) between)
    (rest : Gives log (following value) between answer) :
    Gives log (first >>= following) held answer := by
  intro calls
  obtain ⟨calls', outcome, scanner, record, ran, -, answered⟩ := does calls
  have rest := rest calls'
  unfold Leads at rest ⊢
  rw [bind_apply, ran]
  rcases answered with ⟨agrees, rfl⟩ | ⟨fault, -, rfl⟩
  · cases outcome with
    | error error => exact agrees.elim
    | ok found =>
        obtain rfl : value = found := agrees
        exact rest
  · exact ⟨calls', rfl⟩

theorem onLog {action : LogM α} {answer : α}
    (leads : ∀ calls, Leads action (log.atCall calls)
      (fun found log' => found = answer ∧ ∃ calls, log' = log.atCall calls)
      (fun _ log' => ∃ calls, log' = log.atCall calls)) :
    Gives log (Scan.onLog action) held answer := by
  intro calls
  have leads := leads calls
  unfold Leads Scan.onLog
  unfold Leads at leads
  rcases ran : action (log.atCall calls) with ⟨error | found, log'⟩ <;> rw [ran] at leads
  · obtain ⟨calls', rfl⟩ := leads
    exact ⟨calls', rfl⟩
  · exact leads

theorem openSegment_none (missing : log.file? held.1.home number = none) :
    Gives log (Scan.openSegment number) held none :=
  get_bind fun _ => bind (onLog fun calls =>
    have missing : (log.atCall calls).file? held.1.home number = none := missing
    openSegment_of_no_file missing) fun _ => pure none

theorem readRecordFrom_false (sees : Sees log segment bytes) {offset : Nat}
    (at_end : bytes.length = offset)
    (missing : log.file? held.1.home (segment.number + 1) = none) (starting : Bool)
    (fuel : Nat) :
    Gives log (Scan.readRecordFrom starting (fuel + 1) (some ⟨segment, offset⟩)) held
      false := by
  subst at_end
  have sought : Gives log (Scan.seek (fuel + 1) ⟨segment, bytes.length⟩) held none := by
    unfold Scan.seek
    refine after (Does.onLog (Looks.size sees)) ?_
    simp only [Nat.lt_irrefl, if_false]
    exact bind (openSegment_none missing) fun _ => pure none
  exact bind sought fun _ => pure false

end Gives

/-! ## Logs with one writer -/

/-- The log holds these records, and the writer goes on where they end. -/
structure Tended (log : LogFiles) (writer : Writer) (records : List Found) (bytes : Bytes) :
    Prop where
  distinct : log.Distinct writer.home
  owned : Owned writer.home log writer.segment bytes
  chain : Chain (log.segmentsIn writer.home) 0 0 (.start none) records
    ⟨none, writer.segment.number, bytes.length⟩
  last : ∀ other, writer.segment.number < other → log.file? writer.home other = none
  numbered : NumberedFromOne records
  nextLsn_eq : writer.nextLsn = records.length + 1
  number_le : writer.segment.number ≤ records.length
  filled : ∀ number bytes, log.segmentsIn writer.home number = some bytes →
    0 < number ∨ records ≠ [] → SegmentHeader.size < bytes.length
  of_nil : records = [] → writer.segment.number = 0 ∧ bytes.length = SegmentHeader.size

/-! ## Scanners that follow a log -/

/-- No later call of the scanner reads anything. -/
def Scanner.Stopped (scanner : Scanner) : Prop :=
  scanner.state ≠ .needFileHeader ∧ scanner.state ≠ .reading

def Scanner.inside (home : Home) (segment : OpenSegment) (offset : Nat) (last : Lsn) : Scanner :=
  ⟨home, .startOf 0, some ⟨segment, offset⟩, .reading, ⟨segment.number, offset, some last⟩,
    some last.next⟩

inductive AnswerIn : ScanState → Except Error Bool → Prop where
  | eof : AnswerIn .eof (.ok false)
  | invalid (fault : LogFault) : AnswerIn (.invalid fault) (.error (.invalidLog fault))
  | closed : AnswerIn .closed (.error .scannerClosed)

theorem AnswerIn.ne_record {state : ScanState} {answer : Except Error Bool}
    (answered : AnswerIn state answer) : answer ≠ .ok true := by
  cases answered <;> nofun

/-- The scanner sees these bytes of the segment it is in. -/
structure Within (log : LogFiles) (home : Home) (segment : OpenSegment) (offset : Nat)
    (last : Lsn) (known : Bytes) (seen rest : List Found) (stop : Stop) : Prop where
  file_eq : log.file? home segment.number = some segment.file
  sees : Sees log segment known
  in_memory : home = .memory → segment.handle = .buffer
  past_header : SegmentHeader.size ≤ offset
  known_chain : Chain (Segments.only segment.number known) segment.number offset
    (.after last) seen ⟨none, segment.number, known.length⟩
  rest_chain : Chain (log.segmentsIn home) segment.number known.length
    ((Prior.after last).following seen) rest stop

/-- The scanner has passed so many records of the log, read or skipped. -/
inductive Follows (log : LogFiles) (home : Home) (records : List Found) (stop : Stop) :
    Scanner → List Found → Prop where
  | fresh : Follows log home records stop (Scanner.startAt home (.startOf 0)) []
  | within {segment : OpenSegment} {offset : Nat} {last : Lsn} {known : Bytes}
      {passed seen rest : List Found}
      (within : Within log home segment offset last known seen rest stop)
      (last_eq : last = passed.length) (split : records = passed ++ (seen ++ rest)) :
      Follows log home records stop (.inside home segment offset last) passed
  | stopped {scanner : Scanner} {passed : List Found} (stopped : scanner.Stopped)
      (front : passed <+: records) : Follows log home records stop scanner passed

/-! ## Into the next segment -/

section

variable {log : LogFiles} {home : Home} {number : SegmentNumber} {prior : Prior}
  {records : List Found} {stop : Stop}

structure OpensSegment (log : LogFiles) (home : Home) (number : SegmentNumber)
    (segment : OpenSegment) (bytes : Bytes) : Prop where
  number_eq : segment.number = number
  file_eq : log.file? home number = some segment.file
  sees : Sees log segment bytes
  in_memory : home = .memory → segment.handle = .buffer
  does : ∀ held : Scanner × Record, held.1.home = home →
    Does log (Scan.openSegment number) held (.ok (some ⟨segment, SegmentHeader.size⟩))
      (held.1.movedTo number SegmentHeader.size, held.2)

theorem Chain.opens (chain : Chain (log.segmentsIn home) number 0 prior records stop)
    (eof : stop.fault = none) :
    ∃ segment bytes, OpensSegment log home number segment bytes ∧
      log.segmentsIn home number = some bytes ∧
      Chain (log.segmentsIn home) number SegmentHeader.size prior records stop := by
  obtain ⟨bytes, stored, passed, chain⟩ := chain.headed eof
  obtain ⟨file, file_eq, bytes_eq⟩ := Option.map_eq_some_iff.mp stored
  obtain ⟨handle, looks, fresh⟩ := Looks.openSegment_of_file file_eq
  have sees := fresh.sees bytes_eq
  refine ⟨⟨number, file, handle⟩, bytes, ⟨rfl, file_eq, sees, fresh.in_memory, ?_⟩, stored,
    chain⟩
  rintro held rfl
  exact Does.openSegment_passed looks sees passed

structure Enters (log : LogFiles) (home : Home) (number : SegmentNumber) (prior : Prior)
    (segment : OpenSegment) (found : Found) (known : Bytes) (seen rest : List Found)
    (stop : Stop) : Prop where
  opens : OpensSegment log home number segment known
  filled : SegmentHeader.size < known.length
  first : FirstAt number known SegmentHeader.size prior found
  within : Within log home segment found.finish found.lsn known seen rest stop

theorem Chain.enters (chain : Chain (log.segmentsIn home) number 0 prior records stop)
    (eof : stop.fault = none)
    (filled : ∀ bytes, log.segmentsIn home number = some bytes →
      SegmentHeader.size < bytes.length) :
    ∃ segment found known seen rest, records = found :: (seen ++ rest) ∧
      Enters log home number prior segment found known seen rest stop := by
  obtain ⟨segment, bytes, opens, stored, chain⟩ := chain.opens eof
  obtain ⟨found, seen, rest, records_eq, first, past, known_chain, rest_chain⟩ :=
    chain.enter eof stored (filled bytes stored)
  obtain rfl := opens.number_eq
  exact ⟨segment, found, bytes, seen, rest, records_eq, opens, filled bytes stored, first,
    opens.file_eq, opens.sees, opens.in_memory, past, known_chain, rest_chain⟩

structure Behind (log : LogFiles) (home : Home) (segment : OpenSegment) (last : Lsn)
    (known : Bytes) (hidden later : List Found) (stop : Stop) : Prop where
  hidden_iff : hidden ≠ [] ↔ known.length < (segment.contents log).size
  in_memory : home = .memory → hidden = []
  stored : log.segmentsIn home segment.number = some (segment.contents log).bytes
  past_header : SegmentHeader.size ≤ (segment.contents log).bytes.length
  chain : Chain (log.segmentsIn home) segment.number (segment.contents log).bytes.length
    ((Prior.after last).following hidden) later stop

theorem Within.behind {segment : OpenSegment} {offset : Nat} {last : Lsn} {known : Bytes}
    {rest : List Found}
    (within : Within log home segment offset last known [] rest stop)
    (eof : stop.fault = none) :
    known.length = offset ∧ ∃ hidden later, rest = hidden ++ later ∧
      Behind log home segment last known hidden later stop := by
  obtain ⟨file_eq, sees, in_memory, past_header, known_chain, rest_chain⟩ := within
  have at_end : known.length = offset := known_chain.only_nil past_header
  have stored := LogFiles.segmentsIn_eq file_eq
  have past_known : SegmentHeader.size ≤ known.length := at_end ▸ past_header
  have longer : known.length ≤ (segment.contents log).bytes.length := by
    rw [← sees.front_eq, List.length_take]
    exact Nat.min_le_right _ _
  obtain ⟨hidden, later, rest_eq, hidden_chain, chain⟩ :=
    rest_chain.split eof stored past_known
  have hidden_iff : hidden ≠ [] ↔ known.length < (segment.contents log).size := by
    rw [Contents.size_eq]
    cases hidden with
    | nil =>
        have same := hidden_chain.only_nil past_known
        simp only [ne_eq, not_true_eq_false, false_iff, Nat.not_lt]
        exact same.le
    | cons found hidden =>
        have ⟨first, _⟩ := hidden_chain.only_cons past_known
        exact iff_of_true (List.cons_ne_nil _ _) first.inside.2
  refine ⟨at_end, hidden, later, rest_eq, hidden_iff, fun memory => ?_, stored,
    past_known.trans longer, chain⟩
  have whole := sees.size_eq
  rw [in_memory memory] at whole
  by_contra some_hidden
  exact absurd (hidden_iff.mp some_hidden) (Nat.not_lt.mpr whole.le)

end

/-! ## One call -/

theorem Scanner.close_stopped (scanner : Scanner) : scanner.close.Stopped := by
  unfold Scanner.close
  cases state_eq : scanner.state <;> simp [Scanner.Stopped]

theorem Scan.settle_stops (scan : Scan) {outcome : Except Error Bool}
    (other : outcome ≠ .ok true) :
    ∃ result scanner, settle outcome scan = (result, { scan with scanner := scanner }) ∧
      result ≠ .ok true ∧ scanner.Stopped := by
  cases outcome with
  | ok answer =>
      cases answer with
      | true => exact absurd rfl other
      | false => exact ⟨_, _, rfl, nofun, nofun, nofun⟩
  | error error =>
      cases error with
      | invalidLog fault => exact ⟨_, _, rfl, nofun, nofun, nofun⟩
      | access fault =>
          cases short : fault.isShortRead with
          | false => exact ⟨_, _, settle_failure scan short, nofun, scan.scanner.close_stopped⟩
          | true =>
              exact ⟨_, _, settle_error scan (Error.logFault?_of_isShortRead short), nofun, nofun,
                nofun⟩
      | _ => exact ⟨_, _, rfl, nofun, scan.scanner.close_stopped⟩

/-- The scanner left a segment without having read all bytes that stand there. -/
def Scanner.leftBehind (log : LogFiles) (before after : Scanner) : Bool :=
  match before.position, after.position with
  | some left, some reached =>
      left.segment.number != reached.segment.number &&
        decide (left.offset < (left.segment.contents log).size)
  | _, _ => false

section

variable {log : LogFiles} {home : Home} {records passed : List Found} {stop : Stop}
  {scanner : Scanner} {record : Record} {step : Scanner.Step}

structure Scanner.Step.Ends (step : Scanner.Step) : Prop where
  result_ne : step.result ≠ .ok true
  stopped : step.scanner.Stopped

/-- The call read the next record, or one behind some that it skipped. -/
structure ReadsOn (log : LogFiles) (home : Home) (records : List Found) (stop : Stop)
    (scanner : Scanner) (passed skipped : List Found) (found : Found) (step : Scanner.Step) :
    Prop extends step.Reads found where
  follows : Follows log home records stop step.scanner (passed ++ skipped ++ [found])
  left_iff : Scanner.leftBehind log scanner step.scanner = true ↔ skipped ≠ []
  in_memory : home = .memory → skipped = []

theorem Gives.ends (gives : Gives log Scan.readRecord (scanner, record) false)
    (going : scanner.state = .needFileHeader ∨ scanner.state = .reading) :
    ∃ calls step, scanner.next record log = (step, log.atCall calls) ∧ step.Ends := by
  have gives := gives log.injection.callsMade
  have none_read : (Scan.readRecord ⟨log, scanner, record⟩).1 ≠ .ok true := by
    intro found
    have answered := gives.of_ok (Prod.ext found rfl)
    cases answered.1
  have looked : ∃ calls, (Scan.readRecord ⟨log, scanner, record⟩).2.log = log.atCall calls :=
    Leads.of_run (gives.imp fun _ _ answered => answered.2) rfl
  obtain ⟨calls, log_eq⟩ := looked
  obtain ⟨result, scanner', settled, result_ne, stopped⟩ :=
    Scan.settle_stops (Scan.readRecord ⟨log, scanner, record⟩).2 none_read
  refine ⟨calls, ⟨result, scanner', (Scan.readRecord ⟨log, scanner, record⟩).2.record⟩, ?_,
    result_ne, stopped⟩
  show (let scan := Scan.next ⟨log, scanner, record⟩
    ((⟨scan.1, scan.2.scanner, scan.2.record⟩ : Scanner.Step), scan.2.log)) = _
  rw [Scan.next_apply _ going, settled, ← log_eq]

theorem Does.reads {segment : OpenSegment} {found : Found} {held : Scanner × Record}
    (does : Does log Scan.readRecord (scanner, record) (.ok true)
      (recorded held segment found.offset found.lsn found.payload))
    (going : scanner.state = .needFileHeader ∨ scanner.state = .reading)
    (number_eq : segment.number = found.segment) :
    ∃ calls step, scanner.next record log = (step, log.atCall calls) ∧
      (step.Ends ∨ step.Reads found ∧ step.scanner =
        { (recorded held segment found.offset found.lsn found.payload).1 with
          state := .reading }) := by
  obtain ⟨calls, step, ran, answered⟩ := does.settled going log.injection.callsMade
  refine ⟨calls, step, ran, ?_⟩
  rcases answered with ⟨settled, record_eq⟩ | ⟨fault, -, interrupted⟩
  · obtain ⟨result_eq, scanner_eq⟩ := Prod.mk.inj settled
    refine .inr ⟨⟨result_eq, ?_, ?_⟩, scanner_eq⟩
    · rw [record_eq]
      exact payload_recorded _ _ _
    · rw [record_eq, Found.anchor, ← number_eq]
      rfl
  · rcases interrupted with ⟨-, result_eq, state_eq⟩ | ⟨-, result_eq, state_eq⟩ <;>
      exact .inl ⟨by rw [result_eq]; rintro ⟨⟩, by simp [Scanner.Stopped, state_eq]⟩

theorem NumberedFromOne.lsn_eq {records front back : List Found} {found : Found}
    (numbered : NumberedFromOne records) (split : records = front ++ found :: back) :
    found.lsn = front.length + 1 :=
  numbered front.length found (by simp [split])

theorem readRecord_within {position : ReadPosition} {result : Except LogFault Bool}
    {after : Scanner × Record} (stands : scanner.position = some position)
    (does : Does log (Scan.readRecordFrom false (log.segmentBound scanner.home + 1)
      (some position)) (scanner, record) result after) :
    Does log Scan.readRecord (scanner, record) result after := by
  rw [Scan.readRecord_eq]
  refine Does.get_bind fun _ => ?_
  simp only [stands]
  exact does

theorem Within.follows {segment : OpenSegment} {known : Bytes} {found : Found}
    {front seen rest : List Found}
    (within : Within log home segment found.finish found.lsn known seen rest stop)
    (numbered : NumberedFromOne records) (split : records = front ++ found :: (seen ++ rest)) :
    Follows log home records stop (.inside home segment found.finish found.lsn)
      (front ++ [found]) := by
  refine .within within ?_ ?_
  · rw [numbered.lsn_eq split, List.length_append, List.length_singleton]
  · rw [split, List.append_assoc, List.singleton_append]

theorem Within.next {segment : OpenSegment} {offset : Nat} {last : Lsn} {known : Bytes}
    {found : Found} {seen rest : List Found} (numbered : NumberedFromOne records)
    (within : Within log home segment offset last known (found :: seen) rest stop)
    (split : records = passed ++ (found :: seen ++ rest)) (record : Record) :
    ∃ calls step,
      (Scanner.inside home segment offset last).next record log =
        (step, log.atCall calls) ∧
      (step.Ends ∨ ReadsOn log home records stop (.inside home segment offset last) passed []
        found step) := by
  obtain ⟨file_eq, sees, in_memory, past_header, known_chain, rest_chain⟩ := within
  obtain ⟨first, past, seen_chain⟩ := known_chain.only_cons past_header
  rw [Prior.following_cons] at rest_chain
  obtain ⟨-, inside⟩ := first.inside
  obtain ⟨number_eq, rfl, read⟩ := first
  let scanner := Scanner.inside home segment found.offset last
  have knows : (Prior.after last).KnownTo scanner := ⟨rfl, nofun⟩
  have does : Does log (Scan.readRecordFrom false (log.segmentBound home + 1)
      (some ⟨segment, found.offset⟩)) (scanner, record) (.ok true)
      (Does.recorded (scanner, record) segment found.offset found.lsn found.payload) :=
    Does.bind (Does.seek_inside sees inside (Nat.succ_pos _))
      (Does.readRecordAt_ok (scanner, record) sees knows read)
  have stands : scanner.position = some ⟨segment, found.offset⟩ := rfl
  obtain ⟨calls, step, ran, answered⟩ :=
    (readRecord_within stands does).reads (.inr rfl) number_eq.symm
  refine ⟨calls, step, ran, answered.imp_right ?_⟩
  rintro ⟨reads, scanner_eq⟩
  have moved : step.scanner = .inside home segment found.finish found.lsn := scanner_eq
  have within : Within log home segment found.finish found.lsn known seen rest stop :=
    ⟨file_eq, sees, in_memory, past, seen_chain, rest_chain⟩
  refine ⟨reads, ?_, ?_, fun _ => rfl⟩
  · rw [moved, List.append_nil]
    exact within.follows numbered split
  · rw [moved]
    simp [Scanner.leftBehind, Scanner.inside]

theorem Within.ends {segment : OpenSegment} {offset : Nat} {last : Lsn} {known : Bytes}
    {seen rest : List Found}
    (within : Within log home segment offset last known seen rest stop)
    (at_end : known.length = offset) (missing : log.file? home (segment.number + 1) = none)
    (record : Record) :
    ∃ calls step, (Scanner.inside home segment offset last).next record log =
      (step, log.atCall calls) ∧ step.Ends := by
  have gives : Gives log Scan.readRecord (.inside home segment offset last, record) false := by
    rw [Scan.readRecord_eq]
    exact Gives.get_bind fun _ => Gives.readRecordFrom_false within.sees at_end missing false _
  exact gives.ends (.inr rfl)

theorem Within.leave {segment : OpenSegment} {offset : Nat} {last : Lsn} {known : Bytes}
    {rest : List Found} (numbered : NumberedFromOne records) (eof : stop.fault = none)
    (filled : ∀ bytes, log.segmentsIn home (segment.number + 1) = some bytes →
      SegmentHeader.size < bytes.length)
    (within : Within log home segment offset last known [] rest stop)
    (last_eq : last = passed.length) (split : records = passed ++ rest) (record : Record) :
    ∃ calls step,
      (Scanner.inside home segment offset last).next record log =
        (step, log.atCall calls) ∧
      (step.Ends ∨ ∃ skipped found,
        ReadsOn log home records stop (.inside home segment offset last) passed skipped
          found step) := by
  obtain ⟨at_end, hidden, later, rfl, behind⟩ := within.behind eof
  let scanner := Scanner.inside home segment offset last
  have stands : scanner.position = some ⟨segment, offset⟩ := rfl
  rcases behind.chain.at_end eof behind.stored behind.past_header rfl with
    ⟨missing, rfl⟩ | chain
  · obtain ⟨calls, step, ran, ends⟩ :=
      within.ends at_end (LogFiles.segmentsIn_eq_none_iff.mp missing) record
    exact ⟨calls, step, ran, .inl ends⟩
  obtain ⟨next, found, known', seen, rest, rfl, enters⟩ := chain.enters eof filled
  obtain ⟨opens, inside, ⟨segment_eq, offset_eq, read⟩, within'⟩ := enters
  have number_eq := opens.number_eq
  have split : records = (passed ++ hidden) ++ found :: (seen ++ rest) := by
    rw [split, List.append_assoc]
  -- Between the record that was read last and this one only hidden ones were numbered.
  have last_le : last ≤ found.lsn := by
    rw [numbered.lsn_eq split, last_eq, List.length_append]
    exact Nat.le_succ_of_le (Nat.le_add_right _ _)
  have read : recordAt next.number known' SegmentHeader.size (.after last) =
      .ok (found.lsn, found.payload) := by
    rw [number_eq]
    exact recordAt_eq_ok_iff.mpr ⟨(recordAt_eq_ok_iff.mp read).1, last_le⟩
  let moved := scanner.movedTo (segment.number + 1) SegmentHeader.size
  have knows : (Prior.after last).KnownTo moved := ⟨rfl, nofun⟩
  have does : Does log (Scan.readRecordFrom false (log.segmentBound home + 1)
      (some ⟨segment, offset⟩)) (scanner, record) (.ok true)
      (Does.recorded (moved, record) next SegmentHeader.size found.lsn found.payload) :=
    Does.bind
      (Does.seek_at_end within.sees at_end (Does.bind (opens.does (scanner, record) rfl)
        (Does.seek_inside within'.sees inside (segmentBound_pos within'.file_eq))))
      (Does.readRecordAt_ok (moved, record) within'.sees knows read)
  rw [← offset_eq] at does
  obtain ⟨calls, step, ran, answered⟩ :=
    (readRecord_within stands does).reads (.inr rfl) (number_eq.trans segment_eq.symm)
  refine ⟨calls, step, ran, answered.imp_right ?_⟩
  rintro ⟨reads, scanner_eq⟩
  have reached : step.scanner = .inside home next found.finish found.lsn := scanner_eq
  refine ⟨hidden, found, reads, ?_, ?_, behind.in_memory⟩
  · rw [reached]
    exact within'.follows numbered split
  · rw [reached, behind.hidden_iff, at_end]
    simp [Scanner.leftBehind, Scanner.inside, number_eq]

theorem Does.openStart {segment : OpenSegment} (home : Home) (record : Record)
    (opens : Does log (Scan.openSegment 0) (Scanner.startAt home (.startOf 0), record)
      (.ok (some ⟨segment, SegmentHeader.size⟩))
      ((Scanner.startAt home (.startOf 0)).movedTo 0 SegmentHeader.size, record)) :
    Does log Scan.openStart (Scanner.startAt home (.startOf 0), record)
      (.ok (some ⟨segment, SegmentHeader.size⟩))
      ((Scanner.startAt home (.startOf 0)).movedTo 0 SegmentHeader.size, record) :=
  Does.get_bind fun _ => Does.bind opens (.pure _)

end

/-! ## Calls of a scanner that follows -/

section

variable {log : LogFiles} {writer : Writer} {records passed : List Found} {bytes : Bytes}
  {scanner : Scanner}

theorem Tended.first_call (tended : Tended log writer records bytes) (record : Record) :
    ∃ calls step,
      (Scanner.startAt writer.home (.startOf 0)).next record log =
        (step, log.atCall calls) ∧
      (step.Ends ∨ ∃ found,
        ReadsOn log writer.home records ⟨none, writer.segment.number, bytes.length⟩
          (.startAt writer.home (.startOf 0)) [] [] found step) := by
  let scanner := Scanner.startAt writer.home (.startOf 0)
  let moved := scanner.movedTo 0 SegmentHeader.size
  cases records with
  | nil =>
      obtain ⟨first, length⟩ := tended.of_nil rfl
      obtain ⟨segment, bytes', opens, stored, -⟩ := tended.chain.opens rfl
      have here := tended.owned.segments_eq
      rw [first] at here
      obtain rfl := Option.some.inj (stored.symm.trans here)
      have missing := tended.last (segment.number + 1) (by
        rw [first, opens.number_eq]
        exact Nat.succ_pos 0)
      have gives : Gives log Scan.readRecord (scanner, record) false := by
        rw [Scan.readRecord_eq]
        refine Gives.get_bind fun _ => ?_
        refine Gives.after (Does.openStart _ _ (opens.does (scanner, record) rfl)) ?_
        exact Gives.readRecordFrom_false opens.sees length missing true _
      obtain ⟨calls, step, ran, ends⟩ := gives.ends (.inl rfl)
      exact ⟨calls, step, ran, .inl ends⟩
  | cons next later =>
      obtain ⟨segment, found, known, seen, rest, records_eq, enters⟩ :=
        tended.chain.enters rfl fun bytes stored => tended.filled 0 bytes stored (.inr nofun)
      obtain ⟨opens, inside, ⟨segment_eq, offset_eq, read⟩, within⟩ := enters
      have number_eq := opens.number_eq
      have knows : (Prior.start none).KnownTo moved := ⟨rfl, fun _ same => Prior.start.inj same⟩
      rw [← number_eq] at read
      have does : Does log Scan.readRecord (scanner, record) (.ok true)
          (Does.recorded (moved, record) segment SegmentHeader.size found.lsn found.payload) := by
        rw [Scan.readRecord_eq]
        refine Does.get_bind fun _ => Does.bind
          (Does.openStart _ _ (opens.does (scanner, record) rfl)) (Does.bind
          (Does.seek_inside within.sees inside (Nat.succ_pos _)) ?_)
        exact Does.readRecordAt_ok (moved, record) within.sees knows read
      rw [← offset_eq] at does
      obtain ⟨calls, step, ran, answered⟩ :=
        does.reads (.inl rfl) (number_eq.trans segment_eq.symm)
      refine ⟨calls, step, ran, answered.imp_right ?_⟩
      rintro ⟨reads, scanner_eq⟩
      have reached : step.scanner = .inside writer.home segment found.finish found.lsn :=
        scanner_eq
      refine ⟨found, reads, ?_, by simp [Scanner.leftBehind, Scanner.startAt], fun _ => rfl⟩
      rw [reached]
      exact within.follows tended.numbered records_eq

theorem Scanner.Stopped.next_apply (stopped : scanner.Stopped) (record : Record)
    (log : LogFiles) : ∃ answer, AnswerIn scanner.state answer ∧
      scanner.next record log = (⟨answer, scanner, record⟩, log) := by
  obtain ⟨home, start, position, state, lastGood, nextLsn⟩ := scanner
  cases state with
  | needFileHeader => exact absurd rfl stopped.1
  | reading => exact absurd rfl stopped.2
  | eof => exact ⟨_, .eof, rfl⟩
  | invalid fault => exact ⟨_, .invalid fault, rfl⟩
  | closed => exact ⟨_, .closed, rfl⟩

theorem Follows.front {home : Home} {stop : Stop}
    (follows : Follows log home records stop scanner passed) : passed <+: records := by
  cases follows with
  | fresh => exact List.nil_prefix
  | within _ _ split => exact split ▸ List.prefix_append _ _
  | stopped _ front => exact front

/-- One call of a scanner that follows a log with one writer. -/
theorem Follows.next (tended : Tended log writer records bytes)
    (follows : Follows log writer.home records ⟨none, writer.segment.number, bytes.length⟩
      scanner passed) (record : Record) :
    ∃ calls step, scanner.next record log = (step, log.atCall calls) ∧
      (step.Ends ∨ ∃ skipped found,
        ReadsOn log writer.home records ⟨none, writer.segment.number, bytes.length⟩ scanner
          passed skipped found step) := by
  cases follows with
  | fresh =>
      obtain ⟨calls, step, ran, ends | ⟨found, reads⟩⟩ := tended.first_call record
      · exact ⟨calls, step, ran, .inl ends⟩
      · exact ⟨calls, step, ran, .inr ⟨[], found, reads⟩⟩
  | @within segment _ _ _ _ seen _ within last_eq split =>
      cases seen with
      | nil =>
          exact within.leave tended.numbered rfl
            (fun bytes stored => tended.filled _ bytes stored (.inl (Nat.succ_pos _)))
            last_eq split record
      | cons found seen =>
          obtain ⟨calls, step, ran, ends | reads⟩ := within.next tended.numbered split record
          · exact ⟨calls, step, ran, .inl ends⟩
          · exact ⟨calls, step, ran, .inr ⟨[], found, reads⟩⟩
  | stopped stopped front =>
      obtain ⟨answer, answered, ran⟩ := stopped.next_apply record log
      exact ⟨log.injection.callsMade, _, ran, .inl ⟨answered.ne_record, stopped⟩⟩

end

end DirectoryStore.Log
