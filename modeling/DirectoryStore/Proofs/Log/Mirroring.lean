import DirectoryStore.Proofs.Log.Readers

/-!
# Scans beside the same scan without failures

Two scans of the same contents are run side by side, and no call of the second one fails.
They do the same until a call of the first one fails, whatever was in their records
before.  `Mirrors` says this of the parts of a scan, with what becomes of the two records;
there is one rule for each way to put parts together.
-/

namespace DirectoryStore.Log

/-! ## Logs without their failures -/

def LogFiles.withoutFailures (log : LogFiles) : LogFiles :=
  { log with injection := .never }

/-- Two logs with the same contents; calls on the second do not fail. -/
structure Shadow (log quiet : LogFiles) : Prop where
  system_eq : quiet.system = log.system
  memory_eq : quiet.memory = log.memory
  quiet : quiet.Quiet

theorem LogFiles.shadow (log : LogFiles) : Shadow log log.withoutFailures :=
  ⟨rfl, rfl, rfl⟩

section

variable {log quiet : LogFiles}

theorem Shadow.atCall (shadow : Shadow log quiet) (calls calls' : Nat) :
    Shadow (log.atCall calls) (quiet.atCall calls') :=
  ⟨shadow.system_eq, shadow.memory_eq, shadow.quiet⟩

theorem Shadow.segmentBound_eq (shadow : Shadow log quiet) (home : Home) :
    quiet.segmentBound home = log.segmentBound home := by
  unfold LogFiles.segmentBound
  rw [shadow.system_eq, shadow.memory_eq]

theorem Shadow.contents_eq (shadow : Shadow log quiet) (segment : OpenSegment) :
    segment.contents quiet = segment.contents log := by
  unfold OpenSegment.contents
  rw [shadow.system_eq]

end

/-- The operation does the same without failures, unless a call of it fails. -/
def Spared {α : Type} (action : LogM α) : Prop :=
  ∀ log quiet : LogFiles, Shadow log quiet →
    (∃ outcome log' quiet', action log = (outcome, log') ∧ action quiet = (outcome, quiet') ∧
      Shadow log' quiet') ∨
    ∃ fault log', action log = (.error (.access fault), log')

namespace Spared

theorem of_call {α : Type} {begin : LogM Unit} {look : LogM α} {request : Request}
    {passedOn : IoFault → AccessFault} (begun : ∀ log, begin log = countCall request passedOn log)
    (looks : ∀ {log quiet : LogFiles}, Shadow log quiet →
      ∃ outcome, look log = (outcome, log) ∧ look quiet = (outcome, quiet)) :
    Spared (do begin; look) := by
  intro log quiet shadow
  rw [bind_apply, bind_apply, begun, begun, countCall, countCall, shadow.quiet]
  cases log.injection.plan log.injection.callsMade request with
  | some cause => exact .inr ⟨_, _, rfl⟩
  | none =>
      have shadow := shadow.atCall (log.injection.callsMade + 1) (quiet.injection.callsMade + 1)
      obtain ⟨outcome, looked, looked'⟩ := looks shadow
      exact .inl ⟨outcome, _, _, looked, looked', shadow⟩

theorem openSegment (home : Home) (number : SegmentNumber) :
    Spared (LogFiles.openSegment home number) := by
  refine of_call (beginOnRow_apply number .openSegment) fun shadow => ?_
  cases home with
  | memory =>
      refine ⟨_, rfl, ?_⟩
      rw [← shadow.memory_eq]
      rfl
  | folder path lock =>
      refine ⟨_, openInFolder_apply path lock number _, ?_⟩
      rw [openInFolder_apply, shadow.system_eq]

variable (segment : OpenSegment)

theorem size : Spared segment.size := by
  refine of_call (beginOnBytes_apply segment.number .size) fun shadow => ⟨_, rfl, ?_⟩
  rw [← shadow.contents_eq segment]
  rfl

theorem readAt (offset len : Nat) : Spared (segment.readAt offset len) := by
  refine of_call (beginOnBytes_apply segment.number (.read offset len)) fun shadow =>
    ⟨_, segment.readWithoutFailure_apply offset len _, ?_⟩
  rw [segment.readWithoutFailure_apply, shadow.contents_eq]

end Spared

/-! ## Parts of a scan side by side -/

abbrev Related := Record → Record → Prop

/-- Two scans at the same point; the second one has no failures. -/
structure Twins (related : Related) (scan scan' : Scan) : Prop where
  shadow : Shadow scan.log scan'.log
  scanner_eq : scan'.scanner = scan.scanner
  related : related scan.record scan'.record

/-- Both scans did the same, and the scanner is in that state, or a call of the first failed. -/
inductive Mirrored {α : Type} (state : ScanState) (after : α → Related) :
    Except Error α × Scan → Except Error α × Scan → Prop where
  | same {outcome : Except Error α} {next next' : Scan} (kept : next.scanner.state = state)
      (twins : Twins (fun record record' => ∀ value, outcome = .ok value →
        after value record record') next next') :
      Mirrored state after (outcome, next) (outcome, next')
  | fails {fault : AccessFault} {next : Scan} {other : Except Error α × Scan}
      (kept : next.scanner.state = state) :
      Mirrored state after (.error (.access fault), next) other

def Mirrors {α : Type} (before : Related) (action : ScanM α) (after : α → Related) : Prop :=
  ∀ scan scan' : Scan, Twins before scan scan' →
    Mirrored scan.scanner.state after (action scan) (action scan')

namespace Mirrors

variable {α β : Type} {before middle : Related} {between : α → Related} {after : β → Related}

theorem pure {value : β} (holds : ∀ {record record'}, before record record' →
      after value record record') : Mirrors before (pure value) after := by
  intro scan scan' twins
  refine .same rfl ⟨twins.shadow, twins.scanner_eq, fun answer is_value => ?_⟩
  obtain rfl := Except.ok.inj is_value
  exact holds twins.related

theorem bind {first : ScanM α} {following : α → ScanM β} (mirrors : Mirrors before first between)
    (rest : ∀ value, Mirrors (between value) (following value) after) :
    Mirrors before (first >>= following) after := by
  intro scan scan' twins
  have mirrored := mirrors scan scan' twins
  rw [bind_apply, bind_apply]
  generalize first scan = ran at mirrored ⊢
  generalize first scan' = ran' at mirrored ⊢
  cases mirrored with
  | fails kept => exact .fails kept
  | @same outcome next next' kept twins' =>
      cases outcome with
      | error error => exact .same kept ⟨twins'.shadow, twins'.scanner_eq, nofun⟩
      | ok value =>
          have mirrored := rest value next next'
            ⟨twins'.shadow, twins'.scanner_eq, twins'.related value rfl⟩
          rwa [kept] at mirrored

theorem throw (error : Error) : Mirrors before (throw error : ScanM β) after :=
  fun _ _ twins => .same rfl ⟨twins.shadow, twins.scanner_eq, nofun⟩

theorem reject (fault : LogFault) : Mirrors before (Scan.reject fault : ScanM β) after :=
  throw _

theorem check {broken : Prop} [Decidable broken] {fault : LogFault}
    {following : PUnit → ScanM β} (rest : Mirrors before (following ()) after) :
    Mirrors before (if broken then Scan.reject fault >>= following else following ()) after := by
  split
  · have rejects : Mirrors before (Scan.reject fault) fun _ : PUnit => before := reject fault
    exact bind rejects fun _ => rest
  · exact rest

theorem ite {holds : Prop} [Decidable holds] {first second : ScanM β}
    (mirrors : Mirrors before first after) (mirrors' : Mirrors before second after) :
    Mirrors before (if holds then first else second) after := by
  split
  · exact mirrors
  · exact mirrors'

theorem modifyScanner {change : Scanner → Scanner}
    (kept : ∀ scanner, (change scanner).state = scanner.state) :
    Mirrors before (Scan.modifyScanner change) fun _ => before :=
  fun scan _ twins => .same (kept scan.scanner)
    ⟨twins.shadow, congrArg change twins.scanner_eq, fun _ _ => twins.related⟩

theorem modifyRecord {change : Record → Record}
    (maps : ∀ {record record'}, before record record' → middle (change record) (change record')) :
    Mirrors before (Scan.modifyRecord change) fun _ => middle :=
  fun _ _ twins => .same rfl ⟨twins.shadow, twins.scanner_eq, fun _ _ => maps twins.related⟩

theorem onLog {action : LogM α} (spared : Spared action) :
    Mirrors before (Scan.onLog action) fun _ => before := by
  intro scan scan' twins
  rcases spared _ _ twins.shadow with ⟨outcome, log', quiet', ran, ran', shadow⟩ | ⟨fault, log', ran⟩
  · have same : Scan.onLog action scan = (outcome, { scan with log := log' }) := by
      rw [Scan.onLog, ran]
    have same' : Scan.onLog action scan' = (outcome, { scan' with log := quiet' }) := by
      rw [Scan.onLog, ran']
    rw [same, same']
    exact .same rfl ⟨shadow, twins.scanner_eq, fun _ _ => twins.related⟩
  · have failed : Scan.onLog action scan = (.error (.access fault), { scan with log := log' }) := by
      rw [Scan.onLog, ran]
    rw [failed]
    exact .fails rfl

theorem get_bind {following : Scan → ScanM β}
    (rest : ∀ scan scan' : Scan, Twins before scan scan' →
      Mirrored scan.scanner.state after (following scan scan) (following scan' scan')) :
    Mirrors before (get >>= following) after :=
  rest

theorem of_twins {action : ScanM β} {scan scan' : Scan} (twins : Twins before scan scan')
    (mirrors : Mirrors before action after) :
    Mirrored scan.scanner.state after (action scan) (action scan') :=
  mirrors scan scan' twins

/-! ## The parts of reading a record -/

theorem readBytes (position : ReadPosition) (len : Nat) :
    Mirrors before (Scan.readBytes position len) fun _ => before :=
  bind (onLog (.readAt _ _ _)) fun _ => .pure id

theorem openSegment (number : SegmentNumber) :
    Mirrors before (Scan.openSegment number) fun _ => before := by
  refine get_bind fun scan scan' twins => ?_
  rw [twins.scanner_eq]
  refine bind (onLog (.openSegment _ _)) (fun opened => ?_) scan scan' twins
  cases opened with
  | none => exact .pure id
  | some segment =>
      refine bind (modifyScanner fun _ => rfl) fun _ => bind (readBytes _ _) fun _ => ?_
      exact check (check (bind (modifyScanner fun _ => rfl) fun _ => .pure id))

theorem openStart : Mirrors before Scan.openStart fun _ => before := by
  refine get_bind fun scan scan' twins => ?_
  rw [twins.scanner_eq]
  refine bind (openSegment _) (fun opened => ?_) scan scan' twins
  cases opened with
  | none => exact .pure id
  | some position =>
      exact ite (.pure id) (check (bind (modifyScanner fun _ => rfl) fun _ => .pure id))

theorem seek (fuel : Nat) (position : ReadPosition) :
    Mirrors before (Scan.seek fuel position) fun _ => before := by
  induction fuel generalizing position with
  | zero => exact .pure id
  | succ fuel ih =>
      refine bind (onLog (.size _)) fun size => check (ite (.pure id) ?_)
      refine bind (openSegment _) fun next => ?_
      cases next with
      | none => exact .pure id
      | some next => exact ih next

theorem readHeader (position : ReadPosition) :
    Mirrors before (Scan.readHeader position) fun _ => before := by
  refine bind (readBytes _ _) fun read => check ?_
  cases (RecordHeader.decode read.1).payloadSize? with
  | none => exact reject _
  | some payloadSize =>
      refine get_bind fun scan scan' twins => ?_
      rw [twins.scanner_eq]
      cases scan.scanner.lastGood.lsn with
      | none =>
          refine of_twins twins ?_
          exact check (.pure id)
      | some previous =>
          refine of_twins twins ?_
          exact check (check (.pure id))

theorem requireStartLsn (lsn : Lsn) :
    Mirrors before (Scan.requireStartLsn lsn) fun _ => before := by
  refine get_bind fun scan scan' twins => ?_
  rw [twins.scanner_eq]
  cases scan.scanner.start.lsn with
  | none =>
      refine of_twins twins ?_
      exact pure id
  | some expected =>
      refine of_twins twins ?_
      exact check (.pure id)

theorem answers {action : ScanM β} {good : β → Prop} (mirrors : Mirrors before action after)
    (always : ∀ {scan next : Scan} {value : β}, action scan = (.ok value, next) → good value) :
    Mirrors before action fun value record record' => good value ∧ after value record record' := by
  intro scan scan' twins
  have mirrored := mirrors scan scan' twins
  have always := @always scan
  generalize action scan = ran at mirrored always ⊢
  generalize action scan' = ran' at mirrored ⊢
  cases mirrored with
  | fails kept => exact .fails kept
  | same kept twins' =>
      refine .same kept ⟨twins'.shadow, twins'.scanner_eq, fun value is_value => ?_⟩
      subst is_value
      exact ⟨always rfl, twins'.related value rfl⟩

end Mirrors

/-! ## Whole records -/

theorem slice_of_read {handle : Handle} {contents : Contents} {offset len : Nat} {bytes : Bytes}
    (read : handle.read contents offset len = .ok bytes) :
    contents.bytes.slice offset len = bytes ∧ bytes.length = len := by
  have cut (inside : offset + len ≤ contents.size) :
      (contents.bytes.slice offset len).length = len := by
    rw [Contents.size_eq] at inside
    simp only [Bytes.length_slice]
    omega
  have empty : contents.bytes.slice offset 0 = [] := by simp [Bytes.slice]
  cases handle with
  | buffer =>
      simp only [Handle.read, Buffer.read, Contents.slice] at read
      grind
  | file knownSize =>
      simp only [Handle.read, OpenFile.read, Contents.slice] at read
      grind

theorem OpenSegment.slice_of_readAt {segment : OpenSegment} {offset len : Nat} {bytes : Bytes}
    {log log' : LogFiles} (ran : segment.readAt offset len log = (.ok bytes, log')) :
    (segment.contents log).bytes.slice offset len = bytes ∧ bytes.length = len := by
  rw [readAt, bind_apply, beginOnBytes_apply, countCall] at ran
  cases planned : log.injection.plan log.injection.callsMade ⟨segment.number, .read offset len⟩ with
  | some cause =>
      rw [planned] at ran
      cases congrArg Prod.fst ran
  | none =>
      rw [planned] at ran
      simp only [readWithoutFailure_apply] at ran
      cases read : segment.handle.read (segment.contents
        (log.atCall (log.injection.callsMade + 1))) offset len with
      | error fault =>
          rw [read] at ran
          cases congrArg Prod.fst ran
      | ok found =>
          rw [read] at ran
          obtain rfl := Except.ok.inj (congrArg Prod.fst ran)
          exact slice_of_read read

theorem Scan.slice_of_readBytes {position : ReadPosition} {len : Nat} {scan next : Scan}
    {read : Bytes × ReadPosition} (ran : Scan.readBytes position len scan = (.ok read, next)) :
    (position.segment.contents scan.log).bytes.slice position.offset len = read.1 ∧
      read.1.length = len ∧ read.2 = { position with offset := position.offset + len } := by
  rw [readBytes, bind_apply, onLog] at ran
  rcases looked : position.segment.readAt position.offset len scan.log with ⟨error | bytes, log⟩
  · rw [looked] at ran
    cases congrArg Prod.fst ran
  · rw [looked] at ran
    obtain rfl := Except.ok.inj (congrArg Prod.fst ran)
    obtain ⟨cut, length⟩ := OpenSegment.slice_of_readAt looked
    exact ⟨cut, length, rfl⟩

structure Record.Matches (record record' : Record) : Prop where
  payload_eq : record'.payload = record.payload
  anchored : ∃ anchor, record.anchor = some anchor ∧ record'.anchor = some anchor

def ReadAlike (answer : Bool) : Related :=
  fun record record' => answer = true → record.Matches record'

theorem payload_filled {record : Record} {payload : Bytes} (room : record.len = payload.length) :
    (record.fill payload).payload = payload := by
  simp [Record.payload, Record.fill, room]

namespace Mirrors

theorem readBody (position after : ReadPosition) (lsn : Lsn) (payloadSize : Nat) :
    Mirrors (fun _ _ => True) (Scan.readBody position lsn payloadSize after) ReadAlike := by
  have prepares : Mirrors (fun _ _ => True) (Scan.modifyRecord (·.prepare payloadSize))
      fun _ record record' => record.len = payloadSize ∧ record'.len = payloadSize :=
    modifyRecord fun _ => ⟨rfl, rfl⟩
  have whole {scan next : Scan} {read : Bytes × ReadPosition}
      (ran : Scan.readBytes after payloadSize scan = (.ok read, next)) :
      read.1.length = payloadSize :=
    (Scan.slice_of_readBytes ran).2.1
  refine bind prepares fun _ => bind ((readBytes _ _).answers whole) ?_
  rintro ⟨payload, position'⟩
  have fills : Mirrors (fun record record' => payload.length = payloadSize ∧
      record.len = payloadSize ∧ record'.len = payloadSize) (Scan.modifyRecord (·.fill payload))
      fun _ record record' => record'.payload = record.payload :=
    modifyRecord fun ⟨length, room, room'⟩ => by
      rw [payload_filled (room.trans length.symm), payload_filled (room'.trans length.symm)]
  have anchors (anchor : LogAnchor) : Mirrors (fun record record' =>
      record'.payload = record.payload)
      (Scan.modifyRecord fun record => { record with anchor := some anchor })
      fun _ => Record.Matches :=
    modifyRecord fun same => ⟨same, anchor, rfl, rfl⟩
  refine bind fills fun _ => bind (readBytes _ _) fun _ => check (bind (anchors _) fun _ => ?_)
  exact bind (modifyScanner fun _ => rfl) fun _ => .pure fun same _ => same

theorem readRecordFrom (starting : Bool) (fuel : Nat) (opened : Option ReadPosition) :
    Mirrors (fun _ _ => True) (Scan.readRecordFrom starting fuel opened) ReadAlike := by
  cases opened with
  | none => exact .pure fun _ => nofun
  | some opened =>
      refine bind (seek _ _) fun sought => ?_
      cases sought with
      | none => exact .pure fun _ => nofun
      | some position =>
          refine bind (readHeader _) fun ⟨lsn, payloadSize, behind⟩ => ?_
          exact ite (bind (requireStartLsn _) fun _ => readBody _ _ _ _) (readBody _ _ _ _)

/-- A read does the same without failures, whatever is in the records, or a call of it fails. -/
theorem readRecord : Mirrors (fun _ _ => True) Scan.readRecord ReadAlike := by
  rw [Scan.readRecord_eq]
  refine get_bind fun scan scan' twins => ?_
  rw [twins.scanner_eq, twins.shadow.segmentBound_eq]
  cases scan.scanner.position with
  | some position =>
      refine of_twins twins ?_
      exact bind (.pure id) fun opened => readRecordFrom _ _ opened
  | none =>
      refine of_twins twins ?_
      exact bind openStart fun opened => readRecordFrom _ _ opened

end Mirrors

/-! ## Calls side by side -/

inductive StateAfter : Except Error Bool → ScanState → Prop where
  | record : StateAfter (.ok true) .reading
  | eof : StateAfter (.ok false) .eof
  | invalid (fault : LogFault) : StateAfter (.error (.invalidLog fault)) (.invalid fault)
  | closed {error : Error} (other : error.isInvalidLog = false) : StateAfter (.error error) .closed

/-- Both calls answer alike, leave the scanner alike, and read the same record if they read one. -/
structure Scanner.Step.SameAs (step step' : Scanner.Step) : Prop where
  result_eq : step'.result = step.result
  scanner_eq : step'.scanner = step.scanner
  read : step.result = .ok true → step.record.Matches step'.record

theorem Scanner.close_state {scanner : Scanner} (valid : ∀ fault, scanner.state ≠ .invalid fault) :
    scanner.close.state = .closed := by
  unfold close
  cases state_eq : scanner.state with
  | invalid fault => exact absurd state_eq (valid fault)
  | _ => rfl

theorem Scan.settle_apply (outcome : Except Error Bool) {scanner : Scanner}
    (valid : ∀ fault, scanner.state ≠ .invalid fault) :
    ∃ result scanner', StateAfter result scanner'.state ∧
      (∀ answer, result = .ok answer ↔ outcome = .ok answer) ∧
      ∀ log record, settle outcome ⟨log, scanner, record⟩ = (result, ⟨log, scanner', record⟩) := by
  have closes := Scanner.close_state valid
  cases outcome with
  | ok answer =>
      cases answer with
      | true =>
          exact ⟨.ok true, { scanner with state := .reading }, .record, fun _ => Iff.rfl,
            fun _ _ => rfl⟩
      | false =>
          exact ⟨.ok false, { scanner with position := none, state := .eof }, .eof,
            fun _ => Iff.rfl, fun _ _ => rfl⟩
  | error error =>
      cases told : error.logFault? with
      | some fault =>
          exact ⟨.error (.invalidLog fault), { scanner with position := none, state := .invalid fault },
            .invalid fault, fun _ => by simp, fun _ _ => settle_error _ told⟩
      | none =>
          refine ⟨.error error, scanner.close, closes ▸ .closed ?_, fun _ => by simp, fun _ _ => ?_⟩
          · cases error with
            | invalidLog fault => cases told
            | _ => rfl
          · cases error with
            | invalidLog fault => cases told
            | access fault =>
                cases short : fault.isShortRead with
                | false => exact settle_failure _ short
                | true => simp [Error.logFault?, short] at told
            | _ => rfl

section

variable {log quiet : LogFiles} {scanner : Scanner}

theorem Scanner.next_mirrors (shadow : Shadow log quiet)
    (going : scanner.state = .needFileHeader ∨ scanner.state = .reading)
    (record record' : Record) :
    ∃ step log' step' quiet', scanner.next record log = (step, log') ∧
      scanner.next record' quiet = (step', quiet') ∧ StateAfter step.result step.scanner.state ∧
      (Shadow log' quiet' ∧ step.SameAs step' ∨ ∃ error, step.result = .error error) := by
  let scan : Scan := ⟨log, scanner, record⟩
  let scan' : Scan := ⟨quiet, scanner, record'⟩
  have twins : Twins (fun _ _ => True) scan scan' := ⟨shadow, rfl, trivial⟩
  have mirrored := Mirrors.readRecord scan scan' twins
  have valid {state : ScanState} (kept : state = scanner.state) :
      ∀ fault, state ≠ .invalid fault := by
    rcases going with here | here <;> simp [kept, here]
  unfold Scanner.next
  rw [Scan.next_apply scan going, Scan.next_apply scan' going]
  generalize Scan.readRecord scan = ran at mirrored ⊢
  generalize Scan.readRecord scan' = ran' at mirrored ⊢
  cases mirrored with
  | @same outcome next next' kept twins' =>
      obtain ⟨result, scanner', after, answers, settles⟩ := Scan.settle_apply outcome (valid kept)
      obtain ⟨quiet', reached, record''⟩ := next'
      obtain rfl : reached = next.scanner := twins'.scanner_eq
      have settled : Scan.settle outcome next = (result, { next with scanner := scanner' }) :=
        settles next.log next.record
      simp only [settled, settles]
      exact ⟨_, _, _, _, rfl, rfl, after, .inl ⟨twins'.shadow, rfl, rfl, fun returned =>
        twins'.related true ((answers true).mp returned) rfl⟩⟩
  | @fails fault next other kept =>
      obtain ⟨result, scanner', after, answers, settles⟩ :=
        Scan.settle_apply (.error (.access fault)) (valid kept)
      have settled : Scan.settle (.error (.access fault)) next =
          (result, { next with scanner := scanner' }) := settles next.log next.record
      simp only [settled]
      refine ⟨_, _, _, _, rfl, rfl, after, .inr ?_⟩
      cases result with
      | ok answer => cases (answers answer).mp rfl
      | error error => exact ⟨error, rfl⟩

end

end DirectoryStore.Log
