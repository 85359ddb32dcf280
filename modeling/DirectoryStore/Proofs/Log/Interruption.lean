import DirectoryStore.Proofs.Log.InMemory
import DirectoryStore.Proofs.Outcomes

/-!
# Reading while calls may fail

Every call on a log can be made to fail.  A part of a scan therefore has two
outcomes: it answers what the bytes of the log say, or it passes on the failure
of a call.  Either way the log keeps its contents, and only its count of calls
moves on.  `Looks` says this of an operation on the log and `Does` of a part of a
scan, which also moves the scanner and fills the record.
-/

namespace DirectoryStore

/-- What an error tells a scan about the bytes, unless it is a failure to read. -/
def Error.logFault? : Error → Option LogFault
  | .invalidLog fault => some fault
  | .access fault =>
      if fault.isShortRead then some (.truncated fault) else none
  | _ => none

theorem Error.logFault?_of_isShortRead {fault : AccessFault} (short : fault.isShortRead = true) :
    (Error.access fault).logFault? = some (.truncated fault) := by
  rw [logFault?, if_pos short]

namespace Log

/-! ## Outcomes -/

def Agrees {α : Type} : Except LogFault α → Except Error α → Prop
  | .ok said, .ok answer => said = answer
  | .error fault, .error error => error.logFault? = some fault
  | _, _ => False

def scanCalls : List CallKind := [.openSegment, .size, .read]

/-- A failure that a call of one of these kinds can be made to have. -/
def LogFiles.Injects (log : LogFiles) (kinds : List CallKind)
    (fault : AccessFault) : Prop :=
  ∃ callNumber request cause,
    log.injection.plan callNumber request = some cause ∧
      request.call.kind ∈ kinds ∧ (fault = .io cause ∨ fault = .storage (.io cause))

/-- An operation that reads the log, whose bytes say what it should answer. -/
def Looks {α : Type} (log : LogFiles) (action : LogM α)
    (result : Except LogFault α) : Prop :=
  ∀ calls, ∃ calls' outcome,
    action (log.atCall calls) = (outcome, log.atCall calls') ∧
      (Agrees result outcome ∨
        ∃ fault, log.Injects scanCalls fault ∧ outcome = .error (.access fault))

/--
A part of a scan, which reads the log and changes its scanner and record.  The
state of the scanner is settled later.
-/
def Does {α : Type} (log : LogFiles) (action : ScanM α)
    (before : Scanner × Record) (result : Except LogFault α)
    (after : Scanner × Record) : Prop :=
  ∀ calls, ∃ calls' outcome scanner record,
    action ⟨log.atCall calls, before.1, before.2⟩ =
        (outcome, ⟨log.atCall calls', scanner, record⟩) ∧
      scanner.state = before.1.state ∧
      (Agrees result outcome ∧ (scanner, record) = after ∨
        ∃ fault, log.Injects scanCalls fault ∧ outcome = .error (.access fault))

/-! ## Parts of a scan -/

namespace Does

variable {α β : Type} {log : LogFiles} {before between after : Scanner × Record}

theorem pure (value : α) : Does log (pure value) before (.ok value) before :=
  fun calls => ⟨calls, .ok value, before.1, before.2, rfl, rfl, .inl ⟨rfl, rfl⟩⟩

theorem bind {first : ScanM α} {following : α → ScanM β} {value : α}
    {result : Except LogFault β} (first_does : Does log first before (.ok value) between)
    (rest : Does log (following value) between result after) :
    Does log (first >>= following) before result after := by
  intro calls
  obtain ⟨calls', outcome, scanner, record, ran, kept, answered⟩ := first_does calls
  rw [bind_apply, ran]
  rcases answered with ⟨agrees, rfl⟩ | ⟨fault, injected, rfl⟩
  · cases outcome with
    | error error => exact agrees.elim
    | ok answer =>
        obtain rfl : value = answer := agrees
        obtain ⟨last, outcome', scanner', record', ran', kept', answered'⟩ :=
          rest calls'
        exact ⟨last, outcome', scanner', record', ran', kept'.trans kept, answered'⟩
  · exact ⟨calls', _, scanner, record, rfl, kept, .inr ⟨fault, injected, rfl⟩⟩

theorem stop {first : ScanM α} {following : α → ScanM β} {fault : LogFault}
    (first_does : Does log first before (.error fault) after) :
    Does log (first >>= following) before (.error fault) after := by
  intro calls
  obtain ⟨calls', outcome, scanner, record, ran, kept, answered⟩ := first_does calls
  rw [bind_apply, ran]
  cases outcome with
  | ok answer =>
      rcases answered with ⟨agrees, -⟩ | ⟨_, -, impossible⟩
      · exact agrees.elim
      · cases impossible
  | error error =>
      refine ⟨calls', _, scanner, record, rfl, kept, ?_⟩
      rcases answered with ⟨agrees, same⟩ | ⟨fault, injected, same⟩
      · exact .inl ⟨agrees, same⟩
      · exact .inr ⟨fault, injected, by rw [Except.error.inj same]⟩

theorem reject (fault : LogFault) :
    Does log (Scan.reject fault : ScanM α) before (.error fault) before :=
  fun calls => ⟨calls, _, before.1, before.2, rfl, rfl, .inl ⟨rfl, rfl⟩⟩

theorem passes {broken : Prop} [Decidable broken] (holds : ¬ broken)
    {fault : LogFault} {following : PUnit → ScanM α} {result : Except LogFault α}
    (rest : Does log (following ()) before result after) :
    Does log (if broken then Scan.reject fault >>= following else following ())
      before result after := by
  rwa [if_neg holds]

theorem rejects {broken : Prop} [Decidable broken] (fails : broken)
    {fault : LogFault} {following : PUnit → ScanM α} :
    Does log (if broken then Scan.reject fault >>= following else following ())
      before (.error fault) before := by
  rw [if_pos fails]
  exact stop (reject fault)

theorem modifyScanner (change : Scanner → Scanner)
    (kept : (change before.1).state = before.1.state := by rfl) :
    Does log (Scan.modifyScanner change) before (.ok ())
      (change before.1, before.2) :=
  fun calls => ⟨calls, _, _, _, rfl, kept, .inl ⟨rfl, rfl⟩⟩

theorem modifyRecord (change : Record → Record) :
    Does log (Scan.modifyRecord change) before (.ok ())
      (before.1, change before.2) :=
  fun calls => ⟨calls, _, _, _, rfl, rfl, .inl ⟨rfl, rfl⟩⟩

theorem get_bind {following : Scan → ScanM α} {result : Except LogFault α}
    (rest : ∀ calls, Does log (following ⟨log.atCall calls, before.1, before.2⟩)
      before result after) :
    Does log (get >>= following) before result after :=
  fun calls => rest calls calls

theorem onLog {action : LogM α} {result : Except LogFault α}
    (looks : Looks log action result) :
    Does log (Scan.onLog action) before result before := by
  intro calls
  obtain ⟨calls', outcome, ran, answered⟩ := looks calls
  refine ⟨calls', outcome, before.1, before.2, ?_, rfl, ?_⟩
  · simp [Scan.onLog, ran]
  · rcases answered with agrees | interrupted
    · exact .inl ⟨agrees, rfl⟩
    · exact .inr interrupted

end Does

/-! ## Operations on the log -/

def countCall (request : Request) (passedOn : IoFault → AccessFault)
    (log : LogFiles) : Except Error Unit × LogFiles :=
  (match log.injection.plan log.injection.callsMade request with
    | some cause => .error (.access (passedOn cause))
    | none => .ok (),
    log.atCall (log.injection.callsMade + 1))

theorem beginOnRow_apply (number : SegmentNumber) (call : Call) (log : LogFiles) :
    LogFiles.beginOnRow number call log = countCall ⟨number, call⟩ .io log := by
  have called : LogFiles.beginCall number call log =
      (.ok (log.injection.plan log.injection.callsMade ⟨number, call⟩),
        log.atCall (log.injection.callsMade + 1)) := rfl
  rw [LogFiles.beginOnRow, bind_apply, called, countCall]
  cases log.injection.plan log.injection.callsMade ⟨number, call⟩ <;> rfl

theorem beginOnBytes_apply (number : SegmentNumber) (call : Call) (log : LogFiles) :
    LogFiles.beginOnBytes number call log =
      countCall ⟨number, call⟩ (fun cause => .storage (.io cause)) log := by
  have called : LogFiles.beginCall number call log =
      (.ok (log.injection.plan log.injection.callsMade ⟨number, call⟩),
        log.atCall (log.injection.callsMade + 1)) := rfl
  rw [LogFiles.beginOnBytes, bind_apply, called, countCall]
  cases log.injection.plan log.injection.callsMade ⟨number, call⟩ <;> rfl

structure Opened (log : LogFiles) (segment : OpenSegment) (bytes : Bytes) :
    Prop where
  stored : log.memory.lookup segment.number = some segment.file
  handle_eq : segment.handle = .buffer
  bytes_eq : (segment.contents log).bytes = bytes

theorem Opened.segments_eq {log : LogFiles} {segment : OpenSegment} {bytes : Bytes}
    (opened : Opened log segment bytes) :
    log.segments segment.number = some bytes :=
  opened.bytes_eq ▸ LogFiles.segments_eq opened.stored

theorem OpenSegment.readWithoutFailure_apply (segment : OpenSegment) (offset len : Nat)
    (log : LogFiles) :
    segment.readWithoutFailure offset len log =
      ((segment.handle.read (segment.contents log) offset len).mapError Error.storage, log) := by
  rw [readWithoutFailure, get_bind_apply]
  cases segment.handle.read (segment.contents log) offset len <;> rfl

/-- The bytes that can be read through the handle of a segment: all there were when it was opened. -/
structure Sees (log : LogFiles) (segment : OpenSegment) (bytes : Bytes) : Prop where
  size_eq : segment.handle.size (segment.contents log) = bytes.length
  front_eq : (segment.contents log).bytes.take bytes.length = bytes

theorem Opened.sees {log : LogFiles} {segment : OpenSegment} {bytes : Bytes}
    (opened : Opened log segment bytes) : Sees log segment bytes := by
  refine ⟨?_, by rw [opened.bytes_eq, List.take_length]⟩
  rw [opened.handle_eq, Handle.size, Contents.size_eq, opened.bytes_eq]

namespace Looks

variable {log : LogFiles}

theorem of_call {α : Type} {begin : LogM Unit} {look : LogM α} {request : Request}
    {passedOn : IoFault → AccessFault} {result : Except LogFault α}
    (reads : request.call.kind ∈ scanCalls)
    (known : ∀ cause, passedOn cause = .io cause ∨
      passedOn cause = .storage (.io cause))
    (begun : ∀ log, begin log = countCall request passedOn log)
    (looked : ∀ calls, ∃ outcome, look (log.atCall calls) =
      (outcome, log.atCall calls) ∧ Agrees result outcome) :
    Looks log (do begin; look) result := by
  intro calls
  rw [bind_apply, begun, countCall]
  cases planned : (log.atCall calls).injection.plan
      (log.atCall calls).injection.callsMade request with
  | none =>
      obtain ⟨outcome, ran, agrees⟩ := looked (calls + 1)
      exact ⟨calls + 1, outcome, ran, .inl agrees⟩
  | some cause =>
      exact ⟨calls + 1, _, rfl, .inr ⟨passedOn cause,
        ⟨_, request, cause, planned, reads, known cause⟩, rfl⟩⟩

theorem openSegment (number : SegmentNumber) :
    Looks log (LogFiles.openSegment .memory number)
      (.ok ((log.memory.lookup number).map (⟨number, ·, .buffer⟩))) :=
  of_call (by simp [Call.kind, scanCalls]) (fun _ => .inl rfl)
    (beginOnRow_apply number .openSegment) fun calls => ⟨_, rfl, rfl⟩

variable {segment : OpenSegment} {bytes : Bytes}

theorem size (sees : Sees log segment bytes) :
    Looks log segment.size (.ok bytes.length) :=
  of_call (by simp [Call.kind, scanCalls]) (fun _ => .inr rfl)
    (beginOnBytes_apply segment.number .size) fun _ => ⟨_, rfl, sees.size_eq.symm⟩

theorem read_eq (sees : Sees log segment bytes) (offset len : Nat) :
    segment.handle.read (segment.contents log) offset len =
      if offset + len ≤ bytes.length then .ok (bytes.slice offset len)
      else .error (.readPastEnd offset len bytes.length) := by
  obtain ⟨size_eq, front_eq⟩ := sees
  have length_le : bytes.length ≤ (segment.contents log).size := by
    rw [Contents.size_eq, ← front_eq, List.length_take]
    exact Nat.min_le_right _ _
  have cut (inside : offset + len ≤ bytes.length) :
      (segment.contents log).slice offset len = bytes.slice offset len := by
    have same : SameUpTo bytes.length (segment.contents log).bytes bytes :=
      ⟨Contents.size_eq _ ▸ length_le, Nat.le_refl _, by rw [front_eq, List.take_length]⟩
    exact same.slice_eq inside
  cases handle_eq : segment.handle with
  | buffer =>
      rw [handle_eq] at size_eq
      have size_eq : (segment.contents log).size = bytes.length := size_eq
      simp only [Handle.read, Buffer.read, size_eq]
      split
      · rename_i inside
        rw [cut inside]
      · rfl
  | file knownSize =>
      rw [handle_eq] at size_eq
      obtain rfl : knownSize = bytes.length := size_eq
      simp only [Handle.read, OpenFile.read]
      split
      · rename_i inside
        by_cases nothing : len = 0
        · simp [nothing, Bytes.slice]
        · rw [if_neg nothing, if_pos (by omega), cut inside]
      · rfl

theorem readAt (sees : Sees log segment bytes) (offset len : Nat) :
    Looks log (segment.readAt offset len) (readSlice bytes offset len) := by
  refine of_call (by simp [Call.kind, scanCalls]) (fun _ => .inr rfl)
    (beginOnBytes_apply segment.number (.read offset len)) fun calls => ?_
  have read : segment.readWithoutFailure offset len (log.atCall calls) =
      ((segment.handle.read (segment.contents log) offset len).mapError Error.storage,
        log.atCall calls) :=
    segment.readWithoutFailure_apply offset len _
  refine ⟨_, read, ?_⟩
  rw [read_eq sees, readSlice]
  split <;> simp [Except.mapError, Agrees, Error.logFault?, Error.storage, AccessFault.isShortRead,
    StorageFault.isShortRead]

end Looks

end Log

end DirectoryStore
