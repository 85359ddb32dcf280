import DirectoryStore.Log.Writer
import DirectoryStore.Proofs.Log.WholeScans

/-!
# Changing a log while calls may fail

An operation that changes the log either finishes or fails, and what it leaves
behind matters in both cases: the segments after a failure are those of the next
recovery.  Each call below takes effect as a whole or not at all.
-/

namespace DirectoryStore.Log

/-! ## Calls -/

structure Becomes (log log' : LogFiles) (segments : Segments) : Prop where
  sound : log'.Sound
  plan_eq : log'.injection.plan = log.injection.plan
  segments_eq : log'.segments = segments

theorem Becomes.refl {log : LogFiles} (sound : log.Sound) :
    Becomes log log log.segments :=
  ⟨sound, rfl, rfl⟩

theorem Becomes.atCall {log : LogFiles} (sound : log.Sound) (calls : Nat) :
    Becomes log (log.atCall calls) log.segments :=
  ⟨sound.atCall calls, rfl, rfl⟩

theorem Becomes.trans {log log' log'' : LogFiles} {segments segments' : Segments}
    (first : Becomes log log' segments) (second : Becomes log' log'' segments') :
    Becomes log log'' segments' :=
  ⟨second.sound, second.plan_eq.trans first.plan_eq, second.segments_eq⟩

/-- A call of one of these kinds was made to fail, and the log has these segments. -/
def FailedCall (log : LogFiles) (kinds : List CallKind) (segments : Segments)
    (error : Error) (log' : LogFiles) : Prop :=
  (∃ fault, log.Injects kinds fault ∧ error = .access fault) ∧
    Becomes log log' segments

theorem FailedCall.mono {log log' : LogFiles} {kinds kinds' : List CallKind}
    {segments : Segments} {error : Error}
    (failed : FailedCall log kinds segments error log')
    (more : ∀ kind ∈ kinds, kind ∈ kinds') :
    FailedCall log kinds' segments error log' := by
  obtain ⟨⟨fault, ⟨callNumber, request, cause, planned, member, known⟩, same⟩,
    becomes⟩ := failed
  exact ⟨⟨fault, ⟨callNumber, request, cause, planned, more _ member, known⟩, same⟩,
    becomes⟩

theorem FailedCall.after {log log' log'' : LogFiles} {kinds : List CallKind}
    {segments segments' : Segments} {error : Error}
    (failed : FailedCall log' kinds segments' error log'')
    (becomes : Becomes log log' segments) :
    FailedCall log kinds segments' error log'' := by
  obtain ⟨⟨fault, ⟨callNumber, request, cause, planned, member, known⟩, same⟩,
    becomes'⟩ := failed
  rw [becomes.plan_eq] at planned
  exact ⟨⟨fault, ⟨callNumber, request, cause, planned, member, known⟩, same⟩,
    becomes.trans becomes'⟩

def InjectedError (log : LogFiles) (error : Error) : Prop :=
  ∃ kinds fault, log.Injects kinds fault ∧ error = .access fault

theorem FailedCall.injected {log log' : LogFiles} {kinds : List CallKind}
    {segments : Segments} {error : Error}
    (failed : FailedCall log kinds segments error log') : InjectedError log error := by
  obtain ⟨⟨fault, injected, same⟩, -⟩ := failed
  exact ⟨kinds, fault, injected, same⟩

theorem Opened.atCall {log : LogFiles} {segment : OpenSegment} {bytes : Bytes}
    (opened : Opened log segment bytes) (calls : Nat) :
    Opened (log.atCall calls) segment bytes :=
  ⟨opened.stored, opened.handle_eq, opened.bytes_eq⟩

namespace Leads

variable {log : LogFiles} {segment : OpenSegment} {bytes : Bytes}
  {number : SegmentNumber}

theorem count (sound : log.Sound) {begin : LogM Unit} {request : Request}
    {passedOn : IoFault → AccessFault}
    (known : ∀ cause, passedOn cause = .io cause ∨
      passedOn cause = .storage (.io cause))
    (begun : ∀ log, begin log = countCall request passedOn log) :
    Leads begin log (fun _ log' => ∃ calls, log' = log.atCall calls)
      (FailedCall log [request.call.kind] log.segments) := by
  unfold Leads
  rw [begun, countCall]
  cases planned : log.injection.plan log.injection.callsMade request with
  | none => exact ⟨_, rfl⟩
  | some cause =>
      exact ⟨⟨passedOn cause, ⟨_, request, cause, planned, by simp, known cause⟩, rfl⟩,
        sound.atCall _, rfl, rfl⟩

theorem beginOnRow (sound : log.Sound) (number : SegmentNumber) (call : Call) :
    Leads (LogFiles.beginOnRow number call) log
      (fun _ log' => ∃ calls, log' = log.atCall calls)
      (FailedCall log [call.kind] log.segments) :=
  count sound (fun _ => .inl rfl) (beginOnRow_apply number call)

theorem beginOnBytes (sound : log.Sound) (number : SegmentNumber) (call : Call) :
    Leads (LogFiles.beginOnBytes number call) log
      (fun _ log' => ∃ calls, log' = log.atCall calls)
      (FailedCall log [call.kind] log.segments) :=
  count sound (fun _ => .inr rfl) (beginOnBytes_apply number call)

/-- An operation that counts as one call fails with nothing changed, or goes on. -/
theorem after_count {α : Type} {begin : LogM Unit} {change : LogM α}
    {done : α → LogFiles → Prop} {failed : Error → LogFiles → Prop}
    (counted : Leads begin log (fun _ log' => ∃ calls, log' = log.atCall calls)
      failed)
    (changed : ∀ calls, Leads change (log.atCall calls) done failed) :
    Leads (do begin; change) log done failed :=
  Leads.bind counted fun _ _ ⟨calls, same⟩ => same ▸ changed calls

/-! ## Operations on the row -/

theorem segmentNumbers (sound : log.Sound) :
    Leads (LogFiles.segmentNumbers .memory) log
      (fun numbers log' => numbers = log.memory.map (·.1) ∧
        ∃ calls, log' = log.atCall calls)
      (FailedCall log [.listSegments] log.segments) :=
  after_count (beginOnRow sound 0 .listSegments) fun calls => ⟨rfl, calls, rfl⟩

theorem openSegment (sound : log.Sound) (number : SegmentNumber) :
    Leads (LogFiles.openSegment .memory number) log
      (fun segment log' =>
        segment = (log.memory.lookup number).map (⟨number, ·, .buffer⟩) ∧
          ∃ calls, log' = log.atCall calls)
      (FailedCall log [.openSegment] log.segments) :=
  after_count (beginOnRow sound number .openSegment) fun calls =>
    ⟨rfl, calls, rfl⟩

theorem createSegment (sound : log.Sound) (number : SegmentNumber) :
    Leads (LogFiles.createSegment .memory number) log
      (fun segment log' => segment.number = number ∧ Opened log' segment [] ∧
        Becomes log log' (log.segments.put number (some [])))
      (FailedCall log [.createSegment] log.segments) := by
  refine after_count (beginOnRow sound number .createSegment) fun calls =>
    ⟨rfl, ⟨?_, rfl, ?_⟩, ?_⟩
  · exact (LogFiles.lookup_insertSegment number number _ _).trans (if_pos rfl)
  · simp [OpenSegment.contents, FileSystem.contents, LogFiles.atCall,
      Contents.empty]
  · exact ⟨(sound.atCall calls).withNew number, rfl,
      LogFiles.segments_withNew (sound.atCall calls) number⟩

theorem removeSegment (sound : log.Sound) (number : SegmentNumber) :
    Leads (LogFiles.removeSegment .memory number) log
      (fun _ log' => Becomes log log' (log.segments.put number none) ∧
        (∀ {segment : OpenSegment} {bytes : Bytes}, Opened log segment bytes →
          segment.number ≠ number → Opened log' segment bytes) ∧
        ∃ callNumber,
          log.injection.plan callNumber ⟨number, .removeSegment⟩ = none)
      (FailedCall log [.removeSegment] log.segments) := by
  unfold LogFiles.removeSegment Leads
  rw [bind_apply, beginOnRow_apply, countCall]
  cases planned : log.injection.plan log.injection.callsMade
      ⟨number, .removeSegment⟩ with
  | none =>
      refine ⟨⟨(sound.atCall _).without number, rfl,
        (log.atCall _).segments_without number⟩, fun opened different => ?_, _, planned⟩
      have stored := (LogFiles.lookup_filter_ne number _ log.memory).trans
        (if_neg different)
      exact ⟨stored.trans opened.stored, opened.handle_eq, opened.bytes_eq⟩
  | some cause =>
      exact ⟨⟨.io cause, ⟨_, _, cause, planned, by simp [Call.kind], .inl rfl⟩, rfl⟩,
        sound.atCall _, rfl, rfl⟩

/-! ## Operations on a segment -/

theorem size (sound : log.Sound) (opened : Opened log segment bytes) :
    Leads segment.size log
      (fun size log' => size = bytes.length ∧ ∃ calls, log' = log.atCall calls)
      (FailedCall log [.size] log.segments) := by
  refine after_count (beginOnBytes sound segment.number .size) fun calls =>
    ⟨?_, calls, rfl⟩
  have known := opened.handle_eq
  have length := opened.bytes_eq
  simp [Handle.size, known, ← length, OpenSegment.contents, LogFiles.atCall,
    Contents.size_eq]

structure Rewrites (log : LogFiles) (segment : OpenSegment) (bytes : Bytes)
    (segment' : OpenSegment) (log' : LogFiles) : Prop where
  same : segment' = segment
  opened : Opened log' segment bytes
  becomes : Becomes log log' (log.segments.put segment.number (some bytes))

theorem rewrites_setFile (sound : log.Sound) (opened : Opened log segment bytes)
    (contents : Contents) (calls : Nat) :
    Rewrites log segment contents.bytes { segment with handle := .buffer }
      ((log.atCall calls).setFile segment.file contents) := by
  have same : ({ segment with handle := .buffer } : OpenSegment) = segment := by
    rw [← opened.handle_eq]
  have file_lt := sound.file_lt opened.stored
  refine ⟨same, ⟨opened.stored, opened.handle_eq, ?_⟩, ?_⟩
  · simp [OpenSegment.contents, LogFiles.setFile, LogFiles.atCall,
      FileSystem.contents, FileSystem.setContents, file_lt]
  · exact ⟨(sound.atCall calls).setFile _ _, rfl,
      LogFiles.segments_setFile (sound.atCall calls) opened.stored _⟩

theorem appendWithoutFailure_apply (opened : Opened log segment bytes) (patch : Bytes)
    (calls : Nat) :
    segment.appendWithoutFailure patch (log.atCall calls) =
      (.ok ((segment.contents log).size, { segment with handle := .buffer }),
        (log.atCall calls).setFile segment.file ((segment.contents log).append patch)) := by
  unfold OpenSegment.appendWithoutFailure
  rw [opened.handle_eq]
  rfl

theorem append (sound : log.Sound) (opened : Opened log segment bytes)
    (patch : Bytes) :
    Leads (segment.append patch) log
      (fun answer log' => answer.1 = bytes.length ∧
        Rewrites log segment (bytes ++ patch) answer.2 log')
      (FailedCall log [.append] log.segments) := by
  refine after_count (beginOnBytes sound segment.number .append) fun calls => ?_
  have held := opened.bytes_eq
  have rewritten := rewrites_setFile sound opened
    ((segment.contents log).append patch) calls
  rw [Contents.bytes_append, held] at rewritten
  unfold Leads
  rw [appendWithoutFailure_apply opened]
  exact ⟨by rw [Contents.size_eq, held], rewritten⟩

theorem truncate (sound : log.Sound) (opened : Opened log segment bytes)
    {size : Nat} (inside : size ≤ bytes.length) :
    Leads (segment.truncate size) log
      (fun segment' log' => Rewrites log segment (bytes.take size) segment' log')
      (FailedCall log [.truncate] log.segments) := by
  refine after_count (beginOnBytes sound segment.number .truncate) fun calls => ?_
  have known := opened.handle_eq
  have held := opened.bytes_eq
  have small : size ≤ (segment.contents log).size := by
    rw [Contents.size_eq, held]
    exact inside
  have truncated : segment.handle.truncate (segment.contents (log.atCall calls)) size =
      .ok (.buffer, (segment.contents log).resize size) := by
    rw [known, Handle.truncate, Buffer.truncate]
    exact congrArg (Except.map (Handle.buffer, ·)) (if_pos small)
  have ran : segment.truncateWithoutFailure size (log.atCall calls) =
      (.ok { segment with handle := .buffer },
        (log.atCall calls).setFile segment.file
          ((segment.contents log).resize size)) := by
    rw [OpenSegment.truncateWithoutFailure, get_bind_apply, truncated]
    rfl
  have rewritten := rewrites_setFile sound opened
    ((segment.contents log).resize size) calls
  have cut : bytes.resize size = bytes.take size := by
    simp [Bytes.resize, Bytes.zeros, Nat.sub_eq_zero_of_le inside]
  rw [Contents.bytes_resize, held, cut] at rewritten
  unfold Leads
  rw [ran]
  exact rewritten

theorem sync (sound : log.Sound) :
    Leads segment.sync log (fun _ log' => ∃ calls, log' = log.atCall calls)
      (FailedCall log [.flush, .sync] log.segments) := by
  have flushed : Leads (LogFiles.beginOnBytes segment.number .flush) log
      (fun _ log' => ∃ calls, log' = log.atCall calls)
      (FailedCall log [.flush, .sync] log.segments) :=
    (beginOnBytes sound segment.number .flush).imp_failed
      fun _ _ failed => failed.mono (by simp [Call.kind])
  refine after_count flushed fun calls => ?_
  refine (beginOnBytes (sound.atCall calls) segment.number .sync).mono ?_ ?_
  · rintro _ _ ⟨calls', rfl⟩
    exact ⟨calls', rfl⟩
  · intro error log' failed
    exact (failed.after (.atCall sound calls)).mono (by simp [Call.kind])

end Leads

/-! ## Segments that are left alone -/

/-- Every segment that was open is still open, but for those that were touched. -/
structure LeavesOpen (touched : List SegmentNumber) (log log' : LogFiles) : Prop where
  still : ∀ {segment : OpenSegment} {bytes : Bytes}, Opened log segment bytes →
    segment.number ∉ touched → Opened log' segment bytes

namespace LeavesOpen

variable {touched touched' : List SegmentNumber} {number : SegmentNumber}
  {log log' log'' : LogFiles}

theorem atCall (calls : Nat) : LeavesOpen touched log (log.atCall calls) :=
  ⟨fun still _ => still.atCall calls⟩

theorem trans (first : LeavesOpen touched log log') (second : LeavesOpen touched log' log'') :
    LeavesOpen touched log log'' :=
  ⟨fun opened kept => second.still (first.still opened kept) kept⟩

theorem mono (leaves : LeavesOpen touched log log') (more : touched ⊆ touched') :
    LeavesOpen touched' log log' :=
  ⟨fun opened kept => leaves.still opened fun member => kept (more member)⟩

theorem withNew (sound : log.Sound) : LeavesOpen [number] log (log.withNew number) := by
  refine ⟨fun {segment bytes} opened other => ?_⟩
  have file_lt := sound.file_lt opened.stored
  have different : segment.number ≠ number := List.ne_of_not_mem_cons other
  refine ⟨?_, opened.handle_eq, ?_⟩
  · exact ((LogFiles.lookup_insertSegment _ _ _ _).trans (if_neg different)).trans
      opened.stored
  · rw [← opened.bytes_eq]
    simp [OpenSegment.contents, LogFiles.withNew, FileSystem.newFile, FileSystem.contents,
      List.getElem?_append_left file_lt]

theorem setFile (sound : log.Sound) {file : FileId}
    (stored : log.memory.lookup number = some file) (contents : Contents) :
    LeavesOpen [number] log (log.setFile file contents) := by
  refine ⟨fun {segment bytes} opened other => ?_⟩
  have different : file ≠ segment.file := by
    rintro rfl
    exact List.ne_of_not_mem_cons other (sound.files_distinct opened.stored stored)
  refine ⟨opened.stored, opened.handle_eq, ?_⟩
  rw [← opened.bytes_eq]
  simp [OpenSegment.contents, LogFiles.setFile, FileSystem.setContents, FileSystem.contents,
    different]

end LeavesOpen

namespace Leads

variable {log : LogFiles} {segment : OpenSegment} {bytes : Bytes} {number : SegmentNumber}

theorem count_spares {begin : LogM Unit} {request : Request}
    {passedOn : IoFault → AccessFault}
    (begun : ∀ log, begin log = countCall request passedOn log) :
    Leads begin log (fun _ log' => ∃ calls, log' = log.atCall calls)
      (fun _ => LeavesOpen [] log) := by
  unfold Leads
  rw [begun, countCall]
  cases log.injection.plan log.injection.callsMade request with
  | none => exact ⟨_, rfl⟩
  | some cause => exact .atCall _

theorem createSegment_spares (sound : log.Sound) (number : SegmentNumber) :
    Leads (LogFiles.createSegment .memory number) log
      (fun _ => LeavesOpen [number] log) (fun _ => LeavesOpen [] log) :=
  after_count (count_spares (beginOnRow_apply number .createSegment)) fun calls =>
    (LeavesOpen.atCall calls).trans (.withNew (sound.atCall calls))

theorem size_spares (segment : OpenSegment) :
    Leads segment.size log (fun _ => LeavesOpen [] log) (fun _ => LeavesOpen [] log) :=
  after_count (count_spares (beginOnBytes_apply segment.number .size)) fun calls =>
    .atCall calls

theorem append_spares (sound : log.Sound) (opened : Opened log segment bytes)
    (patch : Bytes) :
    Leads (segment.append patch) log (fun _ => LeavesOpen [segment.number] log)
      (fun _ => LeavesOpen [] log) := by
  refine after_count (count_spares (beginOnBytes_apply segment.number .append))
    fun calls => ?_
  unfold Leads
  rw [appendWithoutFailure_apply opened]
  exact (LeavesOpen.atCall calls).trans (.setFile (sound.atCall calls) opened.stored _)

theorem sync_spares :
    Leads segment.sync log (fun _ => LeavesOpen [] log) (fun _ => LeavesOpen [] log) := by
  refine after_count (count_spares (beginOnBytes_apply segment.number .flush))
    fun calls => ?_
  refine (count_spares (beginOnBytes_apply segment.number .sync)).mono ?_ ?_
  · rintro _ _ ⟨calls', rfl⟩
    exact .atCall calls'
  · exact fun _ _ leaves => (LeavesOpen.atCall calls).trans leaves

end Leads

end DirectoryStore.Log
