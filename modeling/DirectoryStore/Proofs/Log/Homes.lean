import DirectoryStore.Proofs.Log.Folders
import DirectoryStore.Proofs.Log.Growing

/-!
# Writing in any home

A log is written in the same way wherever its segments live.  The statements here
hold for the log in memory and for a log in a folder, and speak of operations that
succeed: an append puts one record behind the bytes of a segment and leaves the
files of all other segments alone.
-/

namespace DirectoryStore.Log

namespace LogFiles

/-! ## The segments of a home -/

def file? (log : LogFiles) (home : Home) (number : SegmentNumber) : Option FileId :=
  match home with
  | .memory => log.memory.lookup number
  | .folder path _ => (log.system.openFile (segmentPath path number)).toOption

def segmentsIn (log : LogFiles) (home : Home) : Segments := fun number =>
  (log.file? home number).map fun file => (log.system.contents file).bytes

structure Distinct (log : LogFiles) (home : Home) : Prop where
  file_lt : ∀ {number : SegmentNumber} {file : FileId},
    log.file? home number = some file → file < log.system.files.length
  files_distinct : ∀ {number other : SegmentNumber} {file : FileId},
    log.file? home number = some file → log.file? home other = some file → number = other

section

variable {log : LogFiles} {home : Home} {number : SegmentNumber} {file : FileId}

theorem file?_folder_eq_some_iff {path : Path} {lock : FileId} :
    log.file? (.folder path lock) number = some file ↔
      log.system.openFile (segmentPath path number) = .ok file := by
  show (log.system.openFile (segmentPath path number)).toOption = some file ↔ _
  cases log.system.openFile (segmentPath path number) <;> simp [Except.toOption]

theorem segmentsIn_eq (stored : log.file? home number = some file) :
    log.segmentsIn home number = some (log.system.contents file).bytes := by
  rw [segmentsIn, stored]
  rfl

theorem segmentsIn_eq_none_iff :
    log.segmentsIn home number = none ↔ log.file? home number = none := by
  simp [segmentsIn]

theorem Distinct.atCall (distinct : log.Distinct home) (calls : Nat) :
    (log.atCall calls).Distinct home :=
  ⟨distinct.file_lt, distinct.files_distinct⟩

theorem file?_setFile (home : Home) (number : SegmentNumber) (file : FileId)
    (contents : Contents) :
    (log.setFile file contents).file? home number = log.file? home number := by
  cases home with
  | memory => rfl
  | folder path lock =>
      have nodes_eq : (log.setFile file contents).system.nodes = log.system.nodes := rfl
      exact congrArg Except.toOption (FileSystem.openFile_congr nodes_eq _)

theorem Distinct.setFile (distinct : log.Distinct home) (file : FileId)
    (contents : Contents) : (log.setFile file contents).Distinct home := by
  refine ⟨fun stored => ?_, fun stored stored' => ?_⟩
  · rw [file?_setFile] at stored
    have := distinct.file_lt stored
    simpa [LogFiles.setFile, FileSystem.setContents] using this
  · rw [file?_setFile] at stored stored'
    exact distinct.files_distinct stored stored'

theorem segmentsIn_setFile (distinct : log.Distinct home)
    (stored : log.file? home number = some file) (contents : Contents) :
    (log.setFile file contents).segmentsIn home =
      (log.segmentsIn home).put number (some contents.bytes) := by
  have file_lt := distinct.file_lt stored
  funext other
  unfold segmentsIn Segments.put
  rw [file?_setFile]
  by_cases same : other = number
  · subst same
    simp [stored, LogFiles.setFile, FileSystem.setContents, FileSystem.contents, file_lt]
  · cases other_stored : log.file? home other with
    | none => simp [same, other_stored]
    | some otherFile =>
        have different : file ≠ otherFile := by
          rintro rfl
          exact same (distinct.files_distinct other_stored stored)
        simp [same, other_stored, LogFiles.setFile, FileSystem.setContents, FileSystem.contents, different]

end

end LogFiles

/-! ## Operations that succeed -/

structure Puts (home : Home) (log : LogFiles) (number : SegmentNumber) (bytes : Bytes)
    (log' : LogFiles) : Prop where
  distinct : log'.Distinct home
  files_kept : ∀ {other : SegmentNumber} {file : FileId},
    log.file? home other = some file → log'.file? home other = some file
  segments_eq : log'.segmentsIn home = (log.segmentsIn home).put number (some bytes)

/-- An open segment whose handle knows all of its bytes. -/
structure Owned (home : Home) (log : LogFiles) (segment : OpenSegment) (bytes : Bytes) :
    Prop where
  file_eq : log.file? home segment.number = some segment.file
  size_eq : segment.handle.size (segment.contents log) = bytes.length
  bytes_eq : (segment.contents log).bytes = bytes

section

variable {home : Home} {log log' log'' : LogFiles} {number : SegmentNumber}
  {segment : OpenSegment} {bytes bytes' : Bytes}

theorem Puts.after_call {calls : Nat} (puts : Puts home (log.atCall calls) number bytes log') :
    Puts home log number bytes log' :=
  ⟨puts.distinct, puts.files_kept, puts.segments_eq⟩

theorem Puts.atCall (puts : Puts home log number bytes log') (calls : Nat) :
    Puts home log number bytes (log'.atCall calls) :=
  ⟨puts.distinct.atCall calls, puts.files_kept, puts.segments_eq⟩

theorem Puts.trans (first : Puts home log number bytes log')
    (second : Puts home log' number bytes' log'') : Puts home log number bytes' log'' :=
  ⟨second.distinct, fun stored => second.files_kept (first.files_kept stored), by
    rw [second.segments_eq, first.segments_eq, Segments.put_put]⟩

theorem Owned.atCall (owned : Owned home log segment bytes) (calls : Nat) :
    Owned home (log.atCall calls) segment bytes :=
  ⟨owned.file_eq, owned.size_eq, owned.bytes_eq⟩

theorem Owned.segments_eq (owned : Owned home log segment bytes) :
    log.segmentsIn home segment.number = some bytes :=
  owned.bytes_eq ▸ LogFiles.segmentsIn_eq owned.file_eq

theorem Puts.of_newFile (distinct : log.Distinct home)
    (missing : log.file? home number = none)
    (file?_eq : ∀ other, log'.file? home other =
      if other = number then some log.system.files.length else log.file? home other)
    (files_eq : log'.system.files = log.system.files ++ [.empty]) :
    Puts home log number [] log' := by
  refine ⟨⟨fun {other file} stored => ?_, fun {first second file} stored stored' => ?_⟩,
    fun {other file} stored => ?_, ?_⟩
  · have old := @distinct.file_lt other file
    rw [file?_eq] at stored
    rw [files_eq, List.length_append]
    grind
  · have old := @distinct.file_lt first file
    have old' := @distinct.file_lt second file
    have apart := @distinct.files_distinct first second file
    rw [file?_eq] at stored stored'
    grind
  · rw [file?_eq]
    split
    · subst_vars
      rw [missing] at stored
      cases stored
    · exact stored
  · funext other
    simp only [LogFiles.segmentsIn, Segments.put]
    rw [file?_eq]
    split
    · simp [FileSystem.contents, files_eq, Contents.empty]
    · cases stored : log.file? home other with
      | none => rfl
      | some file =>
          have file_lt := distinct.file_lt stored
          simp [FileSystem.contents, files_eq, List.getElem?_append_left file_lt]

theorem Puts.owned_new (puts : Puts home log number [] log') {file : FileId} {handle : Handle}
    (stored : log'.file? home number = some file) (knows : handle.size .empty = 0) :
    Owned home log' ⟨number, file, handle⟩ [] := by
  have bytes_eq : (log'.system.contents file).bytes = [] := by
    have held := (LogFiles.segmentsIn_eq stored).symm.trans
      ((congrFun puts.segments_eq number).trans (if_pos rfl))
    exact Option.some.inj held
  have nothing : log'.system.contents file = .empty := Contents.ext bytes_eq
  refine ⟨stored, ?_, bytes_eq⟩
  show handle.size (log'.system.contents file) = 0
  rw [nothing, knows]

theorem Puts.of_made {path : Path} {lock file : FileId} {system : FileSystem}
    (distinct : log.Distinct (.folder path lock))
    (missing : log.file? (.folder path lock) number = none)
    (made : log.system.openOrMakeFile (segmentPath path number) = .ok (file, system)) :
    LogFiles.file? { log with system := system.setContents file .empty } (.folder path lock)
        number = some file ∧
      Puts (.folder path lock) log number []
        { log with system := system.setContents file .empty } := by
  have absent : log.system.openFile (segmentPath path number) ≠ .ok file := by
    intro opened
    rw [LogFiles.file?, opened] at missing
    cases missing
  obtain ⟨place, reached, free, rfl, rfl⟩ :=
    (openOrMakeFile_segmentPath made).resolve_left fun old => absent old.1
  let system := (log.system.newFile.2.addNode place
    (.file log.system.files.length)).setContents log.system.files.length .empty
  have nodes_eq : system.nodes =
      (log.system.addNode place (.file log.system.files.length)).nodes := rfl
  have file?_eq (other : SegmentNumber) :
      LogFiles.file? { log with system := system } (.folder path lock) other =
        if other = number then some log.system.files.length
        else log.file? (.folder path lock) other := by
    have opened := (FileSystem.openFile_congr nodes_eq _).trans
      (openFile_addNode reached free log.system.files.length other)
    show (system.openFile (segmentPath path other)).toOption =
      if other = number then _ else (log.system.openFile _).toOption
    rw [opened]
    split <;> rfl
  have files_eq : system.files = log.system.files ++ [.empty] := by
    simp [system, FileSystem.setContents, FileSystem.addNode, FileSystem.newFile]
  exact ⟨(file?_eq number).trans (if_pos rfl),
    Puts.of_newFile distinct missing file?_eq files_eq⟩

end

namespace Ends

variable {home : Home} {log : LogFiles} {number : SegmentNumber} {segment : OpenSegment}
  {bytes : Bytes}

theorem after_count {α : Type} {begin : LogM Unit} {change : LogM α} {request : Request}
    {passedOn : IoFault → AccessFault} {done : α → LogFiles → Prop}
    (begun : ∀ log, begin log = countCall request passedOn log)
    (changed : ∀ calls, Leads change (log.atCall calls) done fun _ _ => True) :
    Leads (do begin; change) log done (fun _ _ => True) :=
  Leads.after_count ((Leads.count_spares begun).imp_failed
    fun _ _ _ => trivial) changed

theorem createInFolder_apply (path : Path) (lock : FileId) (number : SegmentNumber)
    (log : LogFiles) :
    LogFiles.createWithoutFailure (.folder path lock) number log =
      match log.system.openOrMakeFile (segmentPath path number) with
      | .ok (file, system) =>
          (.ok ⟨number, file, .file 0⟩,
            { log with system := system.setContents file .empty })
      | .error refusal => (.error (.storage (.io (.system refusal))), log) := by
  unfold LogFiles.createWithoutFailure
  rw [bind_apply]
  show (match log.system.openOrMakeFile (segmentPath path number) with
    | .ok (file, system) => do
        LogFiles.updateSystem (system.setContents file .empty)
        return ⟨number, file, .file 0⟩
    | .error refusal => throw (.storage (.io (.system refusal))) : LogM OpenSegment) log = _
  cases log.system.openOrMakeFile (segmentPath path number) <;> rfl

theorem createSegment (distinct : log.Distinct home)
    (missing : log.file? home number = none) :
    Leads (LogFiles.createSegment home number) log
      (fun segment log' => segment.number = number ∧ Owned home log' segment [] ∧
        Puts home log number [] log')
      (fun _ _ => True) := by
  refine after_count (beginOnRow_apply number .createSegment) fun calls => ?_
  have distinct := distinct.atCall calls
  cases home with
  | memory =>
      have file?_eq (other : SegmentNumber) :
          ((log.atCall calls).withNew number).file? .memory other =
            if other = number then some log.system.files.length
            else log.file? .memory other :=
        LogFiles.lookup_insertSegment _ _ _ _
      have puts := Puts.of_newFile distinct missing file?_eq rfl
      exact ⟨rfl, puts.owned_new ((file?_eq number).trans (if_pos rfl)) rfl, puts.after_call⟩
  | folder path lock =>
      unfold Leads
      rw [createInFolder_apply]
      cases made : (log.atCall calls).system.openOrMakeFile (segmentPath path number) with
      | error refusal => trivial
      | ok found =>
          obtain ⟨stored, puts⟩ := Puts.of_made distinct missing made
          exact ⟨rfl, puts.owned_new stored rfl, puts.after_call⟩

theorem appended_bytes (owned : Owned home log segment bytes) (patch : Bytes) :
    ((segment.contents log).append patch).bytes = bytes ++ patch := by
  rw [Contents.bytes_append, owned.bytes_eq]

/-- A file is appended to where its handle believes that it ends. -/
theorem appendWithoutFailure_apply (owned : Owned home log segment bytes) (patch : Bytes) :
    ∃ handle, segment.appendWithoutFailure patch log =
        (.ok (bytes.length, { segment with handle := handle }),
          log.setFile segment.file ((segment.contents log).append patch)) ∧
      handle.size ((segment.contents log).append patch) = (bytes ++ patch).length := by
  have size_eq := owned.size_eq
  unfold OpenSegment.appendWithoutFailure
  cases handle_eq : segment.handle with
  | buffer =>
      have length_eq : (segment.contents log).size = bytes.length := by
        rw [Contents.size_eq, owned.bytes_eq]
      refine ⟨.buffer, ?_, ?_⟩
      · rw [← length_eq]
        rfl
      · rw [← appended_bytes owned]
        exact Contents.size_eq _
  | file knownSize =>
      rw [handle_eq] at size_eq
      obtain rfl : knownSize = bytes.length := size_eq
      exact ⟨.file (bytes.length + patch.length), rfl, List.length_append.symm⟩

theorem append (distinct : log.Distinct home) (owned : Owned home log segment bytes)
    (patch : Bytes) :
    Leads (segment.append patch) log
      (fun answer log' => answer.1 = bytes.length ∧ answer.2.number = segment.number ∧
        Owned home log' answer.2 (bytes ++ patch) ∧
        Puts home log segment.number (bytes ++ patch) log')
      (fun _ _ => True) := by
  refine after_count (beginOnBytes_apply segment.number .append) fun calls => ?_
  have owned := owned.atCall calls
  have distinct := distinct.atCall calls
  obtain ⟨handle, ran, knows⟩ := appendWithoutFailure_apply owned patch
  have whole := appended_bytes owned patch
  unfold Leads
  rw [ran]
  generalize (segment.contents (log.atCall calls)).append patch = contents at knows whole ⊢
  have held : ((log.atCall calls).setFile segment.file contents).system.contents segment.file =
      contents := by
    simp [LogFiles.setFile, FileSystem.setContents, FileSystem.contents,
      distinct.file_lt owned.file_eq]
  have puts : Puts home (log.atCall calls) segment.number (bytes ++ patch)
      ((log.atCall calls).setFile segment.file contents) := by
    refine ⟨distinct.setFile _ _, fun stored => ?_, ?_⟩
    · rw [LogFiles.file?_setFile]
      exact stored
    · rw [← whole]
      exact LogFiles.segmentsIn_setFile distinct owned.file_eq contents
  refine ⟨rfl, rfl, ⟨puts.files_kept owned.file_eq, ?_, ?_⟩, puts.after_call⟩
  · show handle.size (FileSystem.contents _ segment.file) = _
    rw [held, knows]
  · show (FileSystem.contents _ segment.file).bytes = _
    rw [held, whole]

theorem size (owned : Owned home log segment bytes) :
    Leads segment.size log
      (fun size log' => size = bytes.length ∧ ∃ calls, log' = log.atCall calls)
      (fun _ _ => True) :=
  after_count (beginOnBytes_apply segment.number .size) fun calls =>
    ⟨owned.size_eq, calls, rfl⟩

theorem sync : Leads segment.sync log (fun _ log' => ∃ calls, log' = log.atCall calls)
    (fun _ _ => True) := by
  refine after_count (beginOnBytes_apply segment.number .flush) fun calls => ?_
  refine (Leads.count_spares (beginOnBytes_apply segment.number .sync)).mono ?_
    fun _ _ _ => trivial
  rintro _ _ ⟨calls', rfl⟩
  exact ⟨calls', rfl⟩

theorem startSegment (distinct : log.Distinct home)
    (missing : log.file? home number = none) :
    Leads (Writer.startSegment home number) log
      (fun segment log' => segment.number = number ∧
        Owned home log' segment (headerBytes number) ∧
        Puts home log number (headerBytes number) log')
      (fun _ _ => True) := by
  unfold Writer.startSegment
  refine Leads.bind (createSegment distinct missing) ?_
  rintro segment log₁ ⟨rfl, owned, puts⟩
  refine Leads.bind (append puts.distinct owned
    (SegmentHeader.ofNumber segment.number).encode) ?_
  rintro ⟨_, segment'⟩ log₂ ⟨-, number_eq, owned', puts'⟩
  rw [List.nil_append] at owned' puts'
  refine Leads.bind sync ?_
  rintro - _ ⟨calls, rfl⟩
  exact Leads.pure ⟨number_eq, owned'.atCall calls, (puts.trans puts').atCall calls⟩

end Ends

/-! ## A writer in any home -/

/-- The writer put a record behind these bytes of a segment. -/
structure Wrote (log : LogFiles) (writer : Writer) (number : SegmentNumber)
    (base payload : Bytes) (anchor : LogAnchor) (log' : LogFiles) (writer' : Writer) :
    Prop where
  storable : Storable payload
  anchor_eq : anchor = ⟨number, base.length, some writer.nextLsn⟩
  writer_eq : writer' =
    { writer with segment := writer'.segment, nextLsn := writer.nextLsn.next }
  number_eq : writer'.segment.number = number
  owned : Owned writer.home log' writer'.segment (base ++ recordBytes writer.nextLsn payload)
  puts : Puts writer.home log number (base ++ recordBytes writer.nextLsn payload) log'

namespace Ends

variable {log : LogFiles} {writer : Writer} {bytes : Bytes}

theorem writerSync :
    Leads Writer.sync (log, writer)
      (fun _ state => ∃ calls, state = (log.atCall calls, writer)) (fun _ _ => True) := by
  have synced : Leads (Writer.onLog writer.segment.sync) (log, writer) _ fun _ _ => True :=
    sync.onLog fun _ _ _ => trivial
  refine Leads.current_bind (synced.mono ?_ fun _ _ _ => trivial)
  rintro - _ ⟨_, rfl, calls, rfl⟩
  exact ⟨calls, rfl⟩

theorem rollOver (distinct : log.Distinct writer.home)
    (missing : log.file? writer.home (writer.segment.number + 1) = none) :
    Leads Writer.rollOver (log, writer)
      (fun _ state => ∃ log' segment, state = (log', { writer with segment := segment }) ∧
        segment.number = writer.segment.number + 1 ∧
        Owned writer.home log' segment (headerBytes (writer.segment.number + 1)) ∧
        Puts writer.home log (writer.segment.number + 1)
          (headerBytes (writer.segment.number + 1)) log')
      (fun _ _ => True) := by
  unfold Writer.rollOver
  refine Leads.bind writerSync ?_
  rintro - _ ⟨calls, rfl⟩
  refine Leads.current_bind (Leads.bind
    ((startSegment (distinct.atCall calls) missing).onLog fun _ _ _ => trivial) ?_)
  rintro segment _ ⟨log', rfl, number_eq, owned, puts⟩
  exact ⟨log', segment, rfl, number_eq, owned, puts.after_call⟩

theorem putRecord {log' : LogFiles} {segment : OpenSegment} {number : SegmentNumber}
    {base : Bytes} {payload : Bytes} (storable : Storable payload)
    (distinct : log'.Distinct writer.home) (number_eq : segment.number = number)
    (owned : Owned writer.home log' segment base)
    (puts : ∀ {bytes log''}, Puts writer.home log' number bytes log'' →
      Puts writer.home log number bytes log'') :
    Leads (writer.putRecord payload) (log', { writer with segment := segment })
      (fun anchor state => Wrote log writer number base payload anchor state.1 state.2)
      (fun _ _ => True) := by
  subst number_eq
  unfold Writer.putRecord
  refine Leads.current_bind (Leads.bind
    ((append distinct owned (recordBytes writer.nextLsn payload)).onLog fun _ _ _ => trivial)
    ?_)
  rintro ⟨offset, segment'⟩ _ ⟨log₂, rfl, rfl, number_eq, owned', puts'⟩
  have number_eq : segment'.number = segment.number := number_eq
  refine Leads.setSegment_bind ?_
  obtain ⟨writer', writer'_eq⟩ : ∃ writer', writer' = { writer with segment := segment' } :=
    ⟨_, rfl⟩
  have wrote (calls : Nat) : Wrote log writer segment.number base payload
      ⟨segment'.number, base.length, some writer.nextLsn⟩ (log₂.atCall calls)
      { writer' with nextLsn := writer.nextLsn.next } := by
    rw [writer'_eq]
    exact ⟨storable, by rw [number_eq], rfl, number_eq, owned'.atCall calls,
      (puts puts').atCall calls⟩
  rw [← writer'_eq]
  cases writer.syncOnWrite with
  | false => exact wrote log₂.injection.callsMade
  | true =>
      simp only [if_true]
      refine Leads.bind writerSync ?_
      rintro - _ ⟨calls, rfl⟩
      exact wrote calls

theorem writerAppend (distinct : log.Distinct writer.home)
    (owned : Owned writer.home log writer.segment bytes)
    (missing : log.file? writer.home (writer.segment.number + 1) = none)
    (payload : Bytes) :
    Leads (Writer.append payload) (log, writer)
      (fun anchor state => Wrote log writer (recordPlace writer bytes payload).1
        (recordPlace writer bytes payload).2 payload anchor state.1 state.2)
      (fun _ _ => True) := by
  by_cases storable : Storable payload
  case neg =>
    obtain ⟨refusal, ran⟩ : ∃ refusal,
        Writer.append payload (log, writer) = (.error (.refused refusal), log, writer) :=
      append_rejected storable
    unfold Leads
    rw [ran]
    trivial
  refine Leads.writerAppend storable
    (Leads.bind ((size owned).onLog fun _ _ _ => trivial) ?_)
  rintro _ _ ⟨_, rfl, rfl, calls, rfl⟩
  unfold recordPlace
  cases writer.mustRollOver bytes.length (frameSize + payload.length) with
  | false =>
      exact putRecord storable (distinct.atCall calls) rfl (owned.atCall calls)
        fun puts => puts.after_call
  | true =>
      simp only [if_true]
      refine Leads.bind (rollOver (distinct.atCall calls) missing) ?_
      rintro - _ ⟨log₁, segment, rfl, number_eq, owned', puts⟩
      exact putRecord storable puts.distinct number_eq owned'
        fun puts' => (puts.trans puts').after_call

end Ends

/-- There is no segment in the home, under any name. -/
structure NoSegments (log : LogFiles) (home : Home) : Prop where
  listed : ∀ calls, LogFiles.listWithoutFailure home (log.atCall calls) =
    (.ok [], log.atCall calls)
  missing : ∀ number, log.file? home number = none

/-- A folder where no name begins like that of a segment. -/
theorem NoSegments.of_names {log : LogFiles} {path : Path} {lock : FileId}
    (other_names : ∀ entry ∈ log.system.nodes, ∀ name ∈ entry.1.getLast?,
      ¬ nameStart <+: name.toList) :
    NoSegments log (.folder path lock) := by
  refine ⟨fun calls => ?_, fun number => ?_⟩
  · have unread : (log.system.names path).filterMap readSegmentName? = [] := by
      refine List.filterMap_eq_nil_iff.mpr fun name listed => ?_
      obtain ⟨folder, -, taken⟩ := FileSystem.reached_of_mem_names listed
      obtain ⟨entry, stored, place_eq⟩ := List.mem_map.mp taken
      exact readSegmentName?_eq_none (other_names entry stored name (by simp [place_eq]))
    show (Except.ok (((log.system.names path).filterMap readSegmentName?).mergeSort _),
      log.atCall calls) = _
    rw [unread, List.mergeSort_nil]
  · cases stored : log.file? (.folder path lock) number with
    | none => rfl
    | some file =>
        obtain ⟨place, reached, there⟩ :=
          FileSystem.openFile_eq_ok_iff.mp (LogFiles.file?_folder_eq_some_iff.mp stored)
        obtain ⟨folder, -, -, rfl⟩ := reach_segmentPath reached
        have stored := FileSystem.mem_nodes_of_file there
        have named := other_names _ stored (segmentName number) (by simp)
        rw [toList_segmentName] at named
        exact absurd (List.prefix_append _ _) named

theorem Ends.openLog {log : LogFiles} {home : Home} (empty : NoSegments log home)
    (settings : Settings) :
    Leads (Writer.openLog home settings) log
      (fun writer log' => writer = .onSegment home writer.segment Lsn.first settings ∧
        writer.segment.number = 0 ∧ Owned home log' writer.segment (headerBytes 0) ∧
        Puts home log 0 (headerBytes 0) log')
      (fun _ _ => True) := by
  have absent {number : SegmentNumber} {file : FileId} :
      log.file? home number ≠ some file := by
    rw [empty.missing]
    exact nofun
  have distinct : log.Distinct home :=
    ⟨fun stored => absurd stored absent, fun stored _ => absurd stored absent⟩
  unfold Writer.openLog
  have listed : Leads (LogFiles.segmentNumbers home) log
      (fun numbers log' => numbers = [] ∧ ∃ calls, log' = log.atCall calls)
      (fun _ _ => True) := by
    refine after_count (beginOnRow_apply 0 .listSegments) fun calls => ?_
    unfold Leads
    rw [empty.listed]
    exact ⟨rfl, calls, rfl⟩
  refine Leads.bind listed ?_
  rintro _ _ ⟨rfl, calls, rfl⟩
  refine Leads.bind (Ends.startSegment (distinct.atCall calls) (empty.missing 0)) ?_
  rintro segment log' ⟨number_eq, owned, puts⟩
  exact Leads.pure ⟨rfl, number_eq, owned, puts.after_call⟩

end DirectoryStore.Log
