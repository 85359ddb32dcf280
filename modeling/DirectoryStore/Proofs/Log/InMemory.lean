import Mathlib.Algebra.BigOperators.Intervals
import Mathlib.Algebra.Order.BigOperators.Group.Finset
import DirectoryStore.Log.Recovery
import DirectoryStore.Proofs.Log.Chain

/-!
# Logs in memory

The log in memory is a row of files, each the bytes of one segment.  As long as
no two segments share a file, an operation on one segment changes what is stored
under its number and nothing else.  `LogFiles.segments` reads the row as a
function of the number, and every operation on the row is given by what it does
to that function.
-/

namespace DirectoryStore.Log

def Covers (numbers : Finset SegmentNumber) (segments : Segments) : Prop :=
  ∀ {number : SegmentNumber} {bytes : Bytes}, segments number = some bytes → number ∈ numbers

theorem Covers.endsBefore {numbers : Finset SegmentNumber} {segments : Segments}
    (covers : Covers numbers segments) : ∃ bound, EndsBefore segments bound := by
  refine ⟨numbers.sup id + 1, fun number beyond => ?_⟩
  cases stored : segments number with
  | none => rfl
  | some bytes =>
      have within : id number ≤ numbers.sup id := Finset.le_sup (covers stored)
      exact absurd within (Nat.not_le.mpr beyond)

namespace LogFiles

/-! ## The row of segments -/

theorem lookup_cons (number other : SegmentNumber) (file : FileId)
    (row : List (SegmentNumber × FileId)) :
    ((other, file) :: row).lookup number =
      if number = other then some file else row.lookup number := by
  rw [List.lookup_cons]
  by_cases same : number = other
  · simp [same]
  · simp [same, beq_eq_false_iff_ne.mpr same]

theorem lookup_insertSegment (number other : SegmentNumber) (file : FileId)
    (row : List (SegmentNumber × FileId)) :
    (insertSegment number file row).lookup other =
      if other = number then some file else row.lookup other := by
  induction row with
  | nil => simp [insertSegment]
  | cons segment rest ih => grind [insertSegment, lookup_cons]

theorem lookup_filter_ne (number other : SegmentNumber)
    (row : List (SegmentNumber × FileId)) :
    (row.filter (·.1 ≠ number)).lookup other =
      if other = number then none else row.lookup other := by
  induction row with
  | nil => simp
  | cons segment rest ih => grind [lookup_cons]

theorem lookup_isSome_iff {number : SegmentNumber}
    {row : List (SegmentNumber × FileId)} :
    (row.lookup number).isSome ↔ number ∈ row.map (·.1) := by
  induction row with
  | nil => simp
  | cons segment rest ih => grind [lookup_cons]

theorem mem_insertSegment {number other : SegmentNumber} {file : FileId}
    {row : List (SegmentNumber × FileId)} :
    other ∈ (insertSegment number file row).map (·.1) ↔
      other = number ∨ other ∈ row.map (·.1) := by
  rw [← lookup_isSome_iff, ← lookup_isSome_iff, lookup_insertSegment]
  split <;> simp_all

theorem ascending_insertSegment {number : SegmentNumber} {file : FileId}
    {row : List (SegmentNumber × FileId)}
    (ascending : (row.map (·.1)).Pairwise (· < ·)) :
    ((insertSegment number file row).map (·.1)).Pairwise (· < ·) := by
  induction row with
  | nil => simp [insertSegment]
  | cons segment rest ih =>
      obtain ⟨head, headFile⟩ := segment
      have ⟨head_lt, rest_ascending⟩ := List.pairwise_cons.mp ascending
      rw [insertSegment]
      split
      · refine List.pairwise_cons.mpr ⟨fun other member => ?_, ascending⟩
        rcases List.mem_cons.mp member with rfl | member
        · assumption
        · have := head_lt other member
          grind
      · split
        · subst_vars
          exact List.pairwise_cons.mpr ⟨head_lt, rest_ascending⟩
        · refine List.pairwise_cons.mpr ⟨fun other member => ?_, ih rest_ascending⟩
          rcases mem_insertSegment.mp member with rfl | member
          · grind
          · exact head_lt other member

/-! ## The segments of a log -/

def segments (log : LogFiles) : Segments := fun number =>
  (log.memory.lookup number).map fun file => (log.system.contents file).bytes

/-- No two segments of the log in memory share a file. -/
structure Sound (log : LogFiles) : Prop where
  ascending : (log.memory.map (·.1)).Pairwise (· < ·)
  file_lt : ∀ {number : SegmentNumber} {file : FileId},
    log.memory.lookup number = some file → file < log.system.files.length
  files_distinct : ∀ {number other : SegmentNumber} {file : FileId},
    log.memory.lookup number = some file →
      log.memory.lookup other = some file → number = other

/-- The log after further calls, none of which changed anything. -/
def atCall (log : LogFiles) (calls : Nat) : LogFiles :=
  { log with injection := { log.injection with callsMade := calls } }

section

variable {log : LogFiles}

@[simp] theorem segments_atCall (calls : Nat) :
    (log.atCall calls).segments = log.segments :=
  rfl

@[simp] theorem atCall_atCall (calls calls' : Nat) :
    (log.atCall calls).atCall calls' = log.atCall calls' :=
  rfl

theorem Sound.atCall (sound : log.Sound) (calls : Nat) :
    (log.atCall calls).Sound :=
  ⟨sound.ascending, sound.file_lt, sound.files_distinct⟩

theorem segments_eq {number : SegmentNumber} {file : FileId}
    (stored : log.memory.lookup number = some file) :
    log.segments number = some (log.system.contents file).bytes := by
  rw [segments, stored]
  rfl

theorem segments_eq_some_iff {number : SegmentNumber} {bytes : Bytes} :
    log.segments number = some bytes ↔ ∃ file,
      log.memory.lookup number = some file ∧
        (log.system.contents file).bytes = bytes := by
  simp [segments, Option.map_eq_some_iff]

theorem segments_eq_none_iff {number : SegmentNumber} :
    log.segments number = none ↔ log.memory.lookup number = none := by
  simp [segments]

theorem mem_numbers_iff {number : SegmentNumber} :
    number ∈ log.memory.map (·.1) ↔ ∃ bytes, log.segments number = some bytes := by
  rw [← lookup_isSome_iff, ← Option.isSome_iff_exists]
  simp [segments]

theorem covers (log : LogFiles) : Covers (log.memory.map (·.1)).toFinset log.segments :=
  fun stored => List.mem_toFinset.mpr (mem_numbers_iff.mpr ⟨_, stored⟩)

theorem exists_bound (log : LogFiles) : ∃ bound, EndsBefore log.segments bound :=
  Covers.endsBefore log.covers

/-! ## The lowest segment -/

def lowest (log : LogFiles) : SegmentNumber := (log.memory.map (·.1)).headD 0

theorem row_of_stored {number : SegmentNumber} {bytes : Bytes}
    (stored : log.segments number = some bytes) :
    ∃ others, log.memory.map (·.1) = log.lowest :: others := by
  have member := mem_numbers_iff.mpr ⟨bytes, stored⟩
  unfold lowest
  cases row : log.memory.map (·.1) with
  | nil => simp [row] at member
  | cons head rest => exact ⟨rest, rfl⟩

theorem Sound.lowest_le (sound : log.Sound) {number : SegmentNumber} {bytes : Bytes}
    (stored : log.segments number = some bytes) : log.lowest ≤ number := by
  have member := mem_numbers_iff.mpr ⟨bytes, stored⟩
  have ascending := sound.ascending
  obtain ⟨others, row⟩ := row_of_stored stored
  rw [row] at member ascending
  rcases List.mem_cons.mp member with rfl | later
  · exact Nat.le_refl _
  · exact ((List.pairwise_cons.mp ascending).1 _ later).le

theorem Sound.nothing_below (sound : log.Sound) {number : SegmentNumber}
    (below : number < log.lowest) : log.segments number = none := by
  cases stored : log.segments number with
  | none => rfl
  | some bytes => exact absurd (sound.lowest_le stored) (Nat.not_le.mpr below)

theorem Sound.lowest_eq (sound : log.Sound) {number : SegmentNumber} {bytes : Bytes}
    (stored : log.segments number = some bytes)
    (first : ∀ other < number, log.segments other = none) : log.lowest = number := by
  refine Nat.le_antisymm (sound.lowest_le stored) (Nat.le_of_not_lt fun below => ?_)
  obtain ⟨others, row⟩ := row_of_stored stored
  obtain ⟨bytes, lowest_stored⟩ : ∃ bytes, log.segments log.lowest = some bytes :=
    mem_numbers_iff.mp (row ▸ List.mem_cons_self)
  rw [first log.lowest below] at lowest_stored
  cases lowest_stored

end

/-! ## Changing a segment -/

end LogFiles

def Segments.put (segments : Segments) (number : SegmentNumber)
    (bytes : Option Bytes) : Segments :=
  fun other => if other = number then bytes else segments other

namespace LogFiles

variable {log : LogFiles}

def setFile (log : LogFiles) (file : FileId) (contents : Contents) : LogFiles :=
  { log with system := log.system.setContents file contents }

theorem Sound.setFile (sound : log.Sound) (file : FileId) (contents : Contents) :
    (log.setFile file contents).Sound := by
  refine ⟨sound.ascending, fun stored => ?_, sound.files_distinct⟩
  have := sound.file_lt stored
  simpa [LogFiles.setFile, FileSystem.setContents] using this

theorem segments_setFile (sound : log.Sound) {number : SegmentNumber} {file : FileId}
    (stored : log.memory.lookup number = some file) (contents : Contents) :
    (log.setFile file contents).segments =
      log.segments.put number (some contents.bytes) := by
  have file_lt := sound.file_lt stored
  funext other
  by_cases same : other = number
  · subst same
    simp [segments, Segments.put, LogFiles.setFile, stored, FileSystem.setContents,
      FileSystem.contents, file_lt]
  · cases other_stored : log.memory.lookup other with
    | none => simp [segments, Segments.put, LogFiles.setFile, other_stored, same]
    | some otherFile =>
        have different : file ≠ otherFile := by
          rintro rfl
          exact same (sound.files_distinct other_stored stored)
        simp [segments, Segments.put, LogFiles.setFile, other_stored, same,
          FileSystem.setContents, FileSystem.contents, different]

/-- The log with a new and empty segment, in the place of an old one if need be. -/
def withNew (log : LogFiles) (number : SegmentNumber) : LogFiles :=
  { log with
    system := log.system.newFile.2
    memory := insertSegment number log.system.newFile.1 log.memory }

theorem Sound.withNew (sound : log.Sound) (number : SegmentNumber) :
    (log.withNew number).Sound := by
  refine ⟨ascending_insertSegment sound.ascending, ?_, ?_⟩
  · intro other file stored
    have old := @sound.file_lt other file
    simp only [LogFiles.withNew, FileSystem.newFile, lookup_insertSegment] at stored ⊢
    grind
  · intro first second file stored stored'
    have old := @sound.file_lt first file
    have old' := @sound.file_lt second file
    have distinct := @sound.files_distinct first second file
    simp only [LogFiles.withNew, FileSystem.newFile, lookup_insertSegment] at stored stored'
    grind

theorem segments_withNew (sound : log.Sound) (number : SegmentNumber) :
    (log.withNew number).segments = log.segments.put number (some []) := by
  funext other
  by_cases same : other = number
  · simp [segments, Segments.put, LogFiles.withNew, lookup_insertSegment, same,
      FileSystem.newFile, FileSystem.contents, Contents.empty]
  · cases other_stored : log.memory.lookup other with
    | none =>
        simp [segments, Segments.put, LogFiles.withNew, lookup_insertSegment, same,
          other_stored]
    | some file =>
        have file_lt := sound.file_lt other_stored
        simp [segments, Segments.put, LogFiles.withNew, lookup_insertSegment, same,
          other_stored, FileSystem.newFile, FileSystem.contents,
          List.getElem?_append_left file_lt]

def without (log : LogFiles) (number : SegmentNumber) : LogFiles :=
  { log with memory := log.memory.filter (·.1 ≠ number) }

theorem Sound.without (sound : log.Sound) (number : SegmentNumber) :
    (log.without number).Sound := by
  refine ⟨sound.ascending.sublist (List.filter_sublist.map _), ?_, ?_⟩
  · intro other file stored
    simp only [LogFiles.without, lookup_filter_ne] at stored
    exact @sound.file_lt other file (by grind)
  · intro first second file stored stored'
    simp only [LogFiles.without, lookup_filter_ne] at stored stored'
    exact @sound.files_distinct first second file (by grind) (by grind)

theorem segments_without (log : LogFiles) (number : SegmentNumber) :
    (log.without number).segments = log.segments.put number none := by
  funext other
  simp only [segments, Segments.put, LogFiles.without, lookup_filter_ne]
  split <;> rfl

end LogFiles

/-! ## How many records there can be -/

def segmentSize (segments : Segments) (number : SegmentNumber) : Nat :=
  ((segments number).map List.length).getD 0

theorem Chain.length_le {segments : Segments} {number : SegmentNumber}
    {offset : Nat} {prior : Prior} {records : List Found} {stop : Stop}
    (chain : Chain segments number offset prior records stop)
    {bound : SegmentNumber} (finite : EndsBefore segments bound) :
    records.length ≤
      (∑ other ∈ Finset.Ico number bound, segmentSize segments other) - offset := by
  have split {number : SegmentNumber} {bytes : Bytes}
      (stored : segments number = some bytes) :
      ∑ other ∈ Finset.Ico number bound, segmentSize segments other =
        bytes.length +
          ∑ other ∈ Finset.Ico (number + 1) bound, segmentSize segments other := by
    have number_lt : number < bound :=
      Nat.lt_of_not_le fun beyond => by simp [finite number beyond] at stored
    rw [Finset.sum_eq_sum_Ico_succ_bot number_lt]
    simp [segmentSize, stored]
  induction chain with
  | header _ _ _ ih => omega
  | record _ stored read _ ih =>
      have inside := recordAt_inside read
      have whole := split stored
      have frame := frameSize_eq
      rw [List.length_cons]
      omega
  | onward _ stored at_end _ ih =>
      have whole := split stored
      omega
  | unheaded | damaged | pastEnd | ended => simp

theorem sum_files (files : List Contents) :
    ∑ file ∈ Finset.range files.length, (files.getD file .empty).size =
      files.foldl (fun total file => total + file.size) 0 := by
  induction files using List.reverseRecOn with
  | nil => rfl
  | append_singleton files last ih =>
      have earlier : ∑ file ∈ Finset.range files.length,
          ((files ++ [last]).getD file .empty).size =
            ∑ file ∈ Finset.range files.length, (files.getD file .empty).size := by
        refine Finset.sum_congr rfl fun file member => ?_
        have file_lt := Finset.mem_range.mp member
        simp [List.getElem?_append_left file_lt]
      rw [List.length_append, List.length_singleton, Finset.sum_range_succ,
        earlier, ih, List.foldl_append]
      simp

namespace LogFiles

theorem Sound.sum_segments_le {log : LogFiles} (sound : log.Sound)
    (numbers : Finset SegmentNumber) :
    ∑ number ∈ numbers, segmentSize log.segments number ≤
      Recovery.recordBound log := by
  let fileOf (number : SegmentNumber) : FileId := (log.memory.lookup number).getD 0
  let stored := numbers.filter fun number => (log.memory.lookup number).isSome
  have file_stored {number : SegmentNumber} (member : number ∈ stored) :
      log.memory.lookup number = some (fileOf number) := by
    have present := (Finset.mem_filter.mp member).2
    simp only [fileOf, Option.isSome_iff_exists] at present ⊢
    grind
  have only_stored : ∑ number ∈ numbers, segmentSize log.segments number =
      ∑ number ∈ stored, (log.system.contents (fileOf number)).size := by
    rw [Finset.sum_filter]
    refine Finset.sum_congr rfl fun number _ => ?_
    cases found : log.memory.lookup number with
    | none => simp [segmentSize, segments, found]
    | some file =>
        simp [segmentSize, segments, found, fileOf, Contents.size_eq]
  have distinct : Set.InjOn fileOf stored := fun first member second member' same =>
    sound.files_distinct (file_stored member)
      ((file_stored member').trans (congrArg some same.symm))
  calc
    _ = ∑ number ∈ stored, (log.system.contents (fileOf number)).size := only_stored
    _ = ∑ file ∈ stored.image fileOf, (log.system.contents file).size :=
      (@Finset.sum_image _ _ _ _ (fun file => (log.system.contents file).size)
        _ _ _ distinct).symm
    _ ≤ ∑ file ∈ Finset.range log.system.files.length,
          (log.system.contents file).size := by
      refine Finset.sum_le_sum_of_subset fun file member => ?_
      obtain ⟨number, number_mem, rfl⟩ := Finset.mem_image.mp member
      exact Finset.mem_range.mpr (sound.file_lt (file_stored number_mem))
    _ = _ := sum_files log.system.files

/-- A scan of a log in memory ends before the fuel of a recovery does. -/
theorem Sound.records_le {log : LogFiles} (sound : log.Sound)
    {start : LogAnchor} {records : List Found} {stop : Stop}
    (reading : Reading log.segments start records stop) :
    records.length ≤ Recovery.recordBound log := by
  obtain ⟨bound, finite⟩ := log.exists_bound
  have few {offset : Nat} {prior : Prior}
      (chain : Chain log.segments start.segment offset prior records stop) :
      records.length ≤ Recovery.recordBound log := by
    have := chain.length_le finite
    have := sound.sum_segments_le (Finset.Ico start.segment bound)
    omega
  cases reading with
  | missing | unheaded | insideHeader => simp
  | whole _ chain | part _ _ _ chain => exact few chain

end LogFiles

end DirectoryStore.Log
