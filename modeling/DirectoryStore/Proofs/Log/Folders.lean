import DirectoryStore.Log.Segments
import Mathlib.Data.List.Basic

/-!
# Segments as files of a folder

A folder holds a segment under a name of its own.  Whether a segment can be opened
depends on the folder and on that name alone, so making the file of one segment
leaves all others as they are.
-/

namespace DirectoryStore

namespace FileSystem

variable {system : FileSystem} {place : Place} {node : Node}

/-! ## Following paths -/

theorem reachFrom_append (system : FileSystem) (start : Place) (front back : Path) :
    system.reachFrom start (front ++ back) =
      (system.reachFrom start front >>= fun folder => system.reachFrom folder back) := by
  induction front generalizing start with
  | nil => rfl
  | cons name rest ih =>
      rw [List.cons_append, reachFrom, reachFrom]
      cases system.node? start with
      | none => rfl
      | some node =>
          cases node with
          | file => rfl
          | folder =>
              simp only
              split
              · rfl
              · exact ih _

theorem node?_addNode (free : system.node? place = none) (other : Place) :
    (system.addNode place node).node? other =
      if other = place then some node else system.node? other := by
  have inside : place.isAboveRoot = false := by
    cases above : place.isAboveRoot with
    | false => rfl
    | true => simp [node?, above] at free
  unfold node? addNode
  by_cases same : other = place
  · simp [same, inside]
  · have different : (other == place) = false := beq_false_of_ne same
    simp [same, List.lookup_cons, different]

/-- A path only goes through folders, so a file that is added is not on the way. -/
theorem reachFrom_addNode (free : system.node? place = none) {path : Path}
    {start finish : Place} (reached : system.reachFrom start path = .ok finish) :
    (system.addNode place node).reachFrom start path = .ok finish := by
  induction path generalizing start with
  | nil => exact reached
  | cons name rest ih =>
      unfold reachFrom at reached ⊢
      rw [node?_addNode free]
      cases there : system.node? start with
      | none =>
          rw [there] at reached
          cases reached
      | some other =>
          have elsewhere : start ≠ place := by
            rintro rfl
            rw [free] at there
            cases there
          rw [there] at reached
          rw [if_neg elsewhere]
          cases other with
          | file => cases reached
          | folder =>
              simp only at reached ⊢
              split at reached
              · cases reached
              · rename_i fits
                rw [if_neg fits]
                exact ih reached

theorem reachFrom_congr {system' : FileSystem} (same : system'.nodes = system.nodes)
    (start : Place) (path : Path) :
    system'.reachFrom start path = system.reachFrom start path := by
  induction path generalizing start with
  | nil => rfl
  | cons name rest ih =>
      unfold reachFrom node?
      rw [same]
      simp only [ih]

theorem reach_congr {system' : FileSystem} (same : system'.nodes = system.nodes)
    (path : Path) : system'.reach path = system.reach path := by
  unfold reach
  rw [reachFrom_congr same]

theorem openFile_congr {system' : FileSystem} (same : system'.nodes = system.nodes)
    (path : Path) : system'.openFile path = system.openFile path := by
  unfold openFile node?
  rw [reach_congr same, same]

theorem openFile_eq_ok_iff {path : Path} {file : FileId} :
    system.openFile path = .ok file ↔
      ∃ place, system.reach path = .ok place ∧ system.node? place = some (.file file) := by
  unfold openFile
  cases system.reach path with
  | error refusal => simp [bind, Except.bind]
  | ok place =>
      simp only [bind, Except.bind, Except.ok.injEq, exists_eq_left']
      cases system.node? place with
      | none => simp [throw, throwThe, MonadExceptOf.throw]
      | some node => cases node <;> simp [throw, throwThe, MonadExceptOf.throw, pure, Except.pure]

theorem mem_nodes (inside : place.isAboveRoot = false)
    (there : system.node? place = some node) : (place, node) ∈ system.nodes := by
  unfold node? at there
  rw [inside] at there
  obtain ⟨front, back, nodes_eq, -⟩ := List.lookup_eq_some_iff.mp there
  simp [nodes_eq]

theorem mem_nodes_of_file {file : FileId} (there : system.node? place = some (.file file)) :
    (place, .file file) ∈ system.nodes := by
  refine mem_nodes ?_ there
  unfold node? at there
  split at there
  · cases there
  · exact eq_false_of_ne_true ‹_›

theorem mem_places {file : FileId} (there : system.node? place = some (.file file)) :
    place ∈ system.nodes.map (·.1) :=
  List.mem_map.mpr ⟨_, mem_nodes_of_file there, rfl⟩

/-! ## Names in a folder -/

section

variable {path : Path} {folder : Place} {name : String}

def nameIn (folder place : Place) : Option String :=
  match place.getLast? with
  | some name => if place.dropLast = folder then some name else none
  | none => none

theorem nameIn_eq_some_iff : nameIn folder place = some name ↔ place = folder ++ [name] := by
  unfold nameIn
  constructor
  · intro named
    split at named
    · rename_i last last_eq
      split at named
      · rename_i inside
        obtain rfl := Option.some.inj named
        rw [← inside]
        exact (List.dropLast_append_getLast? _ last_eq).symm
      · cases named
    · cases named
  · rintro rfl
    simp

theorem names_eq (reached : system.reach path = .ok folder) :
    system.names path =
      ((system.nodes.map (·.1)).filterMap (nameIn folder)).mergeSort (· ≤ ·) := by
  unfold names
  rw [reached, List.filterMap_map]
  rfl

theorem mem_names_iff (reached : system.reach path = .ok folder) :
    name ∈ system.names path ↔ folder ++ [name] ∈ system.nodes.map (·.1) := by
  rw [names_eq reached, (List.mergeSort_perm _ _).mem_iff, List.mem_filterMap]
  simp only [nameIn_eq_some_iff, exists_eq_right]

theorem reached_of_mem_names (listed : name ∈ system.names path) :
    ∃ folder, system.reach path = .ok folder ∧ folder ++ [name] ∈ system.nodes.map (·.1) := by
  cases reached : system.reach path with
  | ok folder => exact ⟨folder, rfl, (mem_names_iff reached).mp listed⟩
  | error refusal =>
      unfold names at listed
      rw [reached] at listed
      cases listed

end

end FileSystem

namespace Log

/-! ## Names of segments -/

theorem toList_segmentName (number : SegmentNumber) :
    (segmentName number).toList = nameStart ++ (number.repr.toList ++ nameEnd) := by
  simp [segmentName, nameStart, nameEnd, toString]

theorem segmentName_injective {number other : SegmentNumber}
    (same : segmentName number = segmentName other) : number = other := by
  have lists := congrArg String.toList same
  rw [toList_segmentName, toList_segmentName, Nat.toList_repr, Nat.toList_repr] at lists
  have digits := List.append_cancel_right (List.append_cancel_left lists)
  have read (value : Nat) : Nat.ofDigitChars 10 (Nat.toDigits 10 value) 0 = value :=
    Nat.ofDigitChars_toDigits (by decide) (by decide)
  rw [← read number, digits, read other]

theorem readSegmentName?_eq_none {name : String} (other : ¬ nameStart <+: name.toList) :
    readSegmentName? name = none := by
  have no_start : nameStart.isPrefixOf? name.toList = none := by
    cases read : nameStart.isPrefixOf? name.toList with
    | none => rfl
    | some rest => exact absurd ⟨rest, List.isPrefixOf?_eq_some_iff_append_eq.mp read⟩ other
  simp [readSegmentName?, no_start]

/-- A name that begins like that of a segment leads into a folder. -/
theorem segmentName_ne (number : SegmentNumber) {name : String}
    (other : name.toList.head? ≠ some 'l') : segmentName number ≠ name := by
  rintro rfl
  rw [toList_segmentName] at other
  exact other rfl

theorem follow_segmentName (folder : Place) (number : SegmentNumber) :
    folder.follow (segmentName number) = folder ++ [segmentName number] := by
  have stays : Path.staysPut (segmentName number) = false := by
    have empty : segmentName number ≠ "" := segmentName_ne number (by decide)
    have dot : segmentName number ≠ "." := segmentName_ne number (by decide)
    simp [Path.staysPut, empty, dot]
  have dots : segmentName number ≠ ".." := segmentName_ne number (by decide)
  simp [Place.follow, stays, dots]

/-! ## Paths of segments -/

/-- The path of a folder as the paths of its segments go on from it. -/
def folderPath (path : Path) : Path :=
  if Path.endsInSlash path then path.dropLast else path

theorem segmentPath_eq (path : Path) (number : SegmentNumber) :
    segmentPath path number = folderPath path ++ [segmentName number] :=
  rfl

theorem withoutFinalSlashes_segmentPath (path : Path) (number : SegmentNumber) :
    Path.withoutFinalSlashes (segmentPath path number) = segmentPath path number := by
  have named : (segmentName number == "") = false :=
    beq_false_of_ne (segmentName_ne number (by decide))
  simp [segmentPath_eq, Path.withoutFinalSlashes, Path.dropEndWhile, named]

theorem endsInSlash_segmentPath (path : Path) (number : SegmentNumber) :
    Path.endsInSlash (segmentPath path number) = false := by
  have named : segmentName number ≠ "" := segmentName_ne number (by decide)
  simp [segmentPath_eq, Path.endsInSlash, named]

section

variable {system : FileSystem} {path : Path} {number : SegmentNumber} {folder place : Place}

theorem reachFrom_segmentPath
    (folder_eq : system.reachFrom [] (folderPath path) = .ok folder)
    (is_folder : system.node? folder = some .folder) (number : SegmentNumber) :
    system.reachFrom [] (segmentPath path number) =
      if Path.maxNameSize < (segmentName number).utf8ByteSize then .error .nameTooLong
      else .ok (folder ++ [segmentName number]) := by
  rw [segmentPath_eq, FileSystem.reachFrom_append, folder_eq]
  show system.reachFrom folder [segmentName number] = _
  rw [FileSystem.reachFrom, is_folder]
  simp only
  rw [follow_segmentName]
  rfl

theorem reach_segmentPath (reached : system.reach (segmentPath path number) = .ok place) :
    ∃ folder, system.reachFrom [] (folderPath path) = .ok folder ∧
      system.node? folder = some .folder ∧ place = folder ++ [segmentName number] := by
  have reached : system.reachFrom [] (segmentPath path number) = .ok place := by
    unfold FileSystem.reach at reached
    cases admissible : Path.requireAdmissible (segmentPath path number) with
    | error refusal =>
        rw [admissible] at reached
        cases reached
    | ok =>
        rw [admissible] at reached
        exact reached
  have whole := reached
  rw [segmentPath_eq, FileSystem.reachFrom_append] at reached
  cases folder_eq : system.reachFrom [] (folderPath path) with
  | error refusal =>
      rw [folder_eq] at reached
      cases reached
  | ok folder =>
      rw [folder_eq] at reached
      have reached : system.reachFrom folder [segmentName number] = .ok place := reached
      have is_folder : system.node? folder = some .folder := by
        unfold FileSystem.reachFrom at reached
        cases there : system.node? folder with
        | none =>
            rw [there] at reached
            cases reached
        | some node =>
            rw [there] at reached
            cases node with
            | file => cases reached
            | folder => rfl
      rw [reachFrom_segmentPath folder_eq is_folder] at whole
      split at whole
      · cases whole
      · exact ⟨folder, rfl, is_folder, (Except.ok.inj whole).symm⟩

theorem mem_places_of_opened {file : FileId}
    (opened : system.openFile (segmentPath path number) = .ok file) :
    ∃ folder, system.reachFrom [] (folderPath path) = .ok folder ∧
      folder ++ [segmentName number] ∈ system.nodes.map (·.1) := by
  obtain ⟨place, reached, there⟩ := FileSystem.openFile_eq_ok_iff.mp opened
  obtain ⟨folder, folder_eq, -, rfl⟩ := reach_segmentPath reached
  exact ⟨folder, folder_eq, FileSystem.mem_places there⟩

theorem openFile_addNode (reached : system.reach (segmentPath path number) = .ok place)
    (free : system.node? place = none) (file : FileId) (other : SegmentNumber) :
    (system.addNode place (.file file)).openFile (segmentPath path other) =
      if other = number then .ok file else system.openFile (segmentPath path other) := by
  obtain ⟨folder, folder_eq, is_folder, place_eq⟩ := reach_segmentPath reached
  have still_folder : (system.addNode place (.file file)).node? folder = some .folder := by
    rw [FileSystem.node?_addNode free, if_neg, is_folder]
    rintro rfl
    rw [free] at is_folder
    cases is_folder
  have same_reach : (system.addNode place (.file file)).reach (segmentPath path other) =
      system.reach (segmentPath path other) := by
    unfold FileSystem.reach
    rw [reachFrom_segmentPath (FileSystem.reachFrom_addNode free folder_eq) still_folder,
      reachFrom_segmentPath folder_eq is_folder]
  unfold FileSystem.openFile
  rw [same_reach]
  by_cases same : other = number
  · subst same
    rw [reached, if_pos rfl]
    simp [bind, Except.bind, FileSystem.node?_addNode free, pure, Except.pure]
  · rw [if_neg same]
    cases reached' : system.reach (segmentPath path other) with
    | error refusal => rfl
    | ok place' =>
        obtain ⟨folder', folder_eq', -, place_eq'⟩ := reach_segmentPath reached'
        obtain rfl : folder = folder' := Except.ok.inj (folder_eq.symm.trans folder_eq')
        have elsewhere : place' ≠ place := by
          rw [place_eq, place_eq']
          intro same_place
          exact same (segmentName_injective
            (List.singleton_inj.mp (List.append_cancel_left same_place)))
        simp [bind, Except.bind, FileSystem.node?_addNode free, elsewhere]

/-- Making a file under the name of a segment finds the old one, or adds a new one. -/
theorem openOrMakeFile_segmentPath {file : FileId} {system' : FileSystem}
    (made : system.openOrMakeFile (segmentPath path number) = .ok (file, system')) :
    system.openFile (segmentPath path number) = .ok file ∧ system' = system ∨
      ∃ place, system.reach (segmentPath path number) = .ok place ∧
        system.node? place = none ∧ file = system.files.length ∧
        system' = (system.newFile.2).addNode place (.file file) := by
  unfold FileSystem.openOrMakeFile at made
  rw [withoutFinalSlashes_segmentPath, endsInSlash_segmentPath] at made
  cases reached : system.reach (segmentPath path number) with
  | error refusal =>
      rw [reached] at made
      cases made
  | ok place =>
      rw [reached] at made
      simp only [bind, Except.bind] at made
      cases there : system.node? place with
      | none =>
          rw [there] at made
          obtain ⟨rfl, rfl⟩ := Prod.mk.inj (Except.ok.inj made)
          exact .inr ⟨place, rfl, there, rfl, rfl⟩
      | some node =>
          rw [there] at made
          cases node with
          | folder => cases made
          | file other =>
              obtain ⟨rfl, rfl⟩ := Prod.mk.inj (Except.ok.inj made)
              exact .inl ⟨FileSystem.openFile_eq_ok_iff.mpr ⟨place, reached, there⟩, rfl⟩

end

end Log

end DirectoryStore
