import DirectoryStore.Proofs.Log.Readers
import Mathlib.Data.List.Sort
import Mathlib.Data.List.Induction

/-!
# Listing the segments of a folder

A folder lists the numbers that it reads out of names, and opens a segment under the name
that it writes for a number.  A name spells a number when it has the digits of it, with
zeros before them and maybe a plus sign, so many names spell one number, and the folder
writes only one of them.  The list is exact just when no other name spells a number.
-/

namespace DirectoryStore

namespace FileSystem

/-! ## Folders of files -/

/-- What operations make of a file system that has nothing in it. -/
inductive Arises : FileSystem → Prop where
  | empty (root : String) : Arises (FileSystem.empty root)
  | makeFolder {system system' : FileSystem} {path : Path} (arises : Arises system)
      (made : system.makeFolder path = .ok system') : Arises system'
  | openOrMakeFile {system system' : FileSystem} {path : Path} {file : FileId}
      (arises : Arises system) (made : system.openOrMakeFile path = .ok (file, system')) :
      Arises system'
  | removeFile {system system' : FileSystem} {path : Path} (arises : Arises system)
      (removed : system.removeFile path = .ok system') : Arises system'
  | setContents {system : FileSystem} (arises : Arises system) (file : FileId)
      (contents : Contents) : Arises (system.setContents file contents)
  | lock {system : FileSystem} (arises : Arises system) (file : FileId) :
      Arises (system.lock file)
  | keepLocks {system : FileSystem} (arises : Arises system) (held : List FileId) :
      Arises (system.keepLocks held)

section

variable {system system' : FileSystem} {path : Path} {place folder : Place}

theorem not_mem_of_free (free : system.node? place = none) :
    place ∉ system.nodes.map (·.1) := by
  unfold node? at free
  split at free
  · cases free
  · intro member
    obtain ⟨entry, present, rfl⟩ := List.mem_map.mp member
    simpa using List.lookup_eq_none_iff.mp free entry present

theorem nodup_addNode (distinct : (system.nodes.map (·.1)).Nodup)
    (free : system.node? place = none) (node : Node) :
    ((system.addNode place node).nodes.map (·.1)).Nodup :=
  List.nodup_cons.mpr ⟨not_mem_of_free free, distinct⟩

theorem openOrMakeFile_cases {file : FileId}
    (made : system.openOrMakeFile path = .ok (file, system')) :
    system' = system ∨ ∃ place, system.node? place = none ∧
      system' = system.newFile.2.addNode place (.file file) := by
  obtain ⟨place, -, ran⟩ := Log.bind_eq_ok_iff.mp made
  cases slash : Path.endsInSlash path with
  | true =>
      simp only [slash, if_true] at ran
      cases ran
  | false =>
      simp only [slash, Bool.false_eq_true, if_false] at ran
      cases there : system.node? place with
      | none =>
          simp only [there] at ran
          obtain ⟨rfl, rfl⟩ := Prod.mk.inj (Except.ok.inj ran)
          exact .inr ⟨place, there, rfl⟩
      | some node =>
          cases node with
          | folder =>
              simp only [there] at ran
              cases ran
          | file other =>
              simp only [there] at ran
              exact .inl (Prod.mk.inj (Except.ok.inj ran)).2.symm

theorem Arises.places_nodup (arises : system.Arises) : (system.nodes.map (·.1)).Nodup := by
  induction arises with
  | empty => exact .nil
  | makeFolder _ made ih =>
      obtain ⟨place, -, ran⟩ := Log.bind_eq_ok_iff.mp made
      split at ran
      · cases ran
      · rename_i free
        obtain rfl := Except.ok.inj ran
        exact nodup_addNode ih (by simpa using free) .folder
  | openOrMakeFile _ made ih =>
      rcases openOrMakeFile_cases made with rfl | ⟨place, free, rfl⟩
      · exact ih
      · exact nodup_addNode ih free _
  | removeFile _ removed ih =>
      obtain ⟨place, -, ran⟩ := Log.bind_eq_ok_iff.mp removed
      obtain ⟨file, -, ran⟩ := Log.bind_eq_ok_iff.mp ran
      obtain rfl := Except.ok.inj ran
      exact ih.sublist (List.filter_sublist.map _)
  | setContents _ _ _ ih | lock _ _ ih | keepLocks _ _ ih => exact ih

theorem names_nodup (arises : system.Arises) (reached : system.reach path = .ok folder) :
    (system.names path).Nodup := by
  rw [names_eq reached, (List.mergeSort_perm _ _).nodup_iff]
  refine arises.places_nodup.filterMap fun first second name named named' => ?_
  rw [nameIn_eq_some_iff.mp named, nameIn_eq_some_iff.mp named']

/-- The path leads to a folder with nothing but files in it. -/
structure IsFileFolder (system : FileSystem) (path : Path) (folder : Place) : Prop where
  reached : system.reach path = .ok folder
  is_folder : system.node? folder = some .folder
  only_files : ∀ name node, (folder ++ [name], node) ∈ system.nodes → ∃ file, node = .file file

end

end FileSystem

namespace Log

/-! ## Digits -/

def digitsValue (digits : List Char) : Nat :=
  digits.foldl (fun total digit => total * 10 + (digit.toNat - '0'.toNat)) 0

theorem digitsValue_eq (digits : List Char) :
    digitsValue digits = Nat.ofDigitChars 10 digits 0 := by
  unfold digitsValue Nat.ofDigitChars
  simp only [Nat.mul_comm 10]

theorem digitsValue_append (front : List Char) (digit : Char) :
    digitsValue (front ++ [digit]) = 10 * digitsValue front + (digit.toNat - '0'.toNat) := by
  simp [digitsValue, Nat.mul_comm]

theorem digitsValue_zeros (zeros : Nat) (digits : List Char) :
    digitsValue (List.replicate zeros '0' ++ digits) = digitsValue digits := by
  induction zeros with
  | zero => rfl
  | succ zeros ih => exact ih

theorem digitsValue_toDigits (number : Nat) : digitsValue (Nat.toDigits 10 number) = number := by
  rw [digitsValue_eq, Nat.ofDigitChars_toDigits (by decide) (by decide)]

theorem toDigits_of_isDigit {digit : Char} (is_digit : digit.isDigit = true) :
    digit.toNat - '0'.toNat < 10 ∧ Nat.toDigits 10 (digit.toNat - '0'.toNat) = [digit] := by
  obtain ⟨low, high⟩ := Char.isDigit_iff_toNat.mp is_digit
  have zero : '0'.toNat = 48 := rfl
  have nine : '9'.toNat = 57 := rfl
  have small : digit.toNat - '0'.toNat < 10 := by omega
  refine ⟨small, ?_⟩
  rw [Nat.toDigits_of_lt_base small, List.cons.injEq]
  refine ⟨Char.toNat_inj.mp ?_, rfl⟩
  rw [Nat.toNat_digitChar_of_lt_ten small]
  omega

theorem exists_zeros {digits : List Char} (nonempty : digits ≠ [])
    (all_digits : ∀ digit ∈ digits, digit.isDigit = true) :
    ∃ zeros, digits = List.replicate zeros '0' ++ Nat.toDigits 10 (digitsValue digits) := by
  induction digits using List.reverseRecOn with
  | nil => exact absurd rfl nonempty
  | append_singleton front digit ih =>
      obtain ⟨small, last⟩ := toDigits_of_isDigit (all_digits digit (by simp))
      rw [digitsValue_append]
      by_cases empty : front = []
      · subst empty
        refine ⟨0, ?_⟩
        simp only [digitsValue, List.foldl_nil, Nat.mul_zero, Nat.zero_add, last]
        rfl
      · obtain ⟨zeros, front_eq⟩ := ih empty fun other member => all_digits other (by simp [member])
        by_cases nothing : digitsValue front = 0
        · -- All digits so far are zeros, so the last one is the number.
          rw [nothing, Nat.toDigits_zero, ← List.replicate_succ'] at front_eq
          refine ⟨zeros + 1, ?_⟩
          rw [nothing, Nat.mul_zero, Nat.zero_add, last, ← front_eq]
        · refine ⟨zeros, ?_⟩
          rw [← Nat.toDigits_append_toDigits (by decide) (Nat.pos_of_ne_zero nothing) small, last,
            ← List.append_assoc, ← front_eq]

/-! ## Names -/

/-- The name of the number, but with zeros before the number, and maybe with a sign. -/
def Spells (name : String) (number : SegmentNumber) : Prop :=
  number < UInt64.size ∧ ∃ sign zeros, (sign = [] ∨ sign = ['+']) ∧
    name.toList =
      nameStart ++ (sign ++ (List.replicate zeros '0' ++ number.repr.toList) ++ nameEnd)

def unsigned (text : List Char) : List Char :=
  match text with
  | '+' :: rest => rest
  | _ => text

theorem unsigned_cases (text : List Char) :
    ∃ sign, (sign = [] ∨ sign = ['+']) ∧ text = sign ++ unsigned text := by
  unfold unsigned
  split
  · exact ⟨['+'], .inr rfl, rfl⟩
  · exact ⟨[], .inl rfl, rfl⟩

theorem unsigned_append {sign digits : List Char} (is_sign : sign = [] ∨ sign = ['+'])
    (all_digits : ∀ digit ∈ digits, digit.isDigit = true) : unsigned (sign ++ digits) = digits := by
  rcases is_sign with rfl | rfl
  · rw [List.nil_append]
    unfold unsigned
    split
    · have plus := all_digits '+' List.mem_cons_self
      cases plus
    · rfl
  · rfl

theorem readNumber?_eq_some_iff {text : List Char} {number : Nat} :
    readNumber? text = some number ↔
      unsigned text ≠ [] ∧ (∀ digit ∈ unsigned text, digit.isDigit = true) ∧
        digitsValue (unsigned text) = number ∧ number < UInt64.size := by
  have read : readNumber? text =
      if (unsigned text).isEmpty || !(unsigned text).all Char.isDigit then none
      else if digitsValue (unsigned text) < UInt64.size then some (digitsValue (unsigned text))
      else none := rfl
  rw [read]
  generalize unsigned text = digits
  by_cases refused : (digits.isEmpty || !digits.all Char.isDigit) = true
  · rw [if_pos refused]
    refine iff_of_false nofun fun ⟨nonempty, all_digits, _⟩ => ?_
    have accepted : digits.all Char.isDigit = true := List.all_eq_true.mpr all_digits
    simp [nonempty, accepted] at refused
  · rw [if_neg refused]
    simp only [Bool.or_eq_true, not_or, List.isEmpty_iff, Bool.not_eq_true', Bool.not_eq_false,
      List.all_eq_true] at refused
    obtain ⟨nonempty, all_digits⟩ := refused
    constructor
    · intro read
      split at read
      · obtain rfl := Option.some.inj read
        exact ⟨nonempty, all_digits, rfl, ‹_›⟩
      · cases read
    · rintro ⟨-, -, rfl, small⟩
      exact if_pos small

theorem readSegmentName?_eq_some_iff {name : String} {number : SegmentNumber} :
    readSegmentName? name = some number ↔ Spells name number := by
  simp only [readSegmentName?, Option.bind_eq_bind, Option.bind_eq_some_iff,
    List.isPrefixOf?_eq_some_iff_append_eq, List.isSuffixOf?_eq_some_iff_append_eq,
    readNumber?_eq_some_iff]
  constructor
  · rintro ⟨rest, name_eq, text, rfl, nonempty, all_digits, rfl, small⟩
    obtain ⟨sign, is_sign, text_eq⟩ := unsigned_cases text
    obtain ⟨zeros, digits_eq⟩ := exists_zeros nonempty all_digits
    refine ⟨small, sign, zeros, is_sign, ?_⟩
    rw [Nat.toList_repr, ← digits_eq, ← text_eq, name_eq]
  · rintro ⟨small, sign, zeros, is_sign, name_eq⟩
    rw [Nat.toList_repr] at name_eq
    have all_digits : ∀ digit ∈ List.replicate zeros '0' ++ Nat.toDigits 10 number,
        digit.isDigit = true := by
      intro digit member
      rcases List.mem_append.mp member with member | member
      · rw [List.eq_of_mem_replicate member]
        decide
      · exact Nat.isDigit_of_mem_toDigits (by decide) (by decide) member
    refine ⟨_, name_eq.symm, _, rfl, ?_⟩
    rw [unsigned_append is_sign all_digits]
    refine ⟨?_, all_digits, ?_, small⟩
    · simp [Nat.toDigits_ne_nil]
    · rw [digitsValue_zeros, digitsValue_toDigits]

theorem spells_segmentName {number : SegmentNumber} (small : number < UInt64.size) :
    Spells (segmentName number) number :=
  ⟨small, [], 0, .inl rfl, toList_segmentName number⟩

/-! ## Segments that can be opened -/

theorem utf8ByteSize_ofList_le (characters : List Char) :
    (String.ofList characters).utf8ByteSize ≤ 4 * characters.length := by
  induction characters with
  | nil => decide
  | cons character rest ih =>
      have small := character.utf8Size_le_four
      rw [String.ofList_cons, String.utf8ByteSize_append, String.utf8ByteSize_singleton,
        List.length_cons]
      omega

theorem utf8ByteSize_segmentName_le {number : SegmentNumber} (small : number < UInt64.size) :
    (segmentName number).utf8ByteSize ≤ Path.maxNameSize := by
  have digits : (Nat.toDigits 10 number).length ≤ 20 :=
    (Nat.length_toDigits_le_iff (by decide) (by decide)).mpr (small.trans (by decide))
  have size_le := utf8ByteSize_ofList_le (segmentName number).toList
  rw [String.ofList_toList, toList_segmentName, Nat.toList_repr, List.length_append,
    List.length_append] at size_le
  have start_length : nameStart.length = 4 := by decide
  have end_length : nameEnd.length = 4 := by decide
  unfold Path.maxNameSize
  omega

theorem toNat_ne_zero_of_mem_segmentName {number : SegmentNumber} :
    ∀ character ∈ (segmentName number).toList, character.toNat ≠ 0 := by
  intro character member
  rw [toList_segmentName, List.mem_append, List.mem_append, Nat.toList_repr] at member
  rcases member with start | digit | tail
  · have sound : nameStart.all (·.toNat != 0) = true := by decide
    exact bne_iff_ne.mp (List.all_eq_true.mp sound character start)
  · have is_digit := Nat.isDigit_of_mem_toDigits (by decide) (by decide) digit
    have low := (Char.isDigit_iff_toNat.mp is_digit).1
    have zero : '0'.toNat = 48 := rfl
    omega
  · have sound : nameEnd.all (·.toNat != 0) = true := by decide
    exact bne_iff_ne.mp (List.all_eq_true.mp sound character tail)

section

variable {system : FileSystem} {path : Path} {folder : Place} {number : SegmentNumber}

theorem reachFrom_folderPath (reached : system.reach path = .ok folder) :
    system.reachFrom [] (folderPath path) = .ok folder := by
  obtain ⟨_, -, reached⟩ := bind_eq_ok_iff.mp reached
  unfold folderPath
  split
  · rename_i slash
    have last : path.getLast? = some "" := by simpa [Path.endsInSlash] using slash
    rw [← List.dropLast_append_getLast? _ last, FileSystem.reachFrom_append] at reached
    obtain ⟨place, reached', stayed⟩ := bind_eq_ok_iff.mp reached
    rw [reached']
    unfold FileSystem.reachFrom at stayed
    split at stayed
    · split at stayed
      · cases stayed
      · exact stayed
    · cases stayed
    · cases stayed
  · exact reached

theorem requireAdmissible_eq_ok_iff :
    Path.requireAdmissible path = .ok () ↔
      (∀ name ∈ path, ∀ character ∈ name.toList, character.toNat ≠ 0) ∧
        (Path.text path).utf8ByteSize ≤ Path.maxSize := by
  unfold Path.requireAdmissible
  by_cases nul : (path.any fun name => name.toList.any (·.toNat == 0)) = true
  · rw [if_pos nul]
    refine iff_of_false nofun fun ⟨sound, _⟩ => ?_
    obtain ⟨name, present, nul⟩ := List.any_eq_true.mp nul
    obtain ⟨character, member, zero⟩ := List.any_eq_true.mp nul
    exact sound name present character member (eq_of_beq zero)
  · rw [if_neg nul]
    have sound : ∀ name ∈ path, ∀ character ∈ name.toList, character.toNat ≠ 0 := by
      simpa using nul
    by_cases long : Path.maxSize < (Path.text path).utf8ByteSize
    · simp only [long, if_true]
      exact iff_of_false nofun fun ⟨_, short⟩ => Nat.not_lt.mpr short long
    · simp only [long, if_false]
      exact iff_of_true rfl ⟨sound, Nat.not_lt.mp long⟩

/-- Nothing but its length keeps the path of a segment from a folder that is reached. -/
theorem requireAdmissible_segmentPath_iff (reached : system.reach path = .ok folder) :
    Path.requireAdmissible (segmentPath path number) = .ok () ↔
      (Path.text (segmentPath path number)).utf8ByteSize ≤ Path.maxSize := by
  obtain ⟨_, admissible, -⟩ := bind_eq_ok_iff.mp reached
  have sound := (requireAdmissible_eq_ok_iff.mp admissible).1
  rw [requireAdmissible_eq_ok_iff]
  refine and_iff_right fun name member => ?_
  unfold segmentPath Path.child at member
  rcases List.mem_append.mp member with member | member
  · split at member
    · exact sound name (List.mem_of_mem_dropLast member)
    · exact sound name member
  · obtain rfl := List.mem_singleton.mp member
    exact toNat_ne_zero_of_mem_segmentName

theorem reach_segmentPath_iff (leads : system.IsFileFolder path folder)
    (small : number < UInt64.size) {place : Place} :
    system.reach (segmentPath path number) = .ok place ↔
      (Path.text (segmentPath path number)).utf8ByteSize ≤ Path.maxSize ∧
        place = folder ++ [segmentName number] := by
  have short := Nat.not_lt.mpr (utf8ByteSize_segmentName_le small)
  rw [← requireAdmissible_segmentPath_iff leads.reached]
  unfold FileSystem.reach
  rw [reachFrom_segmentPath (reachFrom_folderPath leads.reached) leads.is_folder, if_neg short]
  cases Path.requireAdmissible (segmentPath path number) with
  | error refusal => exact iff_of_false nofun fun ⟨refused, _⟩ => nomatch refused
  | ok =>
      constructor
      · intro reached
        exact ⟨rfl, (Except.ok.inj reached).symm⟩
      · rintro ⟨-, rfl⟩
        rfl

theorem node?_segment (leads : system.IsFileFolder path folder) :
    (∃ file, system.node? (folder ++ [segmentName number]) = some (.file file)) ↔
      segmentName number ∈ system.names path := by
  rw [FileSystem.mem_names_iff leads.reached]
  constructor
  · rintro ⟨file, there⟩
    exact FileSystem.mem_places there
  · intro taken
    have inside : Place.isAboveRoot (folder ++ [segmentName number]) = false := by
      have dots : segmentName number ≠ ".." := segmentName_ne number (by decide)
      simp [Place.isAboveRoot, dots]
    cases there : system.node? (folder ++ [segmentName number]) with
    | none => exact absurd taken (FileSystem.not_mem_of_free there)
    | some node =>
        obtain ⟨file, rfl⟩ := leads.only_files _ node (FileSystem.mem_nodes inside there)
        exact ⟨file, rfl⟩

def LogFiles.Opens (log : LogFiles) (home : Home) (number : SegmentNumber) : Prop :=
  ∃ segment, LogFiles.openWithoutFailure home number log = (.ok (some segment), log)

theorem opens_iff_openFile {log : LogFiles} {lock : FileId} :
    log.Opens (.folder path lock) number ↔
      ∃ file, log.system.openFile (segmentPath path number) = .ok file := by
  unfold LogFiles.Opens
  rw [openInFolder_apply]
  cases log.system.openFile (segmentPath path number) with
  | ok file => exact iff_of_true ⟨_, rfl⟩ ⟨file, rfl⟩
  | error refusal => cases refusal <;> exact iff_of_false nofun nofun

theorem opens_iff {log : LogFiles} {lock : FileId} (leads : log.system.IsFileFolder path folder)
    (small : number < UInt64.size) :
    log.Opens (.folder path lock) number ↔
      (Path.text (segmentPath path number)).utf8ByteSize ≤ Path.maxSize ∧
        segmentName number ∈ log.system.names path := by
  simp only [opens_iff_openFile, FileSystem.openFile_eq_ok_iff, reach_segmentPath_iff leads small,
    ← node?_segment leads]
  constructor
  · rintro ⟨file, _, ⟨fits, rfl⟩, there⟩
    exact ⟨fits, file, there⟩
  · rintro ⟨fits, file, there⟩
    exact ⟨file, _, ⟨fits, rfl⟩, there⟩

end

/-! ## The list -/

def SpellApart (name other : String) : Prop :=
  ∀ number, Spells name number → ¬ Spells other number

instance : Std.Symm SpellApart where
  symm _ _ apart number spells spells' := apart number spells' spells

def listed (names : List String) : List SegmentNumber :=
  (names.filterMap readSegmentName?).mergeSort (· ≤ ·)

section

variable {names : List String} {number : SegmentNumber}

theorem listed_sorted (names : List String) : (listed names).SortedLE :=
  (List.pairwise_mergeSort' (· ≤ ·) _).sortedLE

theorem mem_listed_iff : number ∈ listed names ↔ ∃ name ∈ names, Spells name number := by
  unfold listed
  simp only [(List.mergeSort_perm _ _).mem_iff, List.mem_filterMap, readSegmentName?_eq_some_iff]

theorem listed_nodup_iff : (listed names).Nodup ↔ names.Pairwise SpellApart := by
  unfold listed
  rw [(List.mergeSort_perm _ _).nodup_iff, List.nodup_iff_pairwise_ne, List.pairwise_filterMap]
  simp only [readSegmentName?_eq_some_iff]
  refine List.Pairwise.iff fun {name other} => ⟨fun apart number spells spells' => ?_, ?_⟩
  · exact apart number spells number spells' rfl
  · rintro apart number spells _ spells' rfl
    exact apart number spells spells'

theorem listed_sortedLT_iff : (listed names).SortedLT ↔ names.Pairwise SpellApart := by
  rw [List.sortedLT_iff_nodup_and_sortedLE, listed_nodup_iff]
  exact and_iff_left (listed_sorted names)

end

/-- A list of the segments of a folder, in order and each one once. -/
structure LogFiles.ListsExactly (log : LogFiles) (home : Home) (numbers : List SegmentNumber) :
    Prop where
  ascending : numbers.SortedLT
  mem_iff : ∀ number < UInt64.size, number ∈ numbers ↔ log.Opens home number

section

variable {log : LogFiles} {path : Path} {lock : FileId} {folder : Place}

theorem mem_listed_of_opens (leads : log.system.IsFileFolder path folder)
    {number : SegmentNumber} (small : number < UInt64.size)
    (opened : log.Opens (.folder path lock) number) :
    number ∈ listed (log.system.names path) :=
  mem_listed_iff.mpr ⟨_, ((opens_iff leads small).mp opened).2, spells_segmentName small⟩

theorem listsExactly_iff (arises : log.system.Arises)
    (leads : log.system.IsFileFolder path folder) :
    log.ListsExactly (.folder path lock) (listed (log.system.names path)) ↔
      ∀ name ∈ log.system.names path, ∀ number, Spells name number →
        name = segmentName number ∧
          (Path.text (segmentPath path number)).utf8ByteSize ≤ Path.maxSize := by
  constructor
  · intro exact name present number spells
    have listed_number := mem_listed_iff.mpr ⟨name, present, spells⟩
    obtain ⟨fits, present'⟩ :=
      (opens_iff leads spells.1).mp ((exact.mem_iff number spells.1).mp listed_number)
    refine ⟨?_, fits⟩
    by_contra differ
    have apart := listed_sortedLT_iff.mp exact.ascending
    exact apart.forall present present' differ number spells (spells_segmentName spells.1)
  · intro canonical
    refine ⟨listed_sortedLT_iff.mpr ?_, fun number small => ⟨fun member => ?_, ?_⟩⟩
    · have distinct := FileSystem.names_nodup arises leads.reached
      refine distinct.imp_of_mem fun present present' differ number spells spells' => ?_
      have name_eq := (canonical _ present number spells).1
      exact differ (name_eq.trans (canonical _ present' number spells').1.symm)
    · obtain ⟨name, present, spells⟩ := mem_listed_iff.mp member
      obtain ⟨rfl, fits⟩ := canonical name present number spells
      exact (opens_iff leads small).mpr ⟨fits, present⟩
    · exact mem_listed_of_opens leads small

/--
The list of a folder with nothing but files in it has the numbers that names spell, every
segment that opens among them.  It is exact just when every name that spells a number is
the name that the folder writes for it, on a path that is not too long.
-/
theorem listing_exact_iff (arises : log.system.Arises)
    (leads : log.system.IsFileFolder path folder) :
    ∃ numbers, LogFiles.listWithoutFailure (.folder path lock) log = (.ok numbers, log) ∧
      numbers.SortedLE ∧
      (∀ number, number ∈ numbers ↔ ∃ name ∈ log.system.names path, Spells name number) ∧
      (∀ number < UInt64.size, log.Opens (.folder path lock) number → number ∈ numbers) ∧
      (log.ListsExactly (.folder path lock) numbers ↔
        ∀ name ∈ log.system.names path, ∀ number, Spells name number →
          name = segmentName number ∧
            (Path.text (segmentPath path number)).utf8ByteSize ≤ Path.maxSize) :=
  ⟨listed (log.system.names path), rfl, listed_sorted _, fun _ => mem_listed_iff,
    fun _ => mem_listed_of_opens leads, listsExactly_iff arises leads⟩

end

/-- A folder with a name that spells the number of a segment nobody made. -/
def zeroBeforeOne : LogFiles where
  system :=
    { root := "", files := [.empty, .empty], locked := []
      nodes := [(["log", "log_01.log"], .file 1), (["log", "log_0.log"], .file 0),
        (["log"], .folder)] }
  memory := []
  injection := .never

theorem listing_exact_iff_zeroBeforeOne :
    ∃ numbers, LogFiles.listWithoutFailure (.folder ["log"] 0) zeroBeforeOne =
        (.ok numbers, zeroBeforeOne) ∧
      1 ∈ numbers ∧ ¬ zeroBeforeOne.Opens (.folder ["log"] 0) 1 ∧
      ¬ zeroBeforeOne.ListsExactly (.folder ["log"] 0) numbers := by
  have arises : zeroBeforeOne.system.Arises := by
    have folder := @FileSystem.Arises.makeFolder _ _ ["log"] (.empty "") rfl
    have segment := @FileSystem.Arises.openOrMakeFile _ _ ["log", "log_0.log"] 0 folder rfl
    exact @FileSystem.Arises.openOrMakeFile _ _ ["log", "log_01.log"] 1 segment rfl
  have leads : zeroBeforeOne.system.IsFileFolder ["log"] ["log"] := by
    refine ⟨rfl, rfl, fun name node member => ?_⟩
    have node_eq : node = .file 1 ∨ node = .file 0 := by
      simp [zeroBeforeOne] at member
      exact member.imp (·.2) (·.2)
    rcases node_eq with rfl | rfl <;> exact ⟨_, rfl⟩
  have named : "log_01.log" ∈ zeroBeforeOne.system.names ["log"] :=
    (FileSystem.mem_names_iff leads.reached).mpr (by decide)
  have spells : Spells "log_01.log" 1 := ⟨by decide, [], 1, .inl rfl, by decide⟩
  have missing : ¬ zeroBeforeOne.Opens (.folder ["log"] 0) 1 := by
    rw [opens_iff_openFile]
    exact nofun
  obtain ⟨numbers, listed_eq, -, mem_iff, -, exact_iff⟩ := @listing_exact_iff _ _ 0 _ arises leads
  refine ⟨numbers, listed_eq, (mem_iff 1).mpr ⟨_, named, spells⟩, missing, fun exact => ?_⟩
  have canonical := (exact_iff.mp exact _ named 1 spells).1
  exact absurd canonical (by decide)

end Log

end DirectoryStore
