import Mathlib.Data.List.Forall2
import DirectoryStore.Proofs.Words
import DirectoryStore.Storage

/-!
# Files with a position

The system keeps a file as a row of bytes with a position, at which the next byte is read
or written, and a buffer in memory is a vector that grows before bytes are copied into it.
Here both are spelled out byte by byte, and the byte stores of the library are shown to be
what these come to, for every position and for every length that a handle believes in.  From
there one argument about runs of calls is enough: what is done through one handle of a file
cannot be told from what is done to a buffer with the same bytes.
-/

namespace DirectoryStore

/-! ## Files of the system -/

structure SystemFile where
  bytes : Bytes
  position : Nat
  deriving DecidableEq, Repr

namespace SystemFile

def seekTo (file : SystemFile) (position : Nat) : SystemFile :=
  { file with position := position }

def seekEnd (file : SystemFile) : SystemFile := file.seekTo file.bytes.length

def putByte (file : SystemFile) (byte : UInt8) : SystemFile :=
  let bytes :=
    if file.position < file.bytes.length then file.bytes.set file.position byte
    else file.bytes ++ Bytes.zeros (file.position - file.bytes.length) ++ [byte]
  ⟨bytes, file.position + 1⟩

def writeAll (file : SystemFile) : Bytes → SystemFile
  | [] => file
  | byte :: rest => (file.putByte byte).writeAll rest

def readExact (file : SystemFile) : (len : Nat) → Except IoFault Bytes × SystemFile
  | 0 => (.ok [], file)
  | len + 1 =>
      match file.bytes[file.position]? with
      | none => (.error .outOfFile, file)
      | some byte =>
          let (rest, file) := (file.seekTo (file.position + 1)).readExact len
          (rest.map (byte :: ·), file)

def setLength (file : SystemFile) (size : Nat) : SystemFile :=
  { file with
    bytes := file.bytes.take size ++ Bytes.zeros (size - file.bytes.length) }

theorem bytes_putByte (file : SystemFile) (byte : UInt8) :
    (file.putByte byte).bytes = file.bytes.overwrite file.position [byte] := by
  rw [Bytes.overwrite_eq _ _ _ (List.cons_ne_nil _ _), Bytes.resize, putByte]
  by_cases inside : file.position < file.bytes.length
  · have nothing : file.position - file.bytes.length = 0 := by omega
    simp [inside, nothing, Bytes.zeros, List.set_eq_take_append_cons_drop]
  · have whole : file.bytes.take file.position = file.bytes :=
      List.take_of_length_le (Nat.le_of_not_lt inside)
    simp [inside, whole]
    omega

theorem bytes_writeAll (file : SystemFile) (patch : Bytes) :
    (file.writeAll patch).bytes = file.bytes.overwrite file.position patch := by
  induction patch generalizing file with
  | nil => rfl
  | cons byte rest ih =>
      have position : (file.putByte byte).position = file.position + 1 := rfl
      rw [writeAll, ih, bytes_putByte, position]
      exact Bytes.overwrite_behind file.bytes rest file.position (List.cons_ne_nil byte [])

theorem bytes_readExact (file : SystemFile) (len : Nat) :
    (file.readExact len).2.bytes = file.bytes := by
  induction len generalizing file with
  | zero => rfl
  | succ len ih =>
      unfold readExact
      split
      · rfl
      · exact ih _

theorem readExact_eq (file : SystemFile) (len : Nat) :
    (file.readExact len).1 =
      if len = 0 ∨ file.position + len ≤ file.bytes.length then
        .ok (file.bytes.slice file.position len)
      else .error .outOfFile := by
  induction len generalizing file with
  | zero => simp [readExact, Bytes.slice]
  | succ len ih =>
      unfold readExact
      by_cases inside : file.position < file.bytes.length
      · have moved : (file.seekTo (file.position + 1)).bytes = file.bytes := rfl
        have position : (file.seekTo (file.position + 1)).position = file.position + 1 := rfl
        have front : file.bytes.slice file.position (len + 1) =
            file.bytes[file.position] :: file.bytes.slice (file.position + 1) len := by
          rw [Bytes.slice, List.drop_eq_getElem_cons inside, List.take_succ_cons, Bytes.slice]
        rw [List.getElem?_eq_getElem inside]
        simp only [ih, moved, position, front]
        by_cases enough : file.position + (len + 1) ≤ file.bytes.length
        · rw [if_pos (.inr (by omega)), if_pos (.inr enough)]
          rfl
        · rw [if_neg (by omega), if_neg (by omega)]
          rfl
      · rw [List.getElem?_eq_none (Nat.le_of_not_lt inside), if_neg (by omega)]

end SystemFile

/-! ## Calls on a byte store -/

inductive ByteCall where
  | read (offset len : Nat)
  | write (offset : Nat) (patch : Bytes)
  | append (patch : Bytes)
  | flush
  | sync
  | size
  | truncate (size : Nat)
  deriving DecidableEq, Repr

inductive ByteAnswer where
  | bytes (bytes : Bytes)
  | number (number : Nat)
  | done
  deriving DecidableEq, Repr

abbrev ByteMoment (σ : Type) := Except StorageFault ByteAnswer × σ

def ByteMoment.ofChange {σ : Type} (before : σ) : Except StorageFault σ → ByteMoment σ
  | .ok after => (.ok .done, after)
  | .error fault => (.error fault, before)

theorem ByteMoment.ofChange_map {σ τ : Type} (image : σ → τ) (before : σ)
    (change : Except StorageFault σ) :
    ofChange (image before) (change.map image) =
      ((ofChange before change).1, image (ofChange before change).2) := by
  cases change <;> rfl

def runCalls {σ : Type} (step : ByteCall → σ → ByteMoment σ) :
    List ByteCall → σ → List (ByteMoment σ)
  | [], _ => []
  | call :: rest, store =>
      let moment := step call store
      moment :: runCalls step rest moment.2

/-- A call through a handle; whatever waits for the medium changes no bytes. -/
def Handle.call : ByteCall → Handle × Contents → ByteMoment (Handle × Contents)
  | .read offset len, (handle, contents) =>
      ((handle.read contents offset len).map .bytes, handle, contents)
  | .write offset patch, (handle, contents) =>
      .ofChange (handle, contents) (handle.write contents offset patch)
  | .append patch, (handle, contents) =>
      let (offset, after) := handle.append contents patch
      (.ok (.number offset), after)
  | .flush, store | .sync, store => (.ok .done, store)
  | .size, (handle, contents) => (.ok (.number (handle.size contents)), handle, contents)
  | .truncate size, (handle, contents) =>
      .ofChange (handle, contents) (handle.truncate contents size)

def Contents.onFile (contents : Contents) : Handle × Contents := (.openFile contents, contents)

def Contents.inMemory (contents : Contents) : Handle × Contents := (.buffer, contents)

/-- A handle of a file of the system, with the length that it believes in. -/
structure SystemHandle where
  file : SystemFile
  knownSize : Nat
  deriving DecidableEq, Repr

namespace SystemHandle

def ofFile (file : SystemFile) : SystemHandle := ⟨file, file.bytes.length⟩

def read (handle : SystemHandle) (offset len : Nat) : Except StorageFault Bytes × SystemHandle :=
  if handle.knownSize < offset ∨ handle.knownSize < offset + len then
    (.error (.readPastEnd offset len handle.knownSize), handle)
  else if len = 0 then
    (.ok [], handle)
  else
    let (bytes, file) := (handle.file.seekTo offset).readExact len
    (bytes.mapError .io, { handle with file := file })

def write (handle : SystemHandle) (offset : Nat) (patch : Bytes) :
    Except StorageFault SystemHandle :=
  if handle.knownSize < offset then
    .error (.writePastEnd offset handle.knownSize)
  else
    .ok ⟨(handle.file.seekTo offset).writeAll patch,
      max handle.knownSize (offset + patch.length)⟩

def append (handle : SystemHandle) (patch : Bytes) : Nat × SystemHandle :=
  if patch = [] then
    (handle.knownSize, handle)
  else
    (handle.knownSize,
      ⟨handle.file.seekEnd.writeAll patch, handle.knownSize + patch.length⟩)

def truncate (handle : SystemHandle) (size : Nat) : Except StorageFault SystemHandle :=
  if handle.knownSize < size then
    .error (.truncateBeyondEnd size handle.knownSize)
  else
    .ok ⟨handle.file.setLength size, size⟩

def call : ByteCall → SystemHandle → ByteMoment SystemHandle
  | .read offset len, handle =>
      let (bytes, handle) := handle.read offset len
      (bytes.map .bytes, handle)
  | .write offset patch, handle => .ofChange handle (handle.write offset patch)
  | .append patch, handle =>
      let (offset, after) := handle.append patch
      (.ok (.number offset), after)
  | .flush, handle | .sync, handle => (.ok .done, handle)
  | .size, handle => (.ok (.number handle.knownSize), handle)
  | .truncate size, handle => .ofChange handle (handle.truncate size)

end SystemHandle

/-! ## Buffers as vectors of bytes -/

namespace ByteVector

def read (bytes : Bytes) (offset len : Nat) : Except StorageFault Bytes :=
  if bytes.length < offset ∨ bytes.length < offset + len then
    .error (.readPastEnd offset len bytes.length)
  else
    .ok ((bytes.take (offset + len)).drop offset)

/-- The vector grows to the end of the patch before the patch is copied into it. -/
def write (bytes : Bytes) (offset : Nat) (patch : Bytes) : Except StorageFault Bytes :=
  if bytes.length < offset then
    .error (.writePastEnd offset bytes.length)
  else
    let finish := offset + patch.length
    let grown :=
      if bytes.length < finish then bytes ++ Bytes.zeros (finish - bytes.length) else bytes
    .ok (grown.take offset ++ patch ++ grown.drop finish)

def truncate (bytes : Bytes) (size : Nat) : Except StorageFault Bytes :=
  if bytes.length < size then
    .error (.truncateBeyondEnd size bytes.length)
  else
    .ok (bytes.take size)

def call : ByteCall → Bytes → ByteMoment Bytes
  | .read offset len, bytes => ((read bytes offset len).map .bytes, bytes)
  | .write offset patch, bytes => .ofChange bytes (write bytes offset patch)
  | .append patch, bytes => (.ok (.number bytes.length), bytes ++ patch)
  | .flush, bytes | .sync, bytes => (.ok .done, bytes)
  | .size, bytes => (.ok (.number bytes.length), bytes)
  | .truncate size, bytes => .ofChange bytes (truncate bytes size)

end ByteVector

/-! ## Runs that cannot be told apart -/

section

variable {σ τ : Type} {related : σ → τ → Prop}

/-- The same answer, and stores that are related again. -/
def SameMoment (related : σ → τ → Prop) (first : ByteMoment σ) (second : ByteMoment τ) : Prop :=
  first.1 = second.1 ∧ related first.2 second.2

theorem runCalls_same {step : ByteCall → σ → ByteMoment σ} {step' : ByteCall → τ → ByteMoment τ}
    (same : ∀ call store store', related store store' →
      SameMoment related (step call store) (step' call store'))
    (calls : List ByteCall) {store : σ} {store' : τ} (begins : related store store') :
    List.Forall₂ (SameMoment related) (runCalls step calls store)
      (runCalls step' calls store') := by
  induction calls generalizing store store' with
  | nil => exact .nil
  | cons call rest ih =>
      have first := same call store store' begins
      exact .cons first (ih first.2)

end

/-! ## Files of the system and files of the library -/

def SystemHandle.store (handle : SystemHandle) : Handle × Contents :=
  (.file handle.knownSize, .ofBytes handle.file.bytes)

namespace SystemHandle

theorem bytes_append (file : SystemFile) (patch : Bytes) :
    (file.seekEnd.writeAll patch).bytes = file.bytes ++ patch := by
  rw [SystemFile.bytes_writeAll]
  exact Bytes.overwrite_end file.bytes patch

theorem read_eq (handle : SystemHandle) (offset len : Nat) :
    (handle.read offset len).1 =
        Handle.read (.file handle.knownSize) (.ofBytes handle.file.bytes) offset len ∧
      (handle.read offset len).2.store = handle.store := by
  simp only [read, Handle.read, OpenFile.read]
  by_cases inside : offset + len ≤ handle.knownSize
  case neg =>
    rw [if_pos (by omega), if_neg inside]
    exact ⟨rfl, rfl⟩
  rw [if_neg (by omega), if_pos inside]
  by_cases nothing : len = 0
  · rw [if_pos nothing, if_pos nothing]
    exact ⟨rfl, rfl⟩
  rw [if_neg nothing, if_neg nothing]
  constructor
  · have found : ((handle.file.seekTo offset).readExact len).1 =
        if len = 0 ∨ offset + len ≤ handle.file.bytes.length then
          .ok (handle.file.bytes.slice offset len)
        else .error .outOfFile := (handle.file.seekTo offset).readExact_eq len
    by_cases enough : offset + len ≤ handle.file.bytes.length
    · rw [if_pos (.inr enough)] at found
      exact (congrArg (Except.mapError StorageFault.io) found).trans (if_pos enough).symm
    · rw [if_neg (not_or.mpr ⟨nothing, enough⟩)] at found
      exact (congrArg (Except.mapError StorageFault.io) found).trans (if_neg enough).symm
  · have kept := (handle.file.seekTo offset).bytes_readExact len
    exact congrArg (fun bytes => (Handle.file handle.knownSize, Contents.ofBytes bytes)) kept

theorem write_eq (handle : SystemHandle) (offset : Nat) (patch : Bytes) :
    Handle.write (.file handle.knownSize) (.ofBytes handle.file.bytes) offset patch =
      (handle.write offset patch).map store := by
  simp only [write, Handle.write, OpenFile.write]
  by_cases inside : offset ≤ handle.knownSize
  · rw [if_pos inside, if_neg (by omega)]
    have written : (Contents.ofBytes handle.file.bytes).overwrite offset patch =
        .ofBytes ((handle.file.seekTo offset).writeAll patch).bytes := by
      rw [SystemFile.bytes_writeAll]
      exact Contents.ext (Contents.bytes_overwrite _ _ _)
    rw [written]
    rfl
  · rw [if_neg inside, if_pos (by omega)]
    rfl

theorem append_eq (handle : SystemHandle) (patch : Bytes) :
    Handle.append (.file handle.knownSize) (.ofBytes handle.file.bytes) patch =
      ((handle.append patch).1, (handle.append patch).2.store) := by
  have written : (Contents.ofBytes handle.file.bytes).append patch =
      .ofBytes (handle.file.seekEnd.writeAll patch).bytes := by
    rw [bytes_append]
    exact Contents.ext rfl
  simp only [append, Handle.append, OpenFile.append, Handle.ofOpenFile, written]
  by_cases nothing : patch = []
  · subst nothing
    rfl
  · rw [if_neg nothing]
    rfl

theorem truncate_eq (handle : SystemHandle) (size : Nat) :
    Handle.truncate (.file handle.knownSize) (.ofBytes handle.file.bytes) size =
      (handle.truncate size).map store := by
  simp only [truncate, Handle.truncate, OpenFile.truncate]
  by_cases inside : size ≤ handle.knownSize
  · have cut : (Contents.ofBytes handle.file.bytes).resize size =
        .ofBytes (handle.file.setLength size).bytes := Contents.ext rfl
    rw [if_pos inside, if_neg (by omega), cut]
    rfl
  · rw [if_neg inside, if_pos (by omega)]
    rfl

theorem call_store (call : ByteCall) (handle : SystemHandle) :
    Handle.call call handle.store =
      ((SystemHandle.call call handle).1, (SystemHandle.call call handle).2.store) := by
  cases call with
  | read offset len =>
      obtain ⟨answer_eq, store_eq⟩ := handle.read_eq offset len
      simp only [Handle.call, store, SystemHandle.call, ← answer_eq]
      exact congrArg _ store_eq.symm
  | write offset patch =>
      have changed := handle.write_eq offset patch
      simp only [Handle.call, store, SystemHandle.call, changed]
      exact ByteMoment.ofChange_map store handle _
  | append patch =>
      have changed := handle.append_eq patch
      simp only [Handle.call, store, SystemHandle.call, changed]
  | flush | sync | size => rfl
  | truncate size =>
      have changed := handle.truncate_eq size
      simp only [Handle.call, store, SystemHandle.call, changed]
      exact ByteMoment.ofChange_map store handle _

end SystemHandle

/-! ## Vectors and buffers of the library -/

namespace ByteVector

theorem read_eq (bytes : Bytes) (offset len : Nat) :
    Buffer.read (.ofBytes bytes) offset len = read bytes offset len := by
  have size : (Contents.ofBytes bytes).size = bytes.length := rfl
  rw [Buffer.read, read, size]
  by_cases inside : offset + len ≤ bytes.length
  · have cut : (bytes.take (offset + len)).drop offset = bytes.slice offset len := by
      rw [List.drop_take, Nat.add_sub_cancel_left, Bytes.slice]
    rw [if_pos inside, if_neg (by omega), cut]
    rfl
  · rw [if_neg inside, if_pos (by omega)]

theorem copied_eq {bytes patch : Bytes} {offset : Nat} (inside : offset ≤ bytes.length)
    {grown : Bytes}
    (grown_eq : grown = if bytes.length < offset + patch.length then
      bytes ++ Bytes.zeros (offset + patch.length - bytes.length) else bytes) :
    grown.take offset ++ patch ++ grown.drop (offset + patch.length) =
      bytes.overwrite offset patch := by
  have front : grown.take offset = bytes.take offset := by
    rw [grown_eq]
    split
    · exact List.take_append_of_le_length inside
    · rfl
  have behind : grown.drop (offset + patch.length) = bytes.drop (offset + patch.length) := by
    rw [grown_eq]
    split
    · rename_i short
      rw [List.drop_of_length_le (by simp; omega), List.drop_of_length_le (Nat.le_of_lt short)]
    · rfl
  rw [front, behind]
  by_cases nothing : patch = []
  · simp [nothing, Bytes.overwrite]
  · have none_missing : offset - bytes.length = 0 := Nat.sub_eq_zero_of_le inside
    simp [Bytes.overwrite_eq, nothing, Bytes.resize, Bytes.zeros, none_missing]

theorem write_eq (bytes : Bytes) (offset : Nat) (patch : Bytes) :
    Handle.write .buffer (.ofBytes bytes) offset patch =
      (write bytes offset patch).map fun after => (Contents.ofBytes after).inMemory := by
  have size : (Contents.ofBytes bytes).size = bytes.length := rfl
  rw [Handle.write, Buffer.write, write, size]
  by_cases inside : offset ≤ bytes.length
  · have copied : (Contents.ofBytes bytes).overwrite offset patch =
        .ofBytes (bytes.overwrite offset patch) := Contents.ext (Contents.bytes_overwrite _ _ _)
    rw [if_pos inside, if_neg (by omega), copied, ← copied_eq inside rfl]
    rfl
  · rw [if_neg inside, if_pos (by omega)]
    rfl

theorem truncate_eq (bytes : Bytes) (size : Nat) :
    Handle.truncate .buffer (.ofBytes bytes) size =
      (truncate bytes size).map fun after => (Contents.ofBytes after).inMemory := by
  have length : (Contents.ofBytes bytes).size = bytes.length := rfl
  rw [Handle.truncate, Buffer.truncate, truncate, length]
  by_cases inside : size ≤ bytes.length
  · have none_missing : size - bytes.length = 0 := Nat.sub_eq_zero_of_le inside
    have cut : (Contents.ofBytes bytes).resize size = .ofBytes (bytes.take size) :=
      Contents.ext (by simp [Bytes.resize, Bytes.zeros, none_missing])
    rw [if_pos inside, if_neg (by omega), cut]
    rfl
  · rw [if_neg inside, if_pos (by omega)]
    rfl

theorem call_inMemory (call : ByteCall) (bytes : Bytes) :
    Handle.call call (Contents.ofBytes bytes).inMemory =
      ((ByteVector.call call bytes).1,
        (Contents.ofBytes (ByteVector.call call bytes).2).inMemory) := by
  cases call with
  | read offset len =>
      simp only [Handle.call, Contents.inMemory, Handle.read, read_eq, ByteVector.call]
  | write offset patch =>
      simp only [Handle.call, Contents.inMemory, write_eq, ByteVector.call]
      exact ByteMoment.ofChange_map (fun after => (Contents.ofBytes after).inMemory) bytes _
  | append patch =>
      have longer : (Contents.ofBytes bytes).append patch = .ofBytes (bytes ++ patch) :=
        Contents.ext rfl
      simp only [Handle.call, Contents.inMemory, Handle.append, Buffer.append, longer,
        ByteVector.call]
      rfl
  | flush | sync | size => rfl
  | truncate size =>
      simp only [Handle.call, Contents.inMemory, truncate_eq, ByteVector.call]
      exact ByteMoment.ofChange_map (fun after => (Contents.ofBytes after).inMemory) bytes _

end ByteVector

/-! ## Files and buffers -/

theorem ByteMoment.ofChange_both (contents : Contents) (change : Except StorageFault Contents) :
    ∃ (answer : Except StorageFault ByteAnswer) (after : Contents),
      ofChange contents.onFile (change.map Contents.onFile) = (answer, after.onFile) ∧
      ofChange contents.inMemory (change.map Contents.inMemory) = (answer, after.inMemory) :=
  ⟨_, _, ofChange_map Contents.onFile contents change,
    ofChange_map Contents.inMemory contents change⟩

namespace Handle

variable (contents : Contents)

theorem read_openFile (offset len : Nat) :
    (openFile contents).read contents offset len = buffer.read contents offset len := by
  simp only [openFile, read, OpenFile.read, Buffer.read]
  by_cases inside : offset + len ≤ contents.size
  · rw [if_pos inside, if_pos inside, if_pos inside]
    by_cases nothing : len = 0
    · rw [if_pos nothing, nothing, Contents.slice, Bytes.slice, List.take_zero]
    · rw [if_neg nothing]
  · rw [if_neg inside, if_neg inside]

/-- A write that starts inside the file leaves the length that the handle goes on to believe in. -/
theorem write_openFile (offset : Nat) (patch : Bytes) :
    (openFile contents).write contents offset patch =
      (Buffer.write contents offset patch).map Contents.onFile := by
  simp only [openFile, write, OpenFile.write, Buffer.write]
  by_cases inside : offset ≤ contents.size
  · have size : max contents.size (offset + patch.length) =
        (contents.overwrite offset patch).size := by
      rw [Contents.overwrite]
      split
      · simp_all
      · rfl
    rw [if_pos inside, if_pos inside, size]
    rfl
  · rw [if_neg inside, if_neg inside]
    rfl

theorem truncate_openFile (size : Nat) :
    (openFile contents).truncate contents size =
      (Buffer.truncate contents size).map Contents.onFile := by
  simp only [openFile, truncate, OpenFile.truncate, Buffer.truncate]
  by_cases inside : size ≤ contents.size
  · rw [if_pos inside, if_pos inside]
    rfl
  · rw [if_neg inside, if_neg inside]
    rfl

theorem call_onFile (call : ByteCall) :
    ∃ (answer : Except StorageFault ByteAnswer) (after : Contents),
      Handle.call call contents.onFile = (answer, after.onFile) ∧
      Handle.call call contents.inMemory = (answer, after.inMemory) := by
  cases call with
  | read offset len =>
      refine ⟨_, contents, ?_, rfl⟩
      exact congrArg (fun found => (Except.map ByteAnswer.bytes found, contents.onFile))
        (read_openFile contents offset len)
  | write offset patch =>
      obtain ⟨answer, after, onFile, inMemory⟩ :=
        ByteMoment.ofChange_both contents (Buffer.write contents offset patch)
      refine ⟨answer, after, ?_, inMemory⟩
      rw [← onFile, ← write_openFile]
      rfl
  | append patch => exact ⟨_, contents.append patch, rfl, rfl⟩
  | flush | sync | size => exact ⟨_, contents, rfl, rfl⟩
  | truncate size =>
      obtain ⟨answer, after, onFile, inMemory⟩ :=
        ByteMoment.ofChange_both contents (Buffer.truncate contents size)
      refine ⟨answer, after, ?_, inMemory⟩
      rw [← onFile, ← truncate_openFile]
      rfl

end Handle

/-! ## Handles that know the length of their file -/

def SystemHandle.Knows (handle : SystemHandle) (bytes : Bytes) : Prop :=
  handle.file.bytes = bytes ∧ handle.knownSize = handle.file.bytes.length

namespace SystemHandle

theorem knows_iff {handle : SystemHandle} {bytes : Bytes} :
    handle.Knows bytes ↔ handle.store = (Contents.ofBytes bytes).onFile := by
  constructor
  · rintro ⟨rfl, known⟩
    exact congrArg (fun size => (Handle.file size, Contents.ofBytes handle.file.bytes)) known
  · intro same
    obtain ⟨known, kept⟩ := Prod.mk.inj same
    have bytes_eq : handle.file.bytes = bytes := congrArg Contents.bytes kept
    exact ⟨bytes_eq, (Handle.file.inj known).trans (congrArg List.length bytes_eq).symm⟩

theorem Knows.call {handle : SystemHandle} {bytes : Bytes} (knows : handle.Knows bytes)
    (call : ByteCall) :
    SameMoment Knows (SystemHandle.call call handle) (ByteVector.call call bytes) := by
  obtain ⟨answer, after, onFile, inMemory⟩ := Handle.call_onFile (.ofBytes bytes) call
  rw [← knows_iff.mp knows, call_store] at onFile
  rw [ByteVector.call_inMemory] at inMemory
  obtain ⟨answered, stored⟩ := Prod.mk.inj onFile
  obtain ⟨answered', stored'⟩ := Prod.mk.inj inMemory
  have after_eq : Contents.ofBytes (ByteVector.call call bytes).2 = after :=
    (Prod.mk.inj stored').2
  rw [← after_eq] at stored
  exact ⟨answered.trans answered'.symm, knows_iff.mpr stored⟩

end SystemHandle

/-! ## Runs of calls -/

/--
A file with these bytes, opened wherever its position happens to be, beside a buffer with the
same bytes, through all of the calls.
-/
structure FileIsBuffer (bytes : Bytes) (position : Nat) (calls : List ByteCall) : Prop where
  /-- The same answers, the same bytes, and a handle that knows how many they are. -/
  bytewise :
    List.Forall₂ (SameMoment SystemHandle.Knows)
      (runCalls SystemHandle.call calls (.ofFile ⟨bytes, position⟩))
      (runCalls ByteVector.call calls bytes)
  /-- The same of the files and the buffers that the library works on. -/
  stores :
    List.Forall₂
      (SameMoment fun file buffer => ∃ contents : Contents,
        file = contents.onFile ∧ buffer = contents.inMemory)
      (runCalls Handle.call calls (Contents.ofBytes bytes).onFile)
      (runCalls Handle.call calls (Contents.ofBytes bytes).inMemory)
  /-- The files of the library are the files of the system. -/
  files :
    List.Forall₂ (SameMoment fun handle store => store = handle.store)
      (runCalls SystemHandle.call calls (.ofFile ⟨bytes, position⟩))
      (runCalls Handle.call calls (Contents.ofBytes bytes).onFile)
  /-- The buffers of the library are vectors of bytes. -/
  buffers :
    List.Forall₂ (SameMoment fun vector store => store = (Contents.ofBytes vector).inMemory)
      (runCalls ByteVector.call calls bytes)
      (runCalls Handle.call calls (Contents.ofBytes bytes).inMemory)

/-- What is done through one handle of a file cannot be told from what is done to a buffer. -/
theorem files_are_buffers (bytes : Bytes) (position : Nat) (calls : List ByteCall) :
    FileIsBuffer bytes position calls where
  bytewise := runCalls_same (fun call _ _ knows => knows.call call) calls ⟨rfl, rfl⟩
  stores := by
    refine runCalls_same (fun call file buffer same => ?_) calls ⟨.ofBytes bytes, rfl, rfl⟩
    obtain ⟨contents, rfl, rfl⟩ := same
    obtain ⟨answer, after, onFile, inMemory⟩ := Handle.call_onFile contents call
    rw [onFile, inMemory]
    exact ⟨rfl, after, rfl, rfl⟩
  files := by
    refine runCalls_same (fun call handle store same => ?_) calls rfl
    rw [same, SystemHandle.call_store]
    exact ⟨rfl, rfl⟩
  buffers := by
    refine runCalls_same (fun call vector store same => ?_) calls rfl
    rw [same, ByteVector.call_inMemory]
    exact ⟨rfl, rfl⟩

end DirectoryStore
