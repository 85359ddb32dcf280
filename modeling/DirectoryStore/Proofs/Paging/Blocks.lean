import DirectoryStore.Paging.BlockFile
import DirectoryStore.Proofs.Outcomes
import DirectoryStore.Proofs.Words

/-!
# Files as lists of blocks

A file that is reached without failures is a list of blocks of one width.  Fetching
looks a block up, and releasing a changed page puts it back at its place.  Blocks
behind the end are zeros, and they come into being when one of them is written.
-/

namespace DirectoryStore

namespace Paging

/-! ## Joining blocks -/

def joined (blocks : List Bytes) : Bytes := blocks.flatten

def Whole (width : Nat) (blocks : List Bytes) : Prop :=
  ∀ block ∈ blocks, block.length = width

section

variable {width : Nat} {blocks : List Bytes}

theorem Whole.length_joined (whole : Whole width blocks) :
    (joined blocks).length = blocks.length * width := by
  induction blocks with
  | nil => simp [joined]
  | cons block rest ih =>
      have rest_whole : Whole width rest :=
        fun block member => whole block (List.mem_cons_of_mem _ member)
      have rest_length := ih rest_whole
      simp only [joined] at rest_length
      simp [joined, rest_length, whole block List.mem_cons_self, Nat.add_mul,
        Nat.add_comm]

theorem Whole.split (whole : Whole width blocks) {index : Nat}
    (inside : index < blocks.length) :
    ∃ front back : Bytes, front.length = index * width ∧
      joined blocks = front ++ (blocks[index] ++ back) ∧
      ∀ data, joined (blocks.set index data) = front ++ (data ++ back) := by
  refine ⟨joined (blocks.take index), joined (blocks.drop (index + 1)), ?_, ?_, ?_⟩
  · have front_whole : Whole width (blocks.take index) :=
      fun block member => whole block (List.mem_of_mem_take member)
    rw [front_whole.length_joined, List.length_take, Nat.min_eq_left (Nat.le_of_lt inside)]
  · have parts : blocks = blocks.take index ++ blocks[index] :: blocks.drop (index + 1) := by
      simp
    unfold joined
    conv => lhs; rw [parts]
    rw [List.flatten_append, List.flatten_cons]
  · intro data
    unfold joined
    rw [List.set_eq_take_append_cons_drop, if_pos inside, List.flatten_append,
      List.flatten_cons]

theorem Whole.slice_joined (whole : Whole width blocks) {index : Nat}
    (inside : index < blocks.length) :
    (joined blocks).slice (index * width) width = blocks[index] := by
  obtain ⟨front, back, length, parts, -⟩ := whole.split inside
  have held := whole blocks[index] (List.getElem_mem inside)
  rw [parts, ← length]
  conv => lhs; rw [← held]
  exact Bytes.slice_middle front _ back

theorem Whole.overwrite_joined (whole : Whole width blocks) {index : Nat}
    (inside : index < blocks.length) {data : Bytes} (fits : data.length = width) :
    (joined blocks).overwrite (index * width) data = joined (blocks.set index data) := by
  obtain ⟨front, back, length, parts, rebuilt⟩ := whole.split inside
  have held := whole blocks[index] (List.getElem_mem inside)
  rw [parts, rebuilt, ← length]
  exact Bytes.overwrite_middle front back (held.trans fits.symm)

/-- The bytes of a block; behind the end of the file they are zeros. -/
def blockAt (width : Nat) (blocks : List Bytes) (block : BlockId) : Bytes :=
  blocks.getD block.toNat (Bytes.zeros width)

theorem Whole.length_blockAt (whole : Whole width blocks) (block : BlockId) :
    (blockAt width blocks block).length = width := by
  by_cases inside : block.toNat < blocks.length
  · simpa [blockAt, inside] using whole _ (List.getElem_mem inside)
  · have outside : blocks.length ≤ block.toNat := by omega
    simp [blockAt, List.getElem?_eq_none outside]

def fillTo (width : Nat) (blocks : List Bytes) (index : Nat) : List Bytes :=
  blocks ++ List.replicate (index - blocks.length) (Bytes.zeros width)

def putBlock (width : Nat) (blocks : List Bytes) (index : Nat) (data : Bytes) : List Bytes :=
  if index < blocks.length then blocks.set index data
  else fillTo width blocks index ++ [data]

theorem joined_append (front back : List Bytes) :
    joined (front ++ back) = joined front ++ joined back :=
  List.flatten_append

theorem joined_zeros (count width : Nat) :
    joined (List.replicate count (Bytes.zeros width)) = Bytes.zeros (count * width) := by
  induction count with
  | zero => simp [joined, Bytes.zeros]
  | succ count ih =>
      unfold joined at ih ⊢
      rw [List.replicate_succ, List.flatten_cons, ih]
      simp [Bytes.zeros, Nat.add_mul, Nat.add_comm]

theorem Whole.fillTo (whole : Whole width blocks) (index : Nat) :
    Whole width (fillTo width blocks index) := by
  intro block member
  rcases List.mem_append.mp member with member | member
  · exact whole block member
  · rw [List.eq_of_mem_replicate member, Bytes.length_zeros]

theorem Whole.putBlock (whole : Whole width blocks) (index : Nat) {data : Bytes}
    (fits : data.length = width) : Whole width (putBlock width blocks index data) := by
  intro block member
  unfold Paging.putBlock at member
  split at member
  · rcases List.mem_or_eq_of_mem_set member with member | rfl
    · exact whole block member
    · exact fits
  · rcases List.mem_append.mp member with member | member
    · exact whole.fillTo index block member
    · rw [List.mem_singleton.mp member]
      exact fits

theorem Whole.overwrite_putBlock (whole : Whole width blocks) {index : Nat} {data : Bytes}
    (near : index ≤ blocks.length) (fits : data.length = width) :
    (joined blocks).overwrite (index * width) data =
      joined (Paging.putBlock width blocks index data) := by
  by_cases inside : index < blocks.length
  · rw [whole.overwrite_joined inside fits, Paging.putBlock, if_pos inside]
  · obtain rfl : index = blocks.length := by omega
    simp only [← whole.length_joined, Bytes.overwrite_end, Paging.putBlock, inside, if_false,
      Paging.fillTo, Nat.sub_self, List.replicate_zero, List.append_nil, joined_append]
    simp [joined]

theorem length_putBlock (blocks : List Bytes) (index : Nat) (data : Bytes) :
    (putBlock width blocks index data).length = max blocks.length (index + 1) := by
  unfold putBlock fillTo
  split
  · simp
    omega
  · simp
    omega

theorem blockAt_putBlock (blocks : List Bytes) (block : BlockId) (data : Bytes)
    (other : BlockId) :
    blockAt width (putBlock width blocks block.toNat data) other =
      if other = block then data else blockAt width blocks other := by
  simp only [blockAt, putBlock, fillTo, List.getD_eq_getElem?_getD, ← UInt64.toNat_inj]
  split
  · simp only [List.getElem?_set]
    grind
  · simp only [List.getElem?_append, List.getElem?_replicate, List.length_append,
      List.length_replicate]
    grind

end

end Paging

/-! ## Handles that know their file -/

namespace Handle

def Knows (handle : Handle) (contents : Contents) : Prop :=
  handle.size contents = contents.size

variable {handle : Handle} {contents : Contents}

theorem Knows.read (knows : handle.Knows contents) {offset len : Nat}
    (inside : offset + len ≤ contents.bytes.length) :
    handle.read contents offset len = .ok (contents.bytes.slice offset len) := by
  rw [← contents.size_eq] at inside
  cases handle with
  | buffer => simp [Handle.read, Buffer.read, inside, Contents.slice]
  | file knownSize =>
      obtain rfl : knownSize = contents.size := knows
      by_cases empty : len = 0
      · simp [Handle.read, OpenFile.read, empty, Bytes.slice]
        omega
      · simp [Handle.read, OpenFile.read, inside, empty, Contents.slice]

theorem Knows.write (knows : handle.Knows contents) {offset : Nat}
    (inside : offset ≤ contents.bytes.length) (patch : Bytes) :
    ∃ handle', handle.write contents offset patch =
        .ok (handle', contents.overwrite offset patch) ∧
      handle'.Knows (contents.overwrite offset patch) := by
  rw [← contents.size_eq] at inside
  cases handle with
  | buffer => exact ⟨.buffer, by simp [Handle.write, Buffer.write, inside, Except.map], rfl⟩
  | file knownSize =>
      obtain rfl : knownSize = contents.size := knows
      refine ⟨.file (max contents.size (offset + patch.length)), ?_, ?_⟩
      · simp [Handle.write, OpenFile.write, inside, Except.map, Handle.ofOpenFile]
      · show max contents.size (offset + patch.length) = (contents.overwrite offset patch).size
        unfold Contents.overwrite
        split
        · rename_i empty
          simp [empty, inside]
        · rfl

end Handle

namespace Paging

/-! ## Operations on blocks -/

/-- The file holds the blocks, and no call on it fails. -/
structure Stores (width : Nat) (file : BlockFile) (blocks : List Bytes)
    (held : List BlockId) : Prop where
  width_eq : file.blockSize = width
  positive : 0 < width
  whole : Whole width blocks
  bytes_eq : file.contents.bytes = joined blocks
  knows : file.handle.Knows file.contents
  plan_eq : file.injection.plan = FailurePlan.never
  held_eq : file.inUse = held

namespace Stores

variable {width : Nat} {file : BlockFile} {blocks : List Bytes} {block : BlockId}
  {held : List BlockId}

theorem length_eq (stores : Stores width file blocks held) :
    file.contents.bytes.length = blocks.length * width := by
  rw [stores.bytes_eq, stores.whole.length_joined]

theorem beginCall (stores : Stores width file blocks held) (call : Call) :
    Leads (BlockFile.beginCall call) file (fun _ file' => Stores width file' blocks held)
      fun _ _ => False := by
  obtain ⟨width_eq, positive, whole, bytes_eq, knows, plan_eq, held_eq⟩ := stores
  obtain ⟨contents, handle, ⟨plan, calls⟩, blockSize, inUse⟩ := file
  obtain rfl : plan = FailurePlan.never := plan_eq
  exact ⟨width_eq, positive, whole, bytes_eq, knows, rfl, held_eq⟩

theorem size (stores : Stores width file blocks held) :
    Leads BlockFile.size file
      (fun size file' => size = blocks.length * width ∧ Stores width file' blocks held)
      fun _ _ => False := by
  refine Leads.bind (stores.beginCall .size) fun _ file' counted => ?_
  have known : file'.handle.size file'.contents = blocks.length * width := by
    rw [← counted.length_eq, ← Contents.size_eq]
    exact counted.knows
  exact ⟨known, counted⟩

theorem blockCount (stores : Stores width file blocks held) :
    Leads BlockFile.blockCount file
      (fun count file' => count = blocks.length ∧ Stores width file' blocks held)
      fun _ _ => False := by
  refine Leads.bind stores.size fun size file' ⟨size_eq, counted⟩ => ?_
  refine ⟨?_, counted⟩
  show size / file'.blockSize = blocks.length
  rw [counted.width_eq, size_eq, Nat.mul_div_cancel _ counted.positive]

theorem requireWholeBlocks (stores : Stores width file blocks held) :
    Leads BlockFile.requireWholeBlocks file
      (fun _ file' => Stores width file' blocks held) fun _ _ => False := by
  refine Leads.bind stores.size fun size file' ⟨size_eq, counted⟩ => ?_
  apply Leads.get_bind
  have whole : size % file'.blockSize = 0 := by
    rw [size_eq, counted.width_eq, Nat.mul_mod_left]
  simp only [whole, ne_eq, not_true_eq_false, if_false]
  exact Leads.pure counted

theorem readAt (stores : Stores width file blocks held) {index : Nat}
    (inside : index < blocks.length) :
    Leads (BlockFile.readAt (index * width) width) file
      (fun data file' => data = blocks[index] ∧ Stores width file' blocks held)
      fun _ _ => False := by
  refine Leads.bind (stores.beginCall _) fun _ file' counted => ?_
  have room : index * width + width ≤ file'.contents.bytes.length := by
    rw [counted.length_eq, ← Nat.succ_mul]
    exact Nat.mul_le_mul_right width inside
  have read := counted.knows.read room
  apply Leads.get_bind
  rw [read]
  refine Leads.pure ⟨?_, counted⟩
  rw [counted.bytes_eq, counted.whole.slice_joined inside]

theorem writeAt (stores : Stores width file blocks held) {blocks' : List Bytes}
    (whole' : Whole width blocks') {offset : Nat} (inside : offset ≤ blocks.length * width)
    {patch : Bytes} (written : (joined blocks).overwrite offset patch = joined blocks') :
    Leads (BlockFile.writeAt offset patch) file
      (fun _ file' => Stores width file' blocks' held) fun _ _ => False := by
  refine Leads.bind (stores.beginCall _) fun _ file' counted => ?_
  rw [← counted.length_eq] at inside
  obtain ⟨handle, wrote, knows⟩ := counted.knows.write inside patch
  apply Leads.get_bind
  rw [wrote]
  refine ⟨counted.width_eq, counted.positive, whole', ?_, knows, counted.plan_eq,
    counted.held_eq⟩
  rw [← written, ← counted.bytes_eq, Contents.bytes_overwrite]

theorem fetch (stores : Stores width file blocks held)
    (unheld : block ∉ held) :
    Leads (BlockFile.fetch block) file
      (fun page file' => page = ⟨block, blockAt width blocks block⟩ ∧
        Stores width file' blocks (block :: held))
      fun _ _ => False := by
  have unused : file.isInUse block = false := by
    simpa [BlockFile.isInUse, stores.held_eq] using unheld
  apply Leads.get_bind
  simp only [unused, Bool.false_eq_true, if_false]
  refine Leads.bind stores.size fun size file' ⟨size_eq, counted⟩ => ?_
  have here : file.offsetOf block = block.toNat * width := by
    rw [BlockFile.offsetOf, stores.width_eq]
  have taken (data : Bytes) (data_eq : data = blockAt width blocks block) (file' : BlockFile)
      (read : Stores width file' blocks held) :
      Leads (do
        modify fun file => { file with inUse := block :: file.inUse }
        return ⟨block, data⟩ : BlockM Page) file'
        (fun page file' => page = ⟨block, blockAt width blocks block⟩ ∧
          Stores width file' blocks (block :: held)) fun _ _ => False := by
    obtain ⟨width_eq, positive, whole, bytes_eq, knows, plan_eq, held_eq⟩ := read
    refine ⟨?_, width_eq, positive, whole, bytes_eq, knows, plan_eq, ?_⟩
    · rw [data_eq]
    · rw [← held_eq]
  rw [here, stores.width_eq, size_eq]
  by_cases inside : block.toNat < blocks.length
  · have below : block.toNat * width < blocks.length * width :=
      Nat.mul_lt_mul_of_pos_right inside stores.positive
    rw [if_pos below]
    refine Leads.bind (counted.readAt inside) fun data file' ⟨data_eq, read⟩ => ?_
    apply taken data _ file' read
    simp [blockAt, inside, data_eq]
  · have outside : blocks.length ≤ block.toNat := by omega
    have above := Nat.mul_le_mul_right width outside
    rw [if_neg (by omega)]
    apply taken _ _ file' counted
    simp [blockAt, List.getElem?_eq_none outside]

theorem drop (stores : Stores width file blocks held) (block : BlockId) :
    Stores width { file with inUse := file.inUse.erase block } blocks (held.erase block) := by
  obtain ⟨width_eq, positive, whole, bytes_eq, knows, plan_eq, held_eq⟩ := stores
  exact ⟨width_eq, positive, whole, bytes_eq, knows, plan_eq, by rw [← held_eq]⟩

/-- A page can be given back while others are held, whichever was fetched last. -/
theorem releaseUnchanged (stores : Stores width file blocks held) (page : Page) :
    Leads (BlockFile.release page false) file
      (fun _ file' => Stores width file' blocks (held.erase page.block)) fun _ _ => False :=
  stores.drop page.block

theorem putBack (stores : Stores width file blocks (block :: held)) (data : Bytes) :
    Leads (BlockFile.release ⟨block, data⟩ false) file
      (fun _ file' => Stores width file' blocks held) fun _ _ => False := by
  simpa using stores.releaseUnchanged ⟨block, data⟩

theorem fillGap (stores : Stores width file blocks held) (index : Nat) :
    Leads (BlockFile.writeAt (blocks.length * width)
        (Bytes.zeros (index * width - blocks.length * width))) file
      (fun _ file' => Stores width file' (fillTo width blocks index) held)
      fun _ _ => False := by
  apply stores.writeAt (stores.whole.fillTo index) (Nat.le_refl _)
  rw [← Nat.sub_mul, ← stores.whole.length_joined, Bytes.overwrite_end, fillTo, joined_append,
    joined_zeros]

theorem writeBlock (stores : Stores width file blocks held) {index : Nat} {data : Bytes}
    (near : index ≤ blocks.length) (fits : data.length = width) :
    Leads (BlockFile.writeAt (index * width) data) file
      (fun _ file' => Stores width file' (putBlock width blocks index data) held)
      fun _ _ => False := by
  exact stores.writeAt (stores.whole.putBlock index fits) (Nat.mul_le_mul_right width near)
    (stores.whole.overwrite_putBlock near fits)

theorem putBlock_fillTo {index : Nat} (beyond : blocks.length < index) (data : Bytes) :
    putBlock width (fillTo width blocks index) index data = putBlock width blocks index data := by
  have filled : (fillTo width blocks index).length = index := by
    simp [fillTo]
    omega
  have outside : ¬ index < blocks.length := by omega
  rw [putBlock, filled, if_neg (Nat.lt_irrefl index), putBlock, if_neg outside]
  simp only [fillTo] at filled ⊢
  rw [filled]
  simp

theorem releaseChanged (stores : Stores width file blocks held) {page : Page}
    (fits : page.data.length = width) :
    Leads (BlockFile.release page true) file
      (fun _ file' => Stores width file' (putBlock width blocks page.block.toNat page.data)
        (held.erase page.block))
      fun _ _ => False := by
  have returned := stores.drop page.block
  have here : BlockFile.offsetOf { file with inUse := file.inUse.erase page.block } page.block =
      page.block.toNat * width := by
    rw [BlockFile.offsetOf, returned.width_eq]
  apply Leads.modify_bind
  apply Leads.get_bind
  rw [here]
  refine Leads.bind returned.size fun size file' ⟨size_eq, counted⟩ => ?_
  rw [size_eq]
  by_cases near : page.block.toNat ≤ blocks.length
  · have low := Nat.mul_le_mul_right width near
    simp only [Nat.not_lt.mpr low, if_false]
    exact counted.writeBlock near fits
  · have beyond : blocks.length < page.block.toNat := by omega
    have high := Nat.mul_lt_mul_of_pos_right beyond stores.positive
    simp only [high, if_true]
    refine Leads.bind (counted.fillGap page.block.toNat) fun _ file' filled => ?_
    rw [← putBlock_fillTo beyond]
    apply filled.writeBlock _ fits
    simp [fillTo]
    omega

theorem store (stores : Stores width file blocks (block :: held)) {data : Bytes}
    (fits : data.length = width) :
    Leads (BlockFile.release ⟨block, data⟩ true) file
      (fun _ file' => Stores width file' (putBlock width blocks block.toNat data) held)
      fun _ _ => False := by
  have stored := @releaseChanged _ _ _ _ stores ⟨block, data⟩ fits
  rwa [List.erase_cons_head] at stored

end Stores

end Paging

end DirectoryStore
