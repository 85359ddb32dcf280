import DirectoryStore.Proofs.Paging.Moving

/-!
# Bodies that are guarded

A change of the lists leaves the bodies of pages alone: a page that stays in its list is
rewritten behind a new header only, and a page that is written as a whole is one that was
free or lay behind the end of the file.  This holds wherever the change stops because a
block is in use or a call fails.  The new page is empty, and from then on its body is left
alone with the others.
-/

namespace DirectoryStore.Paging

/-! ## Blocks while calls fail -/

/-- The file holds the blocks, whichever calls on it fail. -/
structure Packs (width : Nat) (blocks : List Bytes) (file : BlockFile) : Prop where
  wide : Settings.minPageSize ≤ width
  width_eq : file.blockSize = width
  whole : Whole width blocks
  bytes_eq : file.contents.bytes = joined blocks
  knows : file.handle.Knows file.contents

namespace Packs

variable {width : Nat} {blocks : List Bytes} {file file' : BlockFile} {block : BlockId}

theorem positive (packs : Packs width blocks file) : 0 < width :=
  Nat.lt_of_lt_of_le (by decide) packs.wide

theorem of_counted (packs : Packs width blocks file) (counted : Counted file file') :
    Packs width blocks file' := by
  obtain ⟨injection, rfl⟩ := counted
  exact ⟨packs.wide, packs.width_eq, packs.whole, packs.bytes_eq, packs.knows⟩

theorem length_eq (packs : Packs width blocks file) :
    file.contents.bytes.length = blocks.length * width := by
  rw [packs.bytes_eq, packs.whole.length_joined]

theorem size_eq (packs : Packs width blocks file) :
    file.handle.size file.contents = blocks.length * width := by
  rw [← packs.length_eq, ← Contents.size_eq]
  exact packs.knows

theorem offsetOf_eq (packs : Packs width blocks file) :
    file.offsetOf block = block.toNat * width := by
  rw [BlockFile.offsetOf, packs.width_eq]

theorem read_eq (packs : Packs width blocks file) (block : BlockId) :
    file.read block = .ok (blockAt width blocks block) := by
  unfold BlockFile.read
  rw [packs.offsetOf_eq, packs.size_eq, packs.width_eq]
  by_cases inside : block.toNat < blocks.length
  · have room : block.toNat * width + width ≤ file.contents.bytes.length := by
      rw [packs.length_eq, ← Nat.succ_mul]
      exact Nat.mul_le_mul_right width inside
    rw [if_pos (Nat.mul_lt_mul_of_pos_right inside packs.positive), packs.knows.read room,
      packs.bytes_eq, packs.whole.slice_joined inside]
    simp [blockAt, inside]
  · have outside : blocks.length ≤ block.toNat := Nat.le_of_not_lt inside
    rw [if_neg (Nat.not_lt.mpr (Nat.mul_le_mul_right width outside))]
    simp [blockAt, List.getElem?_eq_none outside]

theorem store (packs : Packs width blocks file) (near : block.toNat ≤ blocks.length)
    {data : Bytes} (fits : data.length = width) :
    Leads (BlockFile.release ⟨block, data⟩ true) file
      (fun _ => Packs width (putBlock width blocks block.toNat data))
      fun _ => Packs width blocks := by
  have packs' : Packs width blocks { file with inUse := file.inUse.erase block } :=
    ⟨packs.wide, packs.width_eq, packs.whole, packs.bytes_eq, packs.knows⟩
  apply Leads.modify_bind
  apply Leads.get_bind
  rw [packs'.offsetOf_eq]
  refine Leads.bind ((BlockFile.size_counts _).imp_failed fun _ _ => packs'.of_counted) ?_
  rintro _ file' ⟨rfl, counted⟩
  have packs' := packs'.of_counted counted
  have low : ¬ blocks.length * width < block.toNat * width :=
    Nat.not_lt.mpr (Nat.mul_le_mul_right width near)
  simp only [packs.size_eq, low, if_false]
  refine (BlockFile.writeAt_writes _ _ _).mono ?_ fun _ _ => packs'.of_counted
  rintro _ _ ⟨handle, contents, injection, wrote, rfl⟩
  have inside : block.toNat * width ≤ file'.contents.bytes.length := by
    rw [packs'.length_eq]
    exact Nat.mul_le_mul_right width near
  obtain ⟨handle', wrote', knows⟩ := packs'.knows.write inside data
  obtain ⟨rfl, rfl⟩ := Prod.mk.inj (Except.ok.inj (wrote.symm.trans wrote'))
  refine ⟨packs.wide, packs'.width_eq, packs.whole.putBlock _ fits, ?_, knows⟩
  rw [Contents.bytes_overwrite, packs'.bytes_eq, packs.whole.overwrite_putBlock near fits]

end Packs

/-- The page file has these blocks and this file header, whichever calls on it fail. -/
structure HasBlocks (width : Nat) (blocks : List Bytes) (header : FileHeader)
    (pages : PageFile) : Prop where
  packs : Packs width blocks pages.blocks
  header_eq : pages.header = header

namespace HasBlocks

variable {width : Nat} {blocks : List Bytes} {header : FileHeader} {pages : PageFile}
  {block : BlockId}

theorem fetch (has : HasBlocks width blocks header pages) (block : BlockId) :
    Leads (PageFile.fetch block) pages
      (fun page pages' => page = ⟨block, blockAt width blocks block⟩ ∧
        HasBlocks width blocks header pages')
      fun _ => HasBlocks width blocks header := by
  have packs := has.packs
  refine (BlockFile.fetch_holds block pages.blocks).onBlocks_either.mono ?_ ?_
  · rintro page pages' ⟨kept, rfl, read, injection, blocks_eq⟩
    have data_eq := Except.ok.inj ((packs.read_eq _).symm.trans read)
    refine ⟨by rw [data_eq], ?_, kept.trans has.header_eq⟩
    rw [blocks_eq]
    exact ⟨packs.wide, packs.width_eq, packs.whole, packs.bytes_eq, packs.knows⟩
  · exact fun _ _ ⟨kept, counted⟩ => ⟨packs.of_counted counted, kept.trans has.header_eq⟩

theorem putBack (has : HasBlocks width blocks header pages) (page : Page) :
    Leads (PageFile.release page false) pages (fun _ => HasBlocks width blocks header)
      fun _ => HasBlocks width blocks header := by
  obtain ⟨packs, header_eq⟩ := has
  exact ⟨⟨packs.wide, packs.width_eq, packs.whole, packs.bytes_eq, packs.knows⟩, header_eq⟩

theorem store (has : HasBlocks width blocks header pages)
    (near : block.toNat ≤ blocks.length) {data : Bytes} (fits : data.length = width) :
    Leads (PageFile.release ⟨block, data⟩ true) pages
      (fun _ => HasBlocks width (putBlock width blocks block.toNat data) header)
      fun _ => HasBlocks width blocks header :=
  (has.packs.store near fits).onBlocks_either.mono
    (fun _ _ ⟨kept, packs⟩ => ⟨packs, kept.trans has.header_eq⟩)
    fun _ _ ⟨kept, packs⟩ => ⟨packs, kept.trans has.header_eq⟩

theorem readHeader (has : HasBlocks width blocks header pages) (block : BlockId) :
    Leads (PageFile.readHeader block) pages
      (fun found pages' => headsOf width blocks block = some found ∧
        HasBlocks width blocks header pages')
      fun _ => HasBlocks width blocks header := by
  refine Leads.bind (has.fetch block) ?_
  rintro _ pages' ⟨rfl, fetched⟩
  refine Leads.bind (fetched.putBack _) fun _ pages'' returned => ?_
  unfold headsOf
  cases PageHeader.decode (blockAt width blocks block) with
  | error error => exact returned
  | ok found => exact ⟨rfl, returned⟩

end HasBlocks

/-! ## Bodies that stay -/

/-- The guarded blocks are blocks of the file, and have the given bodies. -/
structure Guards (width : Nat) (guarded : List BlockId) (bodies : BlockId → Bytes)
    (blocks : List Bytes) : Prop where
  inside : ∀ block ∈ guarded, block.toNat < blocks.length
  bodies_eq : ∀ block ∈ guarded, bodiesOf width blocks block = bodies block

def Guarded (width count : Nat) (guarded : List BlockId) (bodies : BlockId → Bytes)
    (pages : PageFile) : Prop :=
  ∃ blocks header, blocks.length = count ∧ HasBlocks width blocks header pages ∧
    Guards width guarded bodies blocks

section

variable {width count : Nat} {guarded guarded' : List BlockId}
  {bodies bodies' : BlockId → Bytes} {blocks : List Bytes} {pages : PageFile}
  {block : BlockId}

theorem Guards.mono (guards : Guards width guarded bodies blocks)
    (fewer : ∀ block ∈ guarded', block ∈ guarded ∧ bodies block = bodies' block) :
    Guards width guarded' bodies' blocks :=
  ⟨fun block member => guards.inside block (fewer block member).1, fun block member =>
    (guards.bodies_eq block (fewer block member).1).trans (fewer block member).2⟩

/-- The body that is written can be guarded from then on. -/
theorem Guards.put (guards : Guards width guarded bodies blocks)
    (near : block.toNat ≤ blocks.length) (data : Bytes) :
    Guards width (block :: guarded)
      (Function.update bodies block (data.drop PageHeader.size))
      (putBlock width blocks block.toNat data) := by
  refine ⟨fun other member => ?_, fun other member => ?_⟩
  · rw [length_putBlock]
    rcases List.mem_cons.mp member with rfl | member
    · omega
    · have := guards.inside other member
      omega
  · rw [bodiesOf, blockAt_putBlock, Function.update_apply]
    split
    · rfl
    · rename_i different
      exact guards.bodies_eq other ((List.mem_cons.mp member).resolve_left different)

theorem Guarded.mono (state : Guarded width count guarded bodies pages)
    (fewer : ∀ block ∈ guarded', block ∈ guarded ∧ bodies block = bodies' block) :
    Guarded width count guarded' bodies' pages := by
  obtain ⟨blocks, header, length, has, guards⟩ := state
  exact ⟨blocks, header, length, has, guards.mono fewer⟩

theorem Guarded.forget {body : Bytes}
    (state : Guarded width count (block :: guarded) (Function.update bodies block body) pages)
    (apart : block ∉ guarded) : Guarded width count guarded bodies pages := by
  refine state.mono fun other member => ⟨List.mem_cons_of_mem _ member, ?_⟩
  rw [Function.update_of_ne]
  rintro rfl
  exact apart member

end

namespace Guarded

variable {width count : Nat} {guarded : List BlockId} {bodies : BlockId → Bytes}
  {pages : PageFile} {block : BlockId} {kind : PageKind}

theorem setFirst (kind : PageKind) (block : BlockId) :
    Keeps (Guarded width count guarded bodies) (PageFile.setFirst kind block) :=
  .modify fun _ ⟨blocks, _, length, has, guards⟩ => ⟨blocks, _, length, ⟨has.packs, rfl⟩, guards⟩

theorem setLast (kind : PageKind) (block : BlockId) :
    Keeps (Guarded width count guarded bodies) (PageFile.setLast kind block) :=
  .modify fun _ ⟨blocks, _, length, has, guards⟩ => ⟨blocks, _, length, ⟨has.packs, rfl⟩, guards⟩

theorem readHeader (block : BlockId) :
    Keeps (Guarded width count guarded bodies) (PageFile.readHeader block) := by
  refine .of_leads fun pages ⟨blocks, header, length, has, guards⟩ => ?_
  exact (has.readHeader block).mono
    (fun _ _ ⟨_, read⟩ => ⟨blocks, header, length, read, guards⟩)
    fun _ _ read => ⟨blocks, header, length, read, guards⟩

theorem updateHeader (block : BlockId) (update : PageHeader → PageHeader) :
    Keeps (Guarded width count guarded bodies) (PageFile.updateHeader block update) := by
  refine .of_leads fun pages ⟨blocks, header, length, has, guards⟩ => ?_
  have keeps {pages' : PageFile} (has : HasBlocks width blocks header pages') :
      Guarded width count guarded bodies pages' := ⟨blocks, header, length, has, guards⟩
  refine Leads.bind ((has.fetch block).imp_failed fun _ _ has => keeps has) ?_
  rintro _ pages' ⟨rfl, fetched⟩
  cases read : PageHeader.decode (blockAt width blocks block) with
  | error error =>
      refine Leads.bind ((fetched.putBack _).imp_failed fun _ _ has => keeps has) ?_
      intro _ _ returned
      exact Leads.throw (keeps returned)
  | ok found =>
      have inside := lt_of_decode read
      have long := has.packs.whole.length_blockAt block
      have room : PageHeader.size ≤ (blockAt width blocks block).length := by
        rw [long]
        exact Nat.le_trans (by decide) has.packs.wide
      refine (fetched.store (Nat.le_of_lt inside)
        ((PageHeader.length_encode _ room).trans long)).mono ?_ fun _ _ has => keeps has
      intro _ pages'' stored
      refine ⟨_, header, ?_, stored, (guards.put (Nat.le_of_lt inside) _).mono ?_⟩
      · rw [length_putBlock, ← length]
        omega
      · refine fun other member => ⟨List.mem_cons_of_mem _ member, ?_⟩
        rw [PageHeader.drop_encode, Function.update_apply]
        split
        · rename_i same
          subst same
          exact guards.bodies_eq other member
        · rfl

theorem store (state : Guarded width count guarded bodies pages)
    (near : block.toNat ≤ count) {data : Bytes} (fits : data.length = width) :
    Leads (PageFile.release ⟨block, data⟩ true) pages
      (fun _ => Guarded width (max count (block.toNat + 1)) (block :: guarded)
        (Function.update bodies block (data.drop PageHeader.size)))
      fun _ => Guarded width count guarded bodies := by
  obtain ⟨blocks, header, rfl, has, guards⟩ := state
  refine (has.store near fits).mono ?_ fun _ _ has => ⟨blocks, header, rfl, has, guards⟩
  exact fun _ _ stored => ⟨_, header, length_putBlock _ _ _, stored, guards.put near _⟩

theorem fetch (state : Guarded width count guarded bodies pages) (block : BlockId) :
    Leads (PageFile.fetch block) pages
      (fun page pages' => page.block = block ∧ page.data.length = width ∧
        Guarded width count guarded bodies pages')
      fun _ => Guarded width count guarded bodies := by
  obtain ⟨blocks, header, length, has, guards⟩ := state
  refine (has.fetch block).mono ?_ fun _ _ has => ⟨blocks, header, length, has, guards⟩
  rintro _ _ ⟨rfl, fetched⟩
  exact ⟨rfl, has.packs.whole.length_blockAt block, blocks, header, length, fetched, guards⟩

theorem blockCount (state : Guarded width count guarded bodies pages) :
    Leads PageFile.blockCount pages
      (fun found pages' => found = count ∧ Guarded width count guarded bodies pages')
      fun _ => Guarded width count guarded bodies := by
  obtain ⟨blocks, header, rfl, ⟨packs, header_eq⟩, guards⟩ := state
  refine (BlockFile.blockCount_counts _).onBlocks_either.mono ?_ ?_
  · rintro _ _ ⟨kept, rfl, counted⟩
    refine ⟨?_, blocks, header, rfl, ⟨packs.of_counted counted, kept.trans header_eq⟩, guards⟩
    rw [packs.size_eq, packs.width_eq, Nat.mul_div_cancel _ packs.positive]
  · exact fun _ _ ⟨kept, counted⟩ =>
      ⟨blocks, header, rfl, ⟨packs.of_counted counted, kept.trans header_eq⟩, guards⟩

theorem wide (state : Guarded width count guarded bodies pages) :
    Settings.minPageSize ≤ width := by
  obtain ⟨_, _, -, has, -⟩ := state
  exact has.packs.wide

theorem writeFileHeader (null : BlockId.header ∉ guarded) (positive : 0 < count) :
    Keeps (Guarded width count guarded bodies) PageFile.writeFileHeader := by
  refine .of_leads fun pages state => ?_
  refine Leads.bind (state.fetch _) ?_
  rintro ⟨block, data⟩ pages' ⟨rfl, long, fetched⟩
  apply Leads.get_bind
  have room : FileHeader.size ≤ data.length := by
    rw [show data.length = width from long]
    exact Nat.le_trans (by decide) state.wide
  refine (fetched.store (Nat.zero_le _)
    ((FileHeader.length_encode _ room).trans long)).imp fun _ _ stored => ?_
  have same : max count (BlockId.header.toNat + 1) = count := Nat.max_eq_left positive
  rw [same] at stored
  exact stored.forget null

theorem unlink (kind : PageKind) (block : BlockId) :
    Keeps (Guarded width count guarded bodies) (PageFile.unlink kind block) := by
  refine (readHeader block).bind fun header => ?_
  refine .branch (setFirst _ _) (updateHeader _ _) fun _ => ?_
  split
  · exact setLast _ _
  · exact updateHeader _ _

theorem free (null : BlockId.header ∉ guarded) (positive : 0 < count) (kind : PageKind)
    (block : BlockId) :
    Keeps (Guarded width count guarded bodies) (PageFile.free kind block) := by
  unfold PageFile.free
  refine Keeps.when_bind (.throw _) ?_
  refine (readHeader block).bind fun current => ?_
  refine Keeps.when_bind (.throw _) ?_
  refine (unlink _ _).bind fun _ => .get_bind fun pages => ?_
  refine (updateHeader _ _).bind fun _ => ?_
  refine .branch (setLast _ _) (updateHeader _ _) fun _ => ?_
  exact (setFirst _ _).bind fun _ => writeFileHeader null positive

end Guarded

/-! ## Allocating -/

def Spared (width : Nat) (guarded : List BlockId) (bodies : BlockId → Bytes)
    (pages : PageFile) : Prop :=
  ∃ count, Guarded width count guarded bodies pages

abbrev Enlarged (width count : Nat) (guarded : List BlockId) (bodies : BlockId → Bytes)
    (block : BlockId) (pages : PageFile) : Prop :=
  Guarded width count (block :: guarded)
    (Function.update bodies block (Bytes.zeros (width - PageHeader.size))) pages

/-- An allocated page was not guarded, and its body is empty. -/
structure Allotted (width : Nat) (guarded : List BlockId) (bodies : BlockId → Bytes)
    (block : BlockId) (pages : PageFile) : Prop where
  apart : block ∉ guarded
  state : ∃ count, block.toNat < count ∧ Enlarged width count guarded bodies block pages

section

variable {width count : Nat} {guarded : List BlockId} {bodies : BlockId → Bytes}
  {pages : PageFile} {block : BlockId} {kind : PageKind}

theorem Allotted.spared (allotted : Allotted width guarded bodies block pages) :
    Spared width guarded bodies pages := by
  obtain ⟨apart, count, -, state⟩ := allotted
  exact ⟨count, state.forget apart⟩

theorem Guarded.spares {α : Type} {action : PageM α}
    (state : Guarded width count guarded bodies pages)
    (keeps : Keeps (Guarded width count guarded bodies) action) :
    Leads action pages (fun _ => Guarded width count guarded bodies)
      fun _ => Spared width guarded bodies :=
  (keeps.leads state).imp_failed fun _ _ kept => ⟨count, kept⟩

theorem Guarded.place (state : Guarded width count guarded bodies pages)
    (null : BlockId.header ∉ guarded) (real : block ≠ BlockId.header)
    (apart : block ∉ guarded) (near : block.toNat ≤ count) :
    Leads (do
      let tail := (← get).last kind
      let page ← PageFile.fetch block
      let header : PageHeader := ⟨kind, BlockId.header, tail⟩
      let data := header.encode (Bytes.zeros page.data.length)
      PageFile.release { page with data := data } true
      if tail.isNull then
        PageFile.setFirst kind block
      else
        PageFile.updateHeader tail ({ · with next := block })
      PageFile.setLast kind block
      PageFile.writeFileHeader
      return block) pages
      (fun block' => Allotted width guarded bodies block')
      fun _ => Spared width guarded bodies := by
  apply Leads.get_bind
  refine Leads.bind ((state.fetch block).imp_failed fun _ _ kept => ⟨count, kept⟩) ?_
  rintro ⟨block, old⟩ pages' ⟨rfl, long, fetched⟩
  have long : old.length = width := long
  have blank (header : PageHeader) : (header.encode (Bytes.zeros old.length)).drop
      PageHeader.size = Bytes.zeros (width - PageHeader.size) := by
    rw [PageHeader.drop_encode, long, Bytes.zeros, Bytes.zeros, List.drop_replicate]
  have fits (header : PageHeader) :
      (header.encode (Bytes.zeros old.length)).length = width := by
    rw [PageHeader.length_encode, Bytes.length_zeros, long]
    rw [Bytes.length_zeros, long]
    exact Nat.le_trans (by decide) state.wide
  refine Leads.bind ((fetched.store near (fits _)).imp_failed fun _ _ kept => ⟨count, kept⟩) ?_
  intro _ pages'' stored
  rw [blank] at stored
  -- From here on the new page is guarded with the others.
  have null' : BlockId.header ∉ block :: guarded := by simp [null, real.symm]
  have onward {α : Type} {action : PageM α} {pages : PageFile}
      (keeps : Keeps (Enlarged width (max count (block.toNat + 1)) guarded bodies block) action)
      (state : Enlarged width (max count (block.toNat + 1)) guarded bodies block pages) :
      Leads action pages
        (fun _ => Enlarged width (max count (block.toNat + 1)) guarded bodies block)
        fun _ => Spared width guarded bodies :=
    (keeps.leads state).imp_failed fun _ _ kept => ⟨_, kept.forget apart⟩
  apply Leads.branch
  refine Leads.bind (onward ?_ stored) fun _ _ joined => ?_
  · split
    · exact Guarded.setFirst _ _
    · exact Guarded.updateHeader _ _
  refine Leads.bind (onward (Guarded.setLast _ _) joined) fun _ _ ended => ?_
  refine Leads.bind (onward (Guarded.writeFileHeader null' (by omega)) ended)
    fun _ _ written => ?_
  exact Leads.pure ⟨apart, _, Nat.lt_of_lt_of_le (Nat.lt_succ_self _) (Nat.le_max_right _ _),
    written⟩

/-- The page that is allocated is a free one, or one behind the end of the file. -/
theorem Guarded.allocate (state : Guarded width count guarded bodies pages)
    (null : BlockId.header ∉ guarded) (positive : 0 < count) (room : count < 2 ^ 63)
    (apart : pages.first .free ∉ guarded) (near : (pages.first .free).toNat ≤ count)
    (kind : PageKind) :
    Leads (PageFile.allocate kind) pages
      (fun block => Allotted width guarded bodies block)
      fun _ => Spared width guarded bodies := by
  unfold PageFile.allocate
  by_cases free : kind = .free
  · rw [if_pos free]
    exact Leads.throw_bind ⟨count, state⟩
  rw [if_neg free]
  apply Leads.get_bind
  dsimp only
  split
  · refine Leads.bind (state.blockCount.imp_failed fun _ _ kept => ⟨count, kept⟩) ?_
    rintro count pages' ⟨rfl, counted⟩
    have next : (UInt64.ofNat (max count 1)).toNat = count := by
      rw [Nat.max_eq_left positive, toNat_next room]
    rw [pure_bind]
    refine counted.place null ?_ ?_ (Nat.le_of_eq next)
    · intro first
      rw [first] at next
      exact absurd next (Nat.ne_of_lt positive)
    · obtain ⟨blocks, _, length, -, guards⟩ := counted
      intro member
      have inside := guards.inside _ member
      omega
  · rename_i some_free
    refine Leads.bind (state.spares (Guarded.unlink _ _)) fun _ _ unlinked => ?_
    rw [pure_bind]
    exact unlinked.place null (mt BlockId.isNull_iff.mpr some_free) apart near

end

end DirectoryStore.Paging
