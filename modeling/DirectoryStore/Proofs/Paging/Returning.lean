import DirectoryStore.Paging.FreeSpace
import DirectoryStore.Proofs.Paging.Calls

/-!
# Pages that are given back

Every operation on page files fetches pages for a while and gives them back, also where
it fails in between.  It is composed of parts that leave the blocks in use as they are,
and of stretches that begin with one block more and give that block back.  Nothing is
assumed about the file: its blocks may hold anything, a caller may hold any of them, and
any calls may fail.
-/

namespace DirectoryStore.Paging

/-! ## Pages that are fetched -/

def BlockFile.Uses (held : List BlockId) (file : BlockFile) : Prop := file.inUse = held

def Uses (held : List BlockId) (pages : PageFile) : Prop := pages.blocks.Uses held

/-- However the action ends, the block that was fetched last is given back, and no other. -/
def GivesBack {α : Type} (held : List BlockId) (block : BlockId) (action : PageM α) : Prop :=
  ∀ pages, Uses (block :: held) pages → Uses held (action pages).2

section

variable {α β : Type} {held : List BlockId} {block : BlockId}

theorem BlockFile.Uses.of_counted {file file' : BlockFile} (uses : file.Uses held)
    (counted : Counted file file') : file'.Uses held := by
  obtain ⟨injection, rfl⟩ := counted
  exact uses

theorem BlockFile.size_keepsUse : Keeps (BlockFile.Uses held) BlockFile.size :=
  .of_leads fun file uses => (size_counts file).mono
    (fun _ _ ⟨_, counted⟩ => uses.of_counted counted) fun _ _ => uses.of_counted

theorem BlockFile.writeAt_keepsUse (offset : Nat) (patch : Bytes) :
    Keeps (BlockFile.Uses held) (BlockFile.writeAt offset patch) := by
  refine .of_leads fun file uses => (writeAt_writes offset patch file).mono ?_ ?_
  · rintro _ _ ⟨handle, contents, injection, -, rfl⟩
    exact uses
  · exact fun _ _ => uses.of_counted

/-- The block is given back first, whatever becomes of writing it. -/
theorem BlockFile.release_drops (page : Page) (changed : Bool) (file : BlockFile) :
    (BlockFile.release page changed file).2.Uses (file.inUse.erase page.block) := by
  let write : BlockM Unit := do
    if changed then
      let offset := (← get).offsetOf page.block
      let size ← size
      if size < offset then
        writeAt size (Bytes.zeros (offset - size))
      writeAt offset page.data
  have written : Keeps (BlockFile.Uses (file.inUse.erase page.block)) write := by
    refine .when (.get_bind fun _ => size_keepsUse.bind fun _ => ?_)
    exact .when_bind (writeAt_keepsUse _ _) (writeAt_keepsUse _ _)
  exact written { file with inUse := file.inUse.erase page.block } rfl

theorem PageFile.release_givesBack {page : Page} {changed : Bool} (same : page.block = block) :
    GivesBack held block (PageFile.release page changed) := by
  subst same
  intro pages uses
  have dropped := BlockFile.release_drops page changed pages.blocks
  rwa [show pages.blocks.inUse = page.block :: held from uses, List.erase_cons_head] at dropped

theorem PageFile.fetch_keepsUse {following : Page → PageM β}
    (rest : ∀ data, GivesBack held block (following ⟨block, data⟩)) :
    Keeps (Uses held) (PageFile.fetch block >>= following) := by
  intro pages uses
  have fetched := (BlockFile.fetch_holds block pages.blocks).onBlocks_either
  rw [bind_apply]
  rcases ran : PageFile.fetch block pages with ⟨error | page, pages'⟩
  · exact BlockFile.Uses.of_counted uses (fetched.of_error ran).2
  · obtain ⟨-, rfl, -, injection, blocks_eq⟩ := fetched.of_ok ran
    have uses' : Uses (page.block :: held) pages' := by
      unfold Uses BlockFile.Uses
      rw [blocks_eq]
      exact congrArg _ uses
    exact rest page.data pages' uses'

theorem GivesBack.bind {first : PageM α} {following : α → PageM β}
    (begins : GivesBack held block first) (rest : ∀ value, Keeps (Uses held) (following value)) :
    GivesBack held block (first >>= following) := by
  intro pages uses
  have begun := begins pages uses
  rw [bind_apply]
  rcases ran : first pages with ⟨error | value, pages'⟩ <;> rw [ran] at begun
  · exact begun
  · exact rest value pages' begun

theorem GivesBack.get_bind {following : PageFile → PageM α}
    (rest : ∀ pages, GivesBack held block (following pages)) :
    GivesBack held block (get >>= following) :=
  fun pages => rest pages pages

end

/-! ## Headers -/

namespace PageFile

variable {α : Type} {held : List BlockId}

theorem blockCount_keepsUse : Keeps (Uses held) blockCount :=
  (BlockFile.size_keepsUse.bind fun _ => .get_bind fun _ => .pure _).onBlocks

theorem setFirst_keepsUse (kind : PageKind) (block : BlockId) :
    Keeps (Uses held) (setFirst kind block) :=
  .modify fun _ => id

theorem setLast_keepsUse (kind : PageKind) (block : BlockId) :
    Keeps (Uses held) (setLast kind block) :=
  .modify fun _ => id

theorem writeFileHeader_keepsUse : Keeps (Uses held) writeFileHeader :=
  fetch_keepsUse fun _ => .get_bind fun _ => release_givesBack rfl

theorem readHeader_keepsUse (block : BlockId) : Keeps (Uses held) (readHeader block) :=
  fetch_keepsUse fun _ => .bind (release_givesBack rfl) fun _ => .ofExcept _

theorem updateHeader_keepsUse (block : BlockId) (update : PageHeader → PageHeader) :
    Keeps (Uses held) (updateHeader block update) := by
  refine fetch_keepsUse fun data => ?_
  cases PageHeader.decode data with
  | ok header => exact release_givesBack rfl
  | error error => exact .bind (release_givesBack rfl) fun _ => .throw _

/-! ## Lists -/

theorem next_keepsUse (block : BlockId) : Keeps (Uses held) (next block) :=
  (readHeader_keepsUse block).bind fun _ => .pure _

theorem unlink_keepsUse (kind : PageKind) (block : BlockId) :
    Keeps (Uses held) (unlink kind block) := by
  refine (readHeader_keepsUse block).bind fun header => ?_
  refine .branch (setFirst_keepsUse _ _) (updateHeader_keepsUse _ _) fun _ => ?_
  split
  · exact setLast_keepsUse _ _
  · exact updateHeader_keepsUse _ _

theorem allocate_keepsUse (kind : PageKind) : Keeps (Uses held) (allocate kind) := by
  have place (block : BlockId) : Keeps (Uses held) (do
      let tail := (← get).last kind
      let page ← fetch block
      let header : PageHeader := ⟨kind, BlockId.header, tail⟩
      let data := header.encode (Bytes.zeros page.data.length)
      release { page with data := data } true
      if tail.isNull then
        setFirst kind block
      else
        updateHeader tail ({ · with next := block })
      setLast kind block
      writeFileHeader
      return block) := by
    refine .get_bind fun pages => fetch_keepsUse fun _ => ?_
    refine .bind (release_givesBack rfl) fun _ => ?_
    refine .branch (setFirst_keepsUse _ _) (updateHeader_keepsUse _ _) fun _ => ?_
    exact (setLast_keepsUse _ _).bind fun _ => writeFileHeader_keepsUse.bind fun _ => .pure _
  unfold allocate
  refine Keeps.when_bind (.throw _) (.get_bind fun pages => ?_)
  dsimp only
  split
  · exact blockCount_keepsUse.bind fun count => (Keeps.pure _).bind place
  · exact (unlink_keepsUse _ _).bind fun _ => (Keeps.pure _).bind place

theorem free_keepsUse (kind : PageKind) (block : BlockId) :
    Keeps (Uses held) (free kind block) := by
  unfold free
  refine Keeps.when_bind (.throw _) ?_
  refine (readHeader_keepsUse block).bind fun current => ?_
  refine Keeps.when_bind (.throw _) ?_
  refine (unlink_keepsUse _ _).bind fun _ => .get_bind fun pages => ?_
  refine (updateHeader_keepsUse _ _).bind fun _ => ?_
  refine .branch (setLast_keepsUse _ _) (updateHeader_keepsUse _ _) fun _ => ?_
  exact (setFirst_keepsUse _ _).bind fun _ => writeFileHeader_keepsUse

/-! ## Walks -/

theorem advance_keepsUse (cursor : Cursor) : Keeps (Uses held) cursor.advance := by
  have finish (following : BlockId) : Keeps (Uses held) (
      if following.isNull then pure (none, cursor)
      else pure (some following, { cursor with current := some following })) := by
    split
    · exact .pure _
    · exact .pure _
  unfold Cursor.advance
  dsimp only
  split
  · exact .get_bind fun pages => finish _
  · exact (next_keepsUse _).bind finish

/-- A walk that stops after any number of steps gives back what its visits give back. -/
theorem searchFrom_keepsUse {visit : BlockId → PageM (Option α)}
    (visits : ∀ block, Keeps (Uses held) (visit block)) (limit : Nat) (cursor : Cursor) :
    Keeps (Uses held) (searchFrom visit limit cursor) := by
  induction limit generalizing cursor with
  | zero => exact .throw _
  | succ limit ih =>
      refine (advance_keepsUse cursor).bind ?_
      rintro ⟨_ | block, following⟩
      · exact .pure _
      · refine (visits block).bind ?_
        rintro (_ | answer)
        · exact ih following
        · exact .pure _

theorem collectFrom_keepsUse {visit : BlockId → PageM (List α)}
    (visits : ∀ block, Keeps (Uses held) (visit block)) (limit : Nat) (cursor : Cursor)
    (collected : List α) : Keeps (Uses held) (collectFrom visit limit cursor collected) := by
  induction limit generalizing cursor collected with
  | zero => exact .throw _
  | succ limit ih =>
      refine (advance_keepsUse cursor).bind ?_
      rintro ⟨_ | block, following⟩
      · exact .pure _
      · exact (visits block).bind fun found => ih following _

theorem count_keepsUse (kind : PageKind) (limit : Nat) :
    Keeps (Uses held) (count kind limit) :=
  .bind (collectFrom_keepsUse (fun _ => .pure _) limit _ _) fun _ => .pure _

end PageFile

/-! ## Free space -/

namespace FreeSpace

variable {held : List BlockId}

theorem fetchFor_keepsUse {α β : Type} {block : BlockId} {compute : Page → Except Error α}
    {following : Page × α → PageM β}
    (rest : ∀ data value, GivesBack held block (following (⟨block, data⟩, value))) :
    Keeps (Uses held) (fetchFor block compute >>= following) := by
  unfold fetchFor
  rw [bind_assoc]
  refine PageFile.fetch_keepsUse fun data => ?_
  cases compute ⟨block, data⟩ with
  | ok value => exact rest data value
  | error error =>
      rw [bind_assoc]
      exact .bind (PageFile.release_givesBack rfl) fun _ => .throw _

theorem takeFrom_keepsUse (size : UInt32) (block : BlockId) :
    Keeps (Uses held) (takeFrom size block) := by
  refine fetchFor_keepsUse fun data found => ?_
  rcases found with _ | ⟨index, slot⟩
  · exact .bind (PageFile.release_givesBack rfl) fun _ => .pure _
  · dsimp only
    split
    · refine .bind (PageFile.release_givesBack rfl) fun _ => ?_
      exact (PageFile.free_keepsUse _ _).bind fun _ => .pure _
    · exact .bind (PageFile.release_givesBack rfl) fun _ => .pure _

theorem fillAndRelease_givesBack {page : Page} {block : BlockId} {index : Nat}
    {slot : FreeSlot} (same : page.block = block) :
    GivesBack held block (fillAndRelease page index slot) := by
  unfold fillAndRelease Page.fillSlot
  dsimp only
  split <;> rename_i filled <;> split at filled
  · cases filled
  · cases filled
    exact PageFile.release_givesBack same
  · exact .bind (PageFile.release_givesBack same) fun _ => .throw _
  · cases filled

theorem giveTo_keepsUse (slot : FreeSlot) (block : BlockId) :
    Keeps (Uses held) (giveTo slot block) := by
  refine fetchFor_keepsUse fun data found => ?_
  rcases found with _ | ⟨index, _⟩
  · exact .bind (PageFile.release_givesBack rfl) fun _ => .pure _
  · exact .bind (fillAndRelease_givesBack rfl) fun _ => .pure _

theorem get_keepsUse (size : UInt32) (limit : Nat) : Keeps (Uses held) (get size limit) :=
  PageFile.searchFrom_keepsUse (takeFrom_keepsUse size) limit _

theorem put_keepsUse (location : Location) (size : UInt32) (limit : Nat) :
    Keeps (Uses held) (put location size limit) := by
  unfold put
  refine Keeps.when_bind (.throw _) (.bind (.ofExcept _) fun _ => ?_)
  refine .bind (PageFile.searchFrom_keepsUse (giveTo_keepsUse _) limit _) fun given => ?_
  split
  · exact .pure _
  · refine (PageFile.allocate_keepsUse _).bind fun block => ?_
    exact PageFile.fetch_keepsUse fun _ => fillAndRelease_givesBack rfl

theorem slotsOf_keepsUse (block : BlockId) : Keeps (Uses held) (slotsOf block) :=
  fetchFor_keepsUse fun _ _ => .bind (PageFile.release_givesBack rfl) fun _ => .pure _

theorem slots_keepsUse (limit : Nat) : Keeps (Uses held) (slots limit) :=
  PageFile.collectFrom_keepsUse slotsOf_keepsUse limit _ _

end FreeSpace

/-- However the action ends, the same blocks are in use as before. -/
def Returns {α : Type} (action : PageM α) : Prop :=
  ∀ pages, (action pages).2.blocks.inUse = pages.blocks.inUse

theorem Returns.of_keeps {α : Type} {action : PageM α}
    (keeps : ∀ held, Keeps (Uses held) action) : Returns action :=
  fun pages => keeps _ pages rfl

/--
Whatever the blocks hold, whichever of them a caller holds and whichever calls fail, an
operation leaves the same blocks in use, whether it succeeds or fails.  The links of a
file may lead in circles.  So what walks along them is given any number of steps, and the
blocks in use are the same where it ends within them and where it is given up.
-/
theorem operations_return_pages :
    (∀ kind, Returns (PageFile.allocate kind)) ∧
    (∀ kind block, Returns (PageFile.free kind block)) ∧
    (∀ block, Returns (PageFile.next block)) ∧
    (∀ cursor : PageFile.Cursor, Returns cursor.advance) ∧
    (∀ kind limit, Returns (PageFile.count kind limit)) ∧
    (∀ location size limit, Returns (FreeSpace.put location size limit)) ∧
    (∀ size limit, Returns (FreeSpace.get size limit)) ∧
    ∀ limit, Returns (FreeSpace.slots limit) :=
  ⟨fun kind => .of_keeps fun _ => PageFile.allocate_keepsUse kind,
    fun kind block => .of_keeps fun _ => PageFile.free_keepsUse kind block,
    fun block => .of_keeps fun _ => PageFile.next_keepsUse block,
    fun cursor => .of_keeps fun _ => PageFile.advance_keepsUse cursor,
    fun kind limit => .of_keeps fun _ => PageFile.count_keepsUse kind limit,
    fun location size limit => .of_keeps fun _ => FreeSpace.put_keepsUse location size limit,
    fun size limit => .of_keeps fun _ => FreeSpace.get_keepsUse size limit,
    fun limit => .of_keeps fun _ => FreeSpace.slots_keepsUse limit⟩

end DirectoryStore.Paging
