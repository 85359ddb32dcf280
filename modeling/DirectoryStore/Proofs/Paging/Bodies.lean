import DirectoryStore.Proofs.Paging.Guarding
import DirectoryStore.Proofs.Paging.Lending

/-!
# Bodies of pages of data

Free space is kept in pages of its own, which a walk along their list finds.  Until the
walk has found what it looks for it changes nothing, so that it does not leave its list,
and what is written then is a page of slots or a page that is new to the list.  The pages
of data therefore keep their bodies in all operations, and a page that is allocated is
empty, whatever it held when it was freed.
-/

namespace DirectoryStore.Paging

/-! ## Walks -/

/-- The first page of a list and the links from its pages lead to pages of the row. -/
structure Closed (header : FileHeader) (heads : Heads) (kind : PageKind) (row : List BlockId) :
    Prop where
  first : (header.ends kind).first ≠ BlockId.header → (header.ends kind).first ∈ row
  next : ∀ block ∈ row, ∀ found, heads block = some found →
    found.next ≠ BlockId.header → found.next ∈ row

def PageFile.Cursor.StandsIn (cursor : PageFile.Cursor) (row : List BlockId) : Prop :=
  ∀ block, cursor.current = some block → block ∈ row

theorem Threads.closed {layout : Layout} {lists : PageLists} (threads : Threads layout lists)
    (kind : PageKind) : Closed layout.header layout.heads kind (lists kind) := by
  constructor
  · rw [threads.ends_eq]
    cases lists kind with
    | nil => exact fun real => absurd rfl real
    | cons block rest => exact fun _ => List.mem_cons_self
  · intro block member found here real
    obtain ⟨front, back, parts⟩ := List.append_of_mem member
    rw [threads.heads_eq parts] at here
    obtain rfl := Option.some.inj here
    cases back with
    | nil => exact absurd rfl real
    | cons following rest => simp [parts]

section

variable {width : Nat} {blocks : List Bytes} {header : FileHeader} {guarded row : List BlockId}
  {bodies : BlockId → Bytes} {pages : PageFile} {kind : PageKind} {cursor : PageFile.Cursor}

theorem HasBlocks.advance (has : HasBlocks width blocks header pages)
    (closed : Closed header (headsOf width blocks) cursor.kind row)
    (stands : cursor.StandsIn row) :
    Leads cursor.advance pages
      (fun moved pages' => HasBlocks width blocks header pages' ∧
        ∀ block, moved.1 = some block → block ∈ row ∧
          moved.2 = { cursor with current := some block })
      fun _ => HasBlocks width blocks header := by
  -- Wherever the next page is read from, the cursor stays in the row.
  have finish (following : BlockId) {pages' : PageFile}
      (has : HasBlocks width blocks header pages')
      (inside : following ≠ BlockId.header → following ∈ row) :
      Leads
        (if following.isNull then pure (none, cursor)
          else pure (some following, { cursor with current := some following })) pages'
        (fun moved pages' => HasBlocks width blocks header pages' ∧
          ∀ block, moved.1 = some block → block ∈ row ∧
            moved.2 = { cursor with current := some block })
        fun _ => HasBlocks width blocks header := by
    split
    · exact Leads.pure ⟨has, by simp⟩
    · rename_i real
      refine Leads.pure ⟨has, ?_⟩
      rintro _ ⟨⟩
      exact ⟨inside (mt BlockId.isNull_iff.mpr real), rfl⟩
  unfold PageFile.Cursor.advance
  dsimp only
  cases current : cursor.current with
  | none =>
      apply Leads.get_bind
      rw [pure_bind]
      refine finish _ has ?_
      rw [PageFile.first, has.header_eq]
      exact closed.first
  | some block =>
      have reads : Leads (PageFile.next block) pages
          (fun following pages' => HasBlocks width blocks header pages' ∧
            (following ≠ BlockId.header → following ∈ row))
          fun _ => HasBlocks width blocks header := by
        refine Leads.bind (has.readHeader block) ?_
        rintro found pages' ⟨here, read⟩
        exact Leads.pure ⟨read, closed.next block (stands block current) found here⟩
      refine Leads.bind reads ?_
      rintro following _ ⟨has, inside⟩
      exact finish following has inside

def Searched {α : Type} (width : Nat) (blocks : List Bytes) (header : FileHeader)
    (guarded : List BlockId) (bodies : BlockId → Bytes) : Option α → PageFile → Prop
  | none => HasBlocks width blocks header
  | some _ => Spared width guarded bodies

theorem HasBlocks.spared (has : HasBlocks width blocks header pages)
    (guards : Guards width guarded bodies blocks) : Spared width guarded bodies pages :=
  ⟨_, blocks, header, rfl, has, guards⟩

theorem HasBlocks.searchFrom {α : Type} {visit : BlockId → PageM (Option α)}
    (closed : Closed header (headsOf width blocks) kind row)
    (guards : Guards width guarded bodies blocks)
    (visits : ∀ block ∈ row, ∀ pages, HasBlocks width blocks header pages →
      Leads (visit block) pages (Searched width blocks header guarded bodies)
        fun _ => Spared width guarded bodies)
    (limit : Nat) (has : HasBlocks width blocks header pages) (kind_eq : cursor.kind = kind)
    (stands : cursor.StandsIn row) :
    Leads (PageFile.searchFrom visit limit cursor) pages
      (Searched width blocks header guarded bodies) fun _ => Spared width guarded bodies := by
  induction limit generalizing cursor pages with
  | zero => exact Leads.throw (has.spared guards)
  | succ limit ih =>
      refine Leads.bind ((has.advance (kind_eq ▸ closed) stands).imp_failed
        fun _ _ has => has.spared guards) ?_
      rintro ⟨_ | block, following⟩ pages' ⟨has, found⟩
      · exact Leads.pure has
      · obtain ⟨member, rfl⟩ := found block rfl
        refine Leads.bind (visits block member pages' has) ?_
        rintro (_ | answer) pages'' visited
        · refine ih visited kind_eq ?_
          rintro _ ⟨⟩
          exact member
        · exact Leads.pure visited

theorem HasBlocks.search {α : Type} {visit : BlockId → PageM (Option α)}
    (has : HasBlocks width blocks header pages)
    (closed : Closed header (headsOf width blocks) kind row)
    (guards : Guards width guarded bodies blocks)
    (visits : ∀ block ∈ row, ∀ pages, HasBlocks width blocks header pages →
      Leads (visit block) pages (Searched width blocks header guarded bodies)
        fun _ => Spared width guarded bodies)
    (limit : Nat) :
    Leads (PageFile.search kind visit limit) pages (Searched width blocks header guarded bodies)
      fun _ => Spared width guarded bodies :=
  HasBlocks.searchFrom closed guards visits limit has rfl nofun

end

/-! ## Free space -/

section

variable {width count : Nat} {blocks : List Bytes} {header : FileHeader}
  {guarded : List BlockId} {bodies : BlockId → Bytes} {pages : PageFile} {block : BlockId}

theorem HasBlocks.fetchFor {α : Type} (has : HasBlocks width blocks header pages)
    (block : BlockId) (compute : Page → Except Error α) :
    Leads (FreeSpace.fetchFor block compute) pages
      (fun found pages' => found.1 = ⟨block, blockAt width blocks block⟩ ∧
        compute found.1 = .ok found.2 ∧ HasBlocks width blocks header pages')
      fun _ => HasBlocks width blocks header := by
  refine Leads.bind (has.fetch block) ?_
  rintro _ pages' ⟨rfl, fetched⟩
  cases computed : compute ⟨block, blockAt width blocks block⟩ with
  | ok value => exact Leads.pure ⟨rfl, computed, fetched⟩
  | error error =>
      refine Leads.bind (fetched.putBack _) fun _ _ returned => ?_
      exact Leads.throw returned

theorem Guarded.putBack (page : Page) :
    Keeps (Guarded width count guarded bodies) (PageFile.release page false) := by
  refine .of_leads fun pages ⟨blocks, header, length, has, guards⟩ => ?_
  exact (has.putBack page).mono (fun _ _ has => ⟨blocks, header, length, has, guards⟩)
    fun _ _ has => ⟨blocks, header, length, has, guards⟩

theorem Guarded.storeApart (state : Guarded width count guarded bodies pages) {page : Page}
    (apart : page.block ∉ guarded) (near : page.block.toNat ≤ count)
    (fits : page.data.length = width) :
    Leads (PageFile.release page true) pages (fun _ => Spared width guarded bodies)
      fun _ => Spared width guarded bodies :=
  (state.store near fits).mono (fun _ _ stored => ⟨_, stored.forget apart⟩)
    fun _ _ kept => ⟨count, kept⟩

theorem Guarded.fillAndRelease (state : Guarded width count guarded bodies pages)
    {page : Page} (apart : page.block ∉ guarded) (near : page.block.toNat ≤ count)
    (long : page.data.length = width) {index : Nat} (inside : index < page.slotCapacity)
    (slot : FreeSlot) :
    Leads (FreeSpace.fillAndRelease page index slot) pages
      (fun _ => Spared width guarded bodies) fun _ => Spared width guarded bodies := by
  unfold FreeSpace.fillAndRelease
  cases filled : page.fillSlot index slot with
  | ok page' =>
      have same := Page.fillSlot_sameHeader inside filled
      exact state.storeApart (same.block_eq ▸ apart) (same.block_eq ▸ near)
        (same.length_eq.trans long)
  | error error =>
      refine Leads.bind (state.spares (Guarded.putBack page)) fun _ _ kept => ?_
      exact Leads.throw ⟨count, kept⟩

theorem HasBlocks.giveTo (has : HasBlocks width blocks header pages)
    (guards : Guards width guarded bodies blocks) (apart : block ∉ guarded)
    (near : block.toNat < blocks.length) (slot : FreeSlot) :
    Leads (FreeSpace.giveTo slot block) pages (Searched width blocks header guarded bodies)
      fun _ => Spared width guarded bodies := by
  refine Leads.bind ((has.fetchFor block _).imp_failed fun _ _ has => has.spared guards) ?_
  rintro ⟨page, found⟩ pages' ⟨rfl, computed, fetched⟩
  rcases found with _ | ⟨index, old⟩
  · refine Leads.bind ((fetched.putBack _).imp_failed fun _ _ has => has.spared guards) ?_
    intro _ _ returned
    exact Leads.pure returned
  · have state : Guarded width blocks.length guarded bodies pages' :=
      ⟨blocks, header, rfl, fetched, guards⟩
    refine Leads.bind (state.fillAndRelease apart (Nat.le_of_lt near)
      (has.packs.whole.length_blockAt block) (Page.findSlot_lt computed) slot)
      fun _ _ spared => ?_
    exact Leads.pure spared

theorem HasBlocks.takeFrom (has : HasBlocks width blocks header pages)
    (guards : Guards width guarded bodies blocks) (null : BlockId.header ∉ guarded)
    (apart : block ∉ guarded) (near : block.toNat < blocks.length) (size : UInt32) :
    Leads (FreeSpace.takeFrom size block) pages (Searched width blocks header guarded bodies)
      fun _ => Spared width guarded bodies := by
  refine Leads.bind ((has.fetchFor block _).imp_failed fun _ _ has => has.spared guards) ?_
  rintro ⟨page, found⟩ pages' ⟨rfl, computed, fetched⟩
  rcases found with _ | ⟨index, slot⟩
  · refine Leads.bind ((fetched.putBack _).imp_failed fun _ _ has => has.spared guards) ?_
    intro _ _ returned
    exact Leads.pure returned
  · have state : Guarded width blocks.length guarded bodies pages' :=
      ⟨blocks, header, rfl, fetched, guards⟩
    have same := Page.clearSlot_sameHeader (Page.findSlot_lt computed)
    dsimp only
    split
    · -- A page without slots is not written before it is freed.
      refine Leads.bind (state.spares (Guarded.putBack _)) fun _ _ kept => ?_
      refine Leads.bind (kept.spares (Guarded.free null (Nat.zero_lt_of_lt near) _ _))
        fun _ _ kept => ?_
      exact Leads.pure ⟨_, kept⟩
    · refine Leads.bind (state.storeApart (same.block_eq ▸ apart)
        (same.block_eq ▸ Nat.le_of_lt near)
        (same.length_eq.trans (has.packs.whole.length_blockAt block))) fun _ _ spared => ?_
      exact Leads.pure spared

end

/-! ## The operations -/

/-- A page file with these blocks and lists, whose guarded bodies are of no other list. -/
structure Sheltered (width : Nat) (lists : PageLists) (layout : Layout)
    (blocks : List Bytes) (pages : PageFile) : Prop where
  has : HasBlocks width blocks layout.header pages
  heads_eq : layout.heads = headsOf width blocks
  arranged : Arranged blocks.length lists layout
  guards : Guards width (lists .data) layout.bodies blocks

namespace Sheltered

variable {width : Nat} {lists : PageLists} {layout : Layout} {blocks : List Bytes}
  {pages : PageFile}

theorem apart (sheltered : Sheltered width lists layout blocks pages) {kind : PageKind}
    (other : kind ≠ .data) {block : BlockId} (member : block ∈ lists kind) :
    block ∉ lists .data :=
  fun member' => other (sheltered.arranged.threads.kind_unique member member')

theorem guarded (sheltered : Sheltered width lists layout blocks pages) :
    Guarded width blocks.length (lists .data) layout.bodies pages :=
  ⟨blocks, _, rfl, sheltered.has, sheltered.guards⟩

theorem null (sheltered : Sheltered width lists layout blocks pages) :
    BlockId.header ∉ lists .data :=
  sheltered.arranged.threads.null_notMem .data

theorem closed (sheltered : Sheltered width lists layout blocks pages) :
    Closed layout.header (headsOf width blocks) .freeList (lists .freeList) :=
  sheltered.heads_eq ▸ sheltered.arranged.threads.closed .freeList

theorem allocate (sheltered : Sheltered width lists layout blocks pages)
    (room : blocks.length < 2 ^ 63) (kind : PageKind) :
    Leads (PageFile.allocate kind) pages
      (fun block => Allotted width (lists .data) layout.bodies block)
      fun _ => Spared width (lists .data) layout.bodies := by
  have positive := sheltered.arranged.positive
  have first : pages.first .free = (lists .free).headD BlockId.header := by
    rw [PageFile.first, sheltered.has.header_eq, sheltered.arranged.threads.ends_eq]
  have ends : pages.first .free ∉ lists .data ∧
      (pages.first .free).toNat ≤ blocks.length := by
    rw [first]
    cases parts : lists .free with
    | nil => exact ⟨sheltered.null, Nat.zero_le _⟩
    | cons block rest =>
        have member : block ∈ lists .free := parts ▸ List.mem_cons_self
        exact ⟨sheltered.apart (by decide) member,
          Nat.le_of_lt (sheltered.arranged.lt_of_mem member)⟩
  exact sheltered.guarded.allocate sheltered.null positive room ends.1 ends.2 kind

theorem free (sheltered : Sheltered width lists layout blocks pages) (kind : PageKind)
    (block : BlockId) :
    Leads (PageFile.free kind block) pages
      (fun _ => Spared width (lists .data) layout.bodies)
      fun _ => Spared width (lists .data) layout.bodies := by
  have freed := sheltered.guarded.spares
    (Guarded.free sheltered.null sheltered.arranged.positive kind block)
  exact freed.imp fun _ _ kept => ⟨_, kept⟩

theorem get (sheltered : Sheltered width lists layout blocks pages) (size : UInt32)
    (limit : Nat) :
    Leads (FreeSpace.get size limit) pages
      (fun _ => Spared width (lists .data) layout.bodies)
      fun _ => Spared width (lists .data) layout.bodies := by
  have visits : ∀ block ∈ lists .freeList, ∀ pages,
      HasBlocks width blocks layout.header pages →
      Leads (FreeSpace.takeFrom size block) pages
        (Searched width blocks layout.header (lists .data) layout.bodies)
        fun _ => Spared width (lists .data) layout.bodies :=
    fun block member pages has => has.takeFrom sheltered.guards sheltered.null
      (sheltered.apart (by decide) member) (sheltered.arranged.lt_of_mem member) size
  refine (sheltered.has.search sheltered.closed sheltered.guards visits limit).imp ?_
  rintro (_ | location) pages' searched
  · exact HasBlocks.spared searched sheltered.guards
  · exact searched

theorem put (sheltered : Sheltered width lists layout blocks pages)
    (room : blocks.length < 2 ^ 63) (location : Location) (size : UInt32) (limit : Nat) :
    Leads (FreeSpace.put location size limit) pages
      (fun _ => Spared width (lists .data) layout.bodies)
      fun _ => Spared width (lists .data) layout.bodies := by
  have visits : ∀ block ∈ lists .freeList, ∀ pages,
      HasBlocks width blocks layout.header pages →
      Leads (FreeSpace.giveTo ⟨location, size⟩ block) pages
        (Searched width blocks layout.header (lists .data) layout.bodies)
        fun _ => Spared width (lists .data) layout.bodies :=
    fun block member pages has => has.giveTo sheltered.guards
      (sheltered.apart (by decide) member) (sheltered.arranged.lt_of_mem member) _
  have kept : Spared width (lists .data) layout.bodies pages := ⟨_, sheltered.guarded⟩
  unfold FreeSpace.put
  by_cases empty : size = 0
  · rw [if_pos empty]
    exact Leads.throw_bind kept
  rw [if_neg empty]
  dsimp only
  cases FreeSlot.requireFits ⟨location, size⟩ with
  | error error => exact Leads.throw_bind kept
  | ok fits =>
      apply Leads.ofExcept_bind
      refine Leads.bind (sheltered.has.search sheltered.closed sheltered.guards visits limit) ?_
      rintro (_ | answer) pages' searched
      · -- No page had an empty slot, and nothing has changed: another page is added.
        have again : Sheltered width lists layout blocks pages' :=
          { sheltered with has := searched }
        refine Leads.bind (again.allocate room .freeList) ?_
        rintro block pages'' ⟨apart, count, near, enlarged⟩
        refine Leads.bind (((enlarged.forget apart).fetch block).imp_failed
          fun _ _ kept => ⟨count, kept⟩) ?_
        rintro page _ ⟨rfl, long, fetched⟩
        refine fetched.fillAndRelease apart (Nat.le_of_lt near) long ?_ _
        exact Page.slotCapacity_pos (long ▸ fetched.wide)
      · exact Leads.pure searched

end Sheltered

/-! ## Bodies in reached files -/

namespace PageFile

def body (pages : PageFile) (block : BlockId) : Bytes :=
  (pages.storedBlock block).drop PageHeader.size

/-- The page file while blocks are held, before calls that may fail. -/
def under (pages : PageFile) (held : List BlockId) (injection : Injection Request) :
    PageFile :=
  { pages with blocks := { pages.blocks with inUse := held, injection := injection } }

end PageFile

/-- However the action ends, these blocks have the bodies that they had before. -/
def SparesBodies {α : Type} (blocks : List BlockId) (pages : PageFile) (action : PageM α) :
    Prop :=
  ∀ block ∈ blocks, (action pages).2.body block = pages.body block

section

variable {width count : Nat} {guarded : List BlockId} {bodies : BlockId → Bytes}
  {lists : PageLists} {layout : Layout} {pages : PageFile} {block : BlockId}

theorem Guarded.body_eq (state : Guarded width count guarded bodies pages)
    (member : block ∈ guarded) : pages.body block = bodies block := by
  obtain ⟨blocks, _, -, ⟨packs, -⟩, guards⟩ := state
  rw [PageFile.body, PageFile.storedBlock_eq packs.width_eq packs.whole packs.bytes_eq
    (guards.inside block member)]
  exact guards.bodies_eq block member

theorem Allotted.body_eq (allotted : Allotted width guarded bodies block pages) :
    pages.body block = Bytes.zeros (width - PageHeader.size) := by
  obtain ⟨-, count, -, enlarged⟩ := allotted
  rw [enlarged.body_eq List.mem_cons_self, Function.update_self]

theorem SparesBodies.of_leads {α : Type} {action : PageM α}
    (before : Guarded width count guarded bodies pages)
    (leads : Leads action pages (fun _ => Spared width guarded bodies)
      fun _ => Spared width guarded bodies) : SparesBodies guarded pages action := by
  intro block member
  obtain ⟨count', after⟩ := leads.of_run rfl
  rw [after.body_eq member, before.body_eq member]

theorem Represents.sheltered (represents : Represents width count lists layout pages)
    (held : List BlockId) (injection : Injection Request) :
    ∃ blocks, blocks.length = count ∧
      Sheltered width lists layout blocks (pages.under held injection) := by
  obtain ⟨arranged, blocks, rfl, shows⟩ := represents
  obtain ⟨width_eq, -, whole, bytes_eq, knows, -, -⟩ := shows.stores
  refine ⟨blocks, rfl, ⟨⟨shows.wide, width_eq, whole, bytes_eq, knows⟩, shows.header_eq⟩,
    funext shows.heads_eq, arranged, fun block => arranged.lt_of_mem, fun block member => ?_⟩
  exact (shows.bodies_eq block (arranged.threads.real member)).symm

end

def sampleFilled : PageFile :=
  let filled := ((Operation.edit 1 (List.replicate 46 7)).run samplePage).2
  let second := ((Operation.allocate .data).run filled).2
  ((Operation.free .data 1).run second).2

theorem sampleFilled_reached : Reaches 64 sampleFilled := by
  have header : (PageFile.readHeader 1 samplePage).1 = .ok ⟨.data, 0, 0⟩ := by decide +kernel
  have read : PageFile.readHeader 1 samplePage =
      (.ok ⟨.data, 0, 0⟩, (PageFile.readHeader 1 samplePage).2) := by
    rw [← header, Prod.eta]
  have size : PageHeader.size + (List.replicate 46 (7 : UInt8)).length =
      samplePage.blocks.blockSize := by
    decide +kernel
  have filled := samplePage_reached.operated (.edit 1 (List.replicate 46 7))
    ⟨⟨_, _, read, rfl⟩, size⟩ (Prod.eta _).symm (by decide +kernel)
  have second := filled.operated (.allocate .data) trivial (Prod.eta _).symm (by decide +kernel)
  exact second.operated (.free .data 1) (show PageFile.Addresses _ 1 by decide +kernel)
    (Prod.eta _).symm (by decide +kernel)

end DirectoryStore.Paging
