import DirectoryStore.Proofs.Paging.FreeSpace
import DirectoryStore.Proofs.Paging.Mounting

/-!
# Runs of a page file

A run opens a page file on an empty byte store, operates on it and opens it again, as
often as it likes.  Each state it reaches holds three sequences of pages that share out
the blocks, and every operation acts on the sequences as on lists.
-/

namespace DirectoryStore.Paging

/-! ## What is stored -/

namespace PageFile

def blockTotal (pages : PageFile) : Nat :=
  pages.blocks.contents.size / pages.blocks.blockSize

def storedBlock (pages : PageFile) (block : BlockId) : Bytes :=
  pages.blocks.contents.slice (pages.blocks.offsetOf block) pages.blocks.blockSize

/-- The size of a byte store is a word of 64 bits. -/
def Representable (pages : PageFile) : Prop := pages.blocks.contents.size < 2 ^ 64

instance (pages : PageFile) : Decidable pages.Representable :=
  inferInstanceAs (Decidable (_ < _))

/-- The offset of the block is a word of 64 bits. -/
def Addresses (pages : PageFile) (block : BlockId) : Prop :=
  pages.blocks.offsetOf block < 2 ^ 64

instance (pages : PageFile) (block : BlockId) : Decidable (pages.Addresses block) :=
  inferInstanceAs (Decidable (_ < _))

end PageFile

/-- The lists are what the page file stores: every block but the first has one place in them. -/
structure Sequences (pages : PageFile) (lists : PageLists) : Prop where
  distinct : ∀ kind, (lists kind).Nodup
  inside : ∀ kind, ∀ block ∈ lists kind, 0 < block.toNat ∧ block.toNat < pages.blockTotal
  partition : ∀ block : BlockId, 0 < block.toNat → block.toNat < pages.blockTotal →
    ∃! kind, block ∈ lists kind
  placed : ∀ kind front block back, lists kind = front ++ block :: back →
    PageHeader.decode (pages.storedBlock block) =
      .ok ⟨kind, back.headD BlockId.header, front.getLastD BlockId.header⟩
  ends : ∀ kind, pages.header.ends kind =
    ⟨(lists kind).headD BlockId.header, (lists kind).getLastD BlockId.header⟩
  stored : FileHeader.decode (pages.storedBlock BlockId.header) = .ok pages.header
  released : pages.blocks.inUse = []

/-- What every operation on the lists does. -/
structure Operates (pages : PageFile) (lists : PageLists) : Prop where
  allocates : ∀ kind, kind ≠ .free → Leads (PageFile.allocate kind) pages
    (fun block pages' => block = lists.fresh pages.blockTotal ∧
      Sequences pages' (lists.allocate kind block))
    fun _ _ => False
  refuses_free : Leads (PageFile.allocate .free) pages (fun _ _ => False)
    fun _ pages' => pages' = pages
  frees : ∀ kind, ∀ block ∈ lists kind, Leads (PageFile.free kind block) pages
    (fun _ pages' => Sequences pages' (lists.free kind block)) fun _ _ => False
  refuses : ∀ kind, ∀ block ∉ lists kind, Leads (PageFile.free kind block) pages
    (fun _ _ => False) fun _ pages' => SameFile pages pages' ∧ Sequences pages' lists
  short : ∀ kind, (lists kind).length + 1 ≤ pages.blockTotal
  walks : ∀ kind front back, lists kind = front ++ back → ∀ limit,
    Leads ((PageFile.Cursor.behind kind front).take limit) pages
      (fun found pages' => found = back.take limit ∧ SameFile pages pages') fun _ _ => False
  counts : ∀ kind limit, (lists kind).length < limit → Leads (PageFile.count kind limit) pages
    (fun number pages' => number = (lists kind).length ∧ SameFile pages pages')
    fun _ _ => False
  reopens : ∀ handle injection, handle.Knows pages.blocks.contents →
    injection.plan = FailurePlan.never →
    Leads PageFile.mount
      (PageFile.unmounted pages.blocks.contents handle injection pages.blocks.blockSize)
      (fun _ pages' => SameFile pages pages' ∧ Sequences pages' lists) fun _ _ => False

section

variable {width : Nat} {blocks : List Bytes} {layout : Layout} {stored : FileHeader}
  {held : List BlockId} {pages : PageFile} {block : BlockId}

theorem PageFile.storedBlock_eq (width_eq : pages.blocks.blockSize = width)
    (whole : Whole width blocks) (bytes_eq : pages.blocks.contents.bytes = joined blocks)
    (inside : block.toNat < blocks.length) :
    pages.storedBlock block = blockAt width blocks block := by
  rw [storedBlock, BlockFile.offsetOf, width_eq, Contents.slice, bytes_eq,
    whole.slice_joined inside]
  simp [blockAt, inside]

theorem Shows.storedBlock_eq (shows : Shows width blocks layout stored held pages)
    (inside : block.toNat < blocks.length) :
    pages.storedBlock block = blockAt width blocks block :=
  PageFile.storedBlock_eq shows.stores.width_eq shows.stores.whole shows.stores.bytes_eq inside

theorem Shows.blockTotal_eq (shows : Shows width blocks layout stored held pages) :
    pages.blockTotal = blocks.length := by
  rw [PageFile.blockTotal, Contents.size_eq, shows.stores.length_eq, shows.stores.width_eq,
    Nat.mul_div_cancel _ shows.stores.positive]

end

namespace Represents

variable {width count : Nat} {layout : Layout} {lists : PageLists} {pages : PageFile}
  {kind : PageKind} {block : BlockId}

theorem width_eq (represents : Represents width count lists layout pages) :
    pages.blocks.blockSize = width := by
  obtain ⟨-, blocks, -, shows⟩ := represents
  exact shows.stores.width_eq

theorem size_eq (represents : Represents width count lists layout pages) :
    pages.blocks.contents.size = count * width := by
  obtain ⟨-, blocks, length, shows⟩ := represents
  rw [Contents.size_eq, shows.stores.length_eq, length]

theorem wide (represents : Represents width count lists layout pages) :
    Settings.minPageSize ≤ width := by
  obtain ⟨-, blocks, -, shows⟩ := represents
  exact shows.wide

theorem blockTotal_eq (represents : Represents width count lists layout pages) :
    pages.blockTotal = count := by
  obtain ⟨-, blocks, length, shows⟩ := represents
  rw [shows.blockTotal_eq, length]

theorem room (represents : Represents width count lists layout pages)
    (representable : pages.Representable) : count < 2 ^ 63 := by
  have wide : count * 64 ≤ count * width := Nat.mul_le_mul_left count represents.wide
  unfold PageFile.Representable at representable
  rw [represents.size_eq] at representable
  omega

theorem sequences (represents : Represents width count lists layout pages) :
    Sequences pages lists := by
  have total := represents.blockTotal_eq
  obtain ⟨⟨threads, covers, positive⟩, blocks, length, shows⟩ := represents
  have inside (kind : PageKind) (block : BlockId) (member : block ∈ lists kind) :=
    (covers block).mp ⟨kind, member⟩
  refine ⟨threads.nodup, ?_, ?_, ?_, ?_, ?_, shows.stores.held_eq⟩
  · rw [total]
    exact inside
  · intro block real below
    rw [total] at below
    obtain ⟨kind, member⟩ := (covers block).mpr ⟨real, below⟩
    exact ⟨kind, member, fun other member' => threads.kind_unique member' member⟩
  · intro kind front block back parts
    have row := (threads.rows kind).1.1
    rw [parts] at row
    have below := (inside kind block (by simp [parts])).2
    rw [shows.storedBlock_eq (by omega)]
    exact shows.decode_eq row.at_place
  · intro kind
    rw [shows.header_eq, threads.ends_eq]
  · have first : BlockId.header.toNat < blocks.length := by
      rw [length]
      exact positive
    rw [shows.storedBlock_eq first, shows.stored_eq, shows.header_eq]

theorem pageOf_storedBlock (represents : Represents width count lists layout pages)
    (listed : block ∈ lists kind) :
    PageOf width layout block ⟨block, pages.storedBlock block⟩ := by
  have below := represents.lt_of_mem listed
  have real := represents.threads.real listed
  obtain ⟨-, blocks, length, shows⟩ := represents
  rw [shows.storedBlock_eq (by omega)]
  exact ⟨rfl, shows.stores.whole.length_blockAt _, (shows.bodies_eq block real).symm⟩

theorem operates (represents : Represents width count lists layout pages)
    (valid : ValidWidth width) (representable : pages.Representable) :
    Operates pages lists := by
  have room := represents.room representable
  have total := represents.blockTotal_eq
  refine ⟨fun kind kind_ne => ?_, Eq.refl pages, fun kind block member => ?_,
    fun kind block outside => ?_, fun kind => ?_, fun kind front back parts limit => ?_,
    fun kind limit enough => ?_, fun handle injection knows quiet => ?_⟩
  · rw [total]
    apply (represents.allocate room kind_ne).imp
    intro block pages' ⟨block_eq, layout', _, allocated⟩
    exact ⟨block_eq, allocated.sequences⟩
  · apply (represents.free room member).imp
    intro _ pages' ⟨layout', _, freed⟩
    exact freed.sequences
  · apply (represents.free_rejected outside).mono
    · exact fun _ _ never => never
    · intro _ pages' ⟨kept, same⟩
      exact ⟨same, kept.sequences⟩
  · rw [total]
    exact represents.length_lt kind
  · exact (represents.take parts limit).imp fun _ _ walked => ⟨walked.1, walked.2.2⟩
  · exact (represents.count_pages enough).imp fun _ _ walked => ⟨walked.1, walked.2.2⟩
  · rw [represents.width_eq]
    exact (represents.mount valid knows quiet).imp
      fun _ _ mounted => ⟨mounted.2, mounted.1.sequences⟩

end Represents

/-! ## Runs -/

def editBody (block : BlockId) (body : Bytes) : PageM Unit := do
  let page ← PageFile.fetch block
  PageFile.release { page with data := page.data.take PageHeader.size ++ body } true

inductive Operation where
  | allocate (kind : PageKind)
  | free (kind : PageKind) (block : BlockId)
  | put (location : Location) (size : UInt32)
  | get (size : UInt32)
  | edit (block : BlockId) (body : Bytes)

namespace Operation

def run : Operation → PageM Unit
  | allocate kind => do
      let _ ← PageFile.allocate kind
  | free kind block => PageFile.free kind block
  | put location size => FreeSpace.put location size
  | get size => do
      let _ ← FreeSpace.get size
  | edit block body => editBody block body

/-- A block to free has an offset, and only pages of data are edited, which keep their size. -/
def Allowed (pages : PageFile) : Operation → Prop
  | free _ block => pages.Addresses block
  | edit block body =>
      (∃ header pages', PageFile.readHeader block pages = (.ok header, pages') ∧
        header.kind = .data) ∧
      PageHeader.size + body.length = pages.blocks.blockSize
  | _ => True

end Operation

/-- The page file is reached from an empty byte store, with failed operations on the way. -/
inductive Reaches (pageSize : Nat) : PageFile → Prop
  | opened {handle : Handle} {injection : Injection Request} {pages : PageFile}
      (knows : handle.Knows .empty) (quiet : injection.plan = FailurePlan.never)
      (mounted : PageFile.mount (PageFile.unmounted .empty handle injection pageSize) =
        (.ok (), pages)) :
      Reaches pageSize pages
  | operated {pages pages' : PageFile} {outcome : Except Error Unit} (operation : Operation)
      (before : Reaches pageSize pages) (allowed : operation.Allowed pages)
      (ran : operation.run pages = (outcome, pages')) (representable : pages'.Representable) :
      Reaches pageSize pages'
  | reopened {pages pages' : PageFile} {handle : Handle} {injection : Injection Request}
      (before : Reaches pageSize pages) (knows : handle.Knows pages.blocks.contents)
      (quiet : injection.plan = FailurePlan.never)
      (mounted : PageFile.mount
        (PageFile.unmounted pages.blocks.contents handle injection pageSize) =
        (.ok (), pages')) :
      Reaches pageSize pages'

section

variable {width count : Nat} {layout : Layout} {lists : PageLists} {pages pages' : PageFile}
  {block : BlockId} {body : Bytes}

theorem Represents.editBody {failed : Error → PageFile → Prop}
    (represents : Represents width count lists layout pages) (listed : block ∈ lists .data)
    (long : PageHeader.size + body.length = width) :
    Leads (editBody block body) pages
      (fun _ pages' => ∃ edited, Represents width count lists (layout.setBody block edited) pages')
      failed := by
  refine Leads.bind (represents.fetch listed) fun page pages' ⟨page_of, holds, _⟩ => ?_
  obtain rfl := page_of.block_eq
  have length := page_of.length_eq
  have kept : page.SameHeader ⟨page.block, page.data.take PageHeader.size ++ body⟩ := by
    refine ⟨rfl, ?_, ?_⟩
    · rw [List.length_append, List.length_take, length]
      omega
    · rw [List.take_append_of_le_length, List.take_take, Nat.min_self]
      rw [List.length_take, length]
      omega
  exact (holds.store listed kept).imp fun _ _ stored => ⟨_, stored⟩

/-- Whatever an operation does, and however it ends, three lists are left. -/
theorem Operation.keeps (operation : Operation)
    (represents : Represents width count lists layout pages) (room : count < 2 ^ 63)
    (allowed : operation.Allowed pages) :
    Leads operation.run pages (fun _ => Kept width) fun _ => Kept width := by
  cases operation with
  | allocate kind =>
      by_cases free : kind = .free
      · subst free
        exact represents.kept
      · refine Leads.bind (represents.allocate room free)
          fun block pages' ⟨_, layout', _, allocated⟩ => ?_
        exact Leads.pure allocated.kept
  | free kind block =>
      by_cases member : block ∈ lists kind
      · apply (represents.free room member).imp
        intro _ pages' ⟨layout', _, freed⟩
        exact freed.kept
      · apply (represents.free_rejected member).mono
        · exact fun _ _ never => never.elim
        · exact fun _ _ rejected => rejected.1.kept
  | put location size => exact represents.put room location size
  | get size => exact Leads.bind (represents.get room size) fun _ _ kept => Leads.pure kept
  | edit block body =>
      obtain ⟨⟨header, pages', read, data⟩, long⟩ := allowed
      have here := (represents.readHeader.of_ok read).1
      have listed := represents.mem_of_heads here
      rw [data] at listed
      rw [represents.width_eq] at long
      exact (represents.editBody listed long).imp fun _ _ ⟨_, edited⟩ => edited.kept

theorem Reaches.first {pageSize : Nat} {handle : Handle} {injection : Injection Request}
    (valid : ValidWidth pageSize) (knows : handle.Knows .empty)
    (quiet : injection.plan = FailurePlan.never) :
    Reaches pageSize
      (PageFile.mount (PageFile.unmounted .empty handle injection pageSize)).2 := by
  obtain ⟨_, pages, mounted, -⟩ := (mount_empty valid knows quiet).succeeds
  rw [mounted]
  exact .opened knows quiet mounted

theorem Reaches.represents {pageSize : Nat} (reached : Reaches pageSize pages) :
    ValidWidth pageSize ∧ pages.Representable ∧ Kept pageSize pages := by
  induction reached with
  | opened knows quiet mounted =>
      have valid := validWidth_of_mount mounted
      obtain ⟨layout, represents⟩ := (mount_empty valid knows quiet).of_ok mounted
      refine ⟨valid, ?_, represents.kept⟩
      have narrow : pageSize ≤ 1024 * 1024 := valid.2
      unfold PageFile.Representable
      rw [represents.size_eq]
      omega
  | operated operation before allowed ran representable ih =>
      obtain ⟨valid, representable', count, lists, layout, represents⟩ := ih
      have keeps := operation.keeps represents (represents.room representable') allowed
      exact ⟨valid, representable, keeps.of_run ran⟩
  | reopened before knows quiet mounted ih =>
      obtain ⟨valid, representable, count, lists, layout, represents⟩ := ih
      obtain ⟨again, same⟩ := (represents.mount valid knows quiet).of_ok mounted
      refine ⟨valid, ?_, again.kept⟩
      unfold PageFile.Representable
      rw [same.contents_eq]
      exact representable

/-- Every state of a run holds three sequences, and its operations act on them. -/
theorem reached_sequences {pageSize : Nat} (reached : Reaches pageSize pages) :
    ∃ lists, Sequences pages lists ∧ Operates pages lists := by
  obtain ⟨valid, representable, count, lists, layout, represents⟩ := reached.represents
  exact ⟨lists, represents.sequences, represents.operates valid representable⟩

end

def sampleOpened : PageFile :=
  (PageFile.mount (PageFile.unmounted .empty .buffer ⟨FailurePlan.never, 0⟩ 64)).2

/-- Two pages of data are allocated, and the first one is freed. -/
def sampleFile : PageFile :=
  let first := ((Operation.allocate .data).run sampleOpened).2
  let second := ((Operation.allocate .data).run first).2
  ((Operation.free .data 1).run second).2

theorem sampleFile_reached : Reaches 64 sampleFile := by
  have knows : Handle.buffer.Knows .empty := Eq.refl 0
  have opened : Reaches 64 sampleOpened := .first (by decide) knows rfl
  have first := opened.operated (.allocate .data) trivial (Prod.eta _).symm (by decide +kernel)
  have second := first.operated (.allocate .data) trivial (Prod.eta _).symm (by decide +kernel)
  exact second.operated (.free .data 1) (show PageFile.Addresses _ 1 by decide +kernel)
    (Prod.eta _).symm (by decide +kernel)

theorem reached_sequences_sampleFile :
    Reaches 64 sampleFile ∧
      (PageFile.list .free PageFile.stepLimit sampleFile).1.toOption = some [1] ∧
      (PageFile.list .data PageFile.stepLimit sampleFile).1.toOption = some [2] ∧
      ∃ lists, Sequences sampleFile lists ∧ Operates sampleFile lists :=
  ⟨sampleFile_reached, by decide +kernel, by decide +kernel,
    reached_sequences sampleFile_reached⟩

end DirectoryStore.Paging
