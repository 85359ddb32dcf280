import DirectoryStore.Proofs.Paging.Shelves

/-!
# First fit over all free space

A run gives back free space and takes it, and changes pages of other kinds meanwhile.
All free space is one list of slots, in the order of the pages and of the slots on
them.  Giving back inserts a slot at one position of it, taking answers the first slot
that is large enough and loses that one, and everything else leaves the list alone.
-/

namespace DirectoryStore.Paging

/-! ## What is stored -/

structure Shelf.StoredIn (shelf : Shelf) (pageSize : Nat) (data : Bytes) : Prop where
  length_eq : shelf.slots.length = slotsPerPage pageSize
  slots_eq : ∀ index slot, shelf.slots[index]? = some slot →
    FreeSlot.decode? (data.drop (slotsOffset + index * FreeSlot.width)) = some slot
  count_eq : (data.word16 slotCountOffset).toNat = shelf.stock.length
  positive : 1 ≤ shelf.stock.length
  bounded : shelf.stock.length ≤ slotsPerPage pageSize

/-- The shelves are the pages of slots of the page file, and all its free space is on them. -/
structure Stocks (pages : PageFile) (lists : PageLists) (shelves : List Shelf) : Prop where
  sequences : Sequences pages lists
  blocks_eq : lists .freeList = shelves.map Shelf.block
  stored : ∀ shelf ∈ shelves,
    shelf.StoredIn pages.blocks.blockSize (pages.storedBlock shelf.block)
  answers : ∀ limit, (lists .freeList).length < limit → Leads (FreeSpace.slots limit) pages
    (fun found pages' => found = stockOf shelves ∧ SameFile pages pages') fun _ _ => False

/-- The operation neither gives back nor takes, and is about pages of other kinds. -/
def Operation.LeavesSlots : Operation → Prop
  | allocate kind => kind ≠ .freeList
  | free kind _ => kind ≠ .freeList
  | edit _ _ => True
  | put _ _ => False
  | get _ => False

/-- What `get` does with the list of all slots, and with the pages that they are on. -/
def TakesFirst (lists : PageLists) (shelves : List Shelf) (size : UInt32) (pages : PageFile) :
    Option Location → PageFile → Prop
  | none, pages' => (∀ slot ∈ stockOf shelves, slot.size < size) ∧ SameFile pages pages' ∧
      Stocks pages' lists shelves
  | some location, pages' => ∃ front slot back lists' shelves',
      stockOf shelves = front ++ slot :: back ∧ (∀ earlier ∈ front, earlier.size < size) ∧
      size ≤ slot.size ∧ location = slot.location ∧ stockOf shelves' = front ++ back ∧
      Takes size lists slot shelves lists' shelves' ∧ Stocks pages' lists' shelves'

/-- What every operation does with all free space, given the steps to walk along its pages. -/
structure FirstFit (pages : PageFile) (lists : PageLists) (shelves : List Shelf) : Prop where
  puts : ∀ location size, size ≠ 0 → FreeSlot.Fits ⟨location, size⟩ →
    ∀ limit, (lists .freeList).length < limit → Leads (FreeSpace.put location size limit) pages
      (fun _ pages' => ∃ front back lists' shelves',
        stockOf shelves = front ++ back ∧
        stockOf shelves' = front ++ ⟨location, size⟩ :: back ∧
        Adds (slotsPerPage pages.blocks.blockSize) (lists.fresh pages.blockTotal) lists
          ⟨location, size⟩ shelves lists' shelves' ∧
        Stocks pages' lists' shelves')
      fun _ _ => False
  refuses : ∀ location size, ¬ (size ≠ 0 ∧ FreeSlot.Fits ⟨location, size⟩) → ∀ limit,
    Leads (FreeSpace.put location size limit) pages (fun _ _ => False)
      fun _ pages' => pages' = pages
  gets : ∀ size limit, (lists .freeList).length < limit →
    Leads (FreeSpace.get size limit) pages (TakesFirst lists shelves size pages) fun _ _ => False
  leaves : ∀ operation : Operation, operation.LeavesSlots → operation.Allowed pages →
    Leads operation.run pages
      (fun _ pages' => ∃ lists', Stocks pages' lists' shelves)
      fun _ pages' => Stocks pages' lists shelves
  reopens : ∀ handle injection, handle.Knows pages.blocks.contents →
    injection.plan = FailurePlan.never →
    Leads PageFile.mount
      (PageFile.unmounted pages.blocks.contents handle injection pages.blocks.blockSize)
      (fun _ pages' => SameFile pages pages' ∧ Stocks pages' lists shelves) fun _ _ => False

/-! ## Runs -/

/-- The page file is reached from an empty byte store; slots change by `put` and `get` only. -/
inductive Serves (pageSize : Nat) : PageFile → Prop
  | opened {handle : Handle} {injection : Injection Request} {pages : PageFile}
      (knows : handle.Knows .empty) (quiet : injection.plan = FailurePlan.never)
      (mounted : PageFile.mount (PageFile.unmounted .empty handle injection pageSize) =
        (.ok (), pages)) :
      Serves pageSize pages
  | gave {pages pages' : PageFile} {outcome : Except Error Unit} (location : Location)
      (size : UInt32) (before : Serves pageSize pages)
      (ran : FreeSpace.put location size PageFile.stepLimit pages = (outcome, pages'))
      (representable : pages'.Representable) :
      Serves pageSize pages'
  | took {pages pages' : PageFile} {outcome : Except Error (Option Location)} (size : UInt32)
      (before : Serves pageSize pages)
      (ran : FreeSpace.get size PageFile.stepLimit pages = (outcome, pages'))
      (representable : pages'.Representable) :
      Serves pageSize pages'
  | operated {pages pages' : PageFile} {outcome : Except Error Unit} (operation : Operation)
      (before : Serves pageSize pages) (leaves : operation.LeavesSlots)
      (allowed : operation.Allowed pages) (ran : operation.run pages = (outcome, pages'))
      (representable : pages'.Representable) :
      Serves pageSize pages'
  | reopened {pages pages' : PageFile} {handle : Handle} {injection : Injection Request}
      (before : Serves pageSize pages) (knows : handle.Knows pages.blocks.contents)
      (quiet : injection.plan = FailurePlan.never)
      (mounted : PageFile.mount
        (PageFile.unmounted pages.blocks.contents handle injection pageSize) =
        (.ok (), pages')) :
      Serves pageSize pages'

section

variable {width count : Nat} {layout : Layout} {lists : PageLists} {shelves : List Shelf}
  {pages pages' : PageFile}

def Stocked (width : Nat) (pages : PageFile) : Prop :=
  ∃ count lists layout shelves, Shelved width count lists layout shelves pages

theorem Shelved.stocked (shelved : Shelved width count lists layout shelves pages) :
    Stocked width pages :=
  ⟨count, lists, layout, shelves, shelved⟩

theorem Shelved.stocks (shelved : Shelved width count lists layout shelves pages) :
    Stocks pages lists shelves := by
  refine ⟨shelved.sequences, shelved.blocks_eq, fun shelf member => ?_,
    fun limit limited => (shelved.slots limited).imp
      fun _ _ ⟨found_eq, _, same⟩ => ⟨found_eq, same⟩⟩
  have page_of := shelved.pageOf_storedBlock (shelved.listed member)
  obtain ⟨slotsIn, stocked⟩ := shelved.filled shelf member
  have stored := page_of.slotsIn slotsIn
  rw [shelved.width_eq]
  exact ⟨slotsIn.length_eq, fun _ _ here => stored.decode?_eq here,
    stored.slotCount_eq page_of.length_eq shelved.wide, List.length_pos_iff.mpr stocked,
    slotsIn.used_le⟩

theorem put_refused {location : Location} {size : UInt32}
    (refused : ¬ (size ≠ 0 ∧ FreeSlot.Fits ⟨location, size⟩)) (limit : Nat)
    (pages : PageFile) :
    Leads (FreeSpace.put location size limit) pages (fun _ _ => False)
      fun _ pages' => pages' = pages := by
  unfold FreeSpace.put
  by_cases nonzero : size = 0
  · rw [if_pos nonzero]
    exact Leads.throw_bind rfl
  · have unfit : ¬ FreeSlot.Fits ⟨location, size⟩ := fun fits => refused ⟨nonzero, fits⟩
    obtain ⟨error, error_eq⟩ := FreeSlot.requireFits_eq_error unfit
    simp only [nonzero, if_false, error_eq]
    exact Leads.throw_bind rfl

theorem Shelved.operation (shelved : Shelved width count lists layout shelves pages)
    (room : count < 2 ^ 63) {operation : Operation} (leaves : operation.LeavesSlots)
    (allowed : operation.Allowed pages) :
    Leads operation.run pages
      (fun _ pages' => ∃ count' lists' layout', Shelved width count' lists' layout' shelves pages')
      fun _ pages' => ∃ layout', Shelved width count lists layout' shelves pages' := by
  cases operation with
  | allocate kind =>
      by_cases free : kind = .free
      · subst free
        exact ⟨layout, shelved⟩
      · refine Leads.bind (shelved.allocate room free leaves)
          fun block pages' ⟨count', layout', allocated⟩ => ?_
        exact Leads.pure ⟨count', _, layout', allocated⟩
  | free kind block =>
      by_cases member : block ∈ lists kind
      · exact (shelved.free room member leaves).imp
          fun _ _ ⟨layout', freed⟩ => ⟨count, _, layout', freed⟩
      · exact (shelved.free_rejected member).mono (fun _ _ never => never.elim)
          fun _ _ ⟨kept, _⟩ => ⟨layout, shelved.moved kept rfl fun _ _ => rfl⟩
  | put location size => exact leaves.elim
  | get size => exact leaves.elim
  | edit block body =>
      obtain ⟨⟨header, pages', read, data⟩, long⟩ := allowed
      have here := (shelved.readHeader.of_ok read).1
      have listed := shelved.mem_of_heads here
      rw [data] at listed
      rw [shelved.width_eq] at long
      exact (shelved.editBody listed long).imp
        fun _ _ ⟨layout', edited⟩ => ⟨count, lists, layout', edited⟩

theorem Shelved.mount {handle : Handle} {injection : Injection Request}
    (shelved : Shelved width count lists layout shelves pages) (valid : ValidWidth width)
    (knows : handle.Knows pages.blocks.contents) (quiet : injection.plan = FailurePlan.never) :
    Leads PageFile.mount (PageFile.unmounted pages.blocks.contents handle injection width)
      (fun _ pages' => Shelved width count lists layout shelves pages' ∧ SameFile pages pages')
      fun _ _ => False :=
  (shelved.toRepresents.mount valid knows quiet).imp
    fun _ _ ⟨again, same⟩ => ⟨shelved.moved again rfl fun _ _ => rfl, same⟩

theorem Shelved.firstFit (shelved : Shelved width count lists layout shelves pages)
    (valid : ValidWidth width) (representable : pages.Representable) :
    FirstFit pages lists shelves := by
  have room := shelved.room representable
  refine ⟨fun location size nonzero fits limit limited => ?_,
    fun location size refused limit => put_refused refused limit pages,
    fun size limit limited => ?_, fun operation leaves allowed => ?_,
    fun handle injection knows quiet => ?_⟩
  · apply (shelved.put valid.2 room nonzero fits limited).imp
    intro _ pages' ⟨count', lists', layout', shelves', adds, shelved'⟩
    obtain ⟨front, back, stock_eq, stock_eq'⟩ := adds.stock (FreeSlot.isUsed_of_ne nonzero)
    rw [shelved.width_eq, shelved.blockTotal_eq]
    exact ⟨front, back, lists', shelves', stock_eq, stock_eq', adds, shelved'.stocks⟩
  · apply (shelved.get room size limited).imp
    rintro (_ | location) pages' got
    · obtain ⟨small, shelved', same⟩ := got
      exact ⟨small, same, shelved'.stocks⟩
    · obtain ⟨slot, lists', layout', shelves', location_eq, takes, shelved'⟩ := got
      obtain ⟨front, back, stock_eq, passed, enough, stock_eq'⟩ := takes.stock
      exact ⟨front, slot, back, lists', shelves', stock_eq, passed, enough, location_eq,
        stock_eq', takes, shelved'.stocks⟩
  · apply (shelved.operation room leaves allowed).mono
    · exact fun _ _ ⟨_, lists', _, shelved'⟩ => ⟨lists', shelved'.stocks⟩
    · exact fun _ _ ⟨_, shelved'⟩ => shelved'.stocks
  · rw [shelved.width_eq]
    exact (shelved.mount valid knows quiet).imp
      fun _ _ ⟨again, same⟩ => ⟨same, again.stocks⟩

theorem Serves.first {pageSize : Nat} {handle : Handle} {injection : Injection Request}
    (valid : ValidWidth pageSize) (knows : handle.Knows .empty)
    (quiet : injection.plan = FailurePlan.never) :
    Serves pageSize
      (PageFile.mount (PageFile.unmounted .empty handle injection pageSize)).2 := by
  obtain ⟨_, pages, mounted, -⟩ := (mount_empty valid knows quiet).succeeds
  rw [mounted]
  exact .opened knows quiet mounted

/-- Whatever is given back, and however that ends, the pages of slots are shelves. -/
theorem Shelved.keeps_put (shelved : Shelved width count lists layout shelves pages)
    (valid : ValidWidth width) (room : count < 2 ^ 63) (location : Location) (size : UInt32) :
    Leads (FreeSpace.put location size) pages (fun _ => Stocked width) fun _ => Stocked width := by
  have limited := shelved.length_lt_stepLimit room .freeList
  by_cases accepted : size ≠ 0 ∧ FreeSlot.Fits ⟨location, size⟩
  · exact (shelved.put valid.2 room accepted.1 accepted.2 limited).imp
      fun _ _ ⟨_, _, _, _, _, shelved'⟩ => shelved'.stocked
  · apply (put_refused accepted PageFile.stepLimit pages).mono
    · exact fun _ _ never => never.elim
    · rintro _ _ rfl
      exact shelved.stocked

theorem Shelved.keeps_get (shelved : Shelved width count lists layout shelves pages)
    (room : count < 2 ^ 63) (size : UInt32) :
    Leads (FreeSpace.get size) pages (fun _ => Stocked width) fun _ => Stocked width := by
  apply (shelved.get room size (shelved.length_lt_stepLimit room .freeList)).imp
  rintro (_ | location) pages' got
  · exact got.2.1.stocked
  · obtain ⟨_, _, _, _, -, -, shelved'⟩ := got
    exact shelved'.stocked

theorem Serves.shelved {pageSize : Nat} (served : Serves pageSize pages) :
    ValidWidth pageSize ∧ pages.Representable ∧ Stocked pageSize pages := by
  induction served with
  | opened knows quiet mounted =>
      have valid := validWidth_of_mount mounted
      obtain ⟨layout, represents⟩ := (mount_empty valid knows quiet).of_ok mounted
      refine ⟨valid, (Reaches.opened knows quiet mounted).represents.2.1, 1, _, layout, [],
        represents, rfl, ?_⟩
      exact fun _ impossible => nomatch impossible
  | gave location size before ran representable ih =>
      obtain ⟨valid, representable', count, lists, layout, shelves, shelved⟩ := ih
      have keeps := shelved.keeps_put valid (shelved.room representable') location size
      exact ⟨valid, representable, keeps.of_run ran⟩
  | took size before ran representable ih =>
      obtain ⟨valid, representable', count, lists, layout, shelves, shelved⟩ := ih
      have keeps := shelved.keeps_get (shelved.room representable') size
      exact ⟨valid, representable, keeps.of_run ran⟩
  | operated operation before leaves allowed ran representable ih =>
      obtain ⟨valid, representable', count, lists, layout, shelves, shelved⟩ := ih
      have keeps := shelved.operation (shelved.room representable') leaves allowed
      refine ⟨valid, representable, (keeps.mono ?_ ?_).of_run ran⟩
      · exact fun _ _ ⟨_, _, _, shelved'⟩ => shelved'.stocked
      · exact fun _ _ ⟨_, shelved'⟩ => shelved'.stocked
  | reopened before knows quiet mounted ih =>
      obtain ⟨valid, representable, count, lists, layout, shelves, shelved⟩ := ih
      obtain ⟨again, same⟩ := (shelved.mount valid knows quiet).of_ok mounted
      refine ⟨valid, ?_, again.stocked⟩
      unfold PageFile.Representable
      rw [same.contents_eq]
      exact representable

end

/-- Three slots come on two pages, and two of them are taken, so that one page is left. -/
def sampleStock : PageFile :=
  let first := (FreeSpace.put ⟨7, 0⟩ 10 PageFile.stepLimit sampleOpened).2
  let second := (FreeSpace.put ⟨7, 10⟩ 30 PageFile.stepLimit first).2
  let third := (FreeSpace.put ⟨8, 0⟩ 20 PageFile.stepLimit second).2
  let fewer := (FreeSpace.get 15 PageFile.stepLimit third).2
  (FreeSpace.get 15 PageFile.stepLimit fewer).2

theorem sampleStock_served : Serves 64 sampleStock := by
  have knows : Handle.buffer.Knows .empty := Eq.refl 0
  have opened : Serves 64 sampleOpened := .first (by decide) knows rfl
  have first := opened.gave ⟨7, 0⟩ 10 (Prod.eta _).symm (by decide +kernel)
  have second := first.gave ⟨7, 10⟩ 30 (Prod.eta _).symm (by decide +kernel)
  have third := second.gave ⟨8, 0⟩ 20 (Prod.eta _).symm (by decide +kernel)
  have fewer := third.took 15 (Prod.eta _).symm (by decide +kernel)
  exact fewer.took 15 (Prod.eta _).symm (by decide +kernel)

end DirectoryStore.Paging
