import DirectoryStore.Proofs.Paging.Sequences
import DirectoryStore.Proofs.Paging.Slots

/-!
# Shelves of free space

The pages of slots are a row of shelves, and all free space is what lies on them from
the first page to the last.  Giving back fills the first empty place of the row and
adds a shelf where there is none.  Taking empties the first place that holds enough,
and a shelf that loses its last slot leaves the row.
-/

namespace DirectoryStore.Paging

/-- A page of slots with its array, the empty slots included. -/
structure Shelf where
  block : BlockId
  slots : List FreeSlot

def Shelf.stock (shelf : Shelf) : List FreeSlot := shelf.slots.filter FreeSlot.isUsed

def stockOf (shelves : List Shelf) : List FreeSlot := shelves.flatMap Shelf.stock

/-! ## Changes of the row -/

/-- The first place that is not in use gets the slot; a row without one gets a page. -/
inductive Adds (capacity : Nat) (fresh : BlockId) (lists : PageLists) (slot : FreeSlot) :
    List Shelf → PageLists → List Shelf → Prop
  | filling {before after : List Shelf} {block : BlockId} {front back : List FreeSlot}
      {old : FreeSlot} (full : ∀ shelf ∈ before, ∀ other ∈ shelf.slots, other.isUsed = true)
      (taken : ∀ other ∈ front, other.isUsed = true) (unused : old.isUsed = false) :
      Adds capacity fresh lists slot (before ++ ⟨block, front ++ old :: back⟩ :: after) lists
        (before ++ ⟨block, front ++ slot :: back⟩ :: after)
  | growing {shelves : List Shelf}
      (full : ∀ shelf ∈ shelves, ∀ other ∈ shelf.slots, other.isUsed = true) :
      Adds capacity fresh lists slot shelves (lists.allocate .freeList fresh)
        (shelves ++ [⟨fresh, slot :: List.replicate (capacity - 1) .empty⟩])

/-- The slot is the first one that holds enough. -/
structure FirstLarge (size : UInt32) (before : List Shelf) (front : List FreeSlot)
    (slot : FreeSlot) : Prop where
  small : ∀ shelf ∈ before, ∀ other ∈ shelf.slots, other.holds size = false
  passed : ∀ other ∈ front, other.holds size = false
  enough : slot.holds size = true

/-- The first slot that holds enough is emptied, and a page that loses its last one is freed. -/
inductive Takes (size : UInt32) (lists : PageLists) (slot : FreeSlot) :
    List Shelf → PageLists → List Shelf → Prop
  | leaving {before after : List Shelf} {block : BlockId} {front back : List FreeSlot}
      (first : FirstLarge size before front slot)
      (others : Shelf.stock ⟨block, front ++ .empty :: back⟩ ≠ []) :
      Takes size lists slot (before ++ ⟨block, front ++ slot :: back⟩ :: after) lists
        (before ++ ⟨block, front ++ .empty :: back⟩ :: after)
  | emptying {before after : List Shelf} {block : BlockId} {front back : List FreeSlot}
      (first : FirstLarge size before front slot)
      (last : Shelf.stock ⟨block, front ++ .empty :: back⟩ = []) :
      Takes size lists slot (before ++ ⟨block, front ++ slot :: back⟩ :: after)
        (lists.free .freeList block) (before ++ after)

section

variable {shelves shelves' before after : List Shelf} {shelf : Shelf} {block : BlockId}
  {front back : List FreeSlot} {slot : FreeSlot} {size : UInt32} {lists lists' : PageLists}

@[simp] theorem stockOf_append : stockOf (before ++ after) = stockOf before ++ stockOf after := by
  simp [stockOf]

@[simp] theorem stockOf_cons : stockOf (shelf :: after) = shelf.stock ++ stockOf after := by
  simp [stockOf]

theorem Shelf.stock_of_used (used : slot.isUsed = true) :
    Shelf.stock ⟨block, front ++ slot :: back⟩ =
      front.filter FreeSlot.isUsed ++ slot :: back.filter FreeSlot.isUsed := by
  simp [Shelf.stock, used]

theorem Shelf.stock_of_unused (unused : slot.isUsed = false) :
    Shelf.stock ⟨block, front ++ slot :: back⟩ =
      front.filter FreeSlot.isUsed ++ back.filter FreeSlot.isUsed := by
  simp [Shelf.stock, unused]

theorem FreeSlot.isUsed_of_ne {location : Location} (nonzero : size ≠ 0) :
    FreeSlot.isUsed ⟨location, size⟩ = true := by
  simpa [FreeSlot.isUsed] using nonzero

theorem FreeSlot.isUsed_empty : empty.isUsed = false := rfl

theorem FreeSlot.lt_of_holds_eq_false (small : slot.holds size = false)
    (used : slot.isUsed = true) : slot.size < size := by
  simpa [FreeSlot.holds, used] using small

theorem FreeSlot.of_holds (enough : slot.holds size = true) :
    slot.isUsed = true ∧ size ≤ slot.size := by
  simpa [FreeSlot.holds] using enough

theorem lt_of_mem_stockOf
    (small : ∀ shelf ∈ shelves, ∀ other ∈ shelf.slots, other.holds size = false)
    (member : slot ∈ stockOf shelves) : slot.size < size := by
  obtain ⟨shelf, listed, member⟩ := List.mem_flatMap.mp member
  obtain ⟨placed, used⟩ := List.mem_filter.mp member
  exact FreeSlot.lt_of_holds_eq_false (small shelf listed slot placed) used

/-- The slot is inserted at one position, and all others are kept in order. -/
theorem Adds.stock {capacity : Nat} {fresh : BlockId}
    (adds : Adds capacity fresh lists slot shelves lists' shelves')
    (used : slot.isUsed = true) :
    ∃ front back, stockOf shelves = front ++ back ∧ stockOf shelves' = front ++ slot :: back := by
  cases adds with
  | @filling before after block front back old full taken unused =>
      refine ⟨stockOf before ++ front.filter FreeSlot.isUsed,
        back.filter FreeSlot.isUsed ++ stockOf after, ?_, ?_⟩
      · simp [Shelf.stock_of_unused unused]
      · simp [Shelf.stock_of_used used]
  | growing full =>
      refine ⟨stockOf shelves, [], (List.append_nil _).symm, ?_⟩
      simp [stockOf, Shelf.stock, used, FreeSlot.isUsed_empty]

/-- The first slot that is large enough is lost, and all others are kept in order. -/
theorem Takes.stock (takes : Takes size lists slot shelves lists' shelves') :
    ∃ front back, stockOf shelves = front ++ slot :: back ∧
      (∀ earlier ∈ front, earlier.size < size) ∧ size ≤ slot.size ∧
      stockOf shelves' = front ++ back := by
  have split {before after : List Shelf} {block : BlockId} {front back : List FreeSlot}
      (first : FirstLarge size before front slot) :
      stockOf (before ++ ⟨block, front ++ slot :: back⟩ :: after) =
          (stockOf before ++ front.filter FreeSlot.isUsed) ++
            slot :: (back.filter FreeSlot.isUsed ++ stockOf after) ∧
        (∀ earlier ∈ stockOf before ++ front.filter FreeSlot.isUsed, earlier.size < size) ∧
        size ≤ slot.size := by
    obtain ⟨used, enough⟩ := FreeSlot.of_holds first.enough
    refine ⟨by simp [Shelf.stock_of_used used], fun earlier member => ?_, enough⟩
    rcases List.mem_append.mp member with member | member
    · exact lt_of_mem_stockOf first.small member
    · obtain ⟨placed, used⟩ := List.mem_filter.mp member
      exact FreeSlot.lt_of_holds_eq_false (first.passed earlier placed) used
  cases takes with
  | leaving first others =>
      obtain ⟨stock_eq, passed, enough⟩ := split first
      refine ⟨_, _, stock_eq, passed, enough, ?_⟩
      simp [Shelf.stock_of_unused FreeSlot.isUsed_empty]
  | emptying first last =>
      obtain ⟨stock_eq, passed, enough⟩ := split first
      refine ⟨_, _, stock_eq, passed, enough, ?_⟩
      rw [Shelf.stock_of_unused FreeSlot.isUsed_empty, List.append_eq_nil_iff] at last
      simp [last.1, last.2]

end

/-! ## Shelves in a file -/

structure Shelf.FilledIn (shelf : Shelf) (width : Nat) (body : Bytes) : Prop where
  slotsIn : SlotsIn width shelf.slots body
  stocked : shelf.stock ≠ []

/-- The pages of slots are the shelves. -/
structure Shelved (width count : Nat) (lists : PageLists) (layout : Layout)
    (shelves : List Shelf) (pages : PageFile) : Prop
    extends Represents width count lists layout pages where
  blocks_eq : lists .freeList = shelves.map Shelf.block
  filled : ∀ shelf ∈ shelves, shelf.FilledIn width (layout.bodies shelf.block)

variable {width count count' : Nat} {lists lists' : PageLists} {layout layout' : Layout}
  {shelves before after : List Shelf} {shelf : Shelf} {block : BlockId} {slot old : FreeSlot}
  {front back array : List FreeSlot} {body : Bytes} {pages pages' : PageFile}
  {failed : Error → PageFile → Prop}

/-! ### The page of a shelf -/

section

variable {page : Page} {accepts : FreeSlot → Bool}

theorem PageOf.slotsIn (page_of : PageOf width layout block page)
    (slotsIn : SlotsIn width array (layout.bodies block)) :
    SlotsIn width array (page.data.drop PageHeader.size) := by
  rw [page_of.body_eq]
  exact slotsIn

theorem PageOf.firstAccepted (page_of : PageOf width layout block page)
    (slotsIn : SlotsIn width array (layout.bodies block)) {found : Option (Nat × FreeSlot)}
    (found_eq : page.findSlot accepts = .ok found) : FirstAccepted accepts array found := by
  obtain ⟨found', found_eq', first⟩ :=
    (page_of.slotsIn slotsIn).findSlot_cases page_of.length_eq accepts
  rw [found_eq] at found_eq'
  rwa [Except.ok.inj found_eq']

theorem PageOf.findSlot_ne_error (page_of : PageOf width layout block page)
    (slotsIn : SlotsIn width array (layout.bodies block)) {error : Error} :
    page.findSlot accepts ≠ .error error := by
  obtain ⟨found, found_eq, -⟩ :=
    (page_of.slotsIn slotsIn).findSlot_cases page_of.length_eq accepts
  rw [found_eq]
  nofun

theorem PageOf.fillSlot_zeros (page_of : PageOf width layout block page)
    (wide : Settings.minPageSize ≤ width) (narrow : width ≤ Settings.maxPageSize)
    (blank : layout.bodies block = Bytes.zeros (width - PageHeader.size)) (fits : slot.Fits)
    (used : slot.isUsed = true) :
    ∃ filled, page.fillSlot 0 slot = .ok filled ∧
      SlotsIn width (slot :: List.replicate (slotsPerPage width - 1) .empty)
        (filled.data.drop PageHeader.size) := by
  have zeros := slotsIn_zeros wide
  obtain ⟨others, capacity⟩ := Nat.exists_eq_succ_of_ne_zero (Nat.ne_of_gt (slotsPerPage_pos wide))
  rw [← blank, capacity, List.replicate_succ, ← List.nil_append (_ :: _)] at zeros
  rw [capacity]
  have filled := (page_of.slotsIn zeros).fillSlot page_of.length_eq wide narrow
    FreeSlot.isUsed_empty fits used
  exact filled

theorem Lacks.rejects (lacks : Lacks width layout accepts block)
    (slotsIn : SlotsIn width array (layout.bodies block)) :
    ∀ slot ∈ array, accepts slot = false := by
  obtain ⟨page, page_of, found_eq⟩ := lacks
  exact page_of.firstAccepted slotsIn found_eq

theorem Represents.slotsOf (represents : Represents width count lists layout pages)
    (listed : block ∈ lists .freeList) (slotsIn : SlotsIn width array (layout.bodies block)) :
    Leads (FreeSpace.slotsOf block) pages
      (Reads width count lists layout pages (array.filter FreeSlot.isUsed)) failed := by
  have read {page : Page} (page_of : PageOf width layout block page) :
      page.usedSlots = .ok (array.filter FreeSlot.isUsed) :=
    (page_of.slotsIn slotsIn).usedSlots_eq page_of.length_eq
  refine Leads.bind ((represents.fetchFor listed _).imp_failed ?_)
    fun ⟨page, found⟩ pages' ⟨page_of, computed, holds, same⟩ => ?_
  · rintro error pages' ⟨⟨page, page_of, computed⟩, -⟩
    rw [read page_of] at computed
    contradiction
  · rw [read page_of] at computed
    obtain rfl := Except.ok.inj computed
    refine Leads.bind (holds.putBack rfl) fun _ pages'' ⟨returned, same'⟩ => ?_
    exact Leads.pure ⟨rfl, returned, same.trans same'⟩

end

namespace Shelved

theorem nodup (shelved : Shelved width count lists layout shelves pages) :
    (shelves.map Shelf.block).Nodup :=
  shelved.blocks_eq ▸ shelved.threads.nodup .freeList

theorem listed (shelved : Shelved width count lists layout shelves pages)
    (member : shelf ∈ shelves) : shelf.block ∈ lists .freeList := by
  rw [shelved.blocks_eq]
  exact List.mem_map_of_mem member

theorem of_listed (shelved : Shelved width count lists layout shelves pages)
    (listed : block ∈ lists .freeList) :
    ∃ shelf ∈ shelves, shelf.block = block := by
  rw [shelved.blocks_eq] at listed
  exact List.mem_map.mp listed

theorem split (shelved : Shelved width count lists layout shelves pages)
    {earlier later : List BlockId} (parts : lists .freeList = earlier ++ block :: later) :
    ∃ before array after, shelves = before ++ ⟨block, array⟩ :: after ∧
      earlier = before.map Shelf.block := by
  rw [shelved.blocks_eq] at parts
  obtain ⟨before, rest, rfl, before_eq, rest_eq⟩ := List.map_eq_append_iff.mp parts
  obtain ⟨shelf, after, rfl, rfl, -⟩ := List.map_eq_cons_iff.mp rest_eq
  exact ⟨before, shelf.slots, after, rfl, before_eq.symm⟩

theorem apart (shelved : Shelved width count lists layout (before ++ shelf :: after) pages)
    {other : Shelf} (member : other ∈ before ++ after) : other.block ≠ shelf.block := by
  have nodup := shelved.nodup
  rw [List.map_append, List.map_cons, List.nodup_middle, List.nodup_cons] at nodup
  intro same
  apply nodup.1
  rw [← List.map_append, ← same]
  exact List.mem_map_of_mem member

theorem moved (shelved : Shelved width count lists layout shelves pages)
    (represents : Represents width count' lists' layout' pages')
    (same : lists' .freeList = lists .freeList)
    (bodies : ∀ block ∈ lists .freeList, layout'.bodies block = layout.bodies block) :
    Shelved width count' lists' layout' shelves pages' := by
  refine ⟨represents, same.trans shelved.blocks_eq, fun shelf member => ?_⟩
  rw [bodies shelf.block (shelved.listed member)]
  exact shelved.filled shelf member

theorem replace
    (shelved : Shelved width count lists layout (before ++ ⟨block, array⟩ :: after) pages)
    (represents : Represents width count lists (layout.setBody block body) pages')
    {array' : List FreeSlot} (filled : Shelf.FilledIn ⟨block, array'⟩ width body) :
    Shelved width count lists (layout.setBody block body) (before ++ ⟨block, array'⟩ :: after)
      pages' := by
  refine ⟨represents, ?_, fun shelf member => ?_⟩
  · rw [shelved.blocks_eq]
    simp
  · have others (member : shelf ∈ before ++ after) :
        shelf.FilledIn width ((layout.setBody block body).bodies shelf.block) := by
      have different : shelf.block ≠ block := shelved.apart member
      rw [Layout.bodies_setBody_of_ne layout different]
      apply shelved.filled
      simp only [List.mem_append, List.mem_cons] at member ⊢
      tauto
    rcases List.mem_append.mp member with member | member
    · exact others (List.mem_append_left _ member)
    · rcases List.mem_cons.mp member with rfl | member
      · rw [Layout.bodies_setBody_self]
        exact filled
      · exact others (List.mem_append_right _ member)

theorem remove
    (shelved : Shelved width count lists layout (before ++ ⟨block, array⟩ :: after) pages)
    (represents : Represents width count (lists.free .freeList block) layout' pages')
    (same : layout'.bodies = layout.bodies) :
    Shelved width count (lists.free .freeList block) layout' (before ++ after) pages' := by
  have erased : (lists .freeList).erase block = (before ++ after).map Shelf.block := by
    have nodup := shelved.nodup
    rw [List.map_append, List.map_cons] at nodup
    rw [shelved.blocks_eq, List.map_append, List.map_cons, erase_middle nodup, List.map_append]
  refine ⟨represents, ?_, fun shelf member => ?_⟩
  · rw [← erased]
    simp [PageLists.free]
  · rw [same]
    apply shelved.filled
    simp only [List.mem_append, List.mem_cons] at member ⊢
    tauto

theorem append (shelved : Shelved width count lists layout shelves pages)
    {blank : Bytes} (grown : layout'.bodies = Function.update layout.bodies block blank)
    (represents : Represents width count' (lists.allocate .freeList block)
      (layout'.setBody block body) pages')
    (filled : Shelf.FilledIn ⟨block, array⟩ width body) :
    Shelved width count' (lists.allocate .freeList block) (layout'.setBody block body)
      (shelves ++ [⟨block, array⟩]) pages' := by
  have row : lists.allocate .freeList block .freeList = lists .freeList ++ [block] := by
    simp [PageLists.allocate]
  have fresh : block ∉ lists .freeList := by
    have nodup := represents.threads.nodup .freeList
    rw [row, ← List.concat_eq_append, List.nodup_concat] at nodup
    exact nodup.1
  refine ⟨represents, ?_, fun shelf member => ?_⟩
  · rw [row, shelved.blocks_eq]
    simp
  · rcases List.mem_append.mp member with member | member
    · have different : shelf.block ≠ block := fun same => fresh (same ▸ shelved.listed member)
      rw [Layout.bodies_setBody_of_ne layout' different, grown, Function.update_of_ne different]
      exact shelved.filled shelf member
    · obtain rfl := List.mem_singleton.mp member
      rw [Layout.bodies_setBody_self]
      exact filled

theorem rejects {accepts : FreeSlot → Bool} {row : List Shelf}
    (shelved : Shelved width count lists layout shelves pages) (inside : row ⊆ shelves)
    (lacks : ∀ block ∈ row.map Shelf.block, Lacks width layout accepts block) :
    ∀ shelf ∈ row, ∀ slot ∈ shelf.slots, accepts slot = false := fun shelf member =>
  (lacks shelf.block (List.mem_map_of_mem member)).rejects
    (shelved.filled shelf (inside member)).slotsIn

/-! ## Looking at all free space -/

theorem slots (shelved : Shelved width count lists layout shelves pages) {limit : Nat}
    (limited : (lists .freeList).length < limit) :
    Leads (FreeSpace.slots limit) pages
      (Reads width count lists layout pages (stockOf shelves)) failed := by
  refine shelved.collect shelved.blocks_eq (fun _ member _ represents => ?_) limited
  exact represents.slotsOf (shelved.listed member) (shelved.filled _ member).slotsIn

/-! ## Taking -/

def Got (width count : Nat) (lists : PageLists) (layout : Layout) (shelves : List Shelf)
    (size : UInt32) (pages : PageFile) : Option Location → PageFile → Prop
  | none, pages' => (∀ slot ∈ stockOf shelves, slot.size < size) ∧
      Shelved width count lists layout shelves pages' ∧ SameFile pages pages'
  | some location, pages' => ∃ slot lists' layout' shelves', location = slot.location ∧
      Takes size lists slot shelves lists' shelves' ∧
      Shelved width count lists' layout' shelves' pages'

theorem get (shelved : Shelved width count lists layout shelves pages)
    (room : count < 2 ^ 63) (size : UInt32) {limit : Nat}
    (limited : (lists .freeList).length < limit) :
    Leads (FreeSpace.get size limit) pages (Got width count lists layout shelves size pages)
      failed := by
  have wide := shelved.wide
  apply (shelved.get_cases room size limited).mono
  · rintro (_ | location) pages' visited
    · obtain ⟨lacks, represents, same⟩ := visited
      rw [shelved.blocks_eq] at lacks
      exact ⟨fun _ => lt_of_mem_stockOf (shelved.rejects (List.Subset.refl _) lacks),
        shelved.moved represents rfl fun _ _ => rfl, same⟩
    · obtain ⟨earlier, block, later, parts, lacks, page, page_of, index, slot, found_eq, rfl,
        stored⟩ := visited
      obtain ⟨before, array, after, rfl, rfl⟩ := shelved.split parts
      have slotsIn := (shelved.filled ⟨block, array⟩ (by simp)).slotsIn
      obtain ⟨front, back, rfl, rfl, passed, enough⟩ := page_of.firstAccepted slotsIn found_eq
      have first : FirstLarge size before front slot :=
        ⟨shelved.rejects (List.subset_append_left _ _) lacks, passed, enough⟩
      have cleared := (page_of.slotsIn slotsIn).clearSlot page_of.length_eq wide
        (FreeSlot.of_holds enough).1
      have long : (page.clearSlot front.length).data.length = width := by
        have inside := Page.findSlot_lt found_eq
        rw [(Page.clearSlot_sameHeader inside).length_eq, page_of.length_eq]
      have counted := cleared.slotCount_eq long wide
      split at stored
      · rename_i zero
        obtain ⟨layout', same, freed⟩ := stored
        rw [zero] at counted
        have last : Shelf.stock ⟨block, front ++ .empty :: back⟩ = [] :=
          List.length_eq_zero_iff.mp counted.symm
        exact ⟨slot, _, layout', _, rfl, .emptying first last, shelved.remove freed same⟩
      · rename_i nonzero
        have others : Shelf.stock ⟨block, front ++ .empty :: back⟩ ≠ [] := by
          intro nothing
          apply nonzero
          rw [← UInt16.toNat_inj, counted]
          exact congrArg List.length nothing
        exact ⟨slot, _, _, _, rfl, .leaving first others,
          shelved.replace stored ⟨cleared, others⟩⟩
  · rintro error pages' ⟨⟨block, listed, page, page_of, found_eq⟩, -⟩
    obtain ⟨shelf, member, rfl⟩ := shelved.of_listed listed
    exact absurd found_eq (page_of.findSlot_ne_error (shelved.filled shelf member).slotsIn)

/-! ## Giving back -/

theorem not_refuses (shelved : Shelved width count lists layout shelves pages)
    (narrow : width ≤ Settings.maxPageSize) (fits : slot.Fits) (used : slot.isUsed = true)
    (listed : block ∈ lists .freeList) {error : Error} :
    ¬ Refuses width layout slot block error := by
  obtain ⟨shelf, member, rfl⟩ := shelved.of_listed listed
  have slotsIn := (shelved.filled shelf member).slotsIn
  rintro ⟨page, page_of, failed_eq | ⟨index, old, found_eq, failed_eq⟩⟩
  · exact page_of.findSlot_ne_error slotsIn failed_eq
  · obtain ⟨front, back, parts, rfl, taken, unused⟩ := page_of.firstAccepted slotsIn found_eq
    rw [parts] at slotsIn
    obtain ⟨filled, filled_eq, -⟩ := (page_of.slotsIn slotsIn).fillSlot page_of.length_eq
      shelved.wide narrow (by simpa using unused) fits used
    rw [failed_eq] at filled_eq
    contradiction

theorem put (shelved : Shelved width count lists layout shelves pages)
    (narrow : width ≤ Settings.maxPageSize) (room : count < 2 ^ 63) {location : Location}
    {size : UInt32} (nonzero : size ≠ 0) (fits : FreeSlot.Fits ⟨location, size⟩) {limit : Nat}
    (limited : (lists .freeList).length < limit) :
    Leads (FreeSpace.put location size limit) pages
      (fun _ pages' => ∃ count' lists' layout' shelves',
        Adds (slotsPerPage width) (lists.fresh count) lists ⟨location, size⟩ shelves lists'
          shelves' ∧
        Shelved width count' lists' layout' shelves' pages') failed := by
  have wide := shelved.wide
  have used : FreeSlot.isUsed ⟨location, size⟩ = true := FreeSlot.isUsed_of_ne nonzero
  apply (shelved.put_cases room nonzero fits.requireFits_eq limited).mono
  · rintro _ pages' (⟨earlier, block, later, parts, full, page, page_of, index, old, filled,
      found_eq, filled_eq, stored⟩ | ⟨full, layout', page, grown, page_of, filled, filled_eq,
      stored⟩)
    · obtain ⟨before, array, after, rfl, rfl⟩ := shelved.split parts
      have slotsIn := (shelved.filled ⟨block, array⟩ (by simp)).slotsIn
      obtain ⟨front, back, rfl, rfl, taken, unused⟩ := page_of.firstAccepted slotsIn found_eq
      have empty_place : old.isUsed = false := by simpa using unused
      obtain ⟨filled', filled_eq', slotsIn'⟩ := (page_of.slotsIn slotsIn).fillSlot
        page_of.length_eq wide narrow empty_place fits used
      rw [filled_eq] at filled_eq'
      obtain rfl := Except.ok.inj filled_eq'
      have stocked : Shelf.stock ⟨block, front ++ ⟨location, size⟩ :: back⟩ ≠ [] := by
        simp [Shelf.stock_of_used used]
      refine ⟨count, lists, _, _, .filling ?_ ?_ empty_place,
        shelved.replace stored ⟨slotsIn', stocked⟩⟩
      · simpa using shelved.rejects (List.subset_append_left _ _) full
      · simpa using taken
    · obtain ⟨filled', filled_eq', slotsIn'⟩ := page_of.fillSlot_zeros wide narrow
        (by rw [grown, Function.update_self]) fits used
      rw [filled_eq] at filled_eq'
      obtain rfl := Except.ok.inj filled_eq'
      have stocked : Shelf.stock ⟨lists.fresh count,
          ⟨location, size⟩ :: List.replicate (slotsPerPage width - 1) .empty⟩ ≠ [] := by
        simp [Shelf.stock, used]
      refine ⟨_, _, _, _, .growing ?_, shelved.append grown stored ⟨slotsIn', stocked⟩⟩
      rw [shelved.blocks_eq] at full
      simpa using shelved.rejects (List.Subset.refl _) full
  · rintro error pages' (⟨⟨block, listed, refused⟩, -⟩ |
      ⟨layout', page, grown, page_of, failed_eq, -⟩)
    · exact absurd refused (shelved.not_refuses narrow fits used listed)
    · obtain ⟨filled, filled_eq, -⟩ := page_of.fillSlot_zeros wide narrow
        (by rw [grown, Function.update_self]) fits used
      rw [failed_eq] at filled_eq
      contradiction

/-! ## Pages of other kinds -/

variable {kind : PageKind}

theorem allocate (shelved : Shelved width count lists layout shelves pages)
    (room : count < 2 ^ 63) (taken : kind ≠ .free) (other : kind ≠ .freeList) :
    Leads (PageFile.allocate kind) pages
      (fun block pages' => ∃ count' layout',
        Shelved width count' (lists.allocate kind block) layout' shelves pages') failed := by
  apply (shelved.toRepresents.allocate room taken).imp
  intro block pages' ⟨_, layout', grown, represents⟩
  have row : lists.allocate kind block .freeList = lists .freeList := by
    simp [PageLists.allocate, other.symm]
  refine ⟨_, layout', shelved.moved represents row fun page listed => ?_⟩
  have appended : block ∈ lists.allocate kind block kind := PageLists.mem_allocate
  have different : page ≠ block := by
    rintro rfl
    rw [← row] at listed
    exact other (represents.threads.kind_unique appended listed)
  rw [grown, Function.update_of_ne different]

theorem free (shelved : Shelved width count lists layout shelves pages)
    (room : count < 2 ^ 63) (listed : block ∈ lists kind) (other : kind ≠ .freeList) :
    Leads (PageFile.free kind block) pages
      (fun _ pages' => ∃ layout',
        Shelved width count (lists.free kind block) layout' shelves pages') failed := by
  apply (shelved.toRepresents.free room listed).imp
  intro _ pages' ⟨layout', same, represents⟩
  refine ⟨layout', shelved.moved represents ?_ fun page _ => by rw [same]⟩
  simp [PageLists.free, other.symm]

theorem editBody (shelved : Shelved width count lists layout shelves pages)
    (listed : block ∈ lists .data) (long : PageHeader.size + body.length = width) :
    Leads (editBody block body) pages
      (fun _ pages' => ∃ layout', Shelved width count lists layout' shelves pages') failed := by
  apply (shelved.toRepresents.editBody listed long).imp
  intro _ pages' ⟨edited, represents⟩
  refine ⟨_, shelved.moved represents rfl fun page listed' => ?_⟩
  apply Layout.bodies_setBody_of_ne
  rintro rfl
  have same := represents.threads.kind_unique listed listed'
  contradiction

end Shelved

end DirectoryStore.Paging
