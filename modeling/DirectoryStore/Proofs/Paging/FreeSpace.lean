import DirectoryStore.Paging.FreeSpace
import DirectoryStore.Proofs.Paging.Walking

/-!
# Free space keeps the lists

Slots stand behind the header of a page and inside it, so filling or emptying one
leaves the lists as they are.  Only an emptied page is freed and only a file with no
empty slot gets another page, and however such an operation ends, the file represents
three sequences afterwards.
-/

namespace DirectoryStore.Paging

/-! ## Slots behind the header -/

theorem slotsPerPage_pos {width : Nat} (wide : Settings.minPageSize ≤ width) :
    0 < slotsPerPage width := by
  have room : FreeSlot.width ≤ width - slotsOffset := by
    have least : Settings.minPageSize = 64 := rfl
    have offset : slotsOffset = 20 := rfl
    have slot : FreeSlot.width = 16 := rfl
    omega
  exact Nat.div_pos room (by decide)

namespace Page

structure SameHeader (page page' : Page) : Prop where
  block_eq : page'.block = page.block
  length_eq : page'.data.length = page.data.length
  front_eq : page'.data.take PageHeader.size = page.data.take PageHeader.size

variable {page page' : Page}

theorem slot_inside {index : Nat} (inside : index < page.slotCapacity) :
    slotsOffset + index * FreeSlot.width + FreeSlot.width ≤ page.data.length := by
  have room : (index + 1) * FreeSlot.width ≤ page.data.length - slotsOffset :=
    Nat.le_trans (Nat.mul_le_mul_right _ inside) (Nat.div_mul_le_self _ _)
  have width : FreeSlot.width = 16 := rfl
  rw [Nat.add_mul, Nat.one_mul] at room
  omega

theorem slotCapacity_pos (wide : Settings.minPageSize ≤ page.data.length) :
    0 < page.slotCapacity :=
  slotsPerPage_pos wide

theorem setSlot_sameHeader {index : Nat} (inside : index < page.slotCapacity)
    (slot : FreeSlot) (count : UInt16) : page.SameHeader (page.setSlot index slot count) := by
  have room := slot_inside inside
  have offset : slotsOffset = PageHeader.size + 2 := rfl
  have count_offset : slotCountOffset = PageHeader.size := rfl
  have slot_length : slot.encode.length = FreeSlot.width := by simp [FreeSlot.encode]; rfl
  have slot_written : slot.encode ≠ [] := List.ne_nil_of_length_pos (by rw [slot_length]; decide)
  have count_written : Bytes.ofWord16 count ≠ [] := List.ne_nil_of_length_pos (by simp)
  have kept : (page.data.overwrite (slotsOffset + index * FreeSlot.width) slot.encode).length =
      page.data.length := by
    rw [Bytes.length_overwrite _ _ _ slot_written, slot_length]
    omega
  unfold setSlot
  refine ⟨rfl, ?_, ?_⟩
  · rw [Bytes.length_overwrite _ _ _ count_written, kept, Bytes.length_ofWord16]
    omega
  · rw [Bytes.take_overwrite (by omega) (by omega), Bytes.take_overwrite (by omega) (by omega)]

theorem clearSlot_sameHeader {index : Nat} (inside : index < page.slotCapacity) :
    page.SameHeader (page.clearSlot index) :=
  setSlot_sameHeader inside _ _

theorem fillSlot_sameHeader {index : Nat} {slot : FreeSlot} (inside : index < page.slotCapacity)
    (filled : page.fillSlot index slot = .ok page') : page.SameHeader page' := by
  unfold fillSlot at filled
  simp only at filled
  split at filled
  · contradiction
  · rw [← Except.ok.inj filled]
    exact setSlot_sameHeader inside _ _

theorem findSlotFrom_lt {accepts : FreeSlot → Bool} {start left index : Nat} {bytes : Bytes}
    {slot : FreeSlot}
    (found : page.findSlotFrom accepts start left bytes = .ok (some (index, slot))) :
    index < start + left := by
  induction left generalizing start bytes with
  | zero => simp [findSlotFrom] at found
  | succ left ih =>
      unfold findSlotFrom at found
      split at found
      · contradiction
      · split at found
        · obtain ⟨rfl, -⟩ := Prod.mk.inj (Option.some.inj (Except.ok.inj found))
          omega
        · have := ih found
          omega

theorem findSlot_lt {accepts : FreeSlot → Bool} {index : Nat} {slot : FreeSlot}
    (found : page.findSlot accepts = .ok (some (index, slot))) : index < page.slotCapacity := by
  have := findSlotFrom_lt found
  omega

end Page

/-! ## Pages that are held -/

structure PageOf (width : Nat) (layout : Layout) (block : BlockId) (page : Page) : Prop where
  block_eq : page.block = block
  length_eq : page.data.length = width
  body_eq : page.data.drop PageHeader.size = layout.bodies block

/-- The lists stand while one page is in use. -/
structure Holds (width count : Nat) (lists : PageLists) (layout : Layout) (page : Page)
    (pages : PageFile) : Prop extends Arranged count lists layout where
  shown : ∃ blocks, blocks.length = count ∧ page.data = blockAt width blocks page.block ∧
    Shows width blocks layout layout.header [page.block] pages

section

variable {width count : Nat} {layout : Layout} {lists : PageLists} {pages : PageFile}
  {kind : PageKind} {block : BlockId} {page page' : Page} {failed : Error → PageFile → Prop}

theorem Represents.fetch (represents : Represents width count lists layout pages)
    (listed : block ∈ lists kind) :
    Leads (PageFile.fetch block) pages
      (fun page pages' => PageOf width layout block page ∧
        Holds width count lists layout page pages' ∧ SameFile pages pages')
      failed := by
  obtain ⟨arranged, blocks, length, shows⟩ := represents
  apply (shows.fetch List.not_mem_nil).imp
  rintro page pages' ⟨rfl, fetched⟩
  exact ⟨⟨rfl, shows.stores.whole.length_blockAt _,
    (shows.bodies_eq block (arranged.threads.real listed)).symm⟩,
    ⟨arranged, blocks, length, rfl, fetched⟩, shows.sameFile fetched⟩

theorem Holds.putBack (holds : Holds width count lists layout page pages)
    (same : page'.block = page.block) :
    Leads (PageFile.release page' false) pages
      (fun _ pages' => Represents width count lists layout pages' ∧ SameFile pages pages')
      failed := by
  obtain ⟨arranged, blocks, length, -, shows⟩ := holds
  rw [← same] at shows
  apply (shows.putBack page'.data).imp
  exact fun _ pages' returned => ⟨⟨arranged, blocks, length, returned⟩, shows.sameFile returned⟩

theorem Holds.store (holds : Holds width count lists layout page pages)
    (listed : page.block ∈ lists kind) (same : page.SameHeader page') :
    Leads (PageFile.release page' true) pages
      (fun _ => Represents width count lists
        (layout.setBody page.block (page'.data.drop PageHeader.size))) failed := by
  obtain ⟨arranged, blocks, length, data_eq, shows⟩ := holds
  obtain ⟨header, here, -⟩ := arranged.threads.of_mem listed
  have long : page.data.length = width := by
    rw [data_eq, shows.stores.whole.length_blockAt]
  have size : PageHeader.size ≤ width := Nat.le_trans (by decide) shows.wide
  have written : PageHeader.decode page'.data = .ok header := by
    have kept := PageHeader.decode_of_take_eq (by rw [same.length_eq, long]; exact size)
      (by rw [long]; exact size) same.front_eq
    rw [kept, data_eq, shows.decode_eq here]
  have inside := shows.inside here
  have real := arranged.threads.real listed
  rw [← same.block_eq] at shows real inside here ⊢
  have unchanged : (layout.setBody page'.block (page'.data.drop PageHeader.size)).put page'.block
      header = layout.setBody page'.block (page'.data.drop PageHeader.size) := by
    rw [Layout.put, ← here]
    exact congrArg (fun heads => { layout.setBody _ _ with heads := heads })
      (Function.update_eq_self _ _)
  apply (shows.store real (same.length_eq.trans long) written).imp
  intro _ pages' stored
  rw [unchanged] at stored
  refine ⟨⟨arranged.threads.setBody _ _, arranged.covers, arranged.positive⟩, _, ?_, stored⟩
  rw [length_putBlock]
  omega

theorem Represents.fetchFor {α : Type} (represents : Represents width count lists layout pages)
    (listed : block ∈ lists kind) (compute : Page → Except Error α) :
    Leads (FreeSpace.fetchFor block compute) pages
      (fun found pages' => PageOf width layout block found.1 ∧ compute found.1 = .ok found.2 ∧
        Holds width count lists layout found.1 pages' ∧ SameFile pages pages')
      fun error pages' => (∃ page, PageOf width layout block page ∧
        compute page = .error error) ∧ Represents width count lists layout pages' := by
  refine Leads.bind (represents.fetch listed) fun page pages' ⟨page_of, holds, same⟩ => ?_
  cases computed : compute page with
  | ok value => exact Leads.pure ⟨page_of, computed, holds, same⟩
  | error error =>
      refine Leads.bind (holds.putBack rfl) fun _ pages'' ⟨returned, _⟩ => ?_
      exact Leads.throw ⟨⟨page, page_of, computed⟩, returned⟩

/-! ## One page -/

theorem Holds.fillAndRelease (holds : Holds width count lists layout page pages)
    (listed : page.block ∈ lists kind) {index : Nat} (inside : index < page.slotCapacity)
    (slot : FreeSlot) :
    Leads (FreeSpace.fillAndRelease page index slot) pages
      (fun _ pages' => ∃ filled, page.fillSlot index slot = .ok filled ∧
        Represents width count lists
          (layout.setBody page.block (filled.data.drop PageHeader.size)) pages')
      fun error pages' => page.fillSlot index slot = .error error ∧
        Represents width count lists layout pages' := by
  unfold FreeSpace.fillAndRelease
  cases filled : page.fillSlot index slot with
  | ok page' =>
      apply (holds.store listed (Page.fillSlot_sameHeader inside filled)).imp
      exact fun _ pages' stored => ⟨page', rfl, stored⟩
  | error error =>
      refine Leads.bind (holds.putBack rfl) fun _ pages' ⟨returned, _⟩ => ?_
      exact Leads.throw ⟨rfl, returned⟩

/-- What giving a slot to one page comes to. -/
def GivenTo (width count : Nat) (lists : PageLists) (layout : Layout) (slot : FreeSlot)
    (block : BlockId) (pages : PageFile) (page : Page) : Option Unit → PageFile → Prop
  | none, pages' => page.findSlot (!·.isUsed) = .ok none ∧
      Represents width count lists layout pages' ∧ SameFile pages pages'
  | some _, pages' => ∃ index old filled,
      page.findSlot (!·.isUsed) = .ok (some (index, old)) ∧
        page.fillSlot index slot = .ok filled ∧
        Represents width count lists
          (layout.setBody block (filled.data.drop PageHeader.size)) pages'

def Refuses (width : Nat) (layout : Layout) (slot : FreeSlot) (block : BlockId) (error : Error) :
    Prop :=
  ∃ page, PageOf width layout block page ∧
    (page.findSlot (!·.isUsed) = .error error ∨
      ∃ index old, page.findSlot (!·.isUsed) = .ok (some (index, old)) ∧
        page.fillSlot index slot = .error error)

theorem Represents.giveTo (represents : Represents width count lists layout pages)
    (slot : FreeSlot) (listed : block ∈ lists kind) :
    Leads (FreeSpace.giveTo slot block) pages
      (fun answer pages' => ∃ page, PageOf width layout block page ∧
        GivenTo width count lists layout slot block pages page answer pages')
      fun error pages' => Refuses width layout slot block error ∧
        Represents width count lists layout pages' := by
  refine Leads.bind ((represents.fetchFor listed _).imp_failed
    fun error pages' ⟨⟨page, page_of, computed⟩, returned⟩ =>
      ⟨⟨page, page_of, .inl computed⟩, returned⟩)
    fun ⟨page, found⟩ pages' ⟨page_of, computed, holds, same⟩ => ?_
  cases found with
  | none =>
      refine Leads.bind (holds.putBack rfl) fun _ pages'' ⟨returned, same'⟩ => ?_
      exact Leads.pure ⟨page, page_of, computed, returned, same.trans same'⟩
  | some found =>
      obtain ⟨index, old⟩ := found
      have inside := Page.findSlot_lt computed
      have here := page_of.block_eq
      rw [← here] at listed
      refine Leads.bind ((holds.fillAndRelease listed inside slot).imp_failed
          fun error pages'' ⟨unfilled, returned⟩ =>
            ⟨⟨page, page_of, .inr ⟨index, old, computed, unfilled⟩⟩, returned⟩)
        fun _ pages'' ⟨filled, filled_eq, stored⟩ => ?_
      rw [here] at stored
      exact Leads.pure ⟨page, page_of, index, old, filled, computed, filled_eq, stored⟩

def FreeSlot.holds (size : UInt32) (slot : FreeSlot) : Bool := slot.isUsed && size ≤ slot.size

/-- What taking a slot from one page comes to. -/
def TakenFrom (width count : Nat) (lists : PageLists) (layout : Layout) (size : UInt32)
    (block : BlockId) (pages : PageFile) (page : Page) : Option Location → PageFile → Prop
  | none, pages' => page.findSlot (FreeSlot.holds size) = .ok none ∧
      Represents width count lists layout pages' ∧ SameFile pages pages'
  | some location, pages' => ∃ index slot,
      page.findSlot (FreeSlot.holds size) = .ok (some (index, slot)) ∧
        location = slot.location ∧
        if (page.clearSlot index).slotCount = 0 then
          ∃ layout', layout'.bodies = layout.bodies ∧
            Represents width count (lists.free .freeList block) layout' pages'
        else
          Represents width count lists
            (layout.setBody block ((page.clearSlot index).data.drop PageHeader.size)) pages'

theorem Represents.takeFrom (represents : Represents width count lists layout pages)
    (room : count < 2 ^ 63) (size : UInt32) (listed : block ∈ lists .freeList) :
    Leads (FreeSpace.takeFrom size block) pages
      (fun answer pages' => ∃ page, PageOf width layout block page ∧
        TakenFrom width count lists layout size block pages page answer pages')
      fun error pages' => (∃ page, PageOf width layout block page ∧
        page.findSlot (FreeSlot.holds size) = .error error) ∧
        Represents width count lists layout pages' := by
  refine Leads.bind (represents.fetchFor listed _)
    fun ⟨page, found⟩ pages' ⟨page_of, computed, holds, same⟩ => ?_
  cases found with
  | none =>
      refine Leads.bind (holds.putBack rfl) fun _ pages'' ⟨returned, same'⟩ => ?_
      exact Leads.pure ⟨page, page_of, computed, returned, same.trans same'⟩
  | some found =>
      obtain ⟨index, slot⟩ := found
      have inside := Page.findSlot_lt computed
      have kept := Page.clearSlot_sameHeader inside
      have here := page_of.block_eq
      simp only
      split
      · rename_i emptied
        refine Leads.bind (holds.putBack kept.block_eq) fun _ pages'' ⟨returned, _⟩ => ?_
        refine Leads.bind (returned.free room listed) fun _ pages₁ ⟨layout', freed⟩ => ?_
        refine Leads.pure ⟨page, page_of, index, slot, computed, rfl, ?_⟩
        rw [if_pos emptied]
        exact ⟨layout', freed⟩
      · rename_i some_left
        rw [← here] at listed
        refine Leads.bind (holds.store listed kept) fun _ pages'' stored => ?_
        rw [here] at stored
        refine Leads.pure ⟨page, page_of, index, slot, computed, rfl, ?_⟩
        rw [if_neg some_left]
        exact stored

/-! ## Searches -/

/-- A visit that misses leaves the file as it was. -/
def Visited {α : Type} (width count : Nat) (lists : PageLists) (layout : Layout)
    (pages : PageFile) (misses : Prop) (hits : α → PageFile → Prop) :
    Option α → PageFile → Prop
  | none, pages' => misses ∧ Represents width count lists layout pages' ∧ SameFile pages pages'
  | some value, pages' => hits value pages'

/-- A search answers what its first visit that hits does, behind pages that it missed. -/
theorem Represents.searchFrom {α : Type} (represents : Represents width count lists layout pages)
    {front back : List BlockId} (parts : lists kind = front ++ back)
    {visit : BlockId → PageM (Option α)} {misses : BlockId → Prop}
    {hits : BlockId → α → PageFile → Prop}
    (visits : ∀ block ∈ lists kind, ∀ pages', Represents width count lists layout pages' →
      Leads (visit block) pages'
        (Visited width count lists layout pages' (misses block) (hits block)) failed)
    (missed : ∀ block ∈ front, misses block) {limit : Nat} (enough : back.length < limit) :
    Leads (PageFile.searchFrom visit limit (PageFile.Cursor.behind kind front)) pages
      (Visited width count lists layout pages (∀ block ∈ lists kind, misses block)
        fun value pages' => ∃ before block after, lists kind = before ++ block :: after ∧
          (∀ earlier ∈ before, misses earlier) ∧ hits block value pages') failed := by
  -- The pages in front of the cursor were missed, those behind it are still to be visited.
  induction limit generalizing front back pages with
  | zero => omega
  | succ limit ih =>
      refine Leads.bind (represents.advance parts)
        fun ⟨found, cursor⟩ pages' ⟨⟨found_eq, onward⟩, read, same⟩ => ?_
      cases back with
      | nil =>
          obtain rfl : found = none := found_eq
          rw [List.append_nil] at parts
          exact Leads.pure ⟨parts ▸ missed, read, same⟩
      | cons block rest =>
          obtain rfl : found = some block := found_eq
          obtain ⟨cursor_eq, parts'⟩ := onward block rest rfl
          obtain rfl : cursor = PageFile.Cursor.behind kind (front ++ [block]) := cursor_eq
          have listed : block ∈ lists kind := by simp [parts]
          refine Leads.bind (visits block listed pages' read) fun answer pages'' visited => ?_
          cases answer with
          | some value => exact Leads.pure ⟨front, block, rest, parts, missed, visited⟩
          | none =>
              obtain ⟨misses_block, unchanged, same'⟩ := visited
              have missed' : ∀ earlier ∈ front ++ [block], misses earlier := by
                intro earlier member
                rcases List.mem_append.mp member with member | member
                · exact missed earlier member
                · exact List.mem_singleton.mp member ▸ misses_block
              rw [List.length_cons] at enough
              apply (ih unchanged parts' missed' (Nat.lt_of_succ_lt_succ enough)).imp
              intro answer pages₁ visited'
              cases answer with
              | some value => exact visited'
              | none =>
                  obtain ⟨all, kept, same''⟩ := visited'
                  exact ⟨all, kept, (same.trans same').trans same''⟩

theorem Represents.search {α : Type} (represents : Represents width count lists layout pages)
    {visit : BlockId → PageM (Option α)} {misses : BlockId → Prop}
    {hits : BlockId → α → PageFile → Prop}
    (visits : ∀ block ∈ lists kind, ∀ pages', Represents width count lists layout pages' →
      Leads (visit block) pages'
        (Visited width count lists layout pages' (misses block) (hits block)) failed)
    {limit : Nat} (enough : (lists kind).length < limit) :
    Leads (PageFile.search kind visit limit) pages
      (Visited width count lists layout pages (∀ block ∈ lists kind, misses block)
        fun value pages' => ∃ before block after, lists kind = before ++ block :: after ∧
          (∀ earlier ∈ before, misses earlier) ∧ hits block value pages') failed :=
  represents.searchFrom (List.nil_append _).symm visits nofun enough

/-! ## Taking and giving back -/

def Lacks (width : Nat) (layout : Layout) (accepts : FreeSlot → Bool) (block : BlockId) :
    Prop :=
  ∃ page, PageOf width layout block page ∧ page.findSlot accepts = .ok none

/-- A slot of the page comes out, behind pages that have none that is large enough. -/
def TakenOut (width count : Nat) (lists : PageLists) (layout : Layout) (size : UInt32)
    (location : Location) (pages' : PageFile) : Prop :=
  ∃ before block after, lists .freeList = before ++ block :: after ∧
    (∀ earlier ∈ before, Lacks width layout (FreeSlot.holds size) earlier) ∧
    ∃ page, PageOf width layout block page ∧
      TakenFrom width count lists layout size block pages' page (some location) pages'

theorem Represents.get_cases (represents : Represents width count lists layout pages)
    (room : count < 2 ^ 63) (size : UInt32) {limit : Nat}
    (enough : (lists .freeList).length < limit) :
    Leads (FreeSpace.get size limit) pages
      (Visited width count lists layout pages
        (∀ block ∈ lists .freeList, Lacks width layout (FreeSlot.holds size) block)
        (TakenOut width count lists layout size))
      fun error pages' => (∃ block ∈ lists .freeList, ∃ page, PageOf width layout block page ∧
          page.findSlot (FreeSlot.holds size) = .error error) ∧
        Represents width count lists layout pages' := by
  apply represents.search ?_ enough
  intro block listed pages' represents'
  apply (represents'.takeFrom room size listed).mono
  · rintro (_ | location) pages'' ⟨page, page_of, taken⟩
    · exact ⟨⟨page, page_of, taken.1⟩, taken.2⟩
    · exact ⟨page, page_of, taken⟩
  · exact fun error pages'' ⟨failed, returned⟩ => ⟨⟨block, listed, failed⟩, returned⟩

/-- A slot of a page is filled, behind pages that are full. -/
def PutIn (width count : Nat) (lists : PageLists) (layout : Layout) (slot : FreeSlot)
    (pages' : PageFile) : Prop :=
  ∃ before block after, lists .freeList = before ++ block :: after ∧
    (∀ earlier ∈ before, Lacks width layout (!·.isUsed) earlier) ∧
    ∃ page, PageOf width layout block page ∧
      GivenTo width count lists layout slot block pages' page (some ()) pages'

theorem Represents.giveFirst (represents : Represents width count lists layout pages)
    (slot : FreeSlot) {limit : Nat} (enough : (lists .freeList).length < limit) :
    Leads (PageFile.search .freeList (FreeSpace.giveTo slot) limit) pages
      (Visited width count lists layout pages
        (∀ block ∈ lists .freeList, Lacks width layout (!·.isUsed) block)
        fun _ => PutIn width count lists layout slot)
      fun error pages' => (∃ block ∈ lists .freeList, Refuses width layout slot block error) ∧
        Represents width count lists layout pages' := by
  apply represents.search ?_ enough
  intro block listed pages' represents'
  apply (represents'.giveTo slot listed).mono
  · rintro (_ | _) pages'' ⟨page, page_of, given⟩
    · exact ⟨⟨page, page_of, given.1⟩, given.2⟩
    · exact ⟨page, page_of, given⟩
  · exact fun error pages'' ⟨refused, returned⟩ => ⟨⟨block, listed, refused⟩, returned⟩

def OnNewPage (width count : Nat) (lists : PageLists) (layout : Layout)
    (ends : BlockId → Layout → Page → Prop) : Prop :=
  ∃ layout' page, layout'.bodies = Function.update layout.bodies (lists.fresh count)
      (Bytes.zeros (width - PageHeader.size)) ∧
    PageOf width layout' (lists.fresh count) page ∧
    ends (lists.fresh count) layout' page

theorem Represents.giveToNewPage (represents : Represents width count lists layout pages)
    (room : count < 2 ^ 63) (slot : FreeSlot) :
    Leads
      (do
        let block ← PageFile.allocate .freeList
        let page ← PageFile.fetch block
        FreeSpace.fillAndRelease page 0 slot) pages
      (fun _ pages' => OnNewPage width count lists layout fun block layout' page =>
        ∃ filled, page.fillSlot 0 slot = .ok filled ∧
          Represents width (max count (block.toNat + 1)) (lists.allocate .freeList block)
            (layout'.setBody block (filled.data.drop PageHeader.size)) pages')
      fun error pages' => OnNewPage width count lists layout fun block layout' page =>
        page.fillSlot 0 slot = .error error ∧
          Represents width (max count (block.toNat + 1)) (lists.allocate .freeList block)
            layout' pages' := by
  refine Leads.bind (represents.allocate room (by decide))
    fun block pages' ⟨block_eq, layout', bodies_eq, allocated⟩ => ?_
  subst block_eq
  have listed : lists.fresh count ∈ lists.allocate .freeList (lists.fresh count) .freeList :=
    PageLists.mem_allocate
  refine Leads.bind (allocated.fetch listed) fun page pages'' ⟨page_of, holds, _⟩ => ?_
  have wide : Settings.minPageSize ≤ width := by
    obtain ⟨-, blocks, -, shows⟩ := represents
    exact shows.wide
  have positive : 0 < page.slotCapacity :=
    Page.slotCapacity_pos (page_of.length_eq ▸ wide)
  have here := page_of.block_eq
  have held : page.block ∈ lists.allocate .freeList (lists.fresh count) .freeList := by
    rw [here]
    exact listed
  apply (holds.fillAndRelease held positive slot).mono
  · intro _ pages₁ filled
    rw [here] at filled
    exact ⟨layout', page, bodies_eq, page_of, filled⟩
  · exact fun error pages₁ failed => ⟨layout', page, bodies_eq, page_of, failed⟩

theorem Represents.put_cases (represents : Represents width count lists layout pages)
    (room : count < 2 ^ 63) {location : Location} {size : UInt32} (nonzero : size ≠ 0)
    (fits : FreeSlot.requireFits ⟨location, size⟩ = .ok ()) {limit : Nat}
    (enough : (lists .freeList).length < limit) :
    Leads (FreeSpace.put location size limit) pages
      (fun _ pages' => PutIn width count lists layout ⟨location, size⟩ pages' ∨
        (∀ block ∈ lists .freeList, Lacks width layout (!·.isUsed) block) ∧
        OnNewPage width count lists layout fun block layout' page => ∃ filled,
          page.fillSlot 0 ⟨location, size⟩ = .ok filled ∧
          Represents width (max count (block.toNat + 1)) (lists.allocate .freeList block)
            (layout'.setBody block (filled.data.drop PageHeader.size)) pages')
      fun error pages' =>
        ((∃ block ∈ lists .freeList, Refuses width layout ⟨location, size⟩ block error) ∧
          Represents width count lists layout pages') ∨
        OnNewPage width count lists layout fun block layout' page =>
          page.fillSlot 0 ⟨location, size⟩ = .error error ∧
          Represents width (max count (block.toNat + 1)) (lists.allocate .freeList block)
            layout' pages' := by
  unfold FreeSpace.put
  simp only [nonzero, if_false, fits]
  apply Leads.ofExcept_bind
  refine Leads.bind ((represents.giveFirst ⟨location, size⟩ enough).imp_failed
    fun _ _ failed => .inl failed) fun answer pages' visited => ?_
  cases answer with
  | some _ => exact Leads.pure (.inl visited)
  | none =>
      obtain ⟨full, searched, -⟩ := visited
      exact (searched.giveToNewPage room ⟨location, size⟩).mono
        (fun _ _ filled => .inr ⟨full, filled⟩) fun _ _ failed => .inr failed

/-! ## Whatever the slots are -/

/-- The file represents some lists; which ones and how many blocks is left open. -/
def Kept (width : Nat) (pages : PageFile) : Prop :=
  ∃ count lists layout, Represents width count lists layout pages

theorem Represents.kept (represents : Represents width count lists layout pages) :
    Kept width pages :=
  ⟨count, lists, layout, represents⟩

theorem Represents.get (represents : Represents width count lists layout pages)
    (room : count < 2 ^ 63) (size : UInt32) :
    Leads (FreeSpace.get size) pages (fun _ => Kept width) fun _ => Kept width := by
  apply (represents.get_cases room size (represents.length_lt_stepLimit room .freeList)).mono
  · rintro (_ | location) pages' visited
    · exact visited.2.1.kept
    · obtain ⟨_, _, _, -, -, page, -, index, slot, -, -, stored⟩ := visited
      split at stored
      · obtain ⟨layout', -, freed⟩ := stored
        exact freed.kept
      · exact stored.kept
  · exact fun _ _ failed => failed.2.kept

theorem Represents.put (represents : Represents width count lists layout pages)
    (room : count < 2 ^ 63) (location : Location) (size : UInt32) :
    Leads (FreeSpace.put location size) pages (fun _ => Kept width) fun _ => Kept width := by
  by_cases nonzero : size = 0
  · unfold FreeSpace.put
    simp only [nonzero, if_true]
    exact Leads.throw_bind represents.kept
  cases fits : FreeSlot.requireFits ⟨location, size⟩ with
  | error error =>
      unfold FreeSpace.put
      simp only [nonzero, if_false, fits]
      exact Leads.throw_bind represents.kept
  | ok _ =>
      apply (represents.put_cases room nonzero fits
        (represents.length_lt_stepLimit room .freeList)).mono
      · rintro _ pages' (⟨_, _, _, -, -, page, -, _, _, _, -, -, stored⟩ |
          ⟨-, layout', page, -, -, filled, -, stored⟩)
        · exact stored.kept
        · exact stored.kept
      · rintro error pages' (⟨-, returned⟩ | ⟨layout', page, -, -, -, returned⟩)
        · exact returned.kept
        · exact returned.kept

end

end DirectoryStore.Paging
