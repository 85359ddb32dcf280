import DirectoryStore.Proofs.Paging.Headers
import Mathlib.Data.List.Nodup

/-!
# Moving pages between lists

The lists hold every block but the first.  Allocating moves the first free page, or a new
one, to the end of a list, and freeing moves a page from anywhere to the front of the free
ones.  Other blocks may be in use meanwhile.  An operation that needs one of them is
refused there, and what it did before is left as it is.
-/

namespace DirectoryStore.Paging

theorem erase_middle {front back : List BlockId} {block : BlockId}
    (nodup : (front ++ block :: back).Nodup) :
    (front ++ block :: back).erase block = front ++ back := by
  have outside : block ∉ front := by
    rw [List.nodup_middle, List.nodup_cons] at nodup
    exact fun member => nodup.1 (List.mem_append_left _ member)
  rw [List.erase_append_right _ outside, List.erase_cons_head]

namespace PageLists

def fresh (lists : PageLists) (count : Nat) : BlockId :=
  (lists .free).headD (UInt64.ofNat count)

def allocate (lists : PageLists) (kind : PageKind) (block : BlockId) : PageLists :=
  let popped := Function.update lists .free (lists .free).tail
  Function.update popped kind (popped kind ++ [block])

def free (lists : PageLists) (kind : PageKind) (block : BlockId) : PageLists :=
  let removed := Function.update lists kind ((lists kind).erase block)
  Function.update removed .free (block :: removed .free)

variable {lists : PageLists} {kind : PageKind} {block page : BlockId} {row : List BlockId}

theorem allocate_of_nil (free_eq : lists .free = []) :
    lists.allocate kind block = Function.update lists kind (lists kind ++ [block]) := by
  have popped : Function.update lists .free (lists .free).tail = lists := by
    rw [free_eq, List.tail_nil, ← free_eq, Function.update_eq_self]
  rw [allocate, popped]

theorem allocate_of_cons {head : BlockId} (free_eq : lists .free = head :: row) :
    lists.allocate kind block = Function.update (Function.update lists .free row) kind
      (Function.update lists .free row kind ++ [block]) := by
  rw [allocate, free_eq, List.tail_cons]

theorem free_of_parts {front back : List BlockId} (nodup : (lists kind).Nodup)
    (parts : lists kind = front ++ block :: back) :
    lists.free kind block = Function.update (Function.update lists kind (front ++ back)) .free
      (block :: Function.update lists kind (front ++ back) .free) := by
  rw [parts] at nodup
  rw [free, parts, erase_middle nodup]

theorem mem_allocate : block ∈ lists.allocate kind block kind := by
  simp [allocate]

theorem mem_update : (∃ other, page ∈ Function.update lists kind row other) ↔
    page ∈ row ∨ ∃ other, other ≠ kind ∧ page ∈ lists other := by
  constructor
  · rintro ⟨other, member⟩
    by_cases same : other = kind
    · subst same
      rw [Function.update_self] at member
      exact .inl member
    · rw [Function.update_of_ne same] at member
      exact .inr ⟨other, same, member⟩
  · rintro (member | ⟨other, different, member⟩)
    · exact ⟨kind, by rwa [Function.update_self]⟩
    · exact ⟨other, by rwa [Function.update_of_ne different]⟩

theorem mem_insert (more : page ∈ row ↔ page = block ∨ page ∈ lists kind) :
    (∃ other, page ∈ Function.update lists kind row other) ↔
      page = block ∨ ∃ other, page ∈ lists other := by
  rw [mem_update, more]
  constructor
  · rintro ((same | member) | ⟨other, -, member⟩)
    · exact .inl same
    · exact .inr ⟨kind, member⟩
    · exact .inr ⟨other, member⟩
  · rintro (same | ⟨other, member⟩)
    · exact .inl (.inl same)
    · by_cases same : other = kind
      · subst same
        exact .inl (.inr member)
      · exact .inr ⟨other, same, member⟩

theorem mem_append :
    (∃ other, page ∈ Function.update lists kind (lists kind ++ [block]) other) ↔
      page = block ∨ ∃ other, page ∈ lists other := by
  apply mem_insert
  simp [or_comm]

theorem mem_push :
    (∃ other, page ∈ Function.update lists kind (block :: lists kind) other) ↔
      page = block ∨ ∃ other, page ∈ lists other := by
  apply mem_insert
  simp

theorem mem_remove {front back : List BlockId} (parts : lists kind = front ++ block :: back) :
    (page = block ∨ ∃ other, page ∈ Function.update lists kind (front ++ back) other) ↔
      ∃ other, page ∈ lists other := by
  have more : page ∈ lists kind ↔
      page = block ∨ page ∈ Function.update lists kind (front ++ back) kind := by
    rw [parts, Function.update_self]
    simp only [List.mem_append, List.mem_cons]
    tauto
  have inserted := mem_insert more
  rw [Function.update_idem, Function.update_eq_self] at inserted
  exact inserted.symm

end PageLists

/-- The lists hold every block but the first. -/
structure Arranged (count : Nat) (lists : PageLists) (layout : Layout) : Prop where
  threads : Threads layout lists
  covers : ∀ block : BlockId,
    (∃ kind, block ∈ lists kind) ↔ 0 < block.toNat ∧ block.toNat < count
  positive : 0 < count

/-! ## Links that fit -/

section

variable {width count : Nat} {layout : Layout} {stored : FileHeader} {lists : PageLists}
  {held : List BlockId} {pages : PageFile} {kind : PageKind} {block : BlockId}
  {front back : List BlockId} {failed : Error → PageFile → Prop}

theorem linkFits_of_near {list : List BlockId} {link : BlockId}
    (near : link ∈ BlockId.header :: list) (small : ∀ page ∈ list, LinkFits page) :
    LinkFits link := by
  rcases List.mem_cons.mp near with rfl | member
  · exact linkFits_header
  · exact small link member

theorem linkFits_of_lt {page : BlockId} (inside : page.toNat < count) (room : count ≤ 2 ^ 63) :
    LinkFits page :=
  Nat.lt_of_lt_of_le inside room

theorem Threads.fits (threads : Threads layout lists)
    (small : ∀ kind, ∀ block ∈ lists kind, LinkFits block) : layout.header.Fits := by
  intro kind
  rw [threads.ends_eq]
  exact ⟨linkFits_of_near (headD_mem_cons _) (small kind),
    linkFits_of_near List.getLastD_mem_cons (small kind)⟩

theorem Threads.knows (threads : Threads layout lists)
    (near : block ∈ BlockId.header :: lists kind) : layout.Knows block := by
  intro real
  obtain ⟨header, here, -⟩ := threads.of_mem ((List.mem_cons.mp near).resolve_left real)
  exact ⟨header, here⟩

theorem prev_near (parts : lists kind = front ++ block :: back) :
    front.getLastD BlockId.header ∈ BlockId.header :: lists kind := by
  have near : front.getLastD BlockId.header ∈ BlockId.header :: front :=
    List.getLastD_mem_cons
  rw [parts]
  grind

theorem Threads.null_notMem_parts (threads : Threads layout lists)
    (parts : lists kind = front ++ block :: back) :
    BlockId.header ∉ front ∧ BlockId.header ∉ back := by
  have null := threads.null_notMem kind
  rw [parts, List.mem_append, List.mem_cons] at null
  exact ⟨fun member => null (.inl member), fun member => null (.inr (.inr member))⟩

theorem Threads.prev_ne (threads : Threads layout lists)
    (parts : lists kind = front ++ block :: back) :
    front.getLastD BlockId.header ≠ block := by
  have nodup := threads.nodup kind
  have null := threads.null_notMem kind
  have near : front.getLastD BlockId.header ∈ BlockId.header :: front :=
    List.getLastD_mem_cons
  rw [parts] at nodup null
  grind

theorem Threads.removed (threads : Threads layout lists)
    (parts : lists kind = front ++ block :: back) (other : PageKind) :
    block ∉ Function.update lists kind (front ++ back) other := by
  have nodup := threads.nodup kind
  rw [parts] at nodup
  have listed : block ∈ lists kind := by simp [parts]
  intro member
  by_cases same : other = kind
  · subst same
    rw [Function.update_self] at member
    rw [List.nodup_middle, List.nodup_cons] at nodup
    exact nodup.1 member
  · rw [Function.update_of_ne same] at member
    exact same (threads.kind_unique member listed)

theorem getLast?_of_ne {row : List BlockId}
    (real : row.getLastD BlockId.header ≠ BlockId.header) :
    row.getLast? = some (row.getLastD BlockId.header) := by
  rcases List.eq_nil_or_concat row with rfl | ⟨front, last, rfl⟩
  · exact absurd rfl real
  · simp

theorem head?_of_ne {row : List BlockId} (real : row.headD BlockId.header ≠ BlockId.header) :
    row.head? = some (row.headD BlockId.header) := by
  cases row with
  | nil => exact absurd rfl real
  | cons page rest => rfl

theorem Spare.last {row : List BlockId} (spare : Spare held (row.getLastD BlockId.header))
    (null : BlockId.header ∉ row) : ∀ page ∈ row.getLast?, page ∉ held := by
  intro page last
  have page_eq : row.getLastD BlockId.header = page := by
    rw [List.getLastD_eq_getLast?, Option.mem_def.mp last, Option.getD_some]
  rw [← page_eq]
  refine spare fun is_null => null ?_
  rw [← is_null, page_eq]
  exact List.mem_of_getLast? last

theorem Spare.head {row : List BlockId} (spare : Spare held (row.headD BlockId.header))
    (null : BlockId.header ∉ row) : ∀ page ∈ row.head?, page ∉ held := by
  cases row with
  | nil => exact nofun
  | cons page rest =>
      rintro _ ⟨⟩
      exact spare fun is_null => null (is_null ▸ List.mem_cons_self)

theorem Lends.first_eq (lends : Lends width count layout stored held pages)
    (threads : Threads layout lists) (kind : PageKind) :
    pages.first kind = (lists kind).headD BlockId.header := by
  obtain ⟨blocks, -, shows⟩ := lends
  rw [PageFile.first, shows.header_eq, threads.ends_eq]

theorem Lends.last_eq (lends : Lends width count layout stored held pages)
    (threads : Threads layout lists) (kind : PageKind) :
    pages.last kind = (lists kind).getLastD BlockId.header := by
  obtain ⟨blocks, -, shows⟩ := lends
  rw [PageFile.last, shows.header_eq, threads.ends_eq]

theorem Lends.unlinkPage (lends : Lends width count layout stored held pages)
    (threads : Threads layout lists) (parts : lists kind = front ++ block :: back) :
    Leads (PageFile.unlink kind block) pages
      (fun _ pages' => (block ∉ held ∧ Spare held (front.getLastD BlockId.header) ∧
          Spare held (back.headD BlockId.header)) ∧
        ∃ layout', layout'.bodies = layout.bodies ∧
          Lends width count layout' stored held pages' ∧
          Threads layout' (Function.update lists kind (front ++ back)) ∧
          layout'.Knows block ∧
          layout'.follower kind (front.getLastD BlockId.header) =
            some (back.headD BlockId.header))
      (NotUnlinked width count layout stored held kind block (front.getLastD BlockId.header)
        (back.headD BlockId.header)) := by
  have here := threads.heads_eq parts
  have next : layout.Knows (back.headD BlockId.header) := by
    apply threads.knows
    rw [parts]
    cases back <;> simp
  have prev : layout.Knows (front.getLastD BlockId.header) :=
    threads.knows (prev_near parts)
  apply (lends.unlink here next prev).imp
  intro _ pages' ⟨unlent, spare_prev, spare_next, unlinked⟩
  have known : layout.Knows block := fun _ => ⟨_, here⟩
  refine ⟨⟨unlent, spare_prev, spare_next⟩, _, by simp, unlinked, threads.unlink parts,
    (known.joinNext _ _ _).joinPrev _ _ _, ?_⟩
  rw [Layout.follower_joinPrev, Layout.follower_joinNext_self prev]

/-- Where appending a page is refused: in front of it, or with the page written. -/
inductive NotAppended (width count : Nat) (layout : Layout) (stored : FileHeader)
    (held : List BlockId) (block : BlockId) (error : Error) (pages : PageFile) : Prop where
  | untouched (refused : Refused width count layout stored held block error pages)
  | written {layout' : Layout} {link : BlockId} (unlent : block ∉ held)
      (first : layout'.follower .free BlockId.header = layout.follower .free BlockId.header)
      (refused : Refused width (max count (block.toNat + 1)) layout' stored held link error
        pages)

theorem Lends.appendPage (lends : Lends width count layout stored held pages)
    (threads : Threads layout lists) (real : block ≠ BlockId.header)
    (fresh : ∀ kind, block ∉ lists kind) (near : block.toNat ≤ count) (positive : 0 < count)
    (room : count < 2 ^ 63) (kind_ne : kind ≠ .free)
    (covers : ∀ page : BlockId, (page = block ∨ ∃ kind, page ∈ lists kind) ↔
      0 < page.toNat ∧ page.toNat < max count (block.toNat + 1)) :
    Leads
      (do
        let tail := (← get).last kind
        let page ← PageFile.fetch block
        let header : PageHeader := ⟨kind, BlockId.header, tail⟩
        let data := header.encode (Bytes.zeros page.data.length)
        PageFile.release { page with data := data } true
        if tail.isNull then PageFile.setFirst kind block
        else PageFile.updateHeader tail ({ · with next := block })
        PageFile.setLast kind block
        PageFile.writeFileHeader
        return block) pages
      (fun found pages' => found = block ∧ ∃ layout',
        layout'.bodies = Function.update layout.bodies block
          (Bytes.zeros (width - PageHeader.size)) ∧
        Arranged (max count (block.toNat + 1))
          (Function.update lists kind (lists kind ++ [block])) layout' ∧
        Lends width (max count (block.toNat + 1)) layout' layout'.header held pages')
      (NotAppended width count layout stored held block) := by
  have small (page : BlockId) (member : page = block ∨ ∃ kind, page ∈ lists kind) :
      LinkFits page :=
    linkFits_of_lt ((covers page).mp member).2 (by omega)
  have near_tail : (lists kind).getLastD BlockId.header ∈ BlockId.header :: lists kind :=
    List.getLastD_mem_cons
  have tail_fits : LinkFits ((lists kind).getLastD BlockId.header) :=
    linkFits_of_near near_tail fun page member => small page (.inr ⟨kind, member⟩)
  have blank := threads.setBody block (Bytes.zeros (width - PageHeader.size))
  have placed := blank.put real fresh
    ⟨kind, BlockId.header, (lists kind).getLastD BlockId.header⟩
  have appended : Threads _ (Function.update lists kind (lists kind ++ [block])) :=
    blank.append real fresh
  have fits := appended.fits fun other page member =>
    small page (PageLists.mem_append.mp ⟨other, member⟩)
  apply Leads.get_bind
  rw [lends.last_eq threads]
  -- The page is written first, and the file header last.
  refine lends.writePage_bind real ⟨linkFits_header, tail_fits⟩
    (fun _ _ refused => .untouched refused) fun unlent pages' written => ?_
  apply Leads.branch
  refine Leads.bind ((written.joinNext (placed.knows near_tail) (small block (.inl rfl))).mono
    (fun _ _ ⟨_, joined⟩ => joined) fun _ _ ⟨_, refused⟩ => .written unlent ?_ refused)
    fun _ pages₁ joined => ?_
  · exact Layout.follower_put _ _ real.symm
  refine Leads.bind (joined.setLast kind block) fun _ pages₂ ended => ?_
  refine Leads.bind ((ended.writeFileHeader (by omega) fits).imp_failed
    fun _ _ refused => .written unlent ?_ refused) fun _ pages₃ finished => ?_
  · rw [Layout.follower_setLast, Layout.first_joinNext_of_ne _ _ _ kind_ne.symm]
    exact Layout.follower_put _ _ real.symm
  refine ⟨rfl, _, ?_, ⟨appended, fun page => ?_, by omega⟩, finished⟩
  · exact (Layout.bodies_joinNext _)
  · rw [PageLists.mem_append, covers]

/-- Where putting a page in front of the free ones is refused. -/
inductive NotPushed (width count : Nat) (layout : Layout) (stored : FileHeader)
    (held : List BlockId) (lists : PageLists) (block : BlockId) (error : Error)
    (pages : PageFile) : Prop where
  | untouched (refused : Refused width count layout stored held block error pages)
  | halfway {layout' : Layout} {head : BlockId} (first : (lists .free).head? = some head)
      (kept : ∀ kind, ∀ prev ≠ block, layout'.follower kind prev = layout.follower kind prev)
      (refused : Refused width count layout' stored held head error pages)
  | unwritten {layout' : Layout}
      (kept : ∀ kind, ∀ prev ≠ block, prev ≠ BlockId.header ∨ kind ≠ .free →
        layout'.follower kind prev = layout.follower kind prev)
      (arranged : Arranged count (Function.update lists .free (block :: lists .free)) layout')
      (refused : Refused width count layout' stored held BlockId.header error pages)

theorem Lends.pushPage (lends : Lends width count layout stored held pages)
    (threads : Threads layout lists) (real : block ≠ BlockId.header)
    (fresh : ∀ kind, block ∉ lists kind) (known : layout.Knows block) (positive : 0 < count)
    (room : count < 2 ^ 63)
    (covers : ∀ page : BlockId, (page = block ∨ ∃ kind, page ∈ lists kind) ↔
      0 < page.toNat ∧ page.toNat < count) :
    Leads
      (do
        let head := (← get).first .free
        PageFile.updateHeader block fun _ => ⟨.free, head, BlockId.header⟩
        if head.isNull then PageFile.setLast .free block
        else PageFile.updateHeader head ({ · with prev := block })
        PageFile.setFirst .free block
        PageFile.writeFileHeader) pages
      (fun _ pages' => ∃ layout', layout'.bodies = layout.bodies ∧
        Arranged count (Function.update lists .free (block :: lists .free)) layout' ∧
        Lends width count layout' layout'.header held pages')
      (NotPushed width count layout stored held lists block) := by
  have small (page : BlockId) (member : page = block ∨ ∃ kind, page ∈ lists kind) :
      LinkFits page :=
    linkFits_of_lt ((covers page).mp member).2 (Nat.le_of_lt room)
  have near_head := headD_mem_cons (lists .free)
  have head_fits : LinkFits ((lists .free).headD BlockId.header) :=
    linkFits_of_near near_head fun page member => small page (.inr ⟨.free, member⟩)
  obtain ⟨header, here⟩ := known real
  have placed := threads.put real fresh
    ⟨.free, (lists .free).headD BlockId.header, BlockId.header⟩
  have pushed : Threads _ (Function.update lists .free (block :: lists .free)) :=
    threads.push real fresh
  have fits := pushed.fits fun other page member =>
    small page (PageLists.mem_push.mp ⟨other, member⟩)
  apply Leads.get_bind
  rw [lends.first_eq threads]
  refine Leads.bind ((lends.updateHeader here ⟨head_fits, linkFits_header⟩).mono
    (fun _ _ ⟨_, written⟩ => written) fun _ _ refused => .untouched refused)
    fun _ pages' written => ?_
  apply Leads.branch
  refine Leads.bind ((written.joinPrev (placed.knows near_head) (small block (.inl rfl))).mono
    (fun _ _ ⟨_, joined⟩ => joined)
    fun _ _ ⟨head_real, refused⟩ => .halfway (head?_of_ne head_real) ?_ refused)
    fun _ pages₁ joined => ?_
  · exact fun kind prev different => Layout.follower_put _ _ different
  have arranged : Arranged count (Function.update lists .free (block :: lists .free)) _ :=
    ⟨pushed, fun page => by rw [PageLists.mem_push, covers], positive⟩
  refine Leads.bind (joined.setFirst .free block) fun _ pages₂ begun => ?_
  refine (begun.writeFileHeader positive fits).mono ?_
    fun _ _ refused => .unwritten (fun kind prev different elsewhere => ?_) arranged refused
  · intro _ pages₃ finished
    refine ⟨_, ?_, arranged, finished⟩
    exact Layout.bodies_joinPrev _
  · rw [Layout.follower_setFirst _ _ elsewhere, Layout.follower_joinPrev,
      Layout.follower_put _ _ different]

/-! ## Allocating and freeing while pages are in use -/

theorem Arranged.lt_of_mem (arranged : Arranged count lists layout)
    (member : block ∈ lists kind) : block.toNat < count :=
  ((arranged.covers block).mp ⟨kind, member⟩).2

/-- Where allocating a page is refused. -/
inductive NotAllocated (width count : Nat) (layout : Layout) (stored : FileHeader)
    (held : List BlockId) (fresh : BlockId) (error : Error) (pages : PageFile) : Prop where
  | untouched (refused : Refused width count layout stored held fresh error pages)
  | grown {layout' : Layout} {link : BlockId} (unlent : fresh ∉ held)
      (refused : Refused width (count + 1) layout' stored held link error pages)
  | popped {layout' : Layout} {link : BlockId} (unlent : fresh ∉ held)
      (diverted : layout'.follower .free BlockId.header ≠
        layout.follower .free BlockId.header)
      (refused : Refused width count layout' stored held link error pages)

def Allocated (width count : Nat) (layout : Layout) (held : List BlockId) (lists : PageLists)
    (kind : PageKind) (block : BlockId) (pages : PageFile) : Prop :=
  block = lists.fresh count ∧ ∃ layout',
    layout'.bodies = Function.update layout.bodies block
      (Bytes.zeros (width - PageHeader.size)) ∧
    Arranged (max count (block.toNat + 1)) (lists.allocate kind block) layout' ∧
    Lends width (max count (block.toNat + 1)) layout' layout'.header held pages

theorem toNat_next (room : count < 2 ^ 63) : (UInt64.ofNat count).toNat = count := by
  rw [UInt64.toNat_ofNat']
  omega

theorem Arranged.next_notMem (arranged : Arranged count lists layout) (room : count < 2 ^ 63)
    (kind : PageKind) : UInt64.ofNat count ∉ lists kind := by
  intro member
  have := arranged.lt_of_mem member
  rw [toNat_next room] at this
  exact Nat.lt_irrefl _ this

theorem Arranged.allocate_new (arranged : Arranged count lists layout)
    (lends : Lends width count layout stored held pages) (room : count < 2 ^ 63)
    (kind_ne : kind ≠ .free) (free_eq : lists .free = []) :
    Leads (PageFile.allocate kind) pages (Allocated width count layout held lists kind)
      (NotAllocated width count layout stored held (lists.fresh count)) := by
  have block_eq : lists.fresh count = UInt64.ofNat count := by
    simp [PageLists.fresh, free_eq]
  have number := toNat_next room
  have positive := arranged.positive
  have real : UInt64.ofNat count ≠ BlockId.header := by
    intro null
    rw [null] at number
    have zero : BlockId.header.toNat = 0 := rfl
    omega
  have grows : max count ((UInt64.ofNat count).toNat + 1) = count + 1 := by omega
  have covers (page : BlockId) :
      (page = UInt64.ofNat count ∨ ∃ kind, page ∈ lists kind) ↔
        0 < page.toNat ∧ page.toNat < max count ((UInt64.ofNat count).toNat + 1) := by
    rw [arranged.covers, ← UInt64.toNat_inj, number]
    omega
  have near : (UInt64.ofNat count).toNat ≤ count := Nat.le_of_eq number
  unfold PageFile.allocate
  simp only [kind_ne, if_false]
  apply Leads.get_bind
  rw [lends.first_eq arranged.threads, free_eq]
  simp only [List.headD_nil, show BlockId.header.isNull = true from rfl, if_true]
  refine Leads.bind lends.blockCount fun found pages' ⟨found_eq, counted⟩ => ?_
  rw [found_eq, Nat.max_eq_left positive, pure_bind]
  refine (counted.appendPage arranged.threads real (arranged.next_notMem room) near positive
    room kind_ne covers).mono ?_ ?_
  · rintro block pages'' ⟨rfl, layout', bodies_eq, appended, lends'⟩
    exact ⟨block_eq.symm, layout', bodies_eq,
      PageLists.allocate_of_nil free_eq ▸ appended, lends'⟩
  · intro error pages'' failed
    rw [block_eq]
    cases failed with
    | untouched refused => exact .untouched refused
    | written unlent _ refused => exact .grown unlent (grows ▸ refused)

theorem Arranged.allocate_reused (arranged : Arranged count lists layout)
    (lends : Lends width count layout stored held pages) (room : count < 2 ^ 63)
    (kind_ne : kind ≠ .free) {head : BlockId} {rest : List BlockId}
    (free_eq : lists .free = head :: rest) :
    Leads (PageFile.allocate kind) pages (Allocated width count layout held lists kind)
      (NotAllocated width count layout stored held (lists.fresh count)) := by
  have threads := arranged.threads
  have block_eq : lists.fresh count = head := by
    simp [PageLists.fresh, free_eq]
  have listed : head ∈ lists .free := by
    simp [free_eq]
  have below := arranged.lt_of_mem listed
  have real := threads.real listed
  have held_head : ¬ head.isNull := mt BlockId.isNull_iff.mp real
  have parts : lists .free = [] ++ head :: rest := free_eq
  have same_count : max count (head.toNat + 1) = count := Nat.max_eq_left below
  have covers (page : BlockId) :
      (page = head ∨ ∃ kind, page ∈ Function.update lists .free rest kind) ↔
        0 < page.toNat ∧ page.toNat < max count (head.toNat + 1) := by
    rw [same_count, ← arranged.covers]
    exact PageLists.mem_remove parts
  unfold PageFile.allocate
  simp only [kind_ne, if_false]
  apply Leads.get_bind
  rw [lends.first_eq threads, free_eq]
  simp only [List.headD_cons, held_head, Bool.false_eq_true, if_false]
  rw [block_eq]
  refine Leads.bind ((lends.unlinkPage threads parts).imp_failed ?_) ?_
  · intro error pages' failed
    cases failed with
    | untouched near refused =>
        rcases near with rfl | ⟨-, never⟩
        · exact .untouched refused
        · exact absurd rfl never
    | halfway unlent _ _ refused =>
        -- The file header leads past the page already.
        refine .popped unlent (threads.diverted parts ?_) refused
        exact Layout.follower_joinNext_self fun never => absurd rfl never
  rintro _ pages' ⟨⟨unlent, -, -⟩, layout', same, unlinked, threads', -, next⟩
  rw [pure_bind]
  refine (unlinked.appendPage threads' real (threads.removed parts)
    (Nat.le_of_lt below) arranged.positive room kind_ne covers).mono ?_ ?_
  · rintro block pages'' ⟨rfl, layout'', bodies_eq, appended, lends'⟩
    rw [same] at bodies_eq
    exact ⟨block_eq.symm, layout'', bodies_eq,
      PageLists.allocate_of_cons free_eq ▸ appended, lends'⟩
  · intro error pages'' failed
    cases failed with
    | untouched refused => exact absurd refused.lent unlent
    | written _ first refused =>
        exact .popped unlent (threads.diverted parts (first.trans next))
          (same_count ▸ refused)

theorem Arranged.allocate (arranged : Arranged count lists layout)
    (lends : Lends width count layout stored held pages) (room : count < 2 ^ 63)
    (kind_ne : kind ≠ .free) :
    Leads (PageFile.allocate kind) pages (Allocated width count layout held lists kind)
      (NotAllocated width count layout stored held (lists.fresh count)) := by
  cases free_eq : lists .free with
  | nil => exact arranged.allocate_new lends room kind_ne free_eq
  | cons head rest => exact arranged.allocate_reused lends room kind_ne free_eq

/-- Where freeing a page that stands between others is refused. -/
inductive NotFreed (width count : Nat) (layout : Layout) (stored : FileHeader)
    (held : List BlockId) (lists : PageLists) (kind : PageKind) (front : List BlockId)
    (block : BlockId) (back : List BlockId) (error : Error) (pages : PageFile) : Prop where
  | untouched {link : BlockId} (near : link = block ∨ front.getLast? = some link)
      (refused : Refused width count layout stored held link error pages)
  | diverted {layout' : Layout} {link : BlockId} (unlent : block ∉ held)
      (spare : ∀ prev ∈ front.getLast?, prev ∉ held)
      (followed : layout'.follower kind (front.getLastD BlockId.header) =
        some (back.headD BlockId.header))
      (behind : kind = .free → front = [] → ∃ next ∈ back.head?, next ∈ held)
      (refused : Refused width count layout' stored held link error pages)
  | unwritten {layout' : Layout} (unlent : block ∉ held)
      (spare : ∀ prev ∈ front.getLast?, prev ∉ held)
      (spare_next : ∀ next ∈ back.head?, next ∉ held)
      (followed : kind ≠ .free ∨ front ≠ [] →
        layout'.follower kind (front.getLastD BlockId.header) =
          some (back.headD BlockId.header))
      (arranged : Arranged count (lists.free kind block) layout')
      (refused : Refused width count layout' stored held BlockId.header error pages)

theorem NotUnlinked.notFreed (threads : Threads layout lists)
    (parts : lists kind = front ++ block :: back) (unlent : block ∉ held) {error : Error}
    (refused : NotUnlinked width count layout stored held kind block
      (front.getLastD BlockId.header) (back.headD BlockId.header) error pages) :
    NotFreed width count layout stored held lists kind front block back error pages := by
  cases refused with
  | untouched near refused =>
      rcases near with rfl | ⟨rfl, prev_real⟩
      · exact .untouched (.inl rfl) refused
      · exact .untouched (.inr (getLast?_of_ne prev_real)) refused
  | halfway _ spare next_real refused =>
      exact .diverted unlent (spare.last (threads.null_notMem_parts parts).1)
        (Layout.follower_joinNext_self (threads.knows (prev_near parts)))
        (fun _ _ => ⟨_, head?_of_ne next_real, refused.lent⟩) refused

/-- The page has been taken out of its list, and the page before it is not moved again. -/
theorem NotPushed.notFreed {removed : Layout} (threads : Threads layout lists)
    (parts : lists kind = front ++ block :: back) (unlent : block ∉ held)
    (spare : Spare held (front.getLastD BlockId.header))
    (spare_next : Spare held (back.headD BlockId.header))
    (next : removed.follower kind (front.getLastD BlockId.header) =
      some (back.headD BlockId.header)) {error : Error}
    (refused : NotPushed width count removed stored held
      (Function.update lists kind (front ++ back)) block error pages) :
    NotFreed width count layout stored held lists kind front block back error pages := by
  obtain ⟨null_front, null_back⟩ := threads.null_notMem_parts parts
  have prev_ne := threads.prev_ne parts
  cases refused with
  | untouched refused => exact absurd refused.lent unlent
  | halfway first kept refused =>
      -- The first free page is in use; it may be the one that stood behind this page.
      refine .diverted unlent (spare.last null_front) ((kept kind _ prev_ne).trans next)
        ?_ refused
      rintro rfl rfl
      rw [Function.update_self] at first
      exact ⟨_, first, refused.lent⟩
  | unwritten kept arranged refused =>
      have moved := PageLists.free_of_parts (threads.nodup kind) parts
      refine .unwritten unlent (spare.last null_front) (spare_next.head null_back)
        (fun elsewhere => (kept kind _ prev_ne ?_).trans next) (moved ▸ arranged) refused
      refine elsewhere.symm.imp_left fun some_before is_null => null_front ?_
      rw [← is_null, List.getLastD_eq_getLast?, List.getLast?_eq_some_getLast some_before]
      exact List.getLast_mem some_before

theorem Arranged.free (arranged : Arranged count lists layout)
    (lends : Lends width count layout stored held pages) (room : count < 2 ^ 63)
    (parts : lists kind = front ++ block :: back) :
    Leads (PageFile.free kind block) pages
      (fun _ pages' => ∃ layout', layout'.bodies = layout.bodies ∧
        Arranged count (lists.free kind block) layout' ∧
        Lends width count layout' layout'.header held pages')
      (NotFreed width count layout stored held lists kind front block back) := by
  have threads := arranged.threads
  have member : block ∈ lists kind := by simp [parts]
  obtain ⟨header, here, kind_eq⟩ := threads.of_mem member
  have real := threads.real member
  have held_block : ¬ block.isNull := mt BlockId.isNull_iff.mp real
  have covers (page : BlockId) :
      (page = block ∨ ∃ other, page ∈ Function.update lists kind (front ++ back) other) ↔
        0 < page.toNat ∧ page.toNat < count := by
    rw [PageLists.mem_remove parts, arranged.covers]
  unfold PageFile.free
  simp only [held_block, Bool.false_eq_true, if_false]
  refine Leads.bind ((lends.readHeader here).imp_failed
    fun _ _ refused => .untouched (.inl rfl) refused) ?_
  rintro _ pages' ⟨rfl, unlent, read⟩
  simp only [kind_eq, ne_eq, not_true_eq_false, if_false]
  refine Leads.bind ((read.unlinkPage threads parts).imp_failed
    fun _ _ refused => refused.notFreed threads parts unlent) ?_
  rintro _ pages'' ⟨⟨-, spare, spare_next⟩, layout', same, unlinked, threads', known, next⟩
  rw [← same]
  refine (unlinked.pushPage threads' real (threads.removed parts) known arranged.positive
    room covers).mono ?_ fun _ _ refused =>
      refused.notFreed threads parts unlent spare spare_next next
  rw [PageLists.free_of_parts (threads.nodup kind) parts]
  exact fun _ _ pushed => pushed

theorem Arranged.mem_of_heads (arranged : Arranged count lists layout)
    (lends : Lends width count layout stored held pages) {header : PageHeader}
    (here : layout.heads block = some header) : block ∈ lists header.kind := by
  obtain ⟨blocks, length, shows⟩ := lends
  have inside := shows.inside here
  have real : 0 < block.toNat := by
    apply Nat.pos_of_ne_zero
    intro zero
    have null : block = BlockId.header := UInt64.toNat_inj.mp zero
    rw [null, shows.null] at here
    contradiction
  obtain ⟨kind, member⟩ := (arranged.covers block).mpr ⟨real, by omega⟩
  obtain ⟨header', here', rfl⟩ := arranged.threads.of_mem member
  rwa [Option.some.inj (here.symm.trans here')]

/-- A page is only freed from the list that it is in. -/
theorem Shows.free_rejected {blocks : List Bytes}
    (shows : Shows width blocks layout stored held pages)
    (other : ∀ header, layout.heads block = some header → header.kind ≠ kind) :
    Leads (PageFile.free kind block) pages (fun _ _ => False) fun _ pages' =>
      Shows width blocks layout stored held pages' := by
  unfold PageFile.free
  split
  · exact Leads.throw shows
  · refine Leads.bind (shows.readHeader.imp_failed
      fun _ _ ⟨_, kept⟩ => kept) fun header pages' ⟨here, _, kept⟩ => ?_
    simp only [other header here, ne_eq, not_false_eq_true, if_true]
    exact Leads.throw kept

end

end DirectoryStore.Paging
