import DirectoryStore.Proofs.Paging.Blocks
import DirectoryStore.Proofs.Paging.Calls
import DirectoryStore.Proofs.Paging.Codec
import DirectoryStore.Proofs.Paging.Linked

/-!
# Operations on headers

A page file at rest shows a layout: the header of every page, and the file header
that is kept in memory.  Block 0 holds another file header, which lags behind while
an operation is under way.  Every step of an operation changes the layout at one
page or at one end of a list.
-/

namespace DirectoryStore

namespace Leads

open Paging

theorem onBlocks {α : Type} {pages : PageFile} {action : BlockM α}
    {done : α → BlockFile → Prop} {failed : Error → PageFile → Prop}
    (leads : Leads action pages.blocks done fun _ _ => False) :
    Leads (PageFile.onBlocks action) pages
      (fun value pages' => pages'.header = pages.header ∧ done value pages'.blocks) failed := by
  exact leads.onBlocks_either.imp_failed fun _ _ never => never.2.elim

end Leads

namespace Paging

/-- The page headers that the blocks start with. -/
def headsOf (width : Nat) (blocks : List Bytes) : Heads := fun block =>
  (PageHeader.decode (blockAt width blocks block)).toOption

theorem lt_of_decode {width : Nat} {blocks : List Bytes} {block : BlockId}
    {header : PageHeader}
    (read : PageHeader.decode (blockAt width blocks block) = .ok header) :
    block.toNat < blocks.length := by
  by_contra beyond
  obtain ⟨error, zeros⟩ := PageHeader.decode_zeros width
  simp [blockAt, List.getElem?_eq_none (Nat.le_of_not_lt beyond), zeros] at read

def bodiesOf (width : Nat) (blocks : List Bytes) (block : BlockId) : Bytes :=
  (blockAt width blocks block).drop PageHeader.size

structure SameFile (pages pages' : PageFile) : Prop where
  contents_eq : pages'.blocks.contents = pages.blocks.contents
  header_eq : pages'.header = pages.header

theorem SameFile.trans {pages pages' pages'' : PageFile} (first : SameFile pages pages')
    (second : SameFile pages' pages'') : SameFile pages pages'' :=
  ⟨second.contents_eq.trans first.contents_eq, second.header_eq.trans first.header_eq⟩

/-- The page file shows the layout, and block 0 holds the file header `stored`. -/
structure Shows (width : Nat) (blocks : List Bytes) (layout : Layout) (stored : FileHeader)
    (held : List BlockId) (pages : PageFile) : Prop where
  wide : Settings.minPageSize ≤ width
  stores : Stores width pages.blocks blocks held
  header_eq : pages.header = layout.header
  heads_eq : ∀ block, layout.heads block = headsOf width blocks block
  stored_eq : FileHeader.decode (blockAt width blocks BlockId.header) = .ok stored
  bodies_eq : ∀ block ≠ BlockId.header,
    layout.bodies block = bodiesOf width blocks block

namespace Shows

variable {width : Nat} {blocks : List Bytes} {layout : Layout} {stored : FileHeader}
  {held : List BlockId} {pages : PageFile} {block : BlockId} {header : PageHeader}
  {failed : Error → PageFile → Prop}

theorem null (shows : Shows width blocks layout stored held pages) :
    layout.heads BlockId.header = none := by
  rw [shows.heads_eq]
  exact FileHeader.no_pageHeader shows.stored_eq

theorem decode_eq (shows : Shows width blocks layout stored held pages)
    (here : layout.heads block = some header) :
    PageHeader.decode (blockAt width blocks block) = .ok header := by
  rw [shows.heads_eq, headsOf] at here
  cases read : PageHeader.decode (blockAt width blocks block) with
  | error error =>
      rw [read] at here
      contradiction
  | ok found =>
      rw [read] at here
      rw [Option.some.inj here]

theorem fits (shows : Shows width blocks layout stored held pages)
    (here : layout.heads block = some header) : header.Fits :=
  PageHeader.fits_of_decode (shows.decode_eq here)

theorem inside (shows : Shows width blocks layout stored held pages)
    (here : layout.heads block = some header) : block.toNat < blocks.length :=
  lt_of_decode (shows.decode_eq here)

theorem sameFile (shows : Shows width blocks layout stored held pages)
    {held' : List BlockId} {pages' : PageFile}
    (shows' : Shows width blocks layout stored held' pages') : SameFile pages pages' := by
  refine ⟨?_, ?_⟩
  · apply Contents.ext
    rw [shows.stores.bytes_eq, shows'.stores.bytes_eq]
  · rw [shows.header_eq, shows'.header_eq]

theorem fetch (shows : Shows width blocks layout stored held pages) (unheld : block ∉ held) :
    Leads (PageFile.fetch block) pages
      (fun page pages' => page = ⟨block, blockAt width blocks block⟩ ∧
        Shows width blocks layout stored (block :: held) pages') failed := by
  obtain ⟨wide, stores, header_eq, heads_eq, stored_eq, bodies_eq⟩ := shows
  apply (stores.fetch unheld).onBlocks.imp
  intro page pages' ⟨kept, page_eq, stores'⟩
  exact ⟨page_eq, wide, stores', kept.trans header_eq, heads_eq, stored_eq, bodies_eq⟩

theorem fetch_or_refuse (shows : Shows width blocks layout stored held pages) :
    Leads (PageFile.fetch block) pages
      (fun page pages' => page = ⟨block, blockAt width blocks block⟩ ∧ block ∉ held ∧
        Shows width blocks layout stored (block :: held) pages')
      fun error pages' => block ∈ held ∧ error = .pageInUse block ∧ pages' = pages := by
  by_cases lent : block ∈ held
  · have used : pages.blocks.isInUse block = true := by
      simpa [BlockFile.isInUse, shows.stores.held_eq] using lent
    unfold Leads PageFile.fetch PageFile.onBlocks BlockFile.fetch
    simp only [get_bind_apply, used, if_true]
    exact ⟨lent, rfl, rfl⟩
  · apply (shows.fetch lent).imp
    rintro _ _ ⟨page_eq, fetched⟩
    exact ⟨page_eq, lent, fetched⟩

theorem putBack (shows : Shows width blocks layout stored (block :: held) pages)
    (data : Bytes) :
    Leads (PageFile.release ⟨block, data⟩ false) pages
      (fun _ pages' => Shows width blocks layout stored held pages') failed := by
  obtain ⟨wide, stores, header_eq, heads_eq, stored_eq, bodies_eq⟩ := shows
  apply (stores.putBack data).onBlocks.imp
  intro _ pages' ⟨kept, stores'⟩
  exact ⟨wide, stores', kept.trans header_eq, heads_eq, stored_eq, bodies_eq⟩

theorem store (shows : Shows width blocks layout stored (block :: held) pages)
    (real : block ≠ BlockId.header) {data : Bytes} (fits : data.length = width)
    (written : PageHeader.decode data = .ok header) :
    Leads (PageFile.release ⟨block, data⟩ true) pages
      (fun _ pages' => Shows width (putBlock width blocks block.toNat data)
        ((layout.setBody block (data.drop PageHeader.size)).put block header) stored held
        pages') failed := by
  obtain ⟨wide, stores, header_eq, heads_eq, stored_eq, bodies_eq⟩ := shows
  apply (stores.store fits).onBlocks.imp
  intro _ pages' ⟨kept, stores'⟩
  refine ⟨wide, stores', kept.trans header_eq, fun other => ?_, ?_, fun other other_real => ?_⟩
  · rw [headsOf, blockAt_putBlock]
    by_cases same : other = block
    · simp [Layout.put, same, written, Except.toOption]
    · simp [Layout.put, Layout.setBody, same, heads_eq, headsOf]
  · rw [blockAt_putBlock, if_neg real.symm, stored_eq]
  · rw [bodiesOf, blockAt_putBlock]
    by_cases same : other = block
    · simp [Layout.put, Layout.setBody, same]
    · simp [Layout.put, Layout.setBody, same, bodies_eq other other_real, bodiesOf]

theorem storeFileHeader (shows : Shows width blocks layout stored (BlockId.header :: held) pages)
    {header : FileHeader} (fits : header.Fits) :
    Leads (PageFile.release ⟨BlockId.header,
        header.encode (blockAt width blocks BlockId.header)⟩ true) pages
      (fun _ pages' => Shows width (putBlock width blocks BlockId.header.toNat
        (header.encode (blockAt width blocks BlockId.header))) layout header held pages')
      failed := by
  have null := shows.null
  obtain ⟨wide, stores, header_eq, heads_eq, stored_eq, bodies_eq⟩ := shows
  have read := FileHeader.decode_encode fits (blockAt width blocks BlockId.header)
  have room : (header.encode (blockAt width blocks BlockId.header)).length = width := by
    rw [FileHeader.length_encode, stores.whole.length_blockAt]
    rw [stores.whole.length_blockAt]
    exact Nat.le_trans (by decide) wide
  apply (stores.store room).onBlocks.imp
  intro _ pages' ⟨kept, stores'⟩
  refine ⟨wide, stores', kept.trans header_eq, fun other => ?_, ?_, fun other real => ?_⟩
  · rw [headsOf, blockAt_putBlock]
    split
    · rename_i same
      rw [same, null, FileHeader.no_pageHeader read]
    · exact heads_eq other
  · rw [blockAt_putBlock, if_pos rfl, read]
  · rw [bodiesOf, blockAt_putBlock, if_neg real, bodies_eq other real, bodiesOf]

theorem readHeader (shows : Shows width blocks layout stored held pages) :
    Leads (PageFile.readHeader block) pages
      (fun header pages' => layout.heads block = some header ∧ block ∉ held ∧
        Shows width blocks layout stored held pages')
      fun error pages' => (block ∈ held ∧ error = .pageInUse block ∨
          layout.heads block = none) ∧
        Shows width blocks layout stored held pages' := by
  refine Leads.bind (shows.fetch_or_refuse.imp_failed ?_) ?_
  · rintro error _ ⟨lent, error_eq, rfl⟩
    exact ⟨.inl ⟨lent, error_eq⟩, shows⟩
  rintro page pages' ⟨rfl, unlent, fetched⟩
  refine Leads.bind (fetched.putBack _) fun _ pages'' returned => ?_
  have here := shows.heads_eq block
  rw [headsOf] at here
  cases read : PageHeader.decode (blockAt width blocks block) with
  | error error =>
      rw [read] at here
      exact ⟨.inr here, returned⟩
  | ok header =>
      rw [read] at here
      exact ⟨here, unlent, returned⟩

end Shows

/-! ## Steps of an operation -/

/-- The page file shows the layout on its blocks, while some of them are in use. -/
def Lends (width count : Nat) (layout : Layout) (stored : FileHeader) (held : List BlockId)
    (pages : PageFile) : Prop :=
  ∃ blocks, blocks.length = count ∧ Shows width blocks layout stored held pages

def Rests (width count : Nat) (layout : Layout) (stored : FileHeader) (pages : PageFile) :
    Prop :=
  Lends width count layout stored [] pages

/-- A step needed a block that is in use, and changed nothing. -/
structure Refused (width count : Nat) (layout : Layout) (stored : FileHeader)
    (held : List BlockId) (block : BlockId) (error : Error) (pages : PageFile) : Prop where
  lent : block ∈ held
  error_eq : error = .pageInUse block
  lends : Lends width count layout stored held pages

/-- The link leads to no page, or to one that is not in use. -/
def Spare (held : List BlockId) (link : BlockId) : Prop :=
  link ≠ BlockId.header → link ∉ held

def Layout.Knows (layout : Layout) (link : BlockId) : Prop :=
  link ≠ BlockId.header → ∃ header, layout.heads link = some header

theorem Layout.Knows.joinNext {layout : Layout} {link : BlockId} (knows : layout.Knows link)
    (kind : PageKind) (prev next : BlockId) :
    (layout.joinNext kind prev next).Knows link := by
  intro real
  obtain ⟨header, here⟩ := knows real
  by_cases same : link = prev
  · subst same
    have held : ¬ link.isNull := mt BlockId.isNull_iff.mp real
    refine ⟨{ header with next := next }, ?_⟩
    simp [Layout.joinNext, held, here]
  · refine ⟨header, ?_⟩
    rw [Layout.heads_joinNext_of_ne _ same, here]

theorem Layout.Knows.joinPrev {layout : Layout} {link : BlockId} (knows : layout.Knows link)
    (kind : PageKind) (next prev : BlockId) :
    (layout.joinPrev kind next prev).Knows link := by
  intro real
  obtain ⟨header, here⟩ := knows real
  by_cases same : link = next
  · subst same
    have held : ¬ link.isNull := mt BlockId.isNull_iff.mp real
    refine ⟨{ header with prev := prev }, ?_⟩
    simp [Layout.joinPrev, held, here]
  · refine ⟨header, ?_⟩
    rw [Layout.heads_joinPrev_of_ne _ same, here]

namespace Lends

variable {width count : Nat} {layout : Layout} {stored : FileHeader} {held : List BlockId}
  {pages : PageFile} {kind : PageKind} {block prev next : BlockId} {header : PageHeader}
  {failed : Error → PageFile → Prop}

theorem fits (lends : Lends width count layout stored held pages)
    (here : layout.heads block = some header) : header.Fits := by
  obtain ⟨blocks, -, shows⟩ := lends
  exact shows.fits here

theorem setFirst (lends : Lends width count layout stored held pages) (kind : PageKind)
    (block : BlockId) :
    Leads (PageFile.setFirst kind block) pages
      (fun _ => Lends width count (layout.setFirst kind block) stored held) failed := by
  obtain ⟨blocks, length, wide, stores, header_eq, heads_eq, stored_eq, bodies_eq⟩ := lends
  refine ⟨blocks, length, wide, stores, ?_, heads_eq, stored_eq, bodies_eq⟩
  simp [Layout.setFirst, header_eq]

theorem setLast (lends : Lends width count layout stored held pages) (kind : PageKind)
    (block : BlockId) :
    Leads (PageFile.setLast kind block) pages
      (fun _ => Lends width count (layout.setLast kind block) stored held) failed := by
  obtain ⟨blocks, length, wide, stores, header_eq, heads_eq, stored_eq, bodies_eq⟩ := lends
  refine ⟨blocks, length, wide, stores, ?_, heads_eq, stored_eq, bodies_eq⟩
  simp [Layout.setLast, header_eq]

theorem blockCount (lends : Lends width count layout stored held pages) :
    Leads PageFile.blockCount pages
      (fun found pages' => found = count ∧ Lends width count layout stored held pages')
      failed := by
  obtain ⟨blocks, length, wide, stores, header_eq, heads_eq, stored_eq, bodies_eq⟩ := lends
  apply stores.blockCount.onBlocks.imp
  intro found pages' ⟨kept, found_eq, stores'⟩
  exact ⟨found_eq.trans length, blocks, length, wide, stores', kept.trans header_eq, heads_eq,
    stored_eq, bodies_eq⟩

theorem updateHeader (lends : Lends width count layout stored held pages)
    (here : layout.heads block = some header) {update : PageHeader → PageHeader}
    (fits : (update header).Fits) :
    Leads (PageFile.updateHeader block update) pages
      (fun _ pages' => block ∉ held ∧
        Lends width count (layout.put block (update header)) stored held pages')
      (Refused width count layout stored held block) := by
  obtain ⟨blocks, length, shows⟩ := lends
  refine Leads.bind (shows.fetch_or_refuse.imp_failed ?_) ?_
  · rintro error _ ⟨lent, error_eq, rfl⟩
    exact ⟨lent, error_eq, blocks, length, shows⟩
  rintro page pages' ⟨rfl, unlent, fetched⟩
  have inside := shows.inside here
  have room := shows.stores.whole.length_blockAt block
  have real : block ≠ BlockId.header := by
    rintro rfl
    rw [shows.null] at here
    contradiction
  have long : ((update header).encode (blockAt width blocks block)).length = width := by
    rw [PageHeader.length_encode, room]
    rw [room]
    exact Nat.le_trans (by decide) shows.wide
  have unchanged : layout.setBody block (((update header).encode
      (blockAt width blocks block)).drop PageHeader.size) = layout := by
    rw [PageHeader.drop_encode, ← bodiesOf, ← shows.bodies_eq block real, Layout.setBody,
      Function.update_eq_self]
  rw [shows.decode_eq here]
  apply (fetched.store real long (PageHeader.decode_encode fits _)).imp
  intro _ pages'' stored'
  rw [unchanged] at stored'
  refine ⟨unlent, _, ?_, stored'⟩
  rw [length_putBlock, ← length]
  omega

theorem joinNext (lends : Lends width count layout stored held pages)
    (knows : layout.Knows prev) (fits : LinkFits next) :
    Leads
      (if prev.isNull then PageFile.setFirst kind next
        else PageFile.updateHeader prev ({ · with next := next })) pages
      (fun _ pages' => Spare held prev ∧
        Lends width count (layout.joinNext kind prev next) stored held pages')
      (fun error pages' => prev ≠ BlockId.header ∧
        Refused width count layout stored held prev error pages') := by
  unfold Layout.joinNext
  split
  · rename_i null
    refine (lends.setFirst kind next).imp fun _ _ begun => ⟨fun real => ?_, begun⟩
    exact absurd (BlockId.isNull_iff.mp null) real
  · rename_i real
    obtain ⟨header, here⟩ := knows (mt BlockId.isNull_iff.mpr real)
    rw [here]
    exact (lends.updateHeader here ⟨fits, (lends.fits here).prev⟩).mono
      (fun _ _ ⟨unlent, joined⟩ => ⟨fun _ => unlent, joined⟩)
      fun _ _ refused => ⟨mt BlockId.isNull_iff.mpr real, refused⟩

theorem joinPrev (lends : Lends width count layout stored held pages)
    (knows : layout.Knows next) (fits : LinkFits prev) :
    Leads
      (if next.isNull then PageFile.setLast kind prev
        else PageFile.updateHeader next ({ · with prev := prev })) pages
      (fun _ pages' => Spare held next ∧
        Lends width count (layout.joinPrev kind next prev) stored held pages')
      (fun error pages' => next ≠ BlockId.header ∧
        Refused width count layout stored held next error pages') := by
  unfold Layout.joinPrev
  split
  · rename_i null
    refine (lends.setLast kind prev).imp fun _ _ ended => ⟨fun real => ?_, ended⟩
    exact absurd (BlockId.isNull_iff.mp null) real
  · rename_i real
    obtain ⟨header, here⟩ := knows (mt BlockId.isNull_iff.mpr real)
    rw [here]
    exact (lends.updateHeader here ⟨(lends.fits here).next, fits⟩).mono
      (fun _ _ ⟨unlent, joined⟩ => ⟨fun _ => unlent, joined⟩)
      fun _ _ refused => ⟨mt BlockId.isNull_iff.mpr real, refused⟩

theorem writeFileHeader (lends : Lends width count layout stored held pages)
    (positive : 0 < count) (fits : layout.header.Fits) :
    Leads PageFile.writeFileHeader pages
      (fun _ => Lends width count layout layout.header held)
      (Refused width count layout stored held BlockId.header) := by
  obtain ⟨blocks, length, shows⟩ := lends
  refine Leads.bind (shows.fetch_or_refuse.imp_failed ?_) ?_
  · rintro error _ ⟨lent, error_eq, rfl⟩
    exact ⟨lent, error_eq, blocks, length, shows⟩
  rintro page pages' ⟨rfl, -, fetched⟩
  apply Leads.get_bind
  rw [fetched.header_eq]
  apply (fetched.storeFileHeader fits).imp
  intro _ pages'' stored'
  refine ⟨_, ?_, stored'⟩
  have zero : BlockId.header.toNat = 0 := rfl
  rw [length_putBlock, zero]
  omega

theorem readHeader (lends : Lends width count layout stored held pages)
    (here : layout.heads block = some header) :
    Leads (PageFile.readHeader block) pages
      (fun found pages' => found = header ∧ block ∉ held ∧
        Lends width count layout stored held pages')
      (Refused width count layout stored held block) := by
  obtain ⟨blocks, length, shows⟩ := lends
  apply shows.readHeader.mono
  · rintro found pages' ⟨there, unlent, shows'⟩
    exact ⟨Option.some.inj (there.symm.trans here), unlent, blocks, length, shows'⟩
  · rintro _ _ ⟨⟨lent, error_eq⟩ | missing, shows'⟩
    · exact ⟨lent, error_eq, blocks, length, shows'⟩
    · rw [here] at missing
      contradiction

end Lends

/-- Where taking a page out of its list is refused. -/
inductive NotUnlinked (width count : Nat) (layout : Layout) (stored : FileHeader)
    (held : List BlockId) (kind : PageKind) (block prev next : BlockId) (error : Error)
    (pages : PageFile) : Prop where
  | untouched {link : BlockId} (near : link = block ∨ link = prev ∧ prev ≠ BlockId.header)
      (refused : Refused width count layout stored held link error pages)
  | halfway (unlent : block ∉ held) (spare : Spare held prev) (real : next ≠ BlockId.header)
      (refused : Refused width count (layout.joinNext kind prev next) stored held next error
        pages)

namespace Lends

variable {width count : Nat} {layout : Layout} {stored : FileHeader} {held : List BlockId}
  {pages : PageFile} {kind : PageKind} {block prev next : BlockId} {header : PageHeader}
  {failed : Error → PageFile → Prop}

theorem unlink (lends : Lends width count layout stored held pages)
    (here : layout.heads block = some ⟨kind, next, prev⟩) (knows_next : layout.Knows next)
    (knows_prev : layout.Knows prev) :
    Leads (PageFile.unlink kind block) pages
      (fun _ pages' => block ∉ held ∧ Spare held prev ∧ Spare held next ∧ Lends width count
        ((layout.joinNext kind prev next).joinPrev kind next prev) stored held pages')
      (NotUnlinked width count layout stored held kind block prev next) := by
  have fits := lends.fits here
  refine Leads.bind ((lends.readHeader here).imp_failed
    fun _ _ refused => .untouched (.inl rfl) refused) ?_
  rintro _ pages' ⟨rfl, unlent, read⟩
  apply Leads.branch
  refine Leads.bind ((read.joinNext knows_prev fits.next).imp_failed
    fun _ _ ⟨real, refused⟩ => .untouched (.inr ⟨rfl, real⟩) refused) ?_
  rintro _ pages'' ⟨spare, joined⟩
  exact (joined.joinPrev (knows_next.joinNext kind prev next) fits.prev).mono
    (fun _ _ ⟨spare_next, both⟩ => ⟨unlent, spare, spare_next, both⟩)
    fun _ _ ⟨real, refused⟩ => .halfway unlent spare real refused

theorem writePage_bind {α : Type} (lends : Lends width count layout stored held pages)
    (real : block ≠ BlockId.header) (fits : header.Fits)
    {following : PageM α} {done : α → PageFile → Prop}
    (refused : ∀ error pages', Refused width count layout stored held block error pages' →
      failed error pages')
    (rest : block ∉ held → ∀ pages', Lends width (max count (block.toNat + 1))
      ((layout.setBody block (Bytes.zeros (width - PageHeader.size))).put block header) stored
      held pages' → Leads following pages' done failed) :
    Leads
      (do
        let page ← PageFile.fetch block
        PageFile.release
          { page with data := header.encode (Bytes.zeros page.data.length) } true
        following) pages done failed := by
  obtain ⟨blocks, length, shows⟩ := lends
  refine Leads.bind (shows.fetch_or_refuse.imp_failed ?_) ?_
  · rintro error _ ⟨lent, error_eq, rfl⟩
    exact refused _ _ ⟨lent, error_eq, blocks, length, shows⟩
  rintro page pages' ⟨rfl, unlent, fetched⟩
  have long : (header.encode
      (Bytes.zeros (blockAt width blocks block).length)).length = width := by
    rw [PageHeader.length_encode, Bytes.length_zeros, shows.stores.whole.length_blockAt]
    rw [Bytes.length_zeros, shows.stores.whole.length_blockAt]
    exact Nat.le_trans (by decide) shows.wide
  have blank : (header.encode (Bytes.zeros (blockAt width blocks block).length)).drop
      PageHeader.size = Bytes.zeros (width - PageHeader.size) := by
    rw [PageHeader.drop_encode, shows.stores.whole.length_blockAt, Bytes.zeros, Bytes.zeros,
      List.drop_replicate]
  refine Leads.bind (fetched.store real long (PageHeader.decode_encode fits _))
    fun _ pages'' stored' => ?_
  rw [blank] at stored'
  refine rest unlent pages'' ⟨_, ?_, stored'⟩
  rw [length_putBlock, length]

end Lends

end Paging

end DirectoryStore
