import DirectoryStore.Proofs.Paging.Moving

/-!
# Page files as three sequences

A page file represents one sequence of pages for each kind when its headers link the
pages in that order, every block but the first is in a sequence, and no block is in use.
Allocating moves the first free page, or a new one, to the end of a sequence, and freeing
moves a page from anywhere to the front of the free ones.
-/

namespace DirectoryStore.Paging

structure Represents (width count : Nat) (lists : PageLists) (layout : Layout)
    (pages : PageFile) : Prop extends Arranged count lists layout where
  rests : Rests width count layout layout.header pages

namespace Represents

variable {width count : Nat} {layout : Layout} {lists : PageLists} {pages : PageFile}
  {kind : PageKind} {block : BlockId} {failed : Error → PageFile → Prop}

theorem lt_of_mem (represents : Represents width count lists layout pages)
    (member : block ∈ lists kind) : block.toNat < count :=
  represents.toArranged.lt_of_mem member

theorem mem_of_heads (represents : Represents width count lists layout pages)
    {header : PageHeader} (here : layout.heads block = some header) :
    block ∈ lists header.kind :=
  represents.toArranged.mem_of_heads represents.rests here

theorem first_eq (represents : Represents width count lists layout pages) (kind : PageKind) :
    pages.first kind = (lists kind).headD BlockId.header :=
  represents.rests.first_eq represents.threads kind

theorem allocate (represents : Represents width count lists layout pages)
    (room : count < 2 ^ 63) (kind_ne : kind ≠ .free) :
    Leads (PageFile.allocate kind) pages
      (fun block pages' => block = lists.fresh count ∧ ∃ layout',
        layout'.bodies = Function.update layout.bodies block
          (Bytes.zeros (width - PageHeader.size)) ∧
        Represents width (max count (block.toNat + 1)) (lists.allocate kind block) layout'
          pages') failed := by
  refine (represents.toArranged.allocate represents.rests room kind_ne).mono ?_ ?_
  · rintro block pages' ⟨block_eq, layout', bodies_eq, arranged, rests⟩
    exact ⟨block_eq, layout', bodies_eq, arranged, rests⟩
  · intro error pages' refused
    cases refused with
    | untouched refused | grown _ refused | popped _ _ refused =>
        exact absurd refused.lent List.not_mem_nil

theorem free (represents : Represents width count lists layout pages)
    (room : count < 2 ^ 63) (member : block ∈ lists kind) :
    Leads (PageFile.free kind block) pages
      (fun _ pages' => ∃ layout', layout'.bodies = layout.bodies ∧
        Represents width count (lists.free kind block) layout' pages') failed := by
  obtain ⟨front, back, parts⟩ := List.append_of_mem member
  refine (represents.toArranged.free represents.rests room parts).mono ?_ ?_
  · rintro _ pages' ⟨layout', bodies_eq, arranged, rests⟩
    exact ⟨layout', bodies_eq, arranged, rests⟩
  · intro error pages' refused
    cases refused with
    | untouched _ refused | diverted _ _ _ _ refused | unwritten _ _ _ _ _ refused =>
        exact absurd refused.lent List.not_mem_nil

theorem readHeader (represents : Represents width count lists layout pages) :
    Leads (PageFile.readHeader block) pages
      (fun header pages' => layout.heads block = some header ∧
        Represents width count lists layout pages' ∧ SameFile pages pages')
      fun _ pages' => layout.heads block = none ∧
        Represents width count lists layout pages' ∧ SameFile pages pages' := by
  obtain ⟨arranged, blocks, length, shows⟩ := represents
  apply shows.readHeader.mono
  · rintro header pages' ⟨here, -, shows'⟩
    exact ⟨here, ⟨arranged, blocks, length, shows'⟩, shows.sameFile shows'⟩
  · rintro error pages' ⟨⟨lent, -⟩ | here, shows'⟩
    · exact absurd lent List.not_mem_nil
    · exact ⟨here, ⟨arranged, blocks, length, shows'⟩, shows.sameFile shows'⟩

theorem free_rejected (represents : Represents width count lists layout pages)
    (outside : block ∉ lists kind) :
    Leads (PageFile.free kind block) pages (fun _ _ => False) fun _ pages' =>
      Represents width count lists layout pages' ∧ SameFile pages pages' := by
  have other (header : PageHeader) (here : layout.heads block = some header) :
      header.kind ≠ kind := by
    rintro rfl
    exact outside (represents.mem_of_heads here)
  obtain ⟨arranged, blocks, length, shows⟩ := represents
  refine (shows.free_rejected other).imp_failed fun _ pages' kept => ?_
  exact ⟨⟨arranged, blocks, length, kept⟩, shows.sameFile kept⟩

end Represents

end DirectoryStore.Paging
