import DirectoryStore.Proofs.Paging.Lists

/-!
# Mounting a page file

Mounting an empty byte store writes a file header and nothing else, so no list has a
page.  Mounting the bytes of a page file finds the header of its lists in block 0.
-/

namespace DirectoryStore.Paging

/-- The sizes that a page file can have its pages in. -/
def ValidWidth (width : Nat) : Prop :=
  Settings.minPageSize ≤ width ∧ width ≤ Settings.maxPageSize

instance (width : Nat) : Decidable (ValidWidth width) :=
  inferInstanceAs (Decidable (_ ∧ _))

variable {width count : Nat} {contents : Contents} {handle : Handle}
  {injection : Injection Request} {blocks : List Bytes} {layout : Layout} {lists : PageLists}
  {pages : PageFile}

theorem ValidWidth.positive (valid : ValidWidth width) : 0 < width :=
  Nat.lt_of_lt_of_le (by decide) valid.1

theorem validWidth_of_mount
    (mounted : PageFile.mount (PageFile.unmounted contents handle injection width) =
      (.ok (), pages)) : ValidWidth width := by
  have size_eq : (PageFile.unmounted contents handle injection width).blocks.blockSize = width :=
    rfl
  have checked : Leads PageFile.mount (PageFile.unmounted contents handle injection width)
      (fun _ _ => ValidWidth width) fun _ _ => True := by
    apply Leads.get_bind
    simp only [size_eq]
    split
    · exact Leads.throw_bind trivial
    · split
      · exact Leads.throw_bind trivial
      · have valid : ValidWidth width := ⟨by omega, by omega⟩
        exact Leads.of_forall (fun _ _ => valid) fun _ _ => trivial
  exact checked.of_ok mounted

theorem mount_empty (valid : ValidWidth width) (knows : handle.Knows .empty)
    (quiet : injection.plan = FailurePlan.never) :
    Leads PageFile.mount (PageFile.unmounted .empty handle injection width)
      (fun _ pages' => ∃ layout, Represents width 1 (fun _ => []) layout pages')
      fun _ _ => False := by
  have wide : ¬ width < Settings.minPageSize := Nat.not_lt.mpr valid.1
  have narrow : ¬ Settings.maxPageSize < width := Nat.not_lt.mpr valid.2
  have empty : Stores width
      (PageFile.unmounted .empty handle injection width).blocks [] [] :=
    ⟨rfl, valid.positive, fun _ impossible => by simp at impossible, rfl, knows, quiet, rfl⟩
  have size_eq : (PageFile.unmounted .empty handle injection width).blocks.blockSize = width :=
    rfl
  apply Leads.get_bind
  simp only [size_eq, wide, narrow, if_false]
  refine Leads.bind empty.requireWholeBlocks.onBlocks fun _ pages₁ ⟨header₁, stores₁⟩ => ?_
  refine Leads.bind stores₁.blockCount.onBlocks
    fun count pages₂ ⟨header₂, count_eq, stores₂⟩ => ?_
  refine Leads.bind (stores₂.fetch List.not_mem_nil).onBlocks
    fun page pages₃ ⟨header₃, page_eq, stores₃⟩ => ?_
  subst count_eq page_eq
  simp only [List.length_nil, if_true]
  have long : (FileHeader.empty.encode (blockAt width [] BlockId.header)).length = width := by
    rw [FileHeader.length_encode, empty.whole.length_blockAt]
    rw [empty.whole.length_blockAt]
    exact Nat.le_trans (by decide) valid.1
  refine Leads.bind (stores₃.store long).onBlocks fun _ pages₄ ⟨header₄, stores₄⟩ => ?_
  have read := FileHeader.decode_encode FileHeader.fits_empty (blockAt width [] BlockId.header)
  have shows : Shows width [FileHeader.empty.encode (blockAt width [] BlockId.header)]
      ⟨headsOf width [FileHeader.empty.encode (blockAt width [] BlockId.header)], .empty,
        bodiesOf width [FileHeader.empty.encode (blockAt width [] BlockId.header)]⟩ .empty
      [] { pages₄ with header := .empty } :=
    ⟨valid.1, stores₄, rfl, fun _ => rfl, read, fun _ _ => rfl⟩
  refine ⟨_, ⟨⟨shows.null, fun kind => ?_⟩, fun block => ?_, Nat.one_pos⟩, _, rfl, shows⟩
  · cases kind <;> exact ⟨⟨trivial, rfl⟩, rfl⟩
  · constructor
    · rintro ⟨kind, impossible⟩
      simp at impossible
    · omega

theorem Represents.mount (represents : Represents width count lists layout pages)
    (valid : ValidWidth width) (knows : handle.Knows pages.blocks.contents)
    (quiet : injection.plan = FailurePlan.never) :
    Leads PageFile.mount (PageFile.unmounted pages.blocks.contents handle injection width)
      (fun _ pages' => Represents width count lists layout pages' ∧ SameFile pages pages')
      fun _ _ => False := by
  obtain ⟨arranged, blocks, length, shows⟩ := represents
  have wide : ¬ width < Settings.minPageSize := Nat.not_lt.mpr valid.1
  have narrow : ¬ Settings.maxPageSize < width := Nat.not_lt.mpr valid.2
  have size_eq : (PageFile.unmounted pages.blocks.contents handle injection
      width).blocks.blockSize = width := rfl
  have closed : Stores width (PageFile.unmounted pages.blocks.contents handle injection
      width).blocks blocks [] :=
    ⟨rfl, valid.positive, shows.stores.whole, shows.stores.bytes_eq, knows, quiet, rfl⟩
  have positive := arranged.positive
  apply Leads.get_bind
  simp only [size_eq, wide, narrow, if_false]
  refine Leads.bind closed.requireWholeBlocks.onBlocks fun _ pages₁ ⟨header₁, stores₁⟩ => ?_
  refine Leads.bind stores₁.blockCount.onBlocks
    fun count pages₂ ⟨header₂, count_eq, stores₂⟩ => ?_
  refine Leads.bind (stores₂.fetch List.not_mem_nil).onBlocks
    fun page pages₃ ⟨header₃, page_eq, stores₃⟩ => ?_
  subst count_eq page_eq
  have begun : ¬ blocks.length = 0 := by omega
  simp only [begun, if_false]
  refine Leads.bind (stores₃.putBack _).onBlocks fun _ pages₄ ⟨header₄, stores₄⟩ => ?_
  rw [shows.stored_eq]
  have opened : Shows width blocks layout layout.header []
      { pages₄ with header := layout.header } :=
    ⟨shows.wide, stores₄, rfl, shows.heads_eq, shows.stored_eq, shows.bodies_eq⟩
  exact ⟨⟨arranged, blocks, length, opened⟩, shows.sameFile opened⟩

end DirectoryStore.Paging
