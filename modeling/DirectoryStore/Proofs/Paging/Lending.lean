import DirectoryStore.Proofs.Paging.Sequences

/-!
# Operations while pages are in use

A caller may hold pages that it has fetched.  Allocating and freeing are refused where
they need one of these pages, and nothing that they did before is taken back.  So a
refused operation leaves the lists as they were only where it had not yet changed
anything, or where all that it changed was changed back on the way.
-/

namespace DirectoryStore.Paging

/-! ## What is left untouched -/

/-- Nothing that the lists are made of differs. -/
structure Untouched (pages pages' : PageFile) : Prop where
  header_eq : pages'.header = pages.header
  stored_eq : FileHeader.decode (pages'.storedBlock BlockId.header) =
    FileHeader.decode (pages.storedBlock BlockId.header)
  total_eq : pages'.blockTotal = pages.blockTotal
  heads_eq : ∀ block : BlockId, block.toNat < pages.blockTotal →
    (PageHeader.decode (pages'.storedBlock block)).toOption =
      (PageHeader.decode (pages.storedBlock block)).toOption

section

variable {width count count' : Nat} {layout layout' : Layout} {stored stored' : FileHeader}
  {held held' : List BlockId} {lists : PageLists} {pages pages' : PageFile}
  {kind : PageKind} {block : BlockId} {front back : List BlockId}

theorem Lends.untouched_iff (lends : Lends width count layout stored held pages)
    (lends' : Lends width count' layout' stored' held' pages') (positive : 0 < count) :
    Untouched pages pages' ↔ count' = count ∧ layout'.header = layout.header ∧
      stored' = stored ∧ layout'.heads = layout.heads := by
  obtain ⟨blocks, rfl, shows⟩ := lends
  obtain ⟨blocks', rfl, shows'⟩ := lends'
  have null : BlockId.header.toNat < blocks.length := positive
  constructor
  · rintro ⟨header_eq, stored_eq, total_eq, heads_eq⟩
    rw [shows.blockTotal_eq, shows'.blockTotal_eq] at total_eq
    rw [shows.header_eq, shows'.header_eq] at header_eq
    rw [shows.storedBlock_eq null, shows'.storedBlock_eq (total_eq ▸ null), shows.stored_eq,
      shows'.stored_eq] at stored_eq
    refine ⟨total_eq, header_eq, Except.ok.inj stored_eq, funext fun block => ?_⟩
    by_cases inside : block.toNat < blocks.length
    · have same := heads_eq block (shows.blockTotal_eq ▸ inside)
      rw [shows.storedBlock_eq inside, shows'.storedBlock_eq (total_eq ▸ inside)] at same
      rw [shows.heads_eq, shows'.heads_eq]
      exact same
    · have nothing {heads : Option PageHeader}
          (within : ∀ header, heads = some header → block.toNat < blocks.length) :
          heads = none :=
        Option.eq_none_iff_forall_not_mem.mpr fun header here => inside (within header here)
      rw [nothing fun header here => shows.inside here,
        nothing fun header here => total_eq ▸ shows'.inside here]
  · rintro ⟨total_eq, header_eq, rfl, heads_eq⟩
    refine ⟨?_, ?_, ?_, fun block inside => ?_⟩
    · rw [shows.header_eq, shows'.header_eq, header_eq]
    · rw [shows.storedBlock_eq null, shows'.storedBlock_eq (total_eq ▸ null), shows.stored_eq,
        shows'.stored_eq]
    · rw [shows.blockTotal_eq, shows'.blockTotal_eq, total_eq]
    · rw [shows.blockTotal_eq] at inside
      rw [shows.storedBlock_eq inside, shows'.storedBlock_eq (total_eq ▸ inside)]
      have same := congrFun heads_eq block
      rw [shows.heads_eq, shows'.heads_eq] at same
      exact same

theorem Refused.untouched {link : BlockId} {error : Error}
    (refused : Refused width count layout stored held' link error pages')
    (lends : Lends width count layout stored held pages) (positive : 0 < count) :
    Untouched pages pages' :=
  (lends.untouched_iff refused.lends positive).mpr ⟨rfl, rfl, rfl, rfl⟩

theorem Refused.touched {link prev : BlockId} {error : Error}
    (refused : Refused width count layout' stored held' link error pages')
    (lends : Lends width count layout stored held pages) (positive : 0 < count)
    (diverted : layout'.follower kind prev ≠ layout.follower kind prev) :
    ¬ Untouched pages pages' := by
  intro untouched
  obtain ⟨-, header_eq, -, heads_eq⟩ :=
    (lends.untouched_iff refused.lends positive).mp untouched
  refine diverted (Layout.follower_congr ?_ ?_)
  · rw [header_eq]
  · rw [heads_eq]

theorem Arranged.layout_unique (arranged : Arranged count lists layout)
    (lends : Lends width count layout stored held pages)
    (arranged' : Arranged count lists layout')
    (lends' : Lends width count layout' stored' held' pages') :
    layout'.header = layout.header ∧ layout'.heads = layout.heads := by
  have ends (kind : PageKind) : layout'.header.ends kind = layout.header.ends kind := by
    rw [arranged.threads.ends_eq, arranged'.threads.ends_eq]
  have listed {block : BlockId} {kind : PageKind} (member : block ∈ lists kind) :
      layout'.heads block = layout.heads block := by
    obtain ⟨front, back, parts⟩ := List.append_of_mem member
    rw [arranged.threads.heads_eq parts, arranged'.threads.heads_eq parts]
  refine ⟨FileHeader.ext_ends ends, funext fun block => ?_⟩
  cases here : layout.heads block with
  | some header => exact (listed (arranged.mem_of_heads lends here)).trans here
  | none =>
      cases there : layout'.heads block with
      | some header =>
          have same := listed (arranged'.mem_of_heads lends' there)
          rw [here, there] at same
          cases same
      | none => rfl

/-! ## Allocating -/

theorem Arranged.allocate_untouched_iff (arranged : Arranged count lists layout)
    (lends : Lends width count layout stored held pages) (room : count < 2 ^ 63)
    (kind_ne : kind ≠ .free) :
    Leads (PageFile.allocate kind) pages (fun _ _ => True)
      (fun _ pages' => Untouched pages pages' ↔ lists.fresh count ∈ held) := by
  have positive := arranged.positive
  refine (arranged.allocate lends room kind_ne).mono (fun _ _ _ => trivial) ?_
  intro error pages' failed
  cases failed with
  | untouched refused =>
      exact iff_of_true (refused.untouched lends positive) refused.lent
  | grown unlent refused =>
      refine iff_of_false (fun untouched => ?_) unlent
      have same := ((lends.untouched_iff refused.lends positive).mp untouched).1
      exact Nat.succ_ne_self count same
  | popped unlent diverted refused =>
      exact iff_of_false (refused.touched lends positive diverted) unlent

/-! ## Freeing -/

/-- The page before this one in its list is in use. -/
def FollowsHeld (lists : PageLists) (held : List BlockId) (kind : PageKind)
    (block : BlockId) : Prop :=
  ∃ front prev back, lists kind = front ++ prev :: block :: back ∧ prev ∈ held

/-- The page is the first free page already, and the one behind it is not in use. -/
def StaysFirst (lists : PageLists) (held : List BlockId) (kind : PageKind)
    (block : BlockId) : Prop :=
  kind = .free ∧ ∃ rest, lists .free = block :: rest ∧ ∀ next ∈ rest.head?, next ∉ held

theorem parts_unique {row front' back' : List BlockId} (nodup : row.Nodup)
    (parts : row = front ++ block :: back) (parts' : row = front' ++ block :: back') :
    front = front' ∧ back = back' := by
  subst parts
  have once := (List.nodup_cons.mp (List.nodup_middle.mp nodup)).1
  rw [List.mem_append, not_or] at once
  obtain ⟨front_eq, -, back_eq⟩ :=
    (List.append_cons_inj_of_notMem once.1 once.2).mp parts'
  exact ⟨front_eq, back_eq⟩

theorem followsHeld_iff (nodup : (lists kind).Nodup)
    (parts : lists kind = front ++ block :: back) :
    FollowsHeld lists held kind block ↔ ∃ prev ∈ front.getLast?, prev ∈ held := by
  constructor
  · rintro ⟨before, prev, behind, parts', lent⟩
    rw [List.append_cons] at parts'
    obtain ⟨rfl, -⟩ := parts_unique nodup parts parts'
    exact ⟨prev, List.getLast?_concat, lent⟩
  · rintro ⟨prev, last, lent⟩
    obtain ⟨before, rfl⟩ := List.getLast?_eq_some_iff.mp last
    exact ⟨before, prev, back, by simp [parts], lent⟩

theorem staysFirst_iff (nodup : (lists kind).Nodup)
    (parts : lists kind = front ++ block :: back) :
    StaysFirst lists held kind block ↔
      (kind = .free ∧ front = []) ∧ ∀ next ∈ back.head?, next ∉ held := by
  constructor
  · rintro ⟨rfl, rest, parts', unlent⟩
    have parts' : lists .free = [] ++ block :: rest := parts'
    obtain ⟨rfl, rfl⟩ := parts_unique nodup parts parts'
    exact ⟨⟨rfl, rfl⟩, unlent⟩
  · rintro ⟨⟨rfl, rfl⟩, unlent⟩
    exact ⟨rfl, back, parts, unlent⟩

theorem PageLists.free_first {rest : List BlockId} (free_eq : lists .free = block :: rest) :
    lists.free .free block = lists := by
  rw [PageLists.free, free_eq, List.erase_cons_head, Function.update_self,
    Function.update_idem, ← free_eq, Function.update_eq_self]

theorem NotFreed.untouched_iff {error : Error} (arranged : Arranged count lists layout)
    (lends : Lends width count layout stored held pages)
    (parts : lists kind = front ++ block :: back)
    (failed : NotFreed width count layout stored held lists kind front block back error
      pages') :
    Untouched pages pages' ↔ block ∈ held ∨ FollowsHeld lists held kind block ∨
      StaysFirst lists held kind block := by
  have nodup := arranged.threads.nodup kind
  rw [followsHeld_iff nodup parts, staysFirst_iff nodup parts]
  cases failed with
  | untouched near refused =>
      refine iff_of_true (refused.untouched lends arranged.positive) ?_
      rcases near with rfl | last
      · exact .inl refused.lent
      · exact .inr (.inl ⟨_, last, refused.lent⟩)
  | diverted unlent spare followed behind refused =>
      refine iff_of_false (refused.touched lends arranged.positive
        (arranged.threads.diverted parts followed)) ?_
      rintro (lent | ⟨prev, last, lent⟩ | ⟨⟨rfl, rfl⟩, unlent_next⟩)
      · exact unlent lent
      · exact spare prev last lent
      · obtain ⟨next, first, lent⟩ := behind rfl rfl
        exact unlent_next next first lent
  | unwritten unlent spare spare_next followed arranged' refused =>
      by_cases first : kind = .free ∧ front = []
      · -- The page is put where it was, so that nothing has changed after all.
        refine iff_of_true ?_ (.inr (.inr ⟨first, spare_next⟩))
        obtain ⟨rfl, rfl⟩ := first
        rw [PageLists.free_first parts] at arranged'
        obtain ⟨header_eq, heads_eq⟩ :=
          arranged.layout_unique lends arranged' refused.lends
        exact (lends.untouched_iff refused.lends arranged.positive).mpr
          ⟨rfl, header_eq, rfl, heads_eq⟩
      · refine iff_of_false (refused.touched lends arranged.positive
          (arranged.threads.diverted parts (followed (not_and_or.mp first)))) ?_
        rintro (lent | ⟨prev, last, lent⟩ | ⟨again, -⟩)
        · exact unlent lent
        · exact spare prev last lent
        · exact first again

theorem Arranged.free_unlisted (arranged : Arranged count lists layout)
    (lends : Lends width count layout stored held pages) (unlisted : block ∉ lists kind) :
    Leads (PageFile.free kind block) pages (fun _ _ => False)
      (fun _ pages' => Untouched pages pages') := by
  have other (header : PageHeader) (here : layout.heads block = some header) :
      header.kind ≠ kind := by
    rintro rfl
    exact unlisted (arranged.mem_of_heads lends here)
  have ⟨blocks, length, shows⟩ := lends
  refine (shows.free_rejected other).imp_failed fun _ pages' kept => ?_
  have lends' : Lends width count layout stored held pages' := ⟨blocks, length, kept⟩
  exact (lends.untouched_iff lends' arranged.positive).mpr ⟨rfl, rfl, rfl, rfl⟩

theorem Arranged.free_untouched_iff (arranged : Arranged count lists layout)
    (lends : Lends width count layout stored held pages) (room : count < 2 ^ 63) :
    Leads (PageFile.free kind block) pages (fun _ _ => True)
      (fun _ pages' => Untouched pages pages' ↔ block ∈ held ∨ block ∉ lists kind ∨
        FollowsHeld lists held kind block ∨ StaysFirst lists held kind block) := by
  by_cases member : block ∈ lists kind
  · obtain ⟨front, back, parts⟩ := List.append_of_mem member
    refine (arranged.free lends room parts).mono (fun _ _ _ => trivial)
      fun error pages' failed => ?_
    rw [not_iff_false_intro member, false_or]
    exact failed.untouched_iff arranged lends parts
  · exact (arranged.free_unlisted lends member).mono (fun _ _ never => never.elim)
      fun _ _ untouched => iff_of_true untouched (.inr (.inl member))

end

/-! ## Holding pages -/

def fetchEach : List BlockId → PageM (List Page)
  | [] => return []
  | block :: rest => do
      let page ← PageFile.fetch block
      return page :: (← fetchEach rest)

theorem Lends.fetchEach {width count : Nat} {layout : Layout} {stored : FileHeader}
    {held : List BlockId} {pages : PageFile}
    (lends : Lends width count layout stored held pages) (more : List BlockId) :
    Leads (Paging.fetchEach more) pages
      (fun _ pages' => Lends width count layout stored (more.reverse ++ held) pages')
      fun _ _ => True := by
  induction more generalizing held pages with
  | nil => exact lends
  | cons block rest ih =>
      obtain ⟨blocks, length, shows⟩ := lends
      refine Leads.bind (shows.fetch_or_refuse.imp_failed
        fun _ _ _ => trivial) ?_
      rintro page pages₁ ⟨-, -, fetched⟩
      refine Leads.bind (ih ⟨blocks, length, fetched⟩) fun _ pages₂ holds => ?_
      rw [List.reverse_cons, List.append_assoc]
      exact holds

def samplePage : PageFile :=
  ((Operation.allocate .data).run sampleOpened).2

def sampleHeld : PageFile :=
  (fetchEach [1] samplePage).2

theorem samplePage_reached : Reaches 64 samplePage := by
  have opened : Reaches 64 sampleOpened := .first (by decide) (Eq.refl 0) rfl
  exact opened.operated (.allocate .data) trivial (Prod.eta _).symm (by decide +kernel)

theorem samplePage_held :
    fetchEach [1] samplePage = (.ok [⟨1, samplePage.storedBlock 1⟩], sampleHeld) := by
  have fetched : (fetchEach [1] samplePage).1 = .ok [⟨1, samplePage.storedBlock 1⟩] := by
    decide +kernel
  rw [← fetched, sampleHeld, Prod.eta]

end DirectoryStore.Paging
