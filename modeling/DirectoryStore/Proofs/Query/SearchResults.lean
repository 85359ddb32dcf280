import Mathlib.Data.List.Nodup
import DirectoryStore.Proofs.Query.Forest
import DirectoryStore.Proofs.Query.Meaning

/-!
# What a search finds

A cursor *yields* a set of entries when it names each of them once and fails
nowhere.  Every way to build a cursor has a law that says which set it yields:
index scans and their patterns, other scans, tests of each candidate, and unions
that leave out what an earlier branch yields.  By induction on the filter, the
cursor of a searchable filter yields exactly the entries that match, whatever
the estimates say.  So searching finds what looking at every entry finds.
-/

namespace DirectoryStore.Query

/-- Read to its end, the cursor names exactly these entries, each once. -/
def Cursor.Yields (view : StoreView) (cursor : Cursor)
    (entries : EntryId → Prop) : Prop :=
  ∃ candidates : List Candidate,
    Finds (cursor.toList view) (candidates.map .ok) ∧
      (candidates.map (·.id)).Nodup ∧
      ∀ id, id ∈ candidates.map (·.id) ↔ entries id

namespace Cursor

variable {view : StoreView} {entries entries' : EntryId → Prop}

theorem Yields.congr {cursor : Cursor} (yields : cursor.Yields view entries)
    (same : ∀ id, entries id ↔ entries' id) : cursor.Yields view entries' := by
  obtain ⟨candidates, found, nodup, mem_iff⟩ := yields
  exact ⟨candidates, found, nodup, fun id => (mem_iff id).trans (same id)⟩

/-! ## Scans -/

theorem scan_yields {ids : List EntryId} (nodup : ids.Nodup)
    (mem_iff : ∀ id, id ∈ ids ↔ entries id) :
    (scan ((ids.map Candidate.ofId).map .ok)).Yields view entries := by
  have same : (ids.map Candidate.ofId).map (·.id) = ids := by
    simp [Candidate.ofId, Function.comp_def]
  refine ⟨ids.map Candidate.ofId, Finds.pure _, ?_, fun id => ?_⟩
  · rwa [same]
  · rw [same, mem_iff]

theorem firstFitting_spec (pattern : Option SubstringPattern)
    (seen : List EntryId) (candidates : List Candidate) :
    ∃ kept : List Candidate,
      firstFitting pattern seen (candidates.map .ok) = kept.map .ok ∧
        (kept.map (·.id)).Nodup ∧
        ∀ id, id ∈ kept.map (·.id) ↔ id ∉ seen ∧
          ∃ candidate ∈ candidates, candidate.id = id ∧
            candidate.fits pattern = true := by
  induction candidates generalizing seen with
  | nil => exact ⟨[], rfl, List.nodup_nil, by simp⟩
  | cons candidate rest ih =>
      by_cases keeps : candidate.fits pattern = true ∧ candidate.id ∉ seen
      · obtain ⟨kept, answer, nodup, mem_iff⟩ := ih (candidate.id :: seen)
        refine ⟨candidate :: kept, ?_, ?_, fun id => ?_⟩
        · simp [firstFitting, keeps, answer]
        · rw [List.map_cons, List.nodup_cons, mem_iff]
          exact ⟨by simp, nodup⟩
        · rw [List.map_cons, List.mem_cons, mem_iff]
          grind
      · obtain ⟨kept, answer, nodup, mem_iff⟩ := ih seen
        refine ⟨kept, ?_, nodup, fun id => ?_⟩
        · rw [← answer, List.map_cons, firstFitting, if_neg]
          simpa using keeps
        · rw [mem_iff]
          grind

theorem index_yields {pattern : Option SubstringPattern}
    {candidates : List Candidate}
    (mem_iff : ∀ id, (∃ candidate ∈ candidates, candidate.id = id ∧
      candidate.fits pattern = true) ↔ entries id) :
    (index (candidates.map .ok) pattern).Yields view entries := by
  obtain ⟨kept, answer, nodup, kept_iff⟩ :=
    firstFitting_spec pattern [] candidates
  refine ⟨kept, ?_, nodup, fun id => ?_⟩
  · rw [toList, answer]
    exact Finds.pure _
  · rw [kept_iff, mem_iff]
    simp

/-! ## Tests -/

/-- A cursor with a test for more conditions, if there are any. -/
def testedBy (inner : Cursor) : List (Estimated Filter) → Cursor
  | [] => inner
  | others => .tested inner (.matchesAll others)

theorem mem_ids_filter {candidates : List Candidate} {accepts : EntryId → Bool}
    {id : EntryId} :
    id ∈ (candidates.filter (accepts ·.id)).map (·.id) ↔
      id ∈ candidates.map (·.id) ∧ accepts id = true := by
  simp only [List.mem_map, List.mem_filter]
  grind

theorem tested_yields {inner : Cursor} {test : Test} (yields : inner.Yields view entries)
    (searchable : ∀ condition ∈ test.conditions, condition.Searchable) :
    (tested inner test).Yields view fun id =>
      entries id ∧ test.truth view id = true := by
  obtain ⟨candidates, found, nodup, mem_iff⟩ := yields
  refine ⟨candidates.filter (test.truth view ·.id), ?_, ?_, fun id => ?_⟩
  · rw [toList]
    refine found.bind (sift_finds fun candidate _ => ?_)
    exact (Test.passes_blames searchable .never candidate.id).succeeds
  · exact nodup.sublist (List.filter_sublist.map _)
  · rw [mem_ids_filter, mem_iff]

/-! ## Unions -/

/-- No earlier filter is true of the entry, as far as it is known. -/
def isFresh (view : StoreView) (earlier : List Filter) (id : EntryId) : Bool :=
  match view.lookup id with
  | some entry => !Filter.truthOfSome view.inScope entry earlier
  | none => true

theorem isNew_blames {earlier : List Filter}
    (searchable : ∀ filter ∈ earlier, filter.Searchable) (plan : FailurePlan StoreCall)
    (id : EntryId) : Blames plan (isNew view earlier id) (· = isFresh view earlier id) := by
  unfold isNew isFresh
  cases earlier with
  | nil =>
      refine .pure ?_
      cases view.lookup id <;> rfl
  | cons first rest =>
      refine (ask_blames plan _ (view.lookup id)).bind ?_
      rintro _ rfl
      cases view.lookup id with
      | none => exact .pure rfl
      | some entry =>
          exact (Filter.anyHolds_blames fun filter member =>
            (searchable filter member).holdsFor_blames plan view entry).not

theorem isFresh_iff {earlier : List Filter} {filter : Filter} {id : EntryId}
    (matched : filter.Matches view id) :
    isFresh view earlier id = true ↔ ¬ ∃ other ∈ earlier, other.Matches view id := by
  obtain ⟨entry, found, -⟩ := matched
  simp only [isFresh, found, Bool.not_eq_true', Bool.eq_false_iff, ne_eq,
    Filter.truthOfSome_eq_true_iff, Filter.Matches.iff_of_lookup found]

/-- A branch leaves out exactly the entries that an earlier branch yields. -/
theorem unionList_finds {branches : List (Cursor × Filter)}
    {earlier : List Filter}
    (yields : ∀ branch ∈ branches,
      branch.1.Yields view (branch.2.Matches view))
    (branches_searchable : ∀ branch ∈ branches, branch.2.Searchable)
    (searchable : ∀ filter ∈ earlier, filter.Searchable) :
    ∃ candidates : List Candidate,
      Finds (unionList view earlier branches) (candidates.map .ok) ∧
        (candidates.map (·.id)).Nodup ∧
        ∀ id, id ∈ candidates.map (·.id) ↔
          (∃ branch ∈ branches, branch.2.Matches view id) ∧
            ¬ ∃ filter ∈ earlier, filter.Matches view id := by
  induction branches generalizing earlier with
  | nil => exact ⟨[], Finds.pure _, List.nodup_nil, by simp⟩
  | cons branch rest ih =>
      -- For the branches behind it this filter is an earlier one.
      obtain ⟨cursor, filter⟩ := branch
      obtain ⟨own, own_found, own_nodup, own_iff⟩ :=
        yields (cursor, filter) (by simp)
      have earlier_searchable : ∀ other ∈ earlier ++ [filter], other.Searchable :=
        List.forall_mem_append.mpr ⟨searchable,
          List.forall_mem_singleton.mpr (branches_searchable (cursor, filter) (by simp))⟩
      obtain ⟨others, others_found, others_nodup, others_iff⟩ :=
        ih (fun other member => yields other (List.mem_cons_of_mem _ member))
          (fun other member =>
            branches_searchable other (List.mem_cons_of_mem _ member))
          earlier_searchable
      have kept_iff (id : EntryId) :
          id ∈ (own.filter (isFresh view earlier ·.id)).map (·.id) ↔
            filter.Matches view id ∧ ¬ ∃ other ∈ earlier, other.Matches view id := by
        rw [mem_ids_filter, own_iff]
        exact and_congr_right isFresh_iff
      refine ⟨own.filter (isFresh view earlier ·.id) ++ others, ?_, ?_, fun id => ?_⟩
      · have kept_found : Finds (sift (isNew view earlier) (own.map .ok))
            ((own.filter (isFresh view earlier ·.id)).map .ok) :=
          sift_finds fun candidate _ => (isNew_blames searchable .never candidate.id).succeeds
        rw [unionList, List.map_append]
        exact own_found.bind (kept_found.bind (others_found.bind (Finds.pure _)))
      · rw [List.map_append]
        refine List.Nodup.append (own_nodup.sublist (List.filter_sublist.map _))
          others_nodup ?_
        intro id kept other
        rw [others_iff] at other
        exact other.2 ⟨filter, by simp, ((kept_iff id).mp kept).1⟩
      · rw [List.map_append, List.mem_append, kept_iff, others_iff]
        simp only [List.mem_append, List.mem_cons, List.not_mem_nil, or_false]
        grind

end Cursor

/-- Without failures a cursor is opened, and it yields exactly these entries. -/
def Filter.OpensOn (view : StoreView) (opening : QueryM Cursor) (entries : EntryId → Prop) :
    Prop :=
  ∃ cursor, Succeeds opening cursor ∧ cursor.Yields view entries

/-! ## Leaves -/

namespace MemoryStore

variable {store : MemoryStore}

theorem WellFormed.matches_iff (wellFormed : store.WellFormed) {filter : Filter}
    {id : EntryId} :
    filter.Matches store.view id ↔
      ∃ entry ∈ store.entries, entry.id = id ∧
        filter.truth store.view.inScope entry = true := by
  change (∃ entry, store.lookup id = some entry ∧ _) ↔ _
  simp only [wellFormed.lookup_eq_some_iff, and_assoc]

theorem WellFormed.openTested_yields (wellFormed : store.WellFormed)
    {filter : Filter} {test : Test}
    (searchable : ∀ condition ∈ test.conditions, condition.Searchable)
    (truth_iff : ∀ id, test.truth store.view id = true ↔ filter.Matches store.view id) :
    Filter.OpensOn store.view (Filter.openTested store.view test)
      (filter.Matches store.view) := by
  have all := @Cursor.scan_yields store.view _ _ wellFormed.ids_nodup fun id => Iff.rfl
  have candidates : (store.entries.map (·.id)).map Candidate.ofId =
      store.entries.map fun entry => .ofId entry.id := by
    simp
  rw [candidates] at all
  refine ⟨_, (store.view.openScan_succeeds rfl).bind (.pure _),
    (Cursor.tested_yields all searchable).congr fun id => ?_⟩
  rw [truth_iff, and_iff_right_iff_imp]
  exact fun matched => List.mem_map.mpr (contains_iff.mp matched.stored)

theorem WellFormed.openUnscanned_yields (wellFormed : store.WellFormed)
    {leaf : Filter} (searchable : leaf.Searchable)
    (unscanned : leaf.scan? store.view.hasIndexOn = none) :
    Filter.OpensOn store.view (leaf.openLeaf store.view) (leaf.Matches store.view) := by
  rw [Filter.openLeaf, unscanned]
  refine wellFormed.openTested_yields (List.forall_mem_singleton.mpr searchable) fun id => ?_
  rw [Test.truth_matchesAll_iff, Filter.matches_and_iff (List.cons_ne_nil _ _)]
  simp

theorem scan_of_index {index : AttributeIndex} {name : String}
    (found : store.index? name = some index) (seek : Seek) :
    store.view.scan (.index name seek) =
      .ok ((index.scan seek).map IndexPair.toCandidate) := by
  change store.scan (.index name seek) = _
  rw [scan, requireIndex, found]
  rfl

theorem WellFormed.openIndexed_yields (wellFormed : store.WellFormed)
    {leaf : Filter} {name : String} {seek : Seek}
    (scanned : leaf.scan? store.view.hasIndexOn = some (.index name seek))
    (indexed : store.hasIndexOn name = true)
    (truth_iff : ∀ entry, leaf.truth store.view.inScope entry = true ↔
      ∃ value ∈ entry.values name, seek.covers value = true ∧
        ∀ pattern, leaf.pattern? = some pattern → pattern.accepts value = true) :
    Filter.OpensOn store.view (leaf.openLeaf store.view) (leaf.Matches store.view) := by
  obtain ⟨index, found⟩ := Option.isSome_iff_exists.mp indexed
  have represents := wellFormed.index?_represents found
  have opened : leaf.openLeaf store.view =
      do return .index (← store.view.openScan (.index name seek)) leaf.pattern? := by
    rw [Filter.openLeaf, scanned]
  rw [opened]
  refine ⟨_, (store.view.openScan_succeeds (scan_of_index found seek)).bind (.pure _),
    Cursor.index_yields fun id => ?_⟩
  rw [wellFormed.matches_iff]
  constructor
  · rintro ⟨candidate, member, rfl, fits⟩
    obtain ⟨pair, pair_mem, rfl⟩ := List.mem_map.mp member
    obtain ⟨⟨entry, entry_mem, same, held⟩, covered⟩ :=
      (represents.mem_scan seek pair).mp pair_mem
    refine ⟨entry, entry_mem, same, (truth_iff entry).mpr
      ⟨pair.value, held, covered, fun pattern asked => ?_⟩⟩
    simpa [Candidate.fits, IndexPair.toCandidate, asked] using fits
  · rintro ⟨entry, entry_mem, rfl, holds⟩
    obtain ⟨value, held, covered, accepted⟩ := (truth_iff entry).mp holds
    have pair_mem := (represents.mem_scan seek ⟨value, entry.id⟩).mpr
      ⟨⟨entry, entry_mem, rfl, held⟩, covered⟩
    refine ⟨_, List.mem_map_of_mem pair_mem, rfl, ?_⟩
    cases asked : leaf.pattern? with
    | none => simp [Candidate.fits]
    | some pattern =>
        simpa [Candidate.fits, IndexPair.toCandidate] using accepted pattern asked

theorem WellFormed.openScanned_yields {leaf : Filter}
    (scan : Scan) (ids : List EntryId)
    (scanned : leaf.scan? store.view.hasIndexOn = some scan)
    (answer : store.scan scan = .ok (ids.map .ofId))
    (not_index : ∀ name seek, scan ≠ .index name seek) (nodup : ids.Nodup)
    (mem_iff : ∀ id, id ∈ ids ↔ leaf.Matches store.view id) :
    Filter.OpensOn store.view (leaf.openLeaf store.view) (leaf.Matches store.view) := by
  have opened : leaf.openLeaf store.view =
      do return .scan (← store.view.openScan scan) := by
    rw [Filter.openLeaf, scanned]
    cases scan with
    | index name seek => exact absurd rfl (not_index name seek)
    | _ => rfl
  rw [opened]
  exact ⟨_, (store.view.openScan_succeeds answer).bind (.pure _),
    Cursor.scan_yields nodup mem_iff⟩

theorem WellFormed.openAttribute_yields (wellFormed : store.WellFormed)
    {leaf : Filter} (name : String) (seek : Seek) (searchable : leaf.Searchable)
    (scanned : leaf.scan? store.view.hasIndexOn =
      Filter.scan?.ofIndex store.view.hasIndexOn name seek)
    (truth_iff : ∀ entry, leaf.truth store.view.inScope entry = true ↔
      ∃ value ∈ entry.values name, seek.covers value = true ∧
        ∀ pattern, leaf.pattern? = some pattern → pattern.accepts value = true) :
    Filter.OpensOn store.view (leaf.openLeaf store.view) (leaf.Matches store.view) := by
  cases indexed : store.view.hasIndexOn name with
  | true =>
      rw [Filter.scan?.ofIndex, indexed, if_pos rfl] at scanned
      exact wellFormed.openIndexed_yields scanned indexed truth_iff
  | false =>
      rw [Filter.scan?.ofIndex, indexed, if_neg Bool.false_ne_true] at scanned
      exact wellFormed.openUnscanned_yields searchable scanned

/-! ## Filters -/

theorem WellFormed.mem_holders_iff (wellFormed : store.WellFormed)
    {name : String} {id : EntryId} :
    id ∈ store.holders name ↔ store.HoldsAny id name := by
  simp only [holders, List.mem_map, wellFormed.existence.mem_scan, Seek.covers,
    beq_iff_eq]
  constructor
  · rintro ⟨pair, ⟨held, rfl⟩, rfl⟩
    exact held
  · exact fun held => ⟨⟨name, id⟩, ⟨held, rfl⟩, rfl⟩

theorem WellFormed.holders_nodup (wellFormed : store.WellFormed)
    (name : String) : (store.holders name).Nodup := by
  refine List.pairwise_map.mpr ((List.Pairwise.and_mem.mp
    (wellFormed.existence.scan_nodup (.equal name))).imp ?_)
  rintro a b ⟨a_mem, b_mem, different⟩ same
  have a_value : a.value = name := by
    simpa [Seek.covers] using ((wellFormed.existence.mem_scan _ _).mp a_mem).2
  have b_value : b.value = name := by
    simpa [Seek.covers] using ((wellFormed.existence.mem_scan _ _).mp b_mem).2
  cases a
  cases b
  simp_all

private theorem covers_of_accepts {pattern : SubstringPattern} {value : String}
    (accepted : pattern.accepts value = true) :
    pattern.seek.covers value = true := by
  unfold SubstringPattern.seek
  cases initial : pattern.initial with
  | none => rfl
  | some start =>
      rw [Seek.covers, startsWith_iff]
      simp only [SubstringPattern.accepts, SubstringPattern.matchesChars,
        SubstringPattern.chars, initial, Option.getD_some] at accepted
      cases shared : start.toList.isPrefixOf? value.toList with
      | none => simp [shared] at accepted
      | some rest =>
          exact ⟨rest, (List.isPrefixOf?_eq_some_iff_append_eq.mp shared)⟩

theorem smallest_spec {children : List (Estimated Filter)} (nonempty : children ≠ []) :
    ∃ place child, Filter.smallest children = some (place, child.rank) ∧
      children[place]? = some child ∧ (∀ other ∈ children, child.rank ≤ other.rank) ∧
      ∀ later other, place < later → children[later]? = some other →
        child.rank < other.rank := by
  induction children with
  | nil => contradiction
  | cons first rest ih =>
      rw [Filter.smallest]
      by_cases alone : rest = []
      · subst alone
        refine ⟨0, first, rfl, rfl, by simp, fun later other after found => ?_⟩
        obtain ⟨later, rfl⟩ := Nat.exists_eq_add_of_lt after
        simp at found
      · obtain ⟨place, child, smallest, found, least, last⟩ := ih alone
        simp only [smallest]
        by_cases small : child.rank ≤ first.rank
        · refine ⟨place + 1, child, if_pos small, found, ?_, ?_⟩
          · exact List.forall_mem_cons.mpr ⟨small, least⟩
          · rintro (_ | later) other after held
            · omega
            · exact last later other (by omega) held
        · refine ⟨0, first, if_neg small, rfl, ?_, ?_⟩
          · refine List.forall_mem_cons.mpr ⟨le_rfl, fun other member => ?_⟩
            have := least other member
            omega
          · rintro (_ | later) other after held
            · omega
            · have := least other (List.mem_of_getElem? held)
              omega

/-- The driver is the last of the children whose rank no other child's is below. -/
theorem driver_spec {children : List (Estimated Filter)} (nonempty : children ≠ []) :
    ∃ child, children[Filter.driver children]? = some child ∧
      (∀ other ∈ children, child.rank ≤ other.rank) ∧
      ∀ later other, Filter.driver children < later → children[later]? = some other →
        child.rank < other.rank := by
  obtain ⟨place, child, smallest, spec⟩ := smallest_spec nonempty
  have driver_eq : Filter.driver children = place := by
    rw [Filter.driver, smallest]
    rfl
  exact ⟨child, driver_eq ▸ spec⟩

theorem driver_lt {children : List (Estimated Filter)} (nonempty : children ≠ []) :
    Filter.driver children < children.length := by
  obtain ⟨child, found, -⟩ := driver_spec nonempty
  exact (List.getElem?_eq_some_iff.mp found).1

theorem openAt_eq {view : StoreView} {children : List (Estimated Filter)}
    {place : Nat} (small : place < children.length) :
    Filter.openAt view place children =
      children[place].condition.openChecked view := by
  induction children generalizing place with
  | nil => simp at small
  | cons child rest ih =>
      cases place with
      | zero => rw [Filter.openAt]; rfl
      | succ place => rw [Filter.openAt, ih (by simpa using small)]; rfl

theorem mem_iff_driver {children : List (Estimated Filter)}
    (small : Filter.driver children < children.length) (child : Estimated Filter) :
    child ∈ children ↔ child = children[Filter.driver children] ∨
      child ∈ children.eraseIdx (Filter.driver children) := by
  rw [← List.mem_cons, (List.getElem_cons_eraseIdx_perm small).mem_iff]

theorem openChecked_and {view : StoreView} {children : List (Estimated Filter)}
    (small : Filter.driver children < children.length) :
    (Filter.and children).openChecked view = do
      let inner ← children[Filter.driver children].condition.openChecked view
      return inner.testedBy (children.eraseIdx (Filter.driver children)) := by
  rw [Filter.openChecked, openAt_eq small]
  cases children.eraseIdx (Filter.driver children) <;> rfl

theorem conjunction_yields {children : List (Estimated Filter)} (nonempty : children ≠ [])
    (searchable : ∀ child ∈ children, child.condition.Searchable)
    (each : ∀ child ∈ children, Filter.OpensOn store.view
      (child.condition.openChecked store.view) (child.condition.Matches store.view)) :
    Filter.OpensOn store.view ((Filter.and children).openChecked store.view)
      ((Filter.and children).Matches store.view) := by
  have small := driver_lt nonempty
  obtain ⟨cursor, opened, yields⟩ := each _ (List.getElem_mem small)
  rw [openChecked_and small]
  refine ⟨_, opened.bind (.pure _), ?_⟩
  have split := mem_iff_driver small
  -- What matters of the other children is that they and the driver are all of them.
  generalize children.eraseIdx (Filter.driver children) = others at split ⊢
  have matches_iff (id : EntryId) : (Filter.and children).Matches store.view id ↔
      children[Filter.driver children].condition.Matches store.view id ∧
        ∀ child ∈ others, child.condition.Matches store.view id := by
    rw [Filter.matches_and_iff nonempty]
    simp only [split, forall_eq_or_imp]
  cases others with
  | nil => exact yields.congr fun id => by simp [matches_iff]
  | cons other rest =>
      refine (Cursor.tested_yields yields fun condition member => ?_).congr fun id => ?_
      · obtain ⟨child, child_mem, rfl⟩ := List.mem_map.mp member
        exact searchable child ((split child).mpr (.inr child_mem))
      · rw [matches_iff, Test.truth_matchesAll_iff, Filter.matches_and_iff (List.cons_ne_nil _ _)]

theorem openAll_yields {children : List Filter}
    (each : ∀ child ∈ children,
      Filter.OpensOn store.view (child.openChecked store.view) (child.Matches store.view)) :
    ∃ branches : List (Cursor × Filter),
      Succeeds (Filter.openAll store.view children) branches ∧
        branches.map (·.2) = children ∧
        ∀ branch ∈ branches,
          branch.1.Yields store.view (branch.2.Matches store.view) := by
  induction children with
  | nil => exact ⟨[], .pure _, rfl, by simp⟩
  | cons child rest ih =>
      obtain ⟨cursor, opened, yields⟩ := each child (by simp)
      obtain ⟨branches, rest_opened, same, rest_yields⟩ :=
        ih fun other member => each other (List.mem_cons_of_mem _ member)
      refine ⟨(cursor, child) :: branches, ?_, by simp [same], ?_⟩
      · rw [Filter.openAll]
        exact opened.bind (rest_opened.bind (.pure _))
      · intro branch member
        rcases List.mem_cons.mp member with rfl | member
        · exact yields
        · exact rest_yields branch member

theorem disjunction_yields {children : List Filter}
    (searchable : ∀ child ∈ children, child.Searchable)
    (each : ∀ child ∈ children,
      Filter.OpensOn store.view (child.openChecked store.view) (child.Matches store.view)) :
    Filter.OpensOn store.view ((Filter.or children).openChecked store.view)
      ((Filter.or children).Matches store.view) := by
  obtain ⟨branches, opened, same, yields⟩ := openAll_yields each
  have branches_searchable : ∀ branch ∈ branches, branch.2.Searchable :=
    fun branch member => searchable _ (same ▸ List.mem_map_of_mem member)
  obtain ⟨candidates, found, nodup, mem_iff⟩ :=
    Cursor.unionList_finds yields branches_searchable (List.forall_mem_nil _)
  rw [Filter.openChecked]
  refine ⟨.union branches, opened.bind (.pure _), candidates, ?_, nodup, fun id => ?_⟩
  · rw [Cursor.toList]
    exact found
  · rw [mem_iff, Filter.matches_or_iff, ← same]
    simp only [List.mem_map, exists_exists_and_eq_and, List.not_mem_nil, false_and, exists_false,
      not_false_eq_true, and_true]

theorem WellFormed.presence_yields (wellFormed : store.WellFormed) (name : String) :
    Filter.OpensOn store.view ((Filter.presence name).openLeaf store.view)
      ((Filter.presence name).Matches store.view) := by
  cases indexed : store.view.hasIndexOn name with
  | false =>
      exact wellFormed.openUnscanned_yields (.presence name) (by simp [Filter.scan?, indexed])
  | true =>
      refine openScanned_yields (.presence name) (store.holders name)
        (by simp [Filter.scan?, indexed]) rfl (by simp) (wellFormed.holders_nodup name)
        fun id => ?_
      simp only [wellFormed.mem_holders_iff, wellFormed.matches_iff, Filter.truth, HoldsAny,
        Entry.mem_heldNames_iff]

theorem WellFormed.within_yields (wellFormed : store.WellFormed) (scope : Scope) :
    Filter.OpensOn store.view ((Filter.within scope).openLeaf store.view)
      ((Filter.within scope).Matches store.view) := by
  refine openScanned_yields (.scope scope) (store.inScopeOrder scope) rfl rfl (by simp)
    (wellFormed.inScopeOrder_nodup scope) fun id => ?_
  rw [← wellFormed.inScope_iff, wellFormed.matches_iff]
  constructor
  · intro inside
    obtain ⟨entry, member, rfl⟩ := contains_iff.mp (Bool.and_eq_true _ _ ▸ inside).1
    exact ⟨entry, member, rfl, by rwa [Filter.truth]⟩
  · rintro ⟨entry, -, rfl, inside⟩
    rwa [Filter.truth] at inside

/-- Opened without failures, a searchable filter yields exactly what it matches. -/
theorem WellFormed.openChecked_yields (wellFormed : store.WellFormed)
    {filter : Filter} (searchable : filter.Searchable) :
    Filter.OpensOn store.view (filter.openChecked store.view) (filter.Matches store.view) := by
  induction searchable with
  | presence name =>
      rw [Filter.openChecked.eq_def]
      exact wellFormed.presence_yields name
  | equality name value | approximate name value =>
      rw [Filter.openChecked.eq_def]
      refine wellFormed.openAttribute_yields name (.equal value)
        (by constructor) rfl fun entry => ?_
      simp [Filter.truth, Seek.covers, Filter.pattern?]
  | greaterOrEqual name value =>
      rw [Filter.openChecked.eq_def]
      refine wellFormed.openAttribute_yields name (.atLeast value)
        (.greaterOrEqual name value) rfl fun entry => ?_
      simp [Filter.truth, Seek.covers, Filter.pattern?]
  | lessOrEqual name value =>
      rw [Filter.openChecked.eq_def]
      refine wellFormed.openAttribute_yields name (.atMost value)
        (.lessOrEqual name value) rfl fun entry => ?_
      simp [Filter.truth, Seek.covers, Filter.pattern?]
  | substring pattern =>
      rw [Filter.openChecked.eq_def]
      refine wellFormed.openAttribute_yields pattern.name
        pattern.seek (.substring pattern) rfl fun entry => ?_
      -- The index is sought for the start of the pattern alone.
      simp only [Filter.truth, List.any_eq_true, Filter.pattern?,
        Option.some.injEq, forall_eq']
      exact exists_congr fun value => and_congr_right fun _ =>
        ⟨fun accepted => ⟨covers_of_accepts accepted, accepted⟩, And.right⟩
  | within scope =>
      rw [Filter.openChecked.eq_def]
      exact wellFormed.within_yields scope
  | and nonempty each ih => exact conjunction_yields nonempty each ih
  | or nonempty each ih => exact disjunction_yields each ih
  | not searchable ih =>
      rw [Filter.openChecked]
      exact wellFormed.openTested_yields (List.forall_mem_singleton.mpr searchable)
        fun id => Test.truth_fails_iff

end MemoryStore

/-! ## Whole searches -/

theorem idsOf_map_ok (candidates : List Candidate) :
    idsOf (candidates.map .ok) = .ok (candidates.map (·.id)) := by
  induction candidates with
  | nil => rfl
  | cons candidate rest ih =>
      rw [List.map_cons, idsOf, ih]
      rfl

theorem evaluateEach_succeeds (view : StoreView) {filter : Filter}
    (searchable : filter.Searchable) (ids : List EntryId) :
    ∃ matching, Succeeds (evaluateEach view filter ids) matching ∧
      ∀ id, id ∈ matching ↔ id ∈ ids ∧ filter.Matches view id := by
  induction ids with
  | nil => exact ⟨[], .pure _, by simp⟩
  | cons id rest ih =>
      obtain ⟨matching, evaluated, mem_iff⟩ := ih
      obtain ⟨answer, decided, answer_iff⟩ := searchable.evaluate_succeeds view id
      refine ⟨if answer then id :: matching else matching,
        decided.bind (evaluated.bind (.pure _)), fun other => ?_⟩
      cases answer with
      | true =>
          have matched := answer_iff.mp rfl
          rw [if_pos rfl, List.mem_cons, List.mem_cons, mem_iff]
          grind
      | false =>
          have unmatched : ¬ filter.Matches view id := by simpa using answer_iff
          rw [if_neg Bool.false_ne_true, mem_iff, List.mem_cons]
          grind

namespace Filter

/-- Opening a cursor and reading it to its end gives these entries and no error. -/
def Answers (view : StoreView) (filter : Filter) (ids : List EntryId) : Prop :=
  ∃ cursor, ∃ candidates : List Candidate,
    Succeeds (filter.openCursor view) cursor ∧
      Finds (cursor.toList view) (candidates.map .ok) ∧
      candidates.map (·.id) = ids

/-- The entries found are those that looking at every entry finds, each once. -/
structure SearchAgrees (view : StoreView) (filter : Filter)
    (ids : List EntryId) : Prop where
  answers : filter.Answers view ids
  nodup : ids.Nodup
  bruteForce : ∃ matching, Succeeds (bruteForce view filter) matching ∧
    ∀ id, id ∈ ids ↔ id ∈ matching
  evaluated : ∃ all, Succeeds (allIds view) all ∧
    ∀ id, id ∈ ids ↔ id ∈ all ∧ Succeeds (filter.evaluate view id) true
  intersection : ∀ children, filter = .and children → ∀ id, id ∈ ids ↔
    ∀ child ∈ children, ∃ found, child.condition.Answers view found ∧ id ∈ found
  union : ∀ children, filter = .or children → ∀ id, id ∈ ids ↔
    ∃ child ∈ children, ∃ found, child.Answers view found ∧ id ∈ found
  complement : ∀ child, filter = .not child → ∃ all found,
    Succeeds (allIds view) all ∧ child.Answers view found ∧
      ∀ id, id ∈ ids ↔ id ∈ all ∧ id ∉ found

theorem Searchable.evaluate_true_iff {filter : Filter}
    (searchable : filter.Searchable) {view : StoreView} {id : EntryId} :
    Succeeds (filter.evaluate view id) true ↔ filter.Matches view id := by
  obtain ⟨answer, decided, answer_iff⟩ := searchable.evaluate_succeeds view id
  rw [← answer_iff]
  exact ⟨fun found => decided.unique found, fun same => same ▸ decided⟩

theorem Answers.unique {view : StoreView} {filter : Filter}
    {first second : List EntryId} (answers : filter.Answers view first)
    (answers' : filter.Answers view second) : first = second := by
  obtain ⟨cursor, candidates, opened, found, rfl⟩ := answers
  obtain ⟨cursor', candidates', opened', found', rfl⟩ := answers'
  obtain rfl := opened.unique opened'
  have same : idsOf (candidates.map .ok) = idsOf (candidates'.map .ok) := by
    rw [found.unique found']
  rw [idsOf_map_ok, idsOf_map_ok] at same
  exact Except.ok.inj same

theorem Searchable.answers {store : MemoryStore}
    (wellFormed : store.WellFormed) {filter : Filter}
    (searchable : filter.Searchable) :
    ∃ ids, filter.Answers store.view ids ∧ ids.Nodup ∧
      ∀ id, id ∈ ids ↔ filter.Matches store.view id := by
  obtain ⟨cursor, opened, candidates, found, nodup, mem_iff⟩ :=
    wellFormed.openChecked_yields searchable
  have checked : Succeeds (filter.openCursor store.view) cursor := by
    rw [openCursor, searchable.check_ok]
    exact Succeeds.bind (.pure ()) opened
  exact ⟨_, ⟨cursor, candidates, checked, found, rfl⟩, nodup, mem_iff⟩

end Filter

theorem allIds_succeeds (store : MemoryStore) :
    Succeeds (allIds store.view) (store.entries.map (·.id)) := by
  have ids : idsOf ((store.entries.map fun entry => Candidate.ofId entry.id).map .ok) =
      .ok (store.entries.map (·.id)) := by
    rw [idsOf_map_ok, List.map_map]
    rfl
  refine (store.view.openScan_succeeds rfl).bind ?_
  rw [ids]
  exact .pure _

/--
A searchable filter finds in every store exactly what looking at each entry
finds, and every entry once.  No estimate and no order of the children matters:
a conjunction is an intersection, a disjunction a union without repetition, and
a negation a complement in all entries.
-/
theorem search_agrees {store : MemoryStore}
    (reachable : MemoryStore.Reachable store) {filter : Filter}
    (searchable : filter.Searchable) :
    ∃ ids, filter.SearchAgrees store.view ids := by
  have wellFormed := reachable.wellFormed
  obtain ⟨ids, answers, nodup, mem_iff⟩ := searchable.answers wellFormed
  obtain ⟨matching, evaluated, matching_iff⟩ :=
    evaluateEach_succeeds store.view searchable
      (store.entries.map (·.id))
  have found_iff {child : Filter} (child_searchable : child.Searchable)
      (id : EntryId) :
      (∃ found, child.Answers store.view found ∧ id ∈ found) ↔
        child.Matches store.view id := by
    obtain ⟨found, child_answers, -, found_iff⟩ :=
      child_searchable.answers wellFormed
    rw [← found_iff]
    constructor
    · rintro ⟨found', child_answers', member⟩
      rwa [child_answers.unique child_answers']
    · exact fun member => ⟨found, child_answers, member⟩
  have stored_iff (id : EntryId) :
      id ∈ store.entries.map (·.id) ↔ (store.view.lookup id).isSome = true := by
    rw [List.mem_map, ← MemoryStore.contains_iff]
    rfl
  have stored (id : EntryId) (matched : filter.Matches store.view id) :
      id ∈ store.entries.map (·.id) := by
    obtain ⟨entry, found, -⟩ := matched
    exact (stored_iff id).mpr (by simp [found])
  refine ⟨ids, answers, nodup, ⟨matching, ?_, fun id => ?_⟩,
    ⟨_, allIds_succeeds store, fun id => ?_⟩, ?_, ?_, ?_⟩
  · exact (allIds_succeeds store).bind evaluated
  · rw [mem_iff, matching_iff]
    exact ⟨fun matched => ⟨stored id matched, matched⟩, And.right⟩
  · rw [mem_iff, searchable.evaluate_true_iff]
    exact ⟨fun matched => ⟨stored id matched, matched⟩, And.right⟩
  · rintro children rfl id
    cases searchable with
    | and nonempty each =>
        rw [mem_iff, Filter.matches_and_iff nonempty]
        exact forall₂_congr fun child member => (found_iff (each child member) id).symm
  · rintro children rfl id
    cases searchable with
    | or nonempty each =>
        rw [mem_iff, Filter.matches_or_iff]
        exact exists_congr fun child => and_congr_right fun member =>
          (found_iff (each child member) id).symm
  · rintro child rfl
    cases searchable with
    | not child_searchable =>
        obtain ⟨found, child_answers, -, child_iff⟩ :=
          child_searchable.answers wellFormed
        refine ⟨_, found, allIds_succeeds store, child_answers, fun id => ?_⟩
        rw [mem_iff, Filter.matches_not_iff, stored_iff, child_iff]

theorem MemoryStore.Reachable.insertEach {store next : MemoryStore}
    (reachable : Reachable store) {entries : List Entry}
    (accepted : store.insertEach entries = .ok next) : Reachable next := by
  induction entries generalizing store with
  | nil => exact Except.ok.inj accepted ▸ reachable
  | cons entry rest ih =>
      cases inserted : store.insert entry with
      | error error =>
          simp [MemoryStore.insertEach, inserted, bind, Except.bind] at accepted
      | ok following =>
          simp only [MemoryStore.insertEach, inserted, bind, Except.bind] at accepted
          exact ih (reachable.insert entry inserted) accepted

/-- The drama entries that do not hold a `sn`, with estimates of both kinds. -/
def sampleConjunction : Filter :=
  .and [⟨.equality "ou" "drama", some 7⟩, ⟨.not (.presence "sn"), none⟩]

theorem search_agrees_sampleConjunction :
    ∃ store, sampleDirectory = .ok store ∧ MemoryStore.Reachable store ∧
      sampleConjunction.Searchable ∧
      ∃ ids, sampleConjunction.SearchAgrees store.view ids := by
  obtain ⟨store, accepted⟩ : ∃ store, sampleDirectory = .ok store := ⟨_, rfl⟩
  have reachable : MemoryStore.Reachable store :=
    (MemoryStore.Reachable.withIndices ["ou"]).insertEach accepted
  have searchable : sampleConjunction.Searchable := by
    refine .and (by simp) fun child member => ?_
    rcases List.mem_pair.mp member with rfl | rfl
    · exact .equality "ou" "drama"
    · exact .not (.presence "sn")
  exact ⟨store, accepted, reachable, searchable,
    search_agrees reachable searchable⟩

end DirectoryStore.Query
