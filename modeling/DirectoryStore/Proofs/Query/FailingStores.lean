import DirectoryStore.Proofs.Outcomes
import DirectoryStore.Proofs.Query.SearchResults

/-!
# Stores whose calls fail

A search goes on after a failure, and the failure stands among the candidates it
finds.  What is then found is a part of what is found without failures: an entry
is named at most once, no entry is named that does not match, and when no
failure stands among the candidates, none is missing either.

The reason is that a failure never decides anything.  A filter that is evaluated
answers its truth value or fails, so a candidate is kept, dropped or replaced by
a failure, and never kept or dropped wrongly.  The induction on the filter
carries one list for every plan of failures; a plan without failures then shows
that this list is the answer of the search.
-/

namespace DirectoryStore.Query

variable {α β : Type}

/-! ## Steps that may fail -/

/-- Whatever calls fail, what the operation finds has the property. -/
def Ensures (operation : FindM α) (holds : α → Prop) : Prop :=
  ∀ injection, holds (operation injection).1

/-- Whatever calls fail, the operation fails or what it answers has the property. -/
def Gives (operation : QueryM α) (holds : α → Prop) : Prop :=
  ∀ injection, Leads operation injection (fun value _ => holds value) fun _ _ => True

namespace Ensures

variable {operation : FindM α} {holds holds' : α → Prop}

theorem pure {value : α} (first : holds value) : Ensures (Pure.pure value) holds :=
  fun _ => first

theorem bind {next : α → FindM β} {result : β → Prop} (first : Ensures operation holds)
    (rest : ∀ value, holds value → Ensures (next value) result) :
    Ensures (operation >>= next) result :=
  fun injection => rest _ (first injection) _

theorem imp (ensures : Ensures operation holds) (weaker : ∀ value, holds value → holds' value) :
    Ensures operation holds' :=
  fun injection => weaker _ (ensures injection)

end Ensures

namespace Gives

variable {operation : QueryM α} {holds : α → Prop}

theorem pure {value : α} (first : holds value) : Gives (Pure.pure value) holds :=
  fun _ => Leads.pure first

theorem bind {next : α → QueryM β} {result : β → Prop} (first : Gives operation holds)
    (rest : ∀ value, holds value → Gives (next value) result) :
    Gives (operation >>= next) result :=
  fun injection => (first injection).bind fun value state kept => rest value kept state

theorem lift {steps : FindM α} (ensures : Ensures steps holds) :
    Gives (ExceptT.lift steps) holds :=
  fun injection => ensures injection

theorem of_ok {value : α} {injection injection' : Injection StoreCall}
    (gives : Gives operation holds) (ran : operation injection = (.ok value, injection')) :
    holds value :=
  (gives injection).of_ok ran

theorem of_succeeds {value : α} (gives : Gives operation holds)
    (succeeds : Succeeds operation value) : holds value :=
  gives.of_ok (succeeds 0).choose_spec

theorem run (gives : Gives operation holds) :
    Ensures operation.run fun outcome => ∀ value, outcome = .ok value → holds value :=
  fun _ _ answered => gives.of_ok (Prod.ext answered rfl)

theorem of_blames (blames : ∀ plan, Blames plan operation holds) : Gives operation holds := by
  rintro ⟨plan, callsMade⟩
  obtain ⟨ended, after, ran, held⟩ := blames plan callsMade
  have ran' : operation ⟨plan, callsMade⟩ = (ended, ⟨plan, after⟩) := ran
  unfold Leads
  rw [ran']
  cases ended with
  | error error => trivial
  | ok value => exact held

end Gives

theorem ask_gives (call : StoreCall) (value : α) : Gives (ask call (.ok value)) (· = value) :=
  .of_blames fun plan => ask_blames plan call value

/-! ## What is found beside failures -/

def namedIds (found : List Found) : List EntryId :=
  found.filterMap fun item => item.toOption.map (·.id)

def Unfailing (found : List Found) : Prop :=
  ∀ error, .error error ∉ found

/-- The candidates of a scan as they were read, some of them as failures. -/
abbrev ReadFrom (candidates : List Candidate) (found : List Found) : Prop :=
  List.Forall₂ (fun candidate item => ∀ read, item = .ok read → read = candidate)
    candidates found

/-- Some of the entries, each once, and all of them in their order if nothing failed. -/
structure PartOf (ids : List EntryId) (found : List Found) : Prop where
  nodup : (namedIds found).Nodup
  subset : namedIds found ⊆ ids
  complete : Unfailing found → namedIds found = ids

section

variable {found : List Found} {candidate : Candidate} {error : Error}

@[simp]
theorem namedIds_nil : namedIds [] = [] :=
  rfl

@[simp]
theorem namedIds_error : namedIds (.error error :: found) = namedIds found :=
  rfl

@[simp]
theorem namedIds_ok : namedIds (.ok candidate :: found) = candidate.id :: namedIds found :=
  rfl

@[simp]
theorem namedIds_append {others : List Found} :
    namedIds (found ++ others) = namedIds found ++ namedIds others :=
  List.filterMap_append

@[simp]
theorem namedIds_map_ok (candidates : List Candidate) :
    namedIds (candidates.map .ok) = candidates.map (·.id) := by
  induction candidates with
  | nil => rfl
  | cons candidate rest ih => simp [ih]

theorem unfailing_nil : Unfailing [] := by
  simp [Unfailing]

theorem not_unfailing_error : ¬ Unfailing (.error error :: found) :=
  fun unfailing => unfailing error (by simp)

@[simp]
theorem unfailing_ok : Unfailing (.ok candidate :: found) ↔ Unfailing found := by
  simp [Unfailing]

@[simp]
theorem unfailing_append {others : List Found} :
    Unfailing (found ++ others) ↔ Unfailing found ∧ Unfailing others := by
  simp only [Unfailing, List.mem_append, not_or, forall_and]

theorem unfailing_map_ok (candidates : List Candidate) : Unfailing (candidates.map .ok) := by
  simp [Unfailing]

end

/-! ## Scans -/

theorem readAll_ensures (scan : Scan) (candidates : List Candidate) :
    Ensures (StoreView.readAll scan candidates) (ReadFrom candidates) := by
  induction candidates with
  | nil => exact .pure .nil
  | cons candidate rest ih =>
      refine (ask_gives _ candidate).run.bind fun item read => ?_
      exact ih.bind fun others others_read => .pure (.cons read others_read)

theorem openScan_gives {view : StoreView} {scan : Scan} {candidates : List Candidate}
    (scanned : view.scan scan = .ok candidates) :
    Gives (view.openScan scan) (ReadFrom candidates) := by
  unfold StoreView.openScan
  rw [scanned]
  refine (ask_gives _ candidates).bind ?_
  rintro _ rfl
  exact .lift (readAll_ensures scan _)

namespace ReadFrom

variable {candidates : List Candidate} {found : List Found}

theorem namedIds_sublist (read : ReadFrom candidates found) :
    (namedIds found).Sublist (candidates.map (·.id)) := by
  induction read with
  | nil => exact .slnil
  | @cons candidate item candidates found same _ ih =>
      cases item with
      | error error => exact ih.cons _
      | ok other =>
          obtain rfl := same other rfl
          exact ih.cons_cons _

theorem eq_of_unfailing (read : ReadFrom candidates found) (unfailing : Unfailing found) :
    found = candidates.map .ok := by
  induction read with
  | nil => rfl
  | @cons candidate item candidates found same _ ih =>
      cases item with
      | error error => exact (not_unfailing_error unfailing).elim
      | ok other =>
          obtain rfl := same other rfl
          rw [ih (unfailing_ok.mp unfailing), List.map_cons]

theorem mem_of_ok {candidate : Candidate} (read : ReadFrom candidates found)
    (member : .ok candidate ∈ found) : candidate ∈ candidates := by
  induction read with
  | nil => simp at member
  | cons same _ ih =>
      rcases List.mem_cons.mp member with here | later
      · exact same candidate here.symm ▸ List.mem_cons_self
      · exact List.mem_cons_of_mem _ (ih later)

theorem partOf (read : ReadFrom candidates found) (nodup : (candidates.map (·.id)).Nodup) :
    PartOf (candidates.map (·.id)) found where
  nodup := nodup.sublist read.namedIds_sublist
  subset := read.namedIds_sublist.subset
  complete unfailing := by rw [read.eq_of_unfailing unfailing, namedIds_map_ok]

end ReadFrom

/-! ## Index scans -/

theorem mem_namedIds_firstFitting {pattern : Option SubstringPattern} {seen : List EntryId}
    {found : List Found} {id : EntryId} :
    id ∈ namedIds (firstFitting pattern seen found) ↔ id ∉ seen ∧
      ∃ candidate, .ok candidate ∈ found ∧ candidate.id = id ∧
        candidate.fits pattern = true := by
  induction found generalizing seen with
  | nil => simp [firstFitting]
  | cons item rest ih =>
      cases item with
      | error error => simp [firstFitting, ih]
      | ok candidate =>
          simp only [firstFitting, List.mem_cons, Except.ok.injEq]
          split <;> simp only [namedIds_ok, List.mem_cons, ih] <;> grind

theorem firstFitting_nodup (pattern : Option SubstringPattern) (seen : List EntryId)
    (found : List Found) : (namedIds (firstFitting pattern seen found)).Nodup := by
  induction found generalizing seen with
  | nil => exact List.nodup_nil
  | cons item rest ih =>
      cases item with
      | error error => exact ih seen
      | ok candidate =>
          rw [firstFitting]
          split
          · rw [namedIds_ok, List.nodup_cons, mem_namedIds_firstFitting]
            exact ⟨by simp, ih _⟩
          · exact ih seen

theorem unfailing_of_firstFitting {pattern : Option SubstringPattern} {seen : List EntryId}
    {found : List Found} (unfailing : Unfailing (firstFitting pattern seen found)) :
    Unfailing found := by
  induction found generalizing seen with
  | nil => exact unfailing_nil
  | cons item rest ih =>
      cases item with
      | error error => exact (not_unfailing_error unfailing).elim
      | ok candidate =>
          rw [firstFitting] at unfailing
          split at unfailing
          · exact unfailing_ok.mpr (ih (unfailing_ok.mp unfailing))
          · exact unfailing_ok.mpr (ih unfailing)

/-- An entry whose first pair failed is named later or not at all. -/
theorem ReadFrom.partOf_firstFitting {candidates : List Candidate} {found : List Found}
    (read : ReadFrom candidates found) (pattern : Option SubstringPattern) :
    PartOf (namedIds (firstFitting pattern [] (candidates.map .ok)))
      (firstFitting pattern [] found) where
  nodup := firstFitting_nodup pattern [] found
  subset := by
    intro id member
    obtain ⟨fresh, candidate, named, same, fits⟩ := mem_namedIds_firstFitting.mp member
    exact mem_namedIds_firstFitting.mpr
      ⟨fresh, candidate, List.mem_map_of_mem (read.mem_of_ok named), same, fits⟩
  complete unfailing := by
    rw [read.eq_of_unfailing (unfailing_of_firstFitting unfailing)]

/-! ## Tests -/

/-- A test that answers the truth keeps some of those that pass, and loses no failure. -/
theorem sift_ensures {passes : EntryId → QueryM Bool} {accepts : EntryId → Bool}
    {found : List Found}
    (decided : ∀ id ∈ namedIds found, Gives (passes id) (· = accepts id)) :
    Ensures (sift passes found) fun kept =>
      (namedIds kept).Sublist ((namedIds found).filter accepts) ∧
        (Unfailing kept → Unfailing found ∧
          namedIds kept = (namedIds found).filter accepts) := by
  induction found with
  | nil => exact .pure ⟨.slnil, fun _ => ⟨unfailing_nil, rfl⟩⟩
  | cons item rest ih =>
      cases item with
      | error error =>
          refine (ih decided).bind fun kept held => .pure ⟨held.1, fun unfailing => ?_⟩
          exact (not_unfailing_error unfailing).elim
      | ok candidate =>
          have rest_kept := ih fun id member => decided id (List.mem_cons_of_mem _ member)
          refine (decided candidate.id (by simp)).run.bind fun answer answered => ?_
          rw [namedIds_ok, List.filter_cons]
          rcases answer with error | passed
          · refine rest_kept.bind fun kept held => .pure ⟨?_, fun unfailing => ?_⟩
            · split
              · exact held.1.cons _
              · exact held.1
            · exact (not_unfailing_error unfailing).elim
          · rw [← answered passed rfl]
            cases passed with
            | true =>
                refine rest_kept.bind fun kept held => .pure ⟨?_, fun unfailing => ?_⟩
                · exact held.1.cons_cons _
                · obtain ⟨before, same⟩ := held.2 (unfailing_ok.mp unfailing)
                  exact ⟨unfailing_ok.mpr before, by rw [namedIds_ok, same]; rfl⟩
            | false =>
                refine rest_kept.imp fun kept held => ⟨held.1, fun unfailing => ?_⟩
                exact ⟨unfailing_ok.mpr (held.2 unfailing).1, (held.2 unfailing).2⟩

theorem PartOf.sift {passes : EntryId → QueryM Bool} {accepts : EntryId → Bool}
    {ids : List EntryId} {found : List Found} (part : PartOf ids found)
    (decided : ∀ id ∈ ids, Gives (passes id) (· = accepts id)) :
    Ensures (sift passes found) (PartOf (ids.filter accepts)) := by
  refine (sift_ensures fun id member => decided id (part.subset member)).imp ?_
  rintro kept ⟨sublist, complete⟩
  refine ⟨(part.nodup.filter _).sublist sublist, ?_, fun unfailing => ?_⟩
  · exact List.Subset.trans sublist.subset (List.filter_subset _ part.subset)
  · obtain ⟨before, same⟩ := complete unfailing
    rw [same, part.complete before]

/-! ## Cursors -/

namespace Cursor

variable {view : StoreView}

/-- Read to its end, the cursor finds a part of the entries, whatever calls fail. -/
def FindsPartOf (view : StoreView) (ids : List EntryId) (cursor : Cursor) : Prop :=
  Ensures (cursor.toList view) (PartOf ids)

theorem tested_finds {inner : Cursor} {test : Test} {accepts : EntryId → Bool}
    {ids : List EntryId} (part : inner.FindsPartOf view ids)
    (decided : ∀ id ∈ ids, Gives (test.passes view id) (· = accepts id)) :
    (tested inner test).FindsPartOf view (ids.filter accepts) := by
  rw [FindsPartOf, toList]
  exact Ensures.bind part fun _ found => found.sift decided

def unionIds (view : StoreView) (own : Filter → List EntryId) :
    (earlier : List Filter) → List Filter → List EntryId
  | _, [] => []
  | earlier, filter :: rest =>
      (own filter).filter (isFresh view earlier) ++
        unionIds view own (earlier ++ [filter]) rest

theorem not_matches_of_mem_unionIds {own : Filter → List EntryId}
    {earlier filters : List Filter}
    (own_matches : ∀ filter ∈ filters, ∀ id ∈ own filter, filter.Matches view id)
    {id : EntryId} (member : id ∈ unionIds view own earlier filters) :
    ¬ ∃ filter ∈ earlier, filter.Matches view id := by
  induction filters generalizing earlier with
  | nil => simp [unionIds] at member
  | cons filter rest ih =>
      rcases List.mem_append.mp member with here | later
      · obtain ⟨owned, fresh⟩ := List.mem_filter.mp here
        exact (isFresh_iff (own_matches filter (by simp) id owned)).mp fresh
      · rintro ⟨other, other_mem, matched⟩
        exact ih (fun next next_mem => own_matches next (List.mem_cons_of_mem _ next_mem))
          later ⟨other, List.mem_append_left _ other_mem, matched⟩

/-- A branch names no entry of an earlier branch, since it is asked only for what they lack. -/
theorem unionList_ensures {own : Filter → List EntryId} {branches : List (Cursor × Filter)}
    {earlier : List Filter}
    (parts : ∀ branch ∈ branches, branch.1.FindsPartOf view (own branch.2))
    (own_matches : ∀ branch ∈ branches, ∀ id ∈ own branch.2, branch.2.Matches view id)
    (branches_searchable : ∀ branch ∈ branches, branch.2.Searchable)
    (searchable : ∀ filter ∈ earlier, filter.Searchable) :
    Ensures (unionList view earlier branches)
      (PartOf (unionIds view own earlier (branches.map (·.2)))) := by
  induction branches generalizing earlier with
  | nil => exact .pure ⟨List.nodup_nil, List.Subset.refl _, fun _ => rfl⟩
  | cons branch rest ih =>
      obtain ⟨cursor, filter⟩ := branch
      have earlier_searchable : ∀ other ∈ earlier ++ [filter], other.Searchable :=
        List.forall_mem_append.mpr ⟨searchable,
          List.forall_mem_singleton.mpr (branches_searchable (cursor, filter) (by simp))⟩
      have rest_found := ih (fun other member => parts other (List.mem_cons_of_mem _ member))
        (fun other member => own_matches other (List.mem_cons_of_mem _ member))
        (fun other member => branches_searchable other (List.mem_cons_of_mem _ member))
        earlier_searchable
      have later_new (id : EntryId)
          (later : id ∈ unionIds view own (earlier ++ [filter]) (rest.map (·.2))) :
          ¬ filter.Matches view id := by
        have none := not_matches_of_mem_unionIds (by
          intro other other_mem
          obtain ⟨branch, branch_mem, rfl⟩ := List.mem_map.mp other_mem
          exact own_matches branch (List.mem_cons_of_mem _ branch_mem)) later
        exact fun matched => none ⟨filter, by simp, matched⟩
      rw [unionList]
      refine Ensures.bind (parts (cursor, filter) (by simp)) fun found part => ?_
      have decided (id : EntryId) : Gives (isNew view earlier id) (· = isFresh view earlier id) :=
        .of_blames fun plan => isNew_blames searchable plan id
      refine (part.sift fun id _ => decided id).bind fun kept kept_part => ?_
      refine rest_found.bind fun others others_part => .pure ⟨?_, ?_, fun unfailing => ?_⟩
      · rw [namedIds_append]
        refine kept_part.nodup.append others_part.nodup fun id first second => ?_
        have owned := (List.mem_filter.mp (kept_part.subset first)).1
        exact later_new id (others_part.subset second)
          (own_matches (cursor, filter) (by simp) id owned)
      · rw [namedIds_append]
        exact List.append_subset.mpr
          ⟨List.subset_append_of_subset_left _ kept_part.subset,
            List.subset_append_of_subset_right _ others_part.subset⟩
      · obtain ⟨kept_unfailing, others_unfailing⟩ := unfailing_append.mp unfailing
        rw [namedIds_append, kept_part.complete kept_unfailing,
          others_part.complete others_unfailing]
        rfl

end Cursor

/-! ## Opening -/

theorem Test.passes_gives {view : StoreView} {test : Test}
    (searchable : ∀ condition ∈ test.conditions, condition.Searchable) (id : EntryId) :
    Gives (test.passes view id) (· = test.truth view id) :=
  .of_blames fun plan => Test.passes_blames searchable plan id

/-- Whatever calls fail, a cursor that is opened finds a part of these entries. -/
def Filter.Opens (view : StoreView) (opening : QueryM Cursor) (ids : List EntryId) : Prop :=
  Gives opening (Cursor.FindsPartOf view ids)

theorem opens_of_scan {view : StoreView} {scan : Scan} {candidates : List Candidate}
    {cursorOf : List Found → Cursor} {ids : List EntryId}
    (scanned : view.scan scan = .ok candidates)
    (part : ∀ found, ReadFrom candidates found → (cursorOf found).FindsPartOf view ids) :
    Filter.Opens view (do return cursorOf (← view.openScan scan)) ids :=
  (openScan_gives scanned).bind fun found read => .pure (part found read)

namespace MemoryStore

variable {store : MemoryStore}

theorem WellFormed.scan_nodup (wellFormed : store.WellFormed) {scan : Scan}
    (not_index : ∀ name seek, scan ≠ .index name seek) :
    ∃ candidates, store.scan scan = .ok candidates ∧ (candidates.map (·.id)).Nodup := by
  have ids_of (ids : List EntryId) : (ids.map Candidate.ofId).map (·.id) = ids := by
    simp [Candidate.ofId, Function.comp_def]
  cases scan with
  | index name seek => exact absurd rfl (not_index name seek)
  | presence name => exact ⟨_, rfl, (ids_of _).symm ▸ wellFormed.holders_nodup name⟩
  | full =>
      refine ⟨_, rfl, ?_⟩
      rw [List.map_map]
      exact wellFormed.ids_nodup
  | scope scope => exact ⟨_, rfl, (ids_of _).symm ▸ wellFormed.inScopeOrder_nodup scope⟩

theorem WellFormed.openScanned_opens (wellFormed : store.WellFormed) {scan : Scan}
    (not_index : ∀ name seek, scan ≠ .index name seek) :
    ∃ ids, Filter.Opens store.view (do return .scan (← store.view.openScan scan)) ids := by
  obtain ⟨candidates, answer, nodup⟩ := wellFormed.scan_nodup not_index
  refine ⟨candidates.map (·.id), opens_of_scan answer fun found read => ?_⟩
  rw [Cursor.FindsPartOf, Cursor.toList]
  exact .pure (read.partOf nodup)

theorem WellFormed.openTested_opens (wellFormed : store.WellFormed) {test : Test}
    (searchable : ∀ condition ∈ test.conditions, condition.Searchable) :
    ∃ ids, Filter.Opens store.view (Filter.openTested store.view test) ids := by
  have not_index : ∀ name seek, Scan.full ≠ .index name seek := by simp
  obtain ⟨candidates, answer, nodup⟩ := wellFormed.scan_nodup not_index
  refine ⟨(candidates.map (·.id)).filter (test.truth store.view),
    opens_of_scan answer fun found read => ?_⟩
  refine Cursor.tested_finds ?_ fun id _ => Test.passes_gives searchable id
  rw [Cursor.FindsPartOf, Cursor.toList]
  exact .pure (read.partOf nodup)

theorem isIndexed_of_scan? {isIndexed : String → Bool} {leaf : Filter} {name : String}
    {seek : Seek} (scanned : leaf.scan? isIndexed = some (.index name seek)) :
    isIndexed name = true := by
  cases leaf <;> simp only [Filter.scan?, Filter.scan?.ofIndex] at scanned <;> grind

theorem openIndexed_opens {name : String} {seek : Seek} {pattern : Option SubstringPattern}
    (indexed : store.view.hasIndexOn name = true) :
    ∃ ids, Filter.Opens store.view
      (do return .index (← store.view.openScan (.index name seek)) pattern) ids := by
  obtain ⟨index, found⟩ := Option.isSome_iff_exists.mp indexed
  refine ⟨namedIds (firstFitting pattern []
    (((index.scan seek).map IndexPair.toCandidate).map .ok)),
    opens_of_scan (scan_of_index found seek) fun found read => ?_⟩
  rw [Cursor.FindsPartOf, Cursor.toList]
  exact .pure (read.partOf_firstFitting pattern)

theorem WellFormed.openLeaf_opens (wellFormed : store.WellFormed) {leaf : Filter}
    (searchable : leaf.Searchable) :
    ∃ ids, Filter.Opens store.view (leaf.openLeaf store.view) ids := by
  unfold Filter.openLeaf
  cases scanned : leaf.scan? store.view.hasIndexOn with
  | none =>
      refine wellFormed.openTested_opens fun condition member => ?_
      obtain rfl : condition = leaf := by simpa [Test.conditions] using member
      exact searchable
  | some scan =>
      cases scan with
      | index name seek => exact openIndexed_opens (isIndexed_of_scan? scanned)
      | _ => exact wellFormed.openScanned_opens (by simp)

theorem WellFormed.answers_of_opens (wellFormed : store.WellFormed) {filter : Filter}
    (searchable : filter.Searchable) {ids : List EntryId}
    (opens : Filter.Opens store.view (filter.openChecked store.view) ids) :
    filter.Answers store.view ids ∧ ∀ id, id ∈ ids ↔ filter.Matches store.view id := by
  obtain ⟨cursor, opened, candidates, found, -, mem_iff⟩ :=
    wellFormed.openChecked_yields searchable
  obtain ⟨after, read⟩ := found 0
  have part := opens.of_succeeds opened ⟨FailurePlan.never, 0⟩
  rw [read] at part
  have same := part.complete (unfailing_map_ok candidates)
  rw [namedIds_map_ok] at same
  refine ⟨⟨cursor, candidates, ?_, found, same⟩, same ▸ mem_iff⟩
  rw [Filter.openCursor, searchable.check_ok]
  exact Succeeds.bind (.pure ()) opened

theorem openAll_gives {view : StoreView} {own : Filter → List EntryId} {children : List Filter}
    (each : ∀ child ∈ children, Filter.Opens view (child.openChecked view) (own child)) :
    Gives (Filter.openAll view children) fun branches =>
      branches.map (·.2) = children ∧
        ∀ branch ∈ branches, branch.1.FindsPartOf view (own branch.2) := by
  induction children with
  | nil => exact .pure ⟨rfl, by simp⟩
  | cons child rest ih =>
      have rest_opens := ih fun other member => each other (List.mem_cons_of_mem _ member)
      rw [Filter.openAll]
      refine Gives.bind (each child (by simp)) fun cursor part => ?_
      refine rest_opens.bind ?_
      rintro branches ⟨same, parts⟩
      refine .pure ⟨by simp [same], ?_⟩
      exact List.forall_mem_cons.mpr ⟨part, parts⟩

/-- For every filter that can be searched, one list serves for all plans of failures. -/
theorem WellFormed.openChecked_opens (wellFormed : store.WellFormed) {filter : Filter}
    (searchable : filter.Searchable) :
    ∃ ids, Filter.Opens store.view (filter.openChecked store.view) ids := by
  induction searchable with
  | @and children nonempty each ih =>
      have small := driver_lt nonempty
      obtain ⟨ids, opens⟩ := ih _ (List.getElem_mem small)
      have others_mem : ∀ child ∈ children.eraseIdx (Filter.driver children),
          child ∈ children := fun child => List.mem_of_mem_eraseIdx
      rw [openChecked_and small]
      generalize children.eraseIdx (Filter.driver children) = others at others_mem ⊢
      cases others with
      | nil => exact ⟨ids, Gives.bind opens fun cursor part => .pure part⟩
      | cons other rest =>
          refine ⟨ids.filter ((Test.matchesAll (other :: rest)).truth store.view),
            Gives.bind opens fun cursor part => .pure (Cursor.tested_finds part ?_)⟩
          refine fun id _ => Test.passes_gives (fun condition member => ?_) id
          obtain ⟨child, child_mem, rfl⟩ := List.mem_map.mp member
          exact each child (others_mem child child_mem)
  | @or children nonempty each ih =>
      choose! own opens using ih
      rw [Filter.openChecked]
      refine ⟨Cursor.unionIds store.view own [] children, ?_⟩
      refine (openAll_gives opens).bind ?_
      rintro branches ⟨same, parts⟩
      refine .pure ?_
      have child_mem : ∀ branch ∈ branches, branch.2 ∈ children :=
        fun branch member => same ▸ List.mem_map_of_mem member
      rw [Cursor.FindsPartOf, Cursor.toList, ← same]
      refine Cursor.unionList_ensures parts (fun branch member id owned => ?_)
        (fun branch member => each _ (child_mem branch member)) (by simp)
      have child := child_mem branch member
      exact ((wellFormed.answers_of_opens (each _ child) (opens _ child)).2 id).mp owned
  | @not child searchable ih =>
      rw [Filter.openChecked]
      exact wellFormed.openTested_opens fun condition member => by
        obtain rfl : condition = child := by simpa [Test.conditions] using member
        exact searchable
  | _ =>
      rw [Filter.openChecked.eq_def]
      exact wellFormed.openLeaf_opens (by constructor)

end MemoryStore

/-! ## Whole searches -/

/--
For every filter that passes the check there is one answer without failures, the
entries that match it, and whatever calls fail, a cursor that was opened at all is
read to its end with every entry at most once and no entry beside that answer;
without a failure among what is found, it is that answer.
-/
theorem failures_show {store : MemoryStore} (reachable : MemoryStore.Reachable store)
    {filter : Filter} (accepted : filter.check = .ok ()) :
    ∃ ids, filter.Answers store.view ids ∧
      (∀ id, id ∈ ids ↔ Succeeds (filter.evaluate store.view id) true) ∧
      ∀ injection cursor opened found drained,
        filter.openCursor store.view injection = (.ok cursor, opened) →
        cursor.toList store.view opened = (found, drained) →
        PartOf ids found := by
  have searchable := Filter.Searchable.of_check accepted
  obtain ⟨ids, opens⟩ := reachable.wellFormed.openChecked_opens searchable
  obtain ⟨answers, mem_iff⟩ := reachable.wellFormed.answers_of_opens searchable opens
  refine ⟨ids, answers, fun id => (mem_iff id).trans searchable.evaluate_true_iff.symm, ?_⟩
  intro injection cursor opened found drained opening draining
  rw [Filter.openCursor, accepted] at opening
  have part := opens.of_ok opening opened
  rwa [draining] at part

theorem failures_show_sampleConjunction :
    ∃ store, sampleDirectory = .ok store ∧ MemoryStore.Reachable store ∧
      sampleConjunction.check = .ok () ∧
      ∃ ids, sampleConjunction.Answers store.view ids ∧
        (∀ id, id ∈ ids ↔ Succeeds (sampleConjunction.evaluate store.view id) true) ∧
        ∀ injection cursor opened found drained,
          sampleConjunction.openCursor store.view injection = (.ok cursor, opened) →
          cursor.toList store.view opened = (found, drained) →
          PartOf ids found := by
  obtain ⟨store, accepted⟩ : ∃ store, sampleDirectory = .ok store := ⟨_, rfl⟩
  have reachable : MemoryStore.Reachable store :=
    (MemoryStore.Reachable.withIndices ["ou"]).insertEach accepted
  have checked : sampleConjunction.check = .ok () := by
    simp [sampleConjunction, Filter.check, Filter.checkConjuncts, bind, Except.bind]
  exact ⟨store, accepted, reachable, checked, failures_show reachable checked⟩

/-- Where the entry that the index names cannot be looked up, its failure is found. -/
example :
    (do
      let store ← sampleDirectory
      let injection : Injection StoreCall :=
        ⟨StoreFailureRule.plan [⟨.lookup, false, none⟩], 0⟩
      let (cursor, opened) := sampleConjunction.openCursor store.view injection
      return ((← cursor).toList store.view opened).1) = .ok [.error (.io .injected)] := by
  rfl

end DirectoryStore.Query
