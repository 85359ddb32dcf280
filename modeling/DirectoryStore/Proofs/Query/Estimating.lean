import DirectoryStore.Proofs.Query.Changing
import DirectoryStore.Proofs.Query.FailingStores

/-!
# What estimates promise

An estimate is never below the number of entries that match.  A leaf is counted
by the scan that answers it, and this scan names every entry that matches; a
conjunction matches no entry that one of its children does not match, and a
disjunction none that no child matches.  Sums are cut to the largest word, and
a store that can be counted at all holds no more entries than that.

So the child that a conjunction is searched from, the last of those with the
smallest estimate, has no more candidates than any other child was expected to
have.
-/

namespace DirectoryStore.Query

/-! ## Bounds on the number of entries -/

/-- A list of no more than `count` names leaves out none of the entries. -/
def AtMost (count : Nat) (entries : EntryId → Prop) : Prop :=
  ∃ names : List EntryId, names.length ≤ count ∧ ∀ id, entries id → id ∈ names

namespace AtMost

variable {count count' : Nat} {entries entries' : EntryId → Prop}

theorem zero : AtMost 0 fun _ => False :=
  ⟨[], le_rfl, fun _ => False.elim⟩

theorem imp (atMost : AtMost count entries) (part : ∀ id, entries' id → entries id) :
    AtMost count entries' := by
  obtain ⟨names, short, named⟩ := atMost
  exact ⟨names, short, fun id member => named id (part id member)⟩

theorem least (first : AtMost count entries) (second : AtMost count' entries) :
    AtMost (min count count') entries := by
  rcases min_choice count count' with least | least
  · rwa [least]
  · rwa [least]

theorem add (first : AtMost count entries) (second : AtMost count' entries') :
    AtMost (count + count') fun id => entries id ∨ entries' id := by
  obtain ⟨names, short, named⟩ := first
  obtain ⟨names', short', named'⟩ := second
  refine ⟨names ++ names', ?_, fun id member => List.mem_append.mpr ?_⟩
  · rw [List.length_append]
    omega
  · exact member.imp (named id) (named' id)

theorem length_le (atMost : AtMost count entries) {ids : List EntryId}
    (nodup : ids.Nodup) (each : ∀ id ∈ ids, entries id) : ids.length ≤ count := by
  obtain ⟨names, short, named⟩ := atMost
  have part : ids ⊆ names := fun id member => named id (each id member)
  exact (nodup.subperm part).length_le.trans short

end AtMost

/-! ## Related lists -/

section

variable {α β : Type} {related : α → β → Prop} {first : List α} {second : List β}

theorem ne_nil_of_forall₂ (each : List.Forall₂ related first second) (nonempty : first ≠ []) :
    second ≠ [] := by
  rintro rfl
  exact nonempty (List.forall₂_nil_right_iff.mp each)

theorem exists_getElem?_of_forall₂ (each : List.Forall₂ related first second) {place : Nat}
    {element : α} (found : first[place]? = some element) :
    ∃ element', second[place]? = some element' ∧ related element element' := by
  obtain ⟨small, rfl⟩ := List.getElem?_eq_some_iff.mp found
  have small' : place < second.length := each.length_eq ▸ small
  exact ⟨second[place], List.getElem?_eq_getElem small', each.get small small'⟩

theorem exists_mem_of_forall₂ (each : List.Forall₂ related first second) {element : α}
    (member : element ∈ first) : ∃ element' ∈ second, related element element' := by
  obtain ⟨place, found⟩ := List.mem_iff_getElem?.mp member
  obtain ⟨element', found', holds⟩ := exists_getElem?_of_forall₂ each found
  exact ⟨element', List.mem_of_getElem? found', holds⟩

end

/-! ## Filters without their estimates -/

namespace Filter

mutual

def bare : Filter → Filter
  | and children => and (bareEach children)
  | or children => or (bareAll children)
  | not child => not child.bare
  | leaf => leaf

def bareEach : List (Estimated Filter) → List (Estimated Filter)
  | [] => []
  | ⟨child, _⟩ :: rest => ⟨child.bare, none⟩ :: bareEach rest

def bareAll : List Filter → List Filter
  | [] => []
  | child :: rest => child.bare :: bareAll rest

end

mutual

theorem truth_bare {inScope : Scope → EntryId → Bool} {entry : Entry} :
    ∀ filter : Filter, filter.bare.truth inScope entry = filter.truth inScope entry
  | and children => by rw [bare, truth, truth, truthOfEach_bareEach children]
  | or children => by rw [bare, truth, truth, truthOfSome_bareAll children]
  | not child => by rw [bare, truth, truth, truth_bare child]
  | presence _ | equality .. | approximate .. | greaterOrEqual .. | lessOrEqual ..
  | substring _ | extensible _ | within _ | assertion => rfl

theorem truthOfEach_bareEach {inScope : Scope → EntryId → Bool} {entry : Entry} :
    ∀ children : List (Estimated Filter),
      truthOfEach inScope entry (bareEach children) = truthOfEach inScope entry children
  | [] => rfl
  | ⟨child, _⟩ :: rest => by
      rw [bareEach, truthOfEach, truthOfEach, truth_bare child, truthOfEach_bareEach rest]

theorem truthOfSome_bareAll {inScope : Scope → EntryId → Bool} {entry : Entry} :
    ∀ children : List Filter,
      truthOfSome inScope entry (bareAll children) = truthOfSome inScope entry children
  | [] => rfl
  | child :: rest => by
      rw [bareAll, truthOfSome, truthOfSome, truth_bare child, truthOfSome_bareAll rest]

end

theorem matches_iff_of_bare_eq {filter filter' : Filter} (same : filter'.bare = filter.bare)
    {view : StoreView} {id : EntryId} : filter'.Matches view id ↔ filter.Matches view id := by
  have truth_eq (entry : Entry) :
      filter'.truth view.inScope entry = filter.truth view.inScope entry := by
    rw [← truth_bare filter', same, truth_bare]
  simp only [Matches, truth_eq]

/-- The node that a path of places leads to; no path leads below a negation. -/
def node? : (path : List Nat) → Filter → Option Filter
  | [], filter => some filter
  | place :: path, and children => children[place]?.bind (·.condition.node? path)
  | place :: path, or children => children[place]?.bind (·.node? path)
  | _, _ => none

end Filter

/-! ## Estimates of one filter -/

/-- Estimating the filter gives a bound on what it matches and changes only its estimates. -/
structure Estimates (view : StoreView) (filter : Filter) (count : Nat) (filter' : Filter) :
    Prop where
  succeeds : Succeeds (filter.estimated view) (count, filter')
  bare_eq : filter'.bare = filter.bare
  searchable : filter'.Searchable
  atMost : AtMost count (filter.Matches view)

theorem Estimates.filter_eq {view : StoreView} {filter filter' other : Filter}
    {count otherCount : Nat} (estimates : Estimates view filter count filter')
    (estimated : Succeeds (filter.estimated view) (otherCount, other)) : other = filter' :=
  congrArg Prod.snd (estimated.unique estimates.succeeds)

/-- The child after estimating carries the estimate of the child before. -/
def Records (view : StoreView) (child child' : Estimated Filter) : Prop :=
  ∃ count, child'.count = some count ∧ Estimates view child.condition count child'.condition

section

variable {view : StoreView}

/-! ## Branches -/

theorem estimatedEach_records {children : List (Estimated Filter)}
    (each : ∀ child ∈ children, ∃ count child',
      Estimates view child.condition count child') :
    ∃ least children', Succeeds (Filter.estimatedEach view children) (least, children') ∧
      List.Forall₂ (Records view) children children' ∧
      ∀ entries, AtMost largestCount entries →
        (∀ child ∈ children, ∀ id, entries id → child.condition.Matches view id) →
        AtMost least entries := by
  induction children with
  | nil => exact ⟨largestCount, [], .pure _, .nil, fun _ most _ => most⟩
  | cons child rest ih =>
      obtain ⟨condition, before⟩ := child
      obtain ⟨count, condition', estimates⟩ := each ⟨condition, before⟩ (by simp)
      obtain ⟨least, rest', succeeds, records, bounds⟩ :=
        ih fun other member => each other (List.mem_cons_of_mem _ member)
      refine ⟨min count least, ⟨condition', some count⟩ :: rest', ?_,
        .cons ⟨count, rfl, estimates⟩ records, fun entries most part => ?_⟩
      · rw [Filter.estimatedEach]
        exact estimates.succeeds.bind (succeeds.bind (.pure _))
      · have first := part ⟨condition, before⟩ (by simp)
        exact (estimates.atMost.imp first).least
          (bounds entries most fun other member => part other (List.mem_cons_of_mem _ member))

theorem estimatedSum_estimates (countable : AtMost largestCount fun id => (view.lookup id).isSome)
    {before : Nat} {entries : EntryId → Prop} (counted : AtMost before entries)
    (stored : ∀ id, entries id → (view.lookup id).isSome) {children : List Filter}
    (each : ∀ child ∈ children, ∃ count child', Estimates view child count child') :
    ∃ total children', Succeeds (Filter.estimatedSum view before children) (total, children') ∧
      List.Forall₂ (fun child child' => ∃ count, Estimates view child count child')
        children children' ∧
      AtMost total fun id => entries id ∨ ∃ child ∈ children, child.Matches view id := by
  induction children generalizing before entries with
  | nil => exact ⟨before, [], .pure _, .nil, by simpa using counted⟩
  | cons child rest ih =>
      obtain ⟨count, child', estimates⟩ := each child (by simp)
      have both_stored (id : EntryId) (either : entries id ∨ child.Matches view id) :
          (view.lookup id).isSome := by
        rcases either with earlier | matched
        · exact stored id earlier
        · exact matched.stored
      -- A sum that is cut to the largest word still bounds what is stored.
      have both := (counted.add estimates.atMost).least (countable.imp both_stored)
      obtain ⟨total, rest', succeeds, same, bounds⟩ :=
        ih both both_stored fun other member => each other (List.mem_cons_of_mem _ member)
      refine ⟨total, child' :: rest', ?_, .cons ⟨count, estimates⟩ same, ?_⟩
      · rw [Filter.estimatedSum]
        exact estimates.succeeds.bind (succeeds.bind (.pure _))
      · simpa only [List.exists_mem_cons_iff, or_assoc] using bounds

/-! ## Estimates of branches -/

theorem bareEach_eq {children children' : List (Estimated Filter)}
    (records : List.Forall₂ (Records view) children children') :
    Filter.bareEach children' = Filter.bareEach children := by
  induction records with
  | nil => rfl
  | @cons child child' _ _ first _ ih =>
      obtain ⟨count, -, estimates⟩ := first
      rw [Filter.bareEach, Filter.bareEach, estimates.bare_eq, ih]

theorem bareAll_eq {children children' : List Filter}
    (same : List.Forall₂ (fun child child' => ∃ count, Estimates view child count child')
      children children') :
    Filter.bareAll children' = Filter.bareAll children := by
  induction same with
  | nil => rfl
  | cons first _ ih =>
      obtain ⟨count, estimates⟩ := first
      rw [Filter.bareAll, Filter.bareAll, estimates.bare_eq, ih]

theorem and_estimates (countable : AtMost largestCount fun id => (view.lookup id).isSome)
    {children : List (Estimated Filter)} (nonempty : children ≠ [])
    (each : ∀ child ∈ children, ∃ count child',
      Estimates view child.condition count child') :
    ∃ least children', Estimates view (.and children) least (.and children') ∧
      List.Forall₂ (Records view) children children' := by
  obtain ⟨least, children', succeeds, records, bounds⟩ := estimatedEach_records each
  refine ⟨least, children', ⟨?_, ?_, ?_, ?_⟩, records⟩
  · rw [Filter.estimated]
    exact succeeds.bind (.pure _)
  · rw [Filter.bare, Filter.bare, bareEach_eq records]
  · refine .and (ne_nil_of_forall₂ records nonempty) fun child' member => ?_
    obtain ⟨child, -, count, -, estimates⟩ := exists_mem_of_forall₂ records.flip member
    exact estimates.searchable
  · exact bounds _ (countable.imp fun _ => Filter.Matches.stored) fun child member id matched =>
      (Filter.matches_and_iff nonempty).mp matched child member

theorem or_estimates (countable : AtMost largestCount fun id => (view.lookup id).isSome)
    {children : List Filter} (nonempty : children ≠ [])
    (each : ∀ child ∈ children, ∃ count child', Estimates view child count child') :
    ∃ total children', Estimates view (.or children) total (.or children') ∧
      List.Forall₂ (fun child child' => ∃ count, Estimates view child count child')
        children children' := by
  obtain ⟨total, children', succeeds, same, bounds⟩ :=
    estimatedSum_estimates countable .zero (by simp) each
  refine ⟨total, children', ⟨?_, ?_, ?_, ?_⟩, same⟩
  · rw [Filter.estimated]
    exact succeeds.bind (.pure _)
  · rw [Filter.bare, Filter.bare, bareAll_eq same]
  · refine .or (ne_nil_of_forall₂ same nonempty) fun child' member => ?_
    obtain ⟨child, -, count, estimates⟩ := exists_mem_of_forall₂ same.flip member
    exact estimates.searchable
  · exact bounds.imp fun id matched => .inr (Filter.matches_or_iff.mp matched)

end

/-! ## Estimates of leaves -/

namespace MemoryStore

variable {store : MemoryStore}

theorem stored_atMost (store : MemoryStore) :
    AtMost store.size fun id => (store.view.lookup id).isSome := by
  refine ⟨store.entries.map (·.id), by rw [List.length_map]; rfl, fun id stored => ?_⟩
  exact List.mem_map.mpr (contains_iff.mp stored)

theorem WellFormed.count_scan (wellFormed : store.WellFormed) {leaf : Filter} {scan : Scan}
    (scanned : leaf.scan? store.view.hasIndexOn = some scan) :
    ∃ candidates, store.scan scan = .ok candidates ∧
      store.count scan = .ok candidates.length := by
  cases scan with
  | index name seek =>
      obtain ⟨pairs, found, counted, -⟩ :=
        wellFormed.scan_index (isIndexed_of_scan? scanned) seek
      exact ⟨_, found, by rwa [List.length_map]⟩
  | presence name => exact ⟨_, rfl, by rw [List.length_map]; rfl⟩
  | full => exact ⟨_, rfl, by rw [List.length_map]; rfl⟩
  | scope scope => exact ⟨_, rfl, by rw [List.length_map]; rfl⟩

theorem openLeaf_names {leaf : Filter} {scan : Scan} {candidates : List Candidate}
    (scanned : leaf.scan? store.view.hasIndexOn = some scan)
    (answer : store.scan scan = .ok candidates) :
    ∃ cursor, ∃ kept : List Candidate, Succeeds (leaf.openLeaf store.view) cursor ∧
      Finds (cursor.toList store.view) (kept.map .ok) ∧
      kept.map (·.id) ⊆ candidates.map (·.id) := by
  have opened := store.view.openScan_succeeds answer
  cases scan with
  | index name seek =>
      obtain ⟨kept, fitting, -, mem_iff⟩ := Cursor.firstFitting_spec leaf.pattern? [] candidates
      refine ⟨.index (candidates.map .ok) leaf.pattern?, kept, ?_, ?_, fun id member => ?_⟩
      · rw [Filter.openLeaf, scanned]
        exact opened.bind (.pure _)
      · rw [Cursor.toList, fitting]
        exact Finds.pure _
      · obtain ⟨-, candidate, named, rfl, -⟩ := (mem_iff id).mp member
        exact List.mem_map_of_mem named
  | _ =>
      refine ⟨.scan (candidates.map .ok), candidates, ?_, Finds.pure _, List.Subset.refl _⟩
      rw [Filter.openLeaf, scanned]
      exact opened.bind (.pure _)

theorem counted_estimates {filter : Filter} (searchable : filter.Searchable) {scan : Scan}
    (asked : filter.estimated store.view = do return (← store.view.askCount scan, filter))
    {count : Nat} (counted : store.count scan = .ok count)
    (atMost : AtMost count (filter.Matches store.view)) :
    Estimates store.view filter count filter := by
  refine ⟨?_, rfl, searchable, atMost⟩
  have answered : Succeeds (store.view.askCount scan) count := by
    change Succeeds (ask _ (store.count scan)) count
    rw [counted]
    exact ask_succeeds _ count
  rw [asked]
  exact answered.bind (.pure _)

theorem matches_atMost (store : MemoryStore) (filter : Filter) :
    AtMost store.size (filter.Matches store.view) :=
  store.stored_atMost.imp fun _ => Filter.Matches.stored

theorem WellFormed.leaf_estimates (wellFormed : store.WellFormed) {leaf : Filter}
    (searchable : leaf.Searchable)
    (opened : leaf.openChecked store.view = leaf.openLeaf store.view)
    (asked : leaf.estimated store.view = do
      return (← store.view.askCount ((leaf.scan? store.view.hasIndexOn).getD .full), leaf)) :
    ∃ count leaf', Estimates store.view leaf count leaf' := by
  cases scanned : leaf.scan? store.view.hasIndexOn with
  | none =>
      rw [scanned] at asked
      exact ⟨_, _, counted_estimates searchable asked rfl (store.matches_atMost leaf)⟩
  | some scan =>
      rw [scanned] at asked
      obtain ⟨candidates, answer, counted⟩ := wellFormed.count_scan scanned
      refine ⟨_, _, counted_estimates searchable asked counted
        ⟨candidates.map (·.id), by rw [List.length_map], fun id matched => ?_⟩⟩
      -- What matches is what the leaf's cursor yields, and that is named by the scan.
      obtain ⟨cursor, kept, opens, found, part⟩ := openLeaf_names scanned answer
      obtain ⟨cursor', opens', kept', found', -, mem_iff⟩ :=
        wellFormed.openChecked_yields searchable
      rw [opened] at opens'
      obtain rfl := opens.unique opens'
      obtain rfl : kept = kept' :=
        List.map_injective_iff.mpr (fun _ _ => Except.ok.inj) (found.unique found')
      exact part ((mem_iff id).mpr matched)

/-! ## Estimates of filters -/

theorem stored_atMost_largest (countable : store.size ≤ largestCount) :
    AtMost largestCount fun id => (store.view.lookup id).isSome := by
  obtain ⟨names, short, named⟩ := store.stored_atMost
  exact ⟨names, short.trans countable, named⟩

theorem WellFormed.estimates (wellFormed : store.WellFormed)
    (countable : store.size ≤ largestCount) {filter : Filter} (searchable : filter.Searchable) :
    ∃ count filter', Estimates store.view filter count filter' := by
  have stored := stored_atMost_largest countable
  induction searchable with
  | and nonempty each ih =>
      obtain ⟨least, children', estimates, -⟩ := and_estimates stored nonempty ih
      exact ⟨least, _, estimates⟩
  | or nonempty each ih =>
      obtain ⟨total, children', estimates, -⟩ := or_estimates stored nonempty ih
      exact ⟨total, _, estimates⟩
  | not searchable ih =>
      exact ⟨_, _, counted_estimates (.not searchable) rfl rfl (store.matches_atMost _)⟩
  | _ => exact wellFormed.leaf_estimates (by constructor) rfl rfl

/-- Every conjunction on a path above all negations has the estimates of its children. -/
theorem WellFormed.node_records (wellFormed : store.WellFormed)
    (countable : store.size ≤ largestCount) {path : List Nat} {filter : Filter}
    (searchable : filter.Searchable) {count : Nat} {filter' : Filter}
    (estimated : Succeeds (filter.estimated store.view) (count, filter'))
    {children : List (Estimated Filter)} (found : filter.node? path = some (.and children)) :
    children ≠ [] ∧ ∃ children', filter'.node? path = some (.and children') ∧
      List.Forall₂ (Records store.view) children children' := by
  have stored := stored_atMost_largest countable
  induction path generalizing filter count filter' with
  | nil =>
      obtain rfl : filter = .and children := Option.some.inj found
      cases searchable with
      | and nonempty each =>
          obtain ⟨_, children', estimates, records⟩ := and_estimates stored nonempty
            fun child member => wellFormed.estimates countable (each child member)
          obtain rfl := estimates.filter_eq estimated
          exact ⟨nonempty, children', rfl, records⟩
  | cons place path ih =>
      cases searchable with
      | and nonempty each =>
          obtain ⟨_, siblings', estimates, records⟩ := and_estimates stored nonempty
            fun child member => wellFormed.estimates countable (each child member)
          obtain rfl := estimates.filter_eq estimated
          obtain ⟨child, held, below⟩ := Option.bind_eq_some_iff.mp found
          obtain ⟨child', held', own, -, estimates'⟩ := exists_getElem?_of_forall₂ records held
          have inner := ih (each child (List.mem_of_getElem? held)) estimates'.succeeds below
          rwa [Filter.node?, held']
      | or nonempty each =>
          obtain ⟨_, siblings', estimates, same⟩ := or_estimates stored nonempty
            fun child member => wellFormed.estimates countable (each child member)
          obtain rfl := estimates.filter_eq estimated
          obtain ⟨child, held, below⟩ := Option.bind_eq_some_iff.mp found
          obtain ⟨child', held', own, estimates'⟩ := exists_getElem?_of_forall₂ same held
          have inner := ih (each child (List.mem_of_getElem? held)) estimates'.succeeds below
          rwa [Filter.node?, held']
      | _ => simp [Filter.node?] at found

end MemoryStore

/-! ## Plans -/

/-- The cursor of the conjunction is that of the child at the place, and tests the others. -/
structure SearchedFrom (view : StoreView) (children : List (Estimated Filter)) (place : Nat)
    (driver : Estimated Filter) (inner : Cursor) : Prop where
  at_place : children[place]? = some driver
  opens : Succeeds (driver.condition.openChecked view) inner
  tests : Succeeds ((Filter.and children).openChecked view)
    (inner.testedBy (children.eraseIdx place))

/-- The children of a conjunction before and after estimating, and how it is searched then. -/
structure Plans (view : StoreView) (children children' : List (Estimated Filter)) : Prop where
  /-- Every child carries the estimate of its own. -/
  recorded : List.Forall₂ (fun child child' => ∃ count, child'.count = some count ∧
    Succeeds (child.condition.estimated view) (count, child'.condition)) children children'
  /--
  The search starts from the last of the children with the smallest estimate, and no child's
  estimate is smaller than the number of candidates that it finds there.
  -/
  driven : ∃ place driver inner, SearchedFrom view children' place driver inner ∧
    (∀ child ∈ children', driver.rank ≤ child.rank) ∧
    (∀ later child, place < later → children'[later]? = some child →
      driver.rank < child.rank) ∧
    ∃ candidates : List Candidate, Finds (inner.toList view) (candidates.map .ok) ∧
      ∀ child ∈ children', candidates.length ≤ child.rank

namespace MemoryStore

variable {store : MemoryStore}

theorem WellFormed.plans (wellFormed : store.WellFormed)
    {children children' : List (Estimated Filter)} (nonempty : children ≠ [])
    (records : List.Forall₂ (Records store.view) children children') :
    Plans store.view children children' := by
  obtain ⟨driver, held, least, last⟩ := driver_spec (ne_nil_of_forall₂ records nonempty)
  obtain ⟨small, rfl⟩ := List.getElem?_eq_some_iff.mp held
  obtain ⟨child, -, count, counted, estimates⟩ :=
    exists_mem_of_forall₂ records.flip (List.getElem_mem small)
  obtain ⟨inner, opened, candidates, found, nodup, mem_iff⟩ :=
    wellFormed.openChecked_yields estimates.searchable
  have short : (candidates.map (·.id)).length ≤ count :=
    estimates.atMost.length_le nodup fun id member =>
      (Filter.matches_iff_of_bare_eq estimates.bare_eq).mp ((mem_iff id).mp member)
  constructor
  · refine records.imp ?_
    rintro child child' ⟨count, counted, estimates⟩
    exact ⟨count, counted, estimates.succeeds⟩
  · have tests : Succeeds ((Filter.and children').openChecked store.view)
        (inner.testedBy (children'.eraseIdx (Filter.driver children'))) := by
      rw [openChecked_and small]
      exact opened.bind (.pure _)
    refine ⟨_, _, inner, ⟨held, opened, tests⟩, least, last, candidates, found,
      fun other member => ?_⟩
    calc candidates.length ≤ count := by rwa [List.length_map] at short
      _ = children'[Filter.driver children'].rank := by rw [Estimated.rank, counted]; rfl
      _ ≤ other.rank := least other member

end MemoryStore

/--
Estimating a searchable filter succeeds and changes nothing but the estimates of
conjunctions.  As long as a word can count the entries of the store, the estimate
is not below the number of entries that match.  The cursor that is opened for a
conjunction above all negations is then that of its last child with the smallest
estimate, has no more candidates than the estimate of any child says, and tests the
other children.
-/
theorem estimates_bound_candidates {store : MemoryStore}
    (reachable : MemoryStore.Reachable store) (countable : store.size ≤ largestCount)
    {filter : Filter} (searchable : filter.Searchable) :
    ∃ count filter', Succeeds (filter.estimated store.view) (count, filter') ∧
      filter'.bare = filter.bare ∧
      (∃ ids : List EntryId, ids.Nodup ∧
        (∀ id, id ∈ ids ↔ Succeeds (filter.evaluate store.view id) true) ∧
        ids.length ≤ count) ∧
      ∀ path children, filter.node? path = some (.and children) →
        ∃ children', filter'.node? path = some (.and children') ∧
          Plans store.view children children' := by
  have wellFormed := reachable.wellFormed
  obtain ⟨count, filter', estimates⟩ := wellFormed.estimates countable searchable
  obtain ⟨ids, -, nodup, mem_iff⟩ := searchable.answers wellFormed
  refine ⟨count, filter', estimates.succeeds, estimates.bare_eq, ⟨ids, nodup, fun id => ?_, ?_⟩,
    fun path children found => ?_⟩
  · rw [mem_iff, searchable.evaluate_true_iff]
  · exact estimates.atMost.length_le nodup fun id member => (mem_iff id).mp member
  · obtain ⟨nonempty, children', found', records⟩ :=
      wellFormed.node_records countable searchable estimates.succeeds found
    exact ⟨children', found', wellFormed.plans nonempty records⟩

def sampleEither : Filter := .or [sampleConjunction, .presence "cn"]

theorem estimates_bound_candidates_sampleEither :
    ∃ store, sampleDirectory = .ok store ∧ MemoryStore.Reachable store ∧
      store.size ≤ largestCount ∧ sampleEither.Searchable ∧
      ∃ count filter', Succeeds (sampleEither.estimated store.view) (count, filter') ∧
        filter'.bare = sampleEither.bare ∧
        (∃ ids : List EntryId, ids.Nodup ∧
          (∀ id, id ∈ ids ↔ Succeeds (sampleEither.evaluate store.view id) true) ∧
          ids.length ≤ count) ∧
        ∀ path children, sampleEither.node? path = some (.and children) →
          ∃ children', filter'.node? path = some (.and children') ∧
            Plans store.view children children' := by
  obtain ⟨store, accepted, countable⟩ :
      ∃ store, sampleDirectory = .ok store ∧ store.size ≤ largestCount :=
    ⟨_, rfl, by decide⟩
  have reachable : MemoryStore.Reachable store :=
    (MemoryStore.Reachable.withIndices ["ou"]).insertEach accepted
  have searchable : sampleEither.Searchable := .of_check rfl
  exact ⟨store, accepted, reachable, countable, searchable,
    estimates_bound_candidates reachable countable searchable⟩

end DirectoryStore.Query
