import DirectoryStore.Proofs.Query.FailingStores

/-!
# What the check of a filter decides

The nodes of a filter are checked in preorder, and the first one that cannot be
searched is named by the error.  Three walks over the filter rely on that: the
search opens scans along some of the branches, and evaluates the others only for
candidates, some of them below a negation.  Each of them blames nothing but calls
that the plan of failures made fail, so none comes to a node that the check would
have refused.
-/

namespace DirectoryStore.Query

namespace Filter

/-! ## The nodes of a filter -/

mutual

/-- The filter and everything in it, each node before its children. -/
def nodes : Filter → List Filter
  | and children => and children :: nodesOfConjuncts children
  | or children => or children :: nodesOfAll children
  | not child => not child :: child.nodes
  | leaf => [leaf]

def nodesOfConjuncts : List (Estimated Filter) → List Filter
  | [] => []
  | ⟨child, _⟩ :: rest => child.nodes ++ nodesOfConjuncts rest

def nodesOfAll : List Filter → List Filter
  | [] => []
  | child :: rest => child.nodes ++ nodesOfAll rest

end

/-- Why a filter with this node cannot be searched, if the node is the reason. -/
def offence? : Filter → Option Error
  | extensible _ => some (.unsupportedFilter "extensible")
  | assertion => some (.invalidExpression .assertionSearched)
  | and [] => some (.invalidExpression .emptyConjunction)
  | or [] => some (.invalidExpression .emptyDisjunction)
  | _ => none

def verdict (nodes : List Filter) : Except Error Unit :=
  match nodes.findSome? offence? with
  | some error => .error error
  | none => .ok ()

theorem verdict_append (nodes others : List Filter) :
    verdict (nodes ++ others) = (do verdict nodes; verdict others) := by
  unfold verdict
  rw [List.findSome?_append]
  cases nodes.findSome? offence? <;> rfl

theorem verdict_cons {node : Filter} (accepted : node.offence? = none)
    (others : List Filter) : verdict (node :: others) = verdict others := by
  simp [verdict, accepted]

mutual

theorem check_eq_verdict : ∀ filter : Filter, filter.check = verdict filter.nodes
  | and [] | or [] => rfl
  | and (first :: rest) => by
      rw [check, nodes, verdict_cons rfl, checkConjuncts_eq_verdict (first :: rest)]
      simp
  | or (first :: rest) => by
      rw [check, nodes, verdict_cons rfl, checkAll_eq_verdict (first :: rest)]
      simp
  | not child => by
      rw [check, nodes, verdict_cons rfl, check_eq_verdict child]
  | presence _ | equality .. | approximate .. | greaterOrEqual .. | lessOrEqual ..
  | substring _ | extensible _ | within _ | assertion => rfl

theorem checkConjuncts_eq_verdict : ∀ children : List (Estimated Filter),
    checkConjuncts children = verdict (nodesOfConjuncts children)
  | [] => rfl
  | ⟨child, _⟩ :: rest => by
      rw [checkConjuncts, nodesOfConjuncts, verdict_append, check_eq_verdict child,
        checkConjuncts_eq_verdict rest]

theorem checkAll_eq_verdict : ∀ children : List Filter,
    checkAll children = verdict (nodesOfAll children)
  | [] => rfl
  | child :: rest => by
      rw [checkAll, nodesOfAll, verdict_append, check_eq_verdict child,
        checkAll_eq_verdict rest]

end

theorem check_eq_ok_iff {filter : Filter} :
    filter.check = .ok () ↔ ∀ node ∈ filter.nodes, node.offence? = none := by
  rw [check_eq_verdict, verdict, ← List.findSome?_eq_none_iff]
  cases filter.nodes.findSome? offence? <;> simp

theorem nodesOfConjuncts_eq (children : List (Estimated Filter)) :
    nodesOfConjuncts children = children.flatMap (·.condition.nodes) := by
  induction children with
  | nil => rfl
  | cons child rest ih => rw [nodesOfConjuncts, ih, List.flatMap_cons]

theorem nodesOfAll_eq (children : List Filter) :
    nodesOfAll children = children.flatMap nodes := by
  induction children with
  | nil => rfl
  | cons child rest ih => rw [nodesOfAll, ih, List.flatMap_cons]

theorem Searchable.of_mem_nodes {filter : Filter} (searchable : filter.Searchable) :
    ∀ node ∈ filter.nodes, node.Searchable := by
  induction searchable with
  | @and children nonempty each ih =>
      rw [nodes, nodesOfConjuncts_eq]
      refine List.forall_mem_cons.mpr ⟨.and nonempty each, fun node member => ?_⟩
      obtain ⟨child, child_mem, below⟩ := List.mem_flatMap.mp member
      exact ih child child_mem node below
  | @or children nonempty each ih =>
      rw [nodes, nodesOfAll_eq]
      refine List.forall_mem_cons.mpr ⟨.or nonempty each, fun node member => ?_⟩
      obtain ⟨child, child_mem, below⟩ := List.mem_flatMap.mp member
      exact ih child child_mem node below
  | not searchable ih =>
      rw [nodes]
      exact List.forall_mem_cons.mpr ⟨.not searchable, ih⟩
  | _ =>
      rw [nodes.eq_def]
      exact List.forall_mem_singleton.mpr (by constructor)

end Filter

/-! ## Failures among candidates -/

def OnlyCausedBy (plan : FailurePlan StoreCall) (found : List Found) : Prop :=
  ∀ error, .error error ∈ found → CausedBy plan error

variable {plan : FailurePlan StoreCall}

namespace OnlyCausedBy

theorem nil : OnlyCausedBy plan [] :=
  nofun

theorem ok {found : List Found} (only : OnlyCausedBy plan found) (candidate : Candidate) :
    OnlyCausedBy plan (.ok candidate :: found) := by
  intro error member
  exact only error (by simpa using member)

theorem error {found : List Found} (only : OnlyCausedBy plan found) {error : Error}
    (caused : CausedBy plan error) : OnlyCausedBy plan (.error error :: found) := by
  intro other member
  rcases List.mem_cons.mp member with here | later
  · rwa [Except.error.inj here]
  · exact only other later

theorem head {found : List Found} {error : Error}
    (only : OnlyCausedBy plan (.error error :: found)) : CausedBy plan error :=
  only error (by simp)

theorem tail {item : Found} {found : List Found} (only : OnlyCausedBy plan (item :: found)) :
    OnlyCausedBy plan found :=
  fun error member => only error (List.mem_cons_of_mem _ member)

theorem append {found others : List Found} (only : OnlyCausedBy plan found)
    (only' : OnlyCausedBy plan others) : OnlyCausedBy plan (found ++ others) := by
  intro error member
  exact (List.mem_append.mp member).elim (only error) (only' error)

theorem firstFitting {found : List Found} (only : OnlyCausedBy plan found)
    (pattern : Option SubstringPattern) (seen : List EntryId) :
    OnlyCausedBy plan (firstFitting pattern seen found) := by
  induction found generalizing seen with
  | nil => exact nil
  | cons item rest ih =>
      cases item with
      | error fault => exact (ih only.tail seen).error only.head
      | ok candidate =>
          rw [Query.firstFitting]
          split
          · exact (ih only.tail _).ok candidate
          · exact ih only.tail seen

end OnlyCausedBy

theorem sift_collects {passes : EntryId → QueryM Bool} {accepts : EntryId → Bool}
    (blames : ∀ id, Blames plan (passes id) (· = accepts id)) {found : List Found}
    (only : OnlyCausedBy plan found) : Collects plan (sift passes found) (OnlyCausedBy plan) := by
  induction found with
  | nil => exact .pure .nil
  | cons item rest ih =>
      have rest_kept := ih only.tail
      cases item with
      | error fault => exact rest_kept.bind fun kept kept_only => .pure (kept_only.error only.head)
      | ok candidate =>
          refine Collects.bind (blames candidate.id) ?_
          rintro (fault | passed) ended
          · exact rest_kept.bind fun kept kept_only => .pure (kept_only.error ended)
          · cases passed with
            | true => exact rest_kept.bind fun kept kept_only => .pure (kept_only.ok candidate)
            | false => exact rest_kept

/-! ## Reading a cursor -/

namespace Cursor

variable {view : StoreView}

/-- Read to its end under the plan, the cursor shows no failure but those of the plan. -/
def Reads (plan : FailurePlan StoreCall) (view : StoreView) (cursor : Cursor) : Prop :=
  Collects plan (cursor.toList view) (OnlyCausedBy plan)

theorem scan_reads {found : List Found} (only : OnlyCausedBy plan found) :
    (scan found).Reads plan view := by
  rw [Reads, toList]
  exact .pure only

theorem index_reads {found : List Found} (only : OnlyCausedBy plan found)
    (pattern : Option SubstringPattern) : (index found pattern).Reads plan view := by
  rw [Reads, toList]
  exact .pure (only.firstFitting pattern [])

theorem tested_reads {inner : Cursor} {test : Test} (reads : inner.Reads plan view)
    (searchable : ∀ condition ∈ test.conditions, condition.Searchable) :
    (tested inner test).Reads plan view := by
  rw [Reads, toList]
  exact Collects.bind reads fun _ only => sift_collects (Test.passes_blames searchable plan) only

theorem unionList_collects {branches : List (Cursor × Filter)} {earlier : List Filter}
    (reads : ∀ branch ∈ branches, branch.1.Reads plan view ∧ branch.2.Searchable)
    (searchable : ∀ filter ∈ earlier, filter.Searchable) :
    Collects plan (unionList view earlier branches) (OnlyCausedBy plan) := by
  induction branches generalizing earlier with
  | nil => exact .pure .nil
  | cons branch rest ih =>
      obtain ⟨cursor, filter⟩ := branch
      have ⟨⟨first_reads, first_searchable⟩, later⟩ := List.forall_mem_cons.mp reads
      have earlier_searchable : ∀ other ∈ earlier ++ [filter], other.Searchable :=
        List.forall_mem_append.mpr ⟨searchable, List.forall_mem_singleton.mpr first_searchable⟩
      rw [unionList]
      refine Collects.bind first_reads fun found only => ?_
      refine (sift_collects (isNew_blames searchable plan) only).bind fun kept kept_only => ?_
      exact (ih later earlier_searchable).bind fun others others_only =>
        .pure (kept_only.append others_only)

end Cursor

/-! ## Opening -/

theorem readAll_collects (scan : Scan) (candidates : List Candidate) :
    Collects plan (StoreView.readAll scan candidates) (OnlyCausedBy plan) := by
  induction candidates with
  | nil => exact .pure .nil
  | cons candidate rest ih =>
      refine Collects.bind (ask_blames plan (.readCandidate scan candidate.id) candidate) ?_
      rintro (fault | read) ended
      · exact ih.bind fun others only => .pure (only.error ended)
      · exact ih.bind fun others only => .pure (only.ok read)

theorem openScan_blames {view : StoreView} {scan : Scan} {candidates : List Candidate}
    (scanned : view.scan scan = .ok candidates) :
    Blames plan (view.openScan scan) (OnlyCausedBy plan) := by
  unfold StoreView.openScan
  rw [scanned]
  exact (ask_blames plan _ candidates).bind fun read _ => .lift (readAll_collects scan read)

namespace MemoryStore

variable {store : MemoryStore}

theorem exists_scan {leaf : Filter} {scan : Scan}
    (scanned : leaf.scan? store.view.hasIndexOn = some scan) :
    ∃ candidates, store.view.scan scan = .ok candidates := by
  cases scan with
  | index name seek =>
      obtain ⟨index, found⟩ := Option.isSome_iff_exists.mp (isIndexed_of_scan? scanned)
      exact ⟨_, scan_of_index found seek⟩
  | presence name => exact ⟨_, rfl⟩
  | full => exact ⟨_, rfl⟩
  | scope scope => exact ⟨_, rfl⟩

theorem openTested_blames {test : Test}
    (searchable : ∀ condition ∈ test.conditions, condition.Searchable) :
    Blames plan (Filter.openTested store.view test) (Cursor.Reads plan store.view) := by
  have scanned : store.view.scan .full = .ok (store.entries.map fun entry => .ofId entry.id) :=
    rfl
  exact (openScan_blames scanned).bind fun _ only =>
    .pure (Cursor.tested_reads (Cursor.scan_reads only) searchable)

theorem openLeaf_blames {leaf : Filter} (searchable : leaf.Searchable) :
    Blames plan (leaf.openLeaf store.view) (Cursor.Reads plan store.view) := by
  unfold Filter.openLeaf
  cases scanned : leaf.scan? store.view.hasIndexOn with
  | none =>
      refine openTested_blames fun condition member => ?_
      obtain rfl : condition = leaf := by simpa [Test.conditions] using member
      exact searchable
  | some scan =>
      obtain ⟨candidates, answer⟩ := exists_scan scanned
      have opened : Blames plan (store.view.openScan scan) _ := openScan_blames answer
      cases scan with
      | index name seek => exact opened.bind fun _ only => .pure (Cursor.index_reads only _)
      | _ => exact opened.bind fun _ only => .pure (Cursor.scan_reads only)

theorem openAll_blames {children : List Filter}
    (each : ∀ child ∈ children,
      Blames plan (child.openChecked store.view) (Cursor.Reads plan store.view)) :
    Blames plan (Filter.openAll store.view children) fun branches =>
      ∀ branch ∈ branches, branch.1.Reads plan store.view ∧ branch.2 ∈ children := by
  induction children with
  | nil => exact .pure nofun
  | cons child rest ih =>
      have ⟨here, later⟩ := List.forall_mem_cons.mp each
      rw [Filter.openAll]
      refine Blames.bind here fun cursor reads => (ih later).bind fun branches rest_read => ?_
      refine .pure (List.forall_mem_cons.mpr ⟨⟨reads, List.mem_cons_self⟩, ?_⟩)
      exact fun branch member => (rest_read branch member).imp_right (List.mem_cons_of_mem _)

/-- A filter that passes the check is opened on its driver, and neither step meets its refusals. -/
theorem openChecked_blames {filter : Filter} (searchable : filter.Searchable)
    (plan : FailurePlan StoreCall) (store : MemoryStore) :
    Blames plan (filter.openChecked store.view) (Cursor.Reads plan store.view) := by
  induction searchable with
  | @and children nonempty each ih =>
      have small := driver_lt nonempty
      have opened := ih _ (List.getElem_mem small)
      have others_mem : ∀ child ∈ children.eraseIdx (Filter.driver children),
          child ∈ children := fun child => List.mem_of_mem_eraseIdx
      rw [openChecked_and small]
      generalize children.eraseIdx (Filter.driver children) = others at others_mem ⊢
      refine Blames.bind opened fun cursor reads => ?_
      cases others with
      | nil => exact .pure reads
      | cons other rest =>
          refine .pure (Cursor.tested_reads reads fun condition member => ?_)
          obtain ⟨child, child_mem, rfl⟩ := List.mem_map.mp member
          exact each child (others_mem child child_mem)
  | @or children nonempty each ih =>
      rw [Filter.openChecked]
      refine (openAll_blames ih).bind fun branches read => .pure ?_
      rw [Cursor.Reads, Cursor.toList]
      exact Cursor.unionList_collects
        (fun branch member => ⟨(read branch member).1, each _ (read branch member).2⟩)
        (List.forall_mem_nil _)
  | @not child searchable ih =>
      rw [Filter.openChecked]
      refine openTested_blames fun condition member => ?_
      obtain rfl : condition = child := by simpa [Test.conditions] using member
      exact searchable
  | _ =>
      rw [Filter.openChecked.eq_def]
      exact openLeaf_blames (by constructor)

end MemoryStore

/-! ## What is decided by the check -/

namespace Filter

def Inoffensive (filter : Filter) : Prop :=
  ∀ node ∈ filter.nodes, node.offence? = none

theorem Inoffensive.searchable {filter : Filter} (inoffensive : filter.Inoffensive) :
    filter.Searchable :=
  .of_check (check_eq_ok_iff.mpr inoffensive)

theorem openCursor_of_inoffensive {filter : Filter} (inoffensive : filter.Inoffensive)
    (view : StoreView) : filter.openCursor view = filter.openChecked view := by
  rw [openCursor, check_eq_ok_iff.mpr inoffensive]
  rfl

theorem openCursor_of_offence {filter : Filter} {error : Error}
    (first : filter.nodes.findSome? offence? = some error) (view : StoreView)
    (injection : Injection StoreCall) :
    filter.openCursor view injection = (.error error, injection) := by
  rw [openCursor, check_eq_verdict, verdict, first]
  rfl

/--
A filter is refused for its first node that offends, before any call is made.
Otherwise nothing in it can be a reason to fail any more: neither where scans
are opened, nor where a driver is chosen, nor where an entry is evaluated.
-/
structure CheckDecides (view : StoreView) (filter : Filter) : Prop where
  opens_iff : ∀ callsMade,
    (∃ cursor after, filter.openCursor view ⟨.never, callsMade⟩ = (.ok cursor, after)) ↔
      filter.Inoffensive
  refused : ∀ error, filter.nodes.findSome? offence? = some error →
    ∀ injection, filter.openCursor view injection = (.error error, injection)
  searched : filter.Inoffensive → ∀ plan,
    Blames plan (filter.openCursor view) (Cursor.Reads plan view)
  opened : filter.Inoffensive → ∀ node ∈ filter.nodes, ∀ plan,
    Blames plan (node.openChecked view) (Cursor.Reads plan view)
  driven : filter.Inoffensive → ∀ children, and children ∈ filter.nodes →
    driver children < children.length
  evaluated : filter.Inoffensive → ∀ node ∈ filter.nodes, ∀ plan entry,
    Blames plan (node.holdsFor view entry) (· = node.truth view.inScope entry)

end Filter

/--
For every store and every filter, the check decides whether a search can fail
by itself.  A filter that passes fails only where the plan of failures makes a
call fail, so without such a plan it is opened and read to its end without any.
-/
theorem check_decides (store : MemoryStore) (filter : Filter) :
    filter.CheckDecides store.view where
  opens_iff callsMade := by
    constructor
    · rintro ⟨cursor, after, opened⟩
      refine List.findSome?_eq_none_iff.mp (Option.eq_none_iff_forall_ne_some.mpr ?_)
      intro error first
      rw [Filter.openCursor_of_offence first] at opened
      cases congrArg Prod.fst opened
    · intro inoffensive
      rw [Filter.openCursor_of_inoffensive inoffensive]
      obtain ⟨cursor, after, opened, -⟩ :=
        (MemoryStore.openChecked_blames inoffensive.searchable .never store).answers callsMade
      exact ⟨cursor, _, opened⟩
  refused error first injection := Filter.openCursor_of_offence first store.view injection
  searched inoffensive plan := by
    rw [Filter.openCursor_of_inoffensive inoffensive]
    exact MemoryStore.openChecked_blames inoffensive.searchable plan store
  opened inoffensive node member plan :=
    MemoryStore.openChecked_blames (inoffensive.searchable.of_mem_nodes node member) plan store
  driven inoffensive children member := by
    cases inoffensive.searchable.of_mem_nodes _ member with
    | and nonempty _ => exact MemoryStore.driver_lt nonempty
  evaluated inoffensive node member plan entry :=
    (inoffensive.searchable.of_mem_nodes node member).holdsFor_blames plan store.view entry

/-- Below a negation and beside the driver, the first node in preorder decides. -/
example :
    let filter : Filter :=
      .and [⟨.presence "cn", some 0⟩, ⟨.not (.or [.assertion, .and []]), some 7⟩,
        ⟨.extensible ⟨none, none, "x", false⟩, none⟩]
    filter.nodes.findSome? Filter.offence? =
      some (.invalidExpression .assertionSearched) := by
  rfl

end DirectoryStore.Query
