import DirectoryStore.Proofs.Query.Forest
import DirectoryStore.Proofs.Query.SearchResults

/-!
# The order of a scope

A scan of a subtree and a test of one entry walk the forest in opposite directions, and
neither counts its steps.  `Visits` is the walk down, which ends when no entry waits any
more; `Climbs` is the walk up, which ends at the base or above a root.  Both come to an
end in every store that changes lead to, and they agree: the scan names each entry in
scope once.  It names them depth first, the base before all others and the children of
an entry in the order of their numbers.
-/

namespace DirectoryStore.Query

namespace MemoryStore

/-- What climbing from an entry to its parents finds out about the base. -/
inductive Climbs (store : MemoryStore) (base : EntryId) : EntryId → Bool → Prop where
  | arrived : Climbs store base base true
  | ended {id : EntryId} (elsewhere : id ≠ base) (top : store.parentOf? id = none) :
      Climbs store base id false
  | onward {id parent : EntryId} {answer : Bool} (elsewhere : id ≠ base)
      (above : store.parentOf? id = some parent)
      (rest : Climbs store base parent answer) : Climbs store base id answer

/-- An entry, and behind it what is below each of its children, lowest number first. -/
inductive DepthFirst (store : MemoryStore) : EntryId → List EntryId → Prop where
  | node {id : EntryId} {children : List EntryId} {below : List (List EntryId)}
      (mem_iff : ∀ child, child ∈ children ↔ store.parentOf? child = some id)
      (ascending : children.Pairwise (· < ·))
      (each : List.Forall₂ (DepthFirst store) children below) :
      DepthFirst store id (id :: below.flatten)

variable {store : MemoryStore}

/-! ## Climbing -/

theorem Climbs.true_iff {base id : EntryId} {answer : Bool}
    (climbs : store.Climbs base id answer) : answer = true ↔ store.Below base id := by
  induction climbs with
  | arrived => exact ⟨fun _ => .refl, fun _ => rfl⟩
  | ended elsewhere top =>
      refine ⟨nofun, fun below => ?_⟩
      cases below with
      | refl => exact absurd rfl elsewhere
      | climb above _ => cases top.symm.trans above
  | onward elsewhere above _ ih =>
      rw [ih]
      refine ⟨.climb above, fun below => ?_⟩
      cases below with
      | refl => exact absurd rfl elsewhere
      | climb above' below =>
          obtain rfl := Option.some.inj (above.symm.trans above')
          exact below

/-- Ranks fall along parents, so every climb ends. -/
theorem WellFormed.exists_climbs (wellFormed : store.WellFormed) (base id : EntryId) :
    ∃ answer, store.Climbs base id answer := by
  obtain ⟨rank, ranks⟩ := wellFormed.ranked
  induction size : rank id using Nat.strong_induction_on generalizing id with
  | h size_id ih =>
      by_cases here : id = base
      · subst here
        exact ⟨true, .arrived⟩
      · cases above : store.parentOf? id with
        | none => exact ⟨false, .ended here above⟩
        | some parent =>
            have smaller := wellFormed.rank_lt ranks above
            obtain ⟨answer, climbs⟩ := ih (rank parent) (size ▸ smaller) parent rfl
            exact ⟨answer, .onward here above climbs⟩

theorem WellFormed.inScope_climbs (wellFormed : store.WellFormed) {scope : Scope}
    (deep : scope.depth = .subtree) (id : EntryId) :
    ∃ answer, store.Climbs scope.base id answer ∧
      store.inScope scope id = (store.contains id && answer) := by
  obtain ⟨answer, climbs⟩ := wellFormed.exists_climbs scope.base id
  refine ⟨answer, climbs, ?_⟩
  rw [inScope, deep]
  cases present : store.contains id with
  | false => rfl
  | true =>
      rw [Bool.true_and, Bool.true_and, Bool.eq_iff_iff, climbs.true_iff]
      exact wellFormed.climbsTo_size_iff present

/-! ## Visiting -/

/-- What is visited is below one waiting entry, and then below the next. -/
theorem Visits.depthFirst (wellFormed : store.WellFormed) {waiting visited : List EntryId}
    (visits : store.Visits waiting visited) :
    ∃ parts, List.Forall₂ store.DepthFirst waiting parts ∧ visited = parts.flatten := by
  induction visits with
  | done => exact ⟨[], .nil, rfl⟩
  | @visit id waiting visited rest ih =>
      obtain ⟨parts, each, rfl⟩ := ih
      let count := (store.childrenOf id).length
      have each_child : List.Forall₂ store.DepthFirst (store.childrenOf id) (parts.take count) := by
        simpa [count] using List.forall₂_take count each
      have each_later : List.Forall₂ store.DepthFirst waiting (parts.drop count) := by
        simpa [count] using List.forall₂_drop count each
      have whole : store.DepthFirst id (id :: (parts.take count).flatten) :=
        .node (fun _ => wellFormed.mem_childrenOf_iff) (wellFormed.childrenOf_ascending id)
          each_child
      refine ⟨_, .cons whole each_later, ?_⟩
      rw [List.flatten_cons, List.cons_append, ← List.flatten_append, List.take_append_drop]

theorem WellFormed.subtree_depthFirst (wellFormed : store.WellFormed) {base : EntryId}
    (stored : store.contains base = true) : store.DepthFirst base (store.subtree base) := by
  obtain ⟨parts, each, subtree_eq⟩ := (wellFormed.subtree_visits stored).depthFirst wellFormed
  cases each with
  | cons first none_left =>
      cases none_left
      rwa [subtree_eq, List.flatten_cons, List.flatten_nil, List.append_nil]

/-! ## Scans and tests -/

def roots (store : MemoryStore) (base : EntryId) : List EntryId :=
  if store.contains base then [base] else []

theorem WellFormed.roots_visits (wellFormed : store.WellFormed) (base : EntryId) :
    store.Visits (store.roots base) (store.subtree base) := by
  unfold roots
  split
  · rename_i stored
    exact wellFormed.subtree_visits stored
  · rename_i missing
    rw [subtree, if_neg missing]
    exact .done

/-- The walks that a scan and a test of a subtree take, and where they end. -/
structure WalksThrough (store : MemoryStore) (base : EntryId) (ids : List EntryId) : Prop where
  visits : store.Visits (store.roots base) ids
  depthFirst : store.contains base = true → store.DepthFirst base ids
  climbs : ∀ id, ∃ answer, store.Climbs base id answer ∧
    store.inScope ⟨base, .subtree⟩ id = (store.contains id && answer)

/-- A scan of a scope names exactly the entries in it, each once; a subtree is walked
depth first, and no walk goes on for ever. -/
theorem scope_scan_agrees (reachable : Reachable store) (scope : Scope) :
    ∃ ids, store.scan (.scope scope) = .ok (ids.map Candidate.ofId) ∧
      store.count (.scope scope) = .ok ids.length ∧ ids.Nodup ∧
      (∀ id, id ∈ ids ↔ store.inScope scope id = true) ∧
      (scope.depth = .subtree → store.WalksThrough scope.base ids) := by
  have wellFormed := reachable.wellFormed
  refine ⟨store.inScopeOrder scope, rfl, rfl, wellFormed.inScopeOrder_nodup scope,
    fun _ => wellFormed.inScope_iff.symm, fun deep => ?_⟩
  obtain ⟨base, depth⟩ := scope
  obtain rfl : depth = .subtree := deep
  exact ⟨wellFormed.roots_visits base, wellFormed.subtree_depthFirst,
    wellFormed.inScope_climbs rfl⟩

def sampleForest : Except Error MemoryStore :=
  storeWith [] [.empty 1 none, .empty 3 (some 1), .empty 2 (some 1), .empty 5 (some 2),
    .empty 4 (some 2)]

theorem scope_scan_agrees_sampleForest :
    ∃ store ids, sampleForest = .ok store ∧ Reachable store ∧
      store.scan (.scope ⟨1, .subtree⟩) = .ok (ids.map Candidate.ofId) ∧
      ids = [1, 2, 4, 5, 3] ∧ store.WalksThrough 1 ids := by
  obtain ⟨store, made, listed⟩ : ∃ store, sampleForest = .ok store ∧
      store.inScopeOrder ⟨1, .subtree⟩ = [1, 2, 4, 5, 3] :=
    ⟨_, rfl, by decide +kernel⟩
  have reachable : Reachable store := (Reachable.withIndices []).insertEach made
  obtain ⟨ids, scanned, -, -, -, walks⟩ := scope_scan_agrees reachable ⟨1, .subtree⟩
  have same : (store.inScopeOrder ⟨1, .subtree⟩).map Candidate.ofId =
      ids.map Candidate.ofId := Except.ok.inj scanned
  have ids_eq : store.inScopeOrder ⟨1, .subtree⟩ = ids :=
    List.map_injective_iff.mpr (fun _ _ => congrArg Candidate.id) same
  exact ⟨store, ids, made, reachable, scanned, ids_eq ▸ listed, walks rfl⟩

end MemoryStore

end DirectoryStore.Query
