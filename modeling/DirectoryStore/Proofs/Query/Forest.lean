import Mathlib.Data.Finset.Card
import Mathlib.Data.Finset.Insert
import Mathlib.Data.Finset.Filter
import DirectoryStore.Proofs.Query.StoreInvariant

/-!
# The forest of entries

`MemoryStore.Below` is the place of an entry at or below another one.  Climbing
decides it, since no chain of parents is longer than the number of entries.
Visiting finds all of it, since the subtrees of the entries that still wait are
disjoint and each visit takes one entry out of them.  So a scope names exactly
the entries that lie in it, each once.
-/

namespace DirectoryStore.Query

namespace MemoryStore

/-- The entry is the base, or its parent is at or below the base. -/
inductive Below (store : MemoryStore) (base : EntryId) : EntryId → Prop where
  | refl : Below store base base
  | climb {id parent : EntryId} (above : store.parentOf? id = some parent)
      (below : Below store base parent) : Below store base id

def Apart (store : MemoryStore) (first second : EntryId) : Prop :=
  ∀ id, ¬ (store.Below first id ∧ store.Below second id)

variable {store : MemoryStore}

/-! ## Ranks -/

theorem WellFormed.rank_lt (wellFormed : store.WellFormed)
    {rank : EntryId → Nat} (ranks : store.Ranks rank) {id parent : EntryId}
    (above : store.parentOf? id = some parent) : rank parent < rank id := by
  obtain ⟨entry, member, rfl, named⟩ :=
    wellFormed.parentOf?_eq_some_iff.mp above
  exact ranks entry member parent named

/-- Counting the entries of smaller rank gives ranks below the number of entries. -/
theorem WellFormed.exists_small_rank (wellFormed : store.WellFormed) :
    ∃ rank, store.Ranks rank ∧ ∀ entry ∈ store.entries, rank entry.id < store.size := by
  obtain ⟨rank, ranks⟩ := wellFormed.ranked
  let ids := (store.entries.map (·.id)).toFinset
  have mem_ids (entry : Entry) (member : entry ∈ store.entries) :
      entry.id ∈ ids := by
    simpa [ids] using ⟨entry, member, rfl⟩
  refine ⟨fun id => (ids.filter (rank · < rank id)).card, ?_, ?_⟩
  · intro entry member parent above
    obtain ⟨holder, holder_mem, rfl⟩ :=
      wellFormed.parent_stored entry member parent above
    have smaller := ranks entry member _ above
    refine Finset.card_lt_card (Finset.ssubset_iff_of_subset ?_ |>.mpr
      ⟨holder.id, ?_, ?_⟩)
    · intro id id_mem
      simp only [Finset.mem_filter] at id_mem ⊢
      exact ⟨id_mem.1, id_mem.2.trans smaller⟩
    · simpa using ⟨mem_ids holder holder_mem, smaller⟩
    · simp
  · intro entry member
    have all : ids.card = store.size := by
      rw [List.toFinset_card_of_nodup wellFormed.ids_nodup, List.length_map, size]
    rw [← all]
    refine Finset.card_lt_card (Finset.ssubset_iff_of_subset
      (Finset.filter_subset _ _) |>.mpr ⟨entry.id, mem_ids entry member, ?_⟩)
    simp

theorem WellFormed.mem_childrenOf_iff (wellFormed : store.WellFormed)
    {base id : EntryId} :
    id ∈ store.childrenOf base ↔ store.parentOf? id = some base :=
  wellFormed.mem_childrenOf.trans wellFormed.parentOf?_eq_some_iff.symm

/-! ## Below -/

theorem Below.rank_le (wellFormed : store.WellFormed) {rank : EntryId → Nat}
    (ranks : store.Ranks rank) {base id : EntryId} (below : store.Below base id) :
    rank base ≤ rank id := by
  induction below with
  | refl => exact Nat.le_refl _
  | climb above _ ih => exact ih.trans (wellFormed.rank_lt ranks above).le

theorem Below.linear {first second id : EntryId} (below : store.Below first id)
    (below' : store.Below second id) :
    store.Below first second ∨ store.Below second first := by
  induction below with
  | refl => exact .inr below'
  | climb above below ih =>
      cases below' with
      | refl => exact .inl (.climb above below)
      | climb above' below' =>
          have same := Option.some.inj (above.symm.trans above')
          exact ih (same ▸ below')

theorem Below.trans {first second id : EntryId}
    (upper : store.Below first second) (lower : store.Below second id) :
    store.Below first id := by
  induction lower with
  | refl => exact upper
  | climb above _ ih => exact .climb above ih

theorem WellFormed.below_iff (wellFormed : store.WellFormed)
    {base id : EntryId} :
    store.Below base id ↔
      id = base ∨ ∃ child ∈ store.childrenOf base, store.Below child id := by
  simp only [wellFormed.mem_childrenOf_iff]
  constructor
  · intro below
    induction below with
    | refl => exact .inl rfl
    | climb above _ ih =>
        rcases ih with rfl | ⟨child, child_above, below⟩
        · exact .inr ⟨_, above, .refl⟩
        · exact .inr ⟨child, child_above, .climb above below⟩
  · rintro (rfl | ⟨child, above, below⟩)
    · exact .refl
    · exact Below.trans (.climb above .refl) below

theorem WellFormed.below_stored (wellFormed : store.WellFormed)
    {base id : EntryId} (stored : store.contains base = true)
    (below : store.Below base id) : store.contains id = true := by
  cases below with
  | refl => exact stored
  | climb above _ =>
      obtain ⟨entry, member, same, -⟩ :=
        wellFormed.parentOf?_eq_some_iff.mp above
      exact contains_iff.mpr ⟨entry, member, same⟩

theorem WellFormed.base_stored (wellFormed : store.WellFormed)
    {base id : EntryId} (stored : store.contains id = true)
    (below : store.Below base id) : store.contains base = true := by
  induction below with
  | refl => exact stored
  | climb above _ ih =>
      obtain ⟨entry, member, rfl, named⟩ :=
        wellFormed.parentOf?_eq_some_iff.mp above
      exact ih (contains_iff.mpr (wellFormed.parent_stored entry member _ named))

/-! ## Climbing -/

theorem climbsTo_iff (wellFormed : store.WellFormed) {rank : EntryId → Nat}
    (ranks : store.Ranks rank) (base : EntryId) {fuel : Nat} {id : EntryId}
    (enough : rank id < fuel) :
    store.climbsTo base fuel id = true ↔ store.Below base id := by
  induction fuel generalizing id with
  | zero => omega
  | succ fuel ih =>
      simp only [climbsTo, Bool.or_eq_true, beq_iff_eq]
      constructor
      · rintro (rfl | climbs)
        · exact .refl
        · cases above : store.parentOf? id with
          | none => simp [above] at climbs
          | some parent =>
              have smaller := wellFormed.rank_lt ranks above
              simp only [above] at climbs
              exact .climb above ((ih (by omega)).mp climbs)
      · intro below
        cases below with
        | refl => exact .inl rfl
        | climb above below =>
            have smaller := wellFormed.rank_lt ranks above
            simp only [above]
            exact .inr ((ih (by omega)).mpr below)

/-! ## Visiting -/

theorem WellFormed.childrenOf_ascending (wellFormed : store.WellFormed)
    (base : EntryId) : (store.childrenOf base).Pairwise (· < ·) := by
  refine List.pairwise_map.mpr ?_
  have among := List.Pairwise.and_mem.mp
    (wellFormed.links_sorted.sublist (List.filter_sublist (p := (·.parent == base))))
  refine among.imp ?_
  rintro a b ⟨a_mem, b_mem, before⟩
  simp only [List.mem_filter, beq_iff_eq] at a_mem b_mem
  simpa [comesBefore_iff, a_mem.2, b_mem.2] using before

theorem WellFormed.childrenOf_nodup (wellFormed : store.WellFormed)
    (base : EntryId) : (store.childrenOf base).Nodup :=
  (wellFormed.childrenOf_ascending base).imp Nat.ne_of_lt

theorem WellFormed.childrenOf_apart (wellFormed : store.WellFormed)
    (base : EntryId) : (store.childrenOf base).Pairwise store.Apart := by
  obtain ⟨rank, ranks⟩ := wellFormed.ranked
  have not_below : ∀ first ∈ store.childrenOf base,
      ∀ second ∈ store.childrenOf base, first ≠ second →
        ¬ store.Below first second := by
    intro first first_mem second second_mem different below
    have above := wellFormed.mem_childrenOf_iff.mp first_mem
    have above' := wellFormed.mem_childrenOf_iff.mp second_mem
    cases below with
    | refl => exact different rfl
    | climb above'' below =>
        obtain rfl := Option.some.inj (above'.symm.trans above'')
        have lower := below.rank_le wellFormed ranks
        have upper := wellFormed.rank_lt ranks above
        omega
  refine (List.Pairwise.and_mem.mp (wellFormed.childrenOf_nodup base)).imp ?_
  rintro first second ⟨first_mem, second_mem, different⟩ id ⟨below, below'⟩
  rcases below.linear below' with upper | lower
  · exact not_below first first_mem second second_mem different upper
  · exact not_below second second_mem first first_mem (Ne.symm different) lower

open Classical in
noncomputable def waitingBelow (store : MemoryStore) (waiting : List EntryId) :
    Finset EntryId :=
  (store.entries.map (·.id)).toFinset.filter fun id =>
    ∃ root ∈ waiting, store.Below root id

theorem mem_waitingBelow_iff {waiting : List EntryId} {id : EntryId} :
    id ∈ store.waitingBelow waiting ↔
      store.contains id = true ∧ ∃ root ∈ waiting, store.Below root id := by
  simp [waitingBelow, contains_iff]

theorem waitingBelow_card_le (store : MemoryStore) (waiting : List EntryId) :
    (store.waitingBelow waiting).card ≤ store.size := by
  classical
  calc (store.waitingBelow waiting).card
      ≤ (store.entries.map (·.id)).toFinset.card := Finset.card_filter_le _ _
    _ ≤ (store.entries.map (·.id)).length := List.toFinset_card_le _
    _ = store.size := by rw [List.length_map, size]

theorem WellFormed.exists_waiting_cons (wellFormed : store.WellFormed)
    {root id : EntryId} {rest : List EntryId} :
    (∃ waits ∈ root :: rest, store.Below waits id) ↔
      id = root ∨ ∃ next ∈ store.childrenOf root ++ rest, store.Below next id := by
  rw [List.exists_mem_cons_iff, wellFormed.below_iff, or_assoc]
  refine or_congr_right ?_
  simp only [List.mem_append, or_and_right, exists_or]

/-- Nothing that waits after a visit is above the entry that was visited. -/
theorem WellFormed.visited_fresh (wellFormed : store.WellFormed)
    {root : EntryId} {rest : List EntryId}
    (apart : ∀ other ∈ rest, store.Apart root other) :
    ¬ ∃ next ∈ store.childrenOf root ++ rest, store.Below next root := by
  obtain ⟨rank, ranks⟩ := wellFormed.ranked
  rintro ⟨next, member, below⟩
  rcases List.mem_append.mp member with child | member
  · have lower := below.rank_le wellFormed ranks
    have upper := wellFormed.rank_lt ranks
      (wellFormed.mem_childrenOf_iff.mp child)
    omega
  · exact apart next member root ⟨.refl, below⟩

theorem WellFormed.waitingBelow_cons (wellFormed : store.WellFormed)
    {root : EntryId} {rest : List EntryId}
    (stored : store.contains root = true)
    (apart : ∀ other ∈ rest, store.Apart root other) :
    (store.waitingBelow (root :: rest)).card =
      (store.waitingBelow (store.childrenOf root ++ rest)).card + 1 := by
  have fresh : root ∉ store.waitingBelow (store.childrenOf root ++ rest) :=
    fun member =>
      wellFormed.visited_fresh apart (mem_waitingBelow_iff.mp member).2
  have split : store.waitingBelow (root :: rest) =
      Insert.insert root (store.waitingBelow (store.childrenOf root ++ rest)) := by
    ext id
    simp only [mem_waitingBelow_iff, Finset.mem_insert,
      wellFormed.exists_waiting_cons]
    constructor
    · rintro ⟨member, rfl | below⟩
      · exact .inl rfl
      · exact .inr ⟨member, below⟩
    · rintro (rfl | ⟨member, below⟩)
      · exact ⟨stored, .inl rfl⟩
      · exact ⟨member, .inr below⟩
  rw [split, Finset.card_insert_of_notMem fresh]

/-- Stored entries that wait for a visit, with nothing at or below two of them. -/
structure Waits (store : MemoryStore) (waiting : List EntryId) : Prop where
  stored : ∀ root ∈ waiting, store.contains root = true
  apart : waiting.Pairwise store.Apart

/-- The entries that are visited until none waits any more. -/
inductive Visits (store : MemoryStore) : (waiting visited : List EntryId) → Prop where
  | done : Visits store [] []
  | visit {id : EntryId} {waiting visited : List EntryId}
      (rest : Visits store (store.childrenOf id ++ waiting) visited) :
      Visits store (id :: waiting) (id :: visited)

theorem Waits.visit {root : EntryId} {rest : List EntryId}
    (waits : store.Waits (root :: rest)) (wellFormed : store.WellFormed) :
    store.Waits (store.childrenOf root ++ rest) := by
  obtain ⟨root_apart, rest_apart⟩ := List.pairwise_cons.mp waits.apart
  have child_below : ∀ child ∈ store.childrenOf root, store.Below root child :=
    fun child member => wellFormed.below_iff.mpr (.inr ⟨child, member, .refl⟩)
  constructor
  · intro next member
    rcases List.mem_append.mp member with child | member
    · exact wellFormed.below_stored (waits.stored root List.mem_cons_self)
        (child_below next child)
    · exact waits.stored next (List.mem_cons_of_mem _ member)
  · refine List.pairwise_append.mpr
      ⟨wellFormed.childrenOf_apart root, rest_apart, ?_⟩
    rintro child child_mem other other_mem id ⟨below, below'⟩
    exact root_apart other other_mem id
      ⟨(child_below child child_mem).trans below, below'⟩

/-- With fuel for everything below them, the waiting entries are visited in full. -/
theorem Waits.visits {waiting : List EntryId} (waits : store.Waits waiting)
    (wellFormed : store.WellFormed) {fuel : Nat}
    (enough : (store.waitingBelow waiting).card ≤ fuel) :
    store.Visits waiting (store.visit fuel waiting) := by
  -- Every visit takes exactly one entry out of those at or below the waiting ones.
  induction fuel generalizing waiting with
  | zero =>
      cases waiting with
      | nil => exact .done
      | cons root rest =>
          rw [wellFormed.waitingBelow_cons (waits.stored root List.mem_cons_self)
            (List.pairwise_cons.mp waits.apart).1] at enough
          omega
  | succ fuel ih =>
      cases waiting with
      | nil => exact .done
      | cons root rest =>
          rw [wellFormed.waitingBelow_cons (waits.stored root List.mem_cons_self)
            (List.pairwise_cons.mp waits.apart).1] at enough
          exact .visit (ih (waits.visit wellFormed) (by omega))

theorem Visits.spec {waiting visited : List EntryId} (visits : store.Visits waiting visited)
    (waits : store.Waits waiting) (wellFormed : store.WellFormed) :
    visited.Nodup ∧ ∀ id, id ∈ visited ↔ ∃ root ∈ waiting, store.Below root id := by
  induction visits with
  | done => simp
  | visit rest ih =>
      obtain ⟨nodup, mem_iff⟩ := ih (waits.visit wellFormed)
      refine ⟨?_, fun id => ?_⟩
      · rw [List.nodup_cons, mem_iff]
        exact ⟨wellFormed.visited_fresh (List.pairwise_cons.mp waits.apart).1, nodup⟩
      · rw [List.mem_cons, mem_iff, wellFormed.exists_waiting_cons]

/-! ## Scopes -/

theorem waits_singleton {base : EntryId} (stored : store.contains base = true) :
    store.Waits [base] :=
  ⟨by simpa using stored, List.pairwise_singleton _ _⟩

theorem WellFormed.subtree_visits (wellFormed : store.WellFormed)
    {base : EntryId} (stored : store.contains base = true) :
    store.Visits [base] (store.subtree base) := by
  have visits := (waits_singleton stored).visits wellFormed (store.waitingBelow_card_le _)
  rwa [subtree, if_pos stored]

theorem WellFormed.subtree_spec (wellFormed : store.WellFormed)
    {base : EntryId} (stored : store.contains base = true) :
    (store.subtree base).Nodup ∧
      ∀ id, id ∈ store.subtree base ↔ store.Below base id := by
  have spec := (wellFormed.subtree_visits stored).spec (waits_singleton stored) wellFormed
  simpa using spec

theorem WellFormed.mem_subtree_iff (wellFormed : store.WellFormed) {base id : EntryId} :
    id ∈ store.subtree base ↔ store.contains id = true ∧ store.Below base id := by
  cases stored : store.contains base with
  | true =>
      rw [(wellFormed.subtree_spec stored).2]
      exact ⟨fun below => ⟨wellFormed.below_stored stored below, below⟩, And.right⟩
  | false =>
      simp only [subtree, stored, Bool.false_eq_true, if_false, List.not_mem_nil, false_iff]
      rintro ⟨present, below⟩
      rw [wellFormed.base_stored present below] at stored
      cases stored

theorem WellFormed.climbsTo_size_iff (wellFormed : store.WellFormed) {base id : EntryId}
    (present : store.contains id = true) :
    store.climbsTo base store.size id = true ↔ store.Below base id := by
  obtain ⟨rank, ranks, small⟩ := wellFormed.exists_small_rank
  obtain ⟨entry, member, rfl⟩ := contains_iff.mp present
  exact climbsTo_iff wellFormed ranks base (small entry member)

theorem WellFormed.inScope_iff (wellFormed : store.WellFormed) {scope : Scope}
    {id : EntryId} :
    store.inScope scope id = true ↔ id ∈ store.inScopeOrder scope := by
  obtain ⟨base, depth⟩ := scope
  simp only [inScope, inScopeOrder, Bool.and_eq_true]
  cases depth with
  | base =>
      constructor
      · rintro ⟨stored, same⟩
        obtain rfl := beq_iff_eq.mp same
        simp [stored]
      · intro member
        cases stored : store.contains base with
        | true =>
            obtain rfl : id = base := by simpa [stored] using member
            exact ⟨stored, beq_self_eq_true id⟩
        | false => simp [stored] at member
  | oneLevel =>
      simp only [beq_iff_eq, wellFormed.mem_childrenOf_iff]
      refine ⟨And.right, fun above => ⟨?_, above⟩⟩
      obtain ⟨entry, member, same, -⟩ :=
        wellFormed.parentOf?_eq_some_iff.mp above
      exact contains_iff.mpr ⟨entry, member, same⟩
  | subtree =>
      rw [wellFormed.mem_subtree_iff]
      exact and_congr_right wellFormed.climbsTo_size_iff

theorem WellFormed.inScopeOrder_nodup (wellFormed : store.WellFormed)
    (scope : Scope) : (store.inScopeOrder scope).Nodup := by
  obtain ⟨base, depth⟩ := scope
  cases depth with
  | base =>
      simp only [inScopeOrder]
      split <;> simp
  | oneLevel => exact wellFormed.childrenOf_nodup base
  | subtree =>
      cases stored : store.contains base with
      | true => exact (wellFormed.subtree_spec stored).1
      | false => simp [inScopeOrder, subtree, stored]

end MemoryStore

end DirectoryStore.Query
