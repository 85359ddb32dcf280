import Mathlib.Data.List.Nodup
import Mathlib.Data.String.Basic
import DirectoryStore.Query.MemoryStore
import DirectoryStore.Proofs.Query.IndexOrder

/-!
# The invariant of a store

`MemoryStore.WellFormed` says what every store reached by making indices,
inserting and removing has in common: the entries stand in the order of their
numbers, the links are exactly those of the entries, every parent is stored and
no chain of parents comes back to itself, and each index stands for exactly the
values that the entries hold.
-/

namespace DirectoryStore.Query

namespace MemoryStore

/-- The stores that a run of changes leads to; a refused change leads nowhere new. -/
inductive Reachable : MemoryStore → Prop where
  | withIndices (names : List String) : Reachable (withIndices names)
  | addIndex {store : MemoryStore} (reachable : Reachable store)
      (name : String) : Reachable (store.addIndex name)
  | insert {store next : MemoryStore} (reachable : Reachable store)
      (entry : Entry) (accepted : store.insert entry = .ok next) :
      Reachable next
  | remove {store next : MemoryStore} (reachable : Reachable store)
      (id : EntryId) (removed : Option Entry)
      (accepted : store.remove id = .ok (removed, next)) : Reachable next

def Holds (store : MemoryStore) (name : String) (id : EntryId)
    (value : String) : Prop :=
  ∃ entry ∈ store.entries, entry.id = id ∧ value ∈ entry.values name

def HoldsAny (store : MemoryStore) (id : EntryId) (name : String) : Prop :=
  ∃ entry ∈ store.entries, entry.id = id ∧ name ∈ entry.heldNames

/-- Every parent ranks below its children, so no chain of parents is a cycle. -/
def Ranks (store : MemoryStore) (rank : EntryId → Nat) : Prop :=
  ∀ entry ∈ store.entries, ∀ parent, entry.parent = some parent →
    rank parent < rank entry.id

structure WellFormed (store : MemoryStore) : Prop where
  entries_sorted : store.entries.Pairwise (·.id < ·.id)
  links_sorted : store.links.Pairwise (ParentLink.comesBefore · · = true)
  mem_links_iff : ∀ link, link ∈ store.links ↔
    ∃ entry ∈ store.entries, linkOf entry = some link
  parent_stored : ∀ entry ∈ store.entries, ∀ parent,
    entry.parent = some parent → ∃ above ∈ store.entries, above.id = parent
  ranked : ∃ rank, store.Ranks rank
  indices : ∀ name index, (name, index) ∈ store.indices →
    index.Represents (store.Holds name)
  existence : store.existence.Represents store.HoldsAny

/-! ## Looking up -/

theorem contains_iff {store : MemoryStore} {id : EntryId} :
    store.contains id = true ↔ ∃ entry ∈ store.entries, entry.id = id := by
  simp [contains, lookup]

theorem linkOf_eq_some_iff {entry : Entry} {link : ParentLink} :
    linkOf entry = some link ↔
      entry.parent = some link.parent ∧ entry.id = link.child := by
  obtain ⟨parent, child⟩ := link
  simp [linkOf]

namespace WellFormed

variable {store : MemoryStore}

theorem ids_nodup (wellFormed : store.WellFormed) :
    (store.entries.map (·.id)).Nodup :=
  List.pairwise_map.mpr (wellFormed.entries_sorted.imp Nat.ne_of_lt)

theorem entry_unique (wellFormed : store.WellFormed) {first second : Entry}
    (first_mem : first ∈ store.entries) (second_mem : second ∈ store.entries)
    (same : first.id = second.id) : first = second :=
  List.inj_on_of_nodup_map wellFormed.ids_nodup first_mem second_mem same

theorem lookup_eq_some_iff (wellFormed : store.WellFormed) {id : EntryId}
    {entry : Entry} :
    store.lookup id = some entry ↔ entry ∈ store.entries ∧ entry.id = id := by
  constructor
  · intro found
    exact ⟨List.mem_of_find?_eq_some found,
      by simpa using List.find?_some found⟩
  · rintro ⟨member, rfl⟩
    have present : store.contains entry.id = true :=
      contains_iff.mpr ⟨entry, member, rfl⟩
    obtain ⟨found, lookup_found⟩ := Option.isSome_iff_exists.mp present
    have same : found.id = entry.id := by
      simpa using List.find?_some lookup_found
    rw [lookup_found, wellFormed.entry_unique
      (List.mem_of_find?_eq_some lookup_found) member same]

theorem mem_childrenOf (wellFormed : store.WellFormed) {base id : EntryId} :
    id ∈ store.childrenOf base ↔
      ∃ entry ∈ store.entries, entry.id = id ∧ entry.parent = some base := by
  simp only [childrenOf, List.mem_map, List.mem_filter, beq_iff_eq]
  constructor
  · rintro ⟨link, ⟨member, rfl⟩, rfl⟩
    obtain ⟨entry, entry_mem, linked⟩ := (wellFormed.mem_links_iff link).mp member
    obtain ⟨parent, child⟩ := linkOf_eq_some_iff.mp linked
    exact ⟨entry, entry_mem, child, parent⟩
  · rintro ⟨entry, member, rfl, parent⟩
    refine ⟨⟨base, entry.id⟩, ⟨?_, rfl⟩, rfl⟩
    exact (wellFormed.mem_links_iff _).mpr
      ⟨entry, member, linkOf_eq_some_iff.mpr ⟨parent, rfl⟩⟩

theorem parentOf?_eq_some_iff (wellFormed : store.WellFormed)
    {id parent : EntryId} :
    store.parentOf? id = some parent ↔
      ∃ entry ∈ store.entries, entry.id = id ∧ entry.parent = some parent := by
  simp only [parentOf?, Option.bind_eq_some_iff, wellFormed.lookup_eq_some_iff,
    and_assoc]

theorem index?_represents (wellFormed : store.WellFormed) {name : String}
    {index : AttributeIndex} (found : store.index? name = some index) :
    index.Represents (store.Holds name) := by
  obtain ⟨before, after, split, -⟩ := List.lookup_eq_some_iff.mp found
  exact wellFormed.indices name index (by simp [split])

end WellFormed

/-! ## Making indices -/

theorem wellFormed_empty : empty.WellFormed where
  entries_sorted := List.Pairwise.nil
  links_sorted := List.Pairwise.nil
  mem_links_iff := by simp [empty]
  parent_stored := by simp [empty]
  ranked := ⟨fun _ => 0, by simp [Ranks, empty]⟩
  indices := by simp [empty]
  existence := AttributeIndex.represents_empty.congr (by simp [HoldsAny, empty])

private theorem represents_foldl (name : String) (entries : List Entry)
    {index : AttributeIndex} {holds : EntryId → String → Prop}
    (represents : index.Represents holds) :
    (entries.foldl (fun index entry => index.insertAll (entry.values name) entry.id)
      index).Represents fun id value =>
        holds id value ∨
          ∃ entry ∈ entries, entry.id = id ∧ value ∈ entry.values name := by
  induction entries generalizing index holds with
  | nil => exact represents.congr (by simp)
  | cons entry rest ih =>
      refine (ih (represents.insertAll (entry.values name) entry.id)).congr ?_
      intro id value
      simp [or_assoc, eq_comm (a := id)]

theorem WellFormed.addIndex {store : MemoryStore}
    (wellFormed : store.WellFormed) (name : String) :
    (store.addIndex name).WellFormed where
  entries_sorted := wellFormed.entries_sorted
  links_sorted := wellFormed.links_sorted
  mem_links_iff := wellFormed.mem_links_iff
  parent_stored := wellFormed.parent_stored
  ranked := wellFormed.ranked
  indices := by
    intro other index member
    rcases List.mem_cons.mp member with same | member
    · obtain ⟨rfl, rfl⟩ := Prod.mk.inj same
      exact (represents_foldl other store.entries
        AttributeIndex.represents_empty).congr (by simp [Holds, MemoryStore.addIndex])
    · exact wellFormed.indices other index (List.mem_of_mem_filter member)
  existence := wellFormed.existence

theorem wellFormed_withIndices (names : List String) :
    (withIndices names).WellFormed := by
  have each (store : MemoryStore) (wellFormed : store.WellFormed) :
      (names.foldl MemoryStore.addIndex store).WellFormed := by
    induction names generalizing store with
    | nil => exact wellFormed
    | cons name rest ih => exact ih _ (wellFormed.addIndex name)
  exact each empty wellFormed_empty

/-! ## Inserting -/

theorem insert_eq_ok_iff {store next : MemoryStore} {entry : Entry} :
    store.insert entry = .ok next ↔
      store.contains entry.id = false ∧
      (∀ parent, entry.parent = some parent → store.contains parent = true) ∧
      next = (store.addEntry entry).indexEntry entry := by
  unfold insert
  cases present : store.contains entry.id with
  | true => simp
  | false =>
      cases missing : store.missingParent? entry with
      | some parent =>
          have absent := Option.filter_eq_some_iff.mp missing
          simp only [Bool.false_eq_true, if_false, reduceCtorEq, true_and,
            false_iff, not_and]
          intro stored
          simp [stored parent absent.1] at absent
      | none =>
          have stored := Option.filter_eq_none_iff.mp missing
          simp only [Bool.false_eq_true, if_false, Except.ok.injEq, true_and]
          constructor
          · rintro rfl
            exact ⟨fun parent above => by simpa using stored parent above, rfl⟩
          · exact fun ⟨_, same⟩ => same.symm

theorem mem_addEntry_entries {store : MemoryStore} {entry other : Entry} :
    other ∈ (store.addEntry entry).entries ↔ other = entry ∨ other ∈ store.entries :=
  mem_insertSorted _

theorem mem_addEntry_links {store : MemoryStore} {entry : Entry}
    {link : ParentLink} :
    link ∈ (store.addEntry entry).links ↔
      linkOf entry = some link ∨ link ∈ store.links := by
  unfold addEntry
  cases linked : linkOf entry with
  | none => simp
  | some own => simp [mem_insertSorted, eq_comm]

theorem comesBefore_iff {a b : ParentLink} :
    a.comesBefore b = true ↔
      a.parent < b.parent ∨ a.parent = b.parent ∧ a.child < b.child := by
  simp [ParentLink.comesBefore]

private theorem addEntry_entries_sorted {store : MemoryStore}
    (wellFormed : store.WellFormed) {entry : Entry}
    (absent : ∀ other ∈ store.entries, other.id ≠ entry.id) :
    (store.addEntry entry).entries.Pairwise (·.id < ·.id) := by
  have sorted := @pairwise_insertSorted _
    (fun a b : Entry => decide (a.id < b.id)) ?_ entry store.entries ?_ ?_
  · simpa [addEntry] using sorted
  · simpa using fun a b c : Entry => Nat.lt_trans (n := a.id)
  · simpa using wellFormed.entries_sorted
  · simpa using fun other member => Nat.lt_or_gt_of_ne (absent other member)

private theorem addEntry_links_sorted {store : MemoryStore}
    (wellFormed : store.WellFormed) {entry : Entry}
    (absent : ∀ other ∈ store.entries, other.id ≠ entry.id) :
    (store.addEntry entry).links.Pairwise (ParentLink.comesBefore · · = true) := by
  unfold addEntry
  cases linked : linkOf entry with
  | none => exact wellFormed.links_sorted
  | some link =>
      refine pairwise_insertSorted ?_ wellFormed.links_sorted ?_
      · intro a b c
        simp only [comesBefore_iff]
        grind
      · intro other member
        obtain ⟨holder, holder_mem, same⟩ :=
          (wellFormed.mem_links_iff other).mp member
        have distinct := absent holder holder_mem
        rw [(linkOf_eq_some_iff.mp same).2,
          (linkOf_eq_some_iff.mp linked).2] at distinct
        simp only [comesBefore_iff]
        grind

private theorem mem_addEntry_links_iff {store : MemoryStore}
    (wellFormed : store.WellFormed) {entry : Entry} (link : ParentLink) :
    link ∈ (store.addEntry entry).links ↔
      ∃ other ∈ (store.addEntry entry).entries, linkOf other = some link := by
  rw [mem_addEntry_links, wellFormed.mem_links_iff]
  simp [mem_addEntry_entries]

private theorem addEntry_parent_stored {store : MemoryStore}
    (wellFormed : store.WellFormed) {entry other : Entry}
    (stored : ∀ parent, entry.parent = some parent →
      ∃ above ∈ store.entries, above.id = parent)
    (member : other ∈ (store.addEntry entry).entries) {parent : EntryId}
    (above : other.parent = some parent) :
    ∃ holder ∈ store.entries, holder.id = parent := by
  rcases mem_addEntry_entries.mp member with rfl | member
  · exact stored parent above
  · exact wellFormed.parent_stored other member parent above

/-- A new entry ranks just above its parent, and nothing stored is below it. -/
private theorem ranked_addEntry {store : MemoryStore}
    (wellFormed : store.WellFormed) {entry : Entry}
    (absent : ∀ other ∈ store.entries, other.id ≠ entry.id)
    (stored : ∀ parent, entry.parent = some parent →
      ∃ above ∈ store.entries, above.id = parent) :
    ∃ rank, (store.addEntry entry).Ranks rank := by
  obtain ⟨rank, ranks⟩ := wellFormed.ranked
  refine ⟨fun id => if id = entry.id then rank (entry.parent.getD 0) + 1
    else rank id, ?_⟩
  intro other member parent above
  obtain ⟨holder, holder_mem, rfl⟩ := addEntry_parent_stored wellFormed stored member above
  have holder_old := absent holder holder_mem
  rcases mem_addEntry_entries.mp member with rfl | member
  · simp [holder_old, above]
  · simpa [holder_old, absent other member] using ranks other member _ above

theorem WellFormed.insert {store next : MemoryStore}
    (wellFormed : store.WellFormed) {entry : Entry}
    (accepted : store.insert entry = .ok next) : next.WellFormed := by
  obtain ⟨fresh, stored, rfl⟩ := insert_eq_ok_iff.mp accepted
  have absent : ∀ other ∈ store.entries, other.id ≠ entry.id := by
    intro other member same
    rw [contains_iff.mpr ⟨other, member, same⟩] at fresh
    contradiction
  have stored' : ∀ parent, entry.parent = some parent →
      ∃ above ∈ store.entries, above.id = parent :=
    fun parent above => contains_iff.mp (stored parent above)
  exact {
    entries_sorted := addEntry_entries_sorted wellFormed absent
    links_sorted := addEntry_links_sorted wellFormed absent
    mem_links_iff := mem_addEntry_links_iff wellFormed
    parent_stored := fun _ member _ above => by
      obtain ⟨holder, holder_mem, same⟩ :=
        addEntry_parent_stored wellFormed stored' member above
      exact ⟨holder, mem_addEntry_entries.mpr (.inr holder_mem), same⟩
    ranked := ranked_addEntry wellFormed absent stored'
    indices := fun name index member => by
      obtain ⟨⟨name', old⟩, old_mem, same⟩ := List.mem_map.mp member
      obtain ⟨rfl, rfl⟩ := Prod.mk.inj same
      refine ((wellFormed.indices name' old old_mem).insertAll
        (entry.values name') entry.id).congr fun id value => ?_
      change _ ↔ ∃ other ∈ (store.addEntry entry).entries, _
      simp only [Holds, mem_addEntry_entries]
      grind
    existence := by
      refine (wellFormed.existence.insertAll entry.heldNames entry.id).congr fun id name => ?_
      change _ ↔ ∃ other ∈ (store.addEntry entry).entries, _
      simp only [HoldsAny, mem_addEntry_entries]
      grind }

/-! ## Removing -/

theorem remove_eq_ok_cases {store next : MemoryStore} {id : EntryId}
    {removed : Option Entry} (accepted : store.remove id = .ok (removed, next)) :
    (removed = none ∧ next = store) ∨
      ∃ entry, removed = some entry ∧ store.lookup id = some entry ∧
        store.childrenOf id = [] ∧
        next = (store.dropEntry entry).unindexEntry entry := by
  unfold remove at accepted
  cases childless : store.childrenOf id with
  | cons child rest => simp [childless] at accepted
  | nil =>
      cases found : store.lookup id with
      | none =>
          simp only [childless, found, List.isEmpty_nil, if_true,
            Except.ok.injEq, Prod.mk.injEq] at accepted
          exact .inl ⟨accepted.1.symm, accepted.2.symm⟩
      | some entry =>
          simp only [childless, found, List.isEmpty_nil, if_true,
            Except.ok.injEq, Prod.mk.injEq] at accepted
          exact .inr ⟨entry, accepted.1.symm, rfl, rfl, accepted.2.symm⟩

theorem mem_dropEntry_entries {store : MemoryStore} {entry other : Entry} :
    other ∈ (store.dropEntry entry).entries ↔
      other ∈ store.entries ∧ other.id ≠ entry.id := by
  simp [dropEntry]

private theorem mem_dropEntry_links_iff {store : MemoryStore}
    (wellFormed : store.WellFormed) {entry : Entry} (member : entry ∈ store.entries)
    (link : ParentLink) :
    link ∈ (store.dropEntry entry).links ↔
      ∃ other ∈ (store.dropEntry entry).entries, linkOf other = some link := by
  change link ∈ store.links.filter _ ↔ _
  simp only [List.mem_filter, wellFormed.mem_links_iff, bne_iff_ne, mem_dropEntry_entries]
  constructor
  · rintro ⟨⟨other, other_mem, linked⟩, different⟩
    refine ⟨other, ⟨other_mem, fun same => different ?_⟩, linked⟩
    rw [← wellFormed.entry_unique other_mem member same, linked]
  · rintro ⟨other, ⟨other_mem, different⟩, linked⟩
    refine ⟨⟨other, other_mem, linked⟩, fun same => different ?_⟩
    exact (linkOf_eq_some_iff.mp linked).2.trans (linkOf_eq_some_iff.mp same).2.symm

/-- An entry that loses its parent would be a child of the one that goes. -/
private theorem dropEntry_parent_stored {store : MemoryStore}
    (wellFormed : store.WellFormed) {entry other : Entry}
    (childless : store.childrenOf entry.id = [])
    (member : other ∈ (store.dropEntry entry).entries) {parent : EntryId}
    (above : other.parent = some parent) :
    ∃ holder ∈ (store.dropEntry entry).entries, holder.id = parent := by
  have stored := (mem_dropEntry_entries.mp member).1
  obtain ⟨holder, holder_mem, rfl⟩ := wellFormed.parent_stored other stored parent above
  refine ⟨holder, mem_dropEntry_entries.mpr ⟨holder_mem, fun same => ?_⟩, rfl⟩
  have child : other.id ∈ store.childrenOf entry.id :=
    wellFormed.mem_childrenOf.mpr ⟨other, stored, rfl, same ▸ above⟩
  simp [childless] at child

theorem WellFormed.drop {store : MemoryStore} (wellFormed : store.WellFormed)
    {entry : Entry} (member : entry ∈ store.entries)
    (childless : store.childrenOf entry.id = []) :
    ((store.dropEntry entry).unindexEntry entry).WellFormed := by
  have same_entry : ∀ other ∈ store.entries, other.id = entry.id → other = entry :=
    fun _ other_mem => wellFormed.entry_unique other_mem member
  exact {
    entries_sorted := wellFormed.entries_sorted.sublist List.filter_sublist
    links_sorted := wellFormed.links_sorted.sublist List.filter_sublist
    mem_links_iff := mem_dropEntry_links_iff wellFormed member
    parent_stored := fun _ other_mem _ above =>
      dropEntry_parent_stored wellFormed childless other_mem above
    ranked := by
      obtain ⟨rank, ranks⟩ := wellFormed.ranked
      exact ⟨rank, fun other other_mem => ranks other (mem_dropEntry_entries.mp other_mem).1⟩
    indices := fun name index index_mem => by
      obtain ⟨⟨name', old⟩, old_mem, same⟩ := List.mem_map.mp index_mem
      obtain ⟨rfl, rfl⟩ := Prod.mk.inj same
      refine ((wellFormed.indices name' old old_mem).eraseAll
        (entry.values name') entry.id).congr fun id value => ?_
      change _ ↔ ∃ other ∈ (store.dropEntry entry).entries, _
      simp only [Holds, mem_dropEntry_entries]
      grind
    existence := by
      refine (wellFormed.existence.eraseAll entry.heldNames entry.id).congr fun id name => ?_
      change _ ↔ ∃ other ∈ (store.dropEntry entry).entries, _
      simp only [HoldsAny, mem_dropEntry_entries]
      grind }

theorem WellFormed.remove {store next : MemoryStore}
    (wellFormed : store.WellFormed) {id : EntryId} {removed : Option Entry}
    (accepted : store.remove id = .ok (removed, next)) : next.WellFormed := by
  rcases remove_eq_ok_cases accepted with
    ⟨-, rfl⟩ | ⟨entry, -, found, childless, rfl⟩
  · exact wellFormed
  · obtain ⟨member, rfl⟩ := wellFormed.lookup_eq_some_iff.mp found
    exact wellFormed.drop member childless

theorem Reachable.wellFormed {store : MemoryStore} (reachable : Reachable store) :
    store.WellFormed := by
  induction reachable with
  | withIndices names => exact wellFormed_withIndices names
  | addIndex _ name ih => exact ih.addIndex name
  | insert _ entry accepted ih => exact ih.insert accepted
  | remove _ id removed accepted ih => exact ih.remove accepted

end MemoryStore

end DirectoryStore.Query
