import DirectoryStore.Proofs.Outcomes
import DirectoryStore.Proofs.Query.SearchResults

/-!
# Changing a store in place

Inserting and removing change several structures one after the other: the links
between entries, the existence index, the index of each attribute, and the
entries themselves.  Here the changes are carried out step by step on a store
that keeps what was done to it, whether or not a change is refused.

A refused change is refused before its first step, and an accepted change does
what inserting or removing does at once.  So every run of changes, the refused
ones among them, leaves the structures in agreement: what scans and counts
answer is what the stored entries say, and the stored entries are those that
were inserted and not removed since.
-/

namespace DirectoryStore.Query

/-- Steps on a store; what they did before a refusal stays. -/
abbrev Editing := ExceptT Error (StateM MemoryStore)

/-! ## Steps -/

namespace MemoryStore

def addLink (store : MemoryStore) (link : ParentLink) : MemoryStore :=
  { store with links := insertSorted ParentLink.comesBefore link store.links }

def dropLink (store : MemoryStore) (link : ParentLink) : MemoryStore :=
  { store with links := store.links.filter (· != link) }

def dropLinksBelow (store : MemoryStore) (id : EntryId) : MemoryStore :=
  { store with links := store.links.filter (·.parent != id) }

def addRow (store : MemoryStore) (entry : Entry) : MemoryStore :=
  { store with entries := insertSorted (·.id < ·.id) entry store.entries }

def dropRow (store : MemoryStore) (id : EntryId) : MemoryStore :=
  { store with entries := store.entries.filter (·.id != id) }

abbrev Edit := AttributeIndex → IndexPair → AttributeIndex

def editIndex (edit : Edit) (id : EntryId) (name : String) (values : List String)
    (store : MemoryStore) : MemoryStore :=
  { store with
    indices := store.indices.map fun (other, index) =>
      (other,
        if other = name then values.foldl (fun index value => edit index ⟨value, id⟩) index
        else index) }

/-- Goes through the attributes of an entry, and passes over those without a value. -/
def editEach (edit : Edit) (id : EntryId) :
    List (String × List String) → MemoryStore → MemoryStore
  | [], store => store
  | (name, values) :: rest, store =>
      if values.isEmpty then
        editEach edit id rest store
      else
        editEach edit id rest
          (editIndex edit id name values
            { store with existence := edit store.existence ⟨name, id⟩ })

end MemoryStore

/-! ## Changes -/

namespace Editing

def requireNew (id : EntryId) : Editing Unit := do
  if (← get).contains id then
    throw (.refused (.entryExists id))

def linkToParent (entry : Entry) : Editing Unit := do
  match entry.parent with
  | none => return ()
  | some parent =>
      if (← get).contains parent then
        modify (·.addLink ⟨parent, entry.id⟩)
      else
        throw (.refused (.parentMissing parent entry.id))

def insert (entry : Entry) : Editing Unit := do
  requireNew entry.id
  linkToParent entry
  modify (MemoryStore.editEach AttributeIndex.insert entry.id entry.attributes)
  modify (·.addRow entry)

def requireChildless (id : EntryId) : Editing Unit := do
  if (← get).childrenOf id ≠ [] then
    throw (.refused (.entryHasChildren id))

def unlinkFromParent (entry : Entry) : Editing Unit :=
  match entry.parent with
  | none => return ()
  | some parent => modify (·.dropLink ⟨parent, entry.id⟩)

def removeFound (entry : Entry) : Editing Unit := do
  modify (·.dropRow entry.id)
  modify (·.dropLinksBelow entry.id)
  unlinkFromParent entry
  modify (MemoryStore.editEach AttributeIndex.erase entry.id entry.attributes)

def remove (id : EntryId) : Editing (Option Entry) := do
  requireChildless id
  match (← get).lookup id with
  | none => return none
  | some entry =>
      removeFound entry
      return some entry

end Editing

inductive Change where
  | addIndex (name : String)
  | insert (entry : Entry)
  | remove (id : EntryId)
  deriving DecidableEq, Repr

namespace Change

def perform : Change → Editing (Option Entry)
  | addIndex name => do
      modify (·.addIndex name)
      return none
  | insert entry => do
      Editing.insert entry
      return none
  | remove id => Editing.remove id

def onEntries (entries : List Entry) : Change → List Entry
  | addIndex _ => entries
  | insert entry =>
      if entries.any (·.id == entry.id) ||
          entry.parent.any fun parent => entries.all (·.id != parent) then
        entries
      else
        entry :: entries
  | remove id =>
      if entries.any (·.parent == some id) then entries
      else entries.filter (·.id != id)

end Change

/-- The store after a run of changes, of which some may have been refused. -/
def MemoryStore.afterEach : MemoryStore → List Change → MemoryStore
  | store, [] => store
  | store, change :: rest => (change.perform store).2.afterEach rest

/-! ## Indexing an entry -/

namespace MemoryStore

variable {store : MemoryStore}

theorem editEach_eq (edit : Edit) (id : EntryId) (attributes : List (String × List String))
    (store : MemoryStore) :
    editEach edit id attributes store =
      { store with
        existence := ((attributes.filter (!·.2.isEmpty)).map (·.1)).foldl
          (fun index name => edit index ⟨name, id⟩) store.existence
        indices := store.indices.map fun (name, index) =>
          (name, ((attributes.filter (·.1 == name)).flatMap (·.2)).foldl
            (fun index value => edit index ⟨value, id⟩) index) } := by
  induction attributes generalizing store with
  | nil => simp [editEach]
  | cons pair rest ih =>
      obtain ⟨name, values⟩ := pair
      cases values with
      | nil =>
          change editEach edit id rest store = _
          rw [ih]
          have without (other : String) :
              (((name, []) :: rest).filter (·.1 == other)).flatMap (·.2) =
                (rest.filter (·.1 == other)).flatMap (·.2) := by
            rw [List.filter_cons]
            split <;> rfl
          simp only [without]
          rfl
      | cons value values =>
          rw [editEach, if_neg (by simp), ih]
          simp only [editIndex, List.map_map, MemoryStore.mk.injEq, true_and]
          refine ⟨List.map_congr_left fun pair _ => ?_, rfl⟩
          obtain ⟨other, index⟩ := pair
          simp only [Function.comp_apply, Prod.mk.injEq, true_and, List.filter_cons]
          by_cases same : other = name
          · simp [same]
          · simp [same, Ne.symm same]

theorem editEach_insert (store : MemoryStore) (entry : Entry) :
    editEach AttributeIndex.insert entry.id entry.attributes store =
      store.indexEntry entry :=
  editEach_eq ..

theorem editEach_erase (store : MemoryStore) (entry : Entry) :
    editEach AttributeIndex.erase entry.id entry.attributes store =
      store.unindexEntry entry :=
  editEach_eq ..

end MemoryStore

/-! ## Changes at once -/

namespace Editing

variable (store : MemoryStore)

theorem requireNew_apply (id : EntryId) :
    requireNew id store =
      if store.contains id then (.error (.refused (.entryExists id)), store)
      else (.ok (), store) := by
  unfold requireNew
  rw [get_bind_apply]
  cases store.contains id <;> rfl

theorem linkToParent_apply (entry : Entry) :
    linkToParent entry store =
      match store.missingParent? entry with
      | some parent => (.error (.refused (.parentMissing parent entry.id)), store)
      | none => (.ok (), { store with links := (store.addEntry entry).links }) := by
  unfold linkToParent MemoryStore.missingParent? MemoryStore.addEntry MemoryStore.linkOf
  cases entry.parent with
  | none => rfl
  | some parent =>
      simp only [get_bind_apply, Option.filter_some]
      cases store.contains parent <;> rfl

/-- Inserting is done at once or not at all. -/
theorem insert_apply (entry : Entry) :
    insert entry store =
      match store.insert entry with
      | .ok next => (.ok (), next)
      | .error error => (.error error, store) := by
  unfold insert MemoryStore.insert
  rw [bind_apply, requireNew_apply]
  cases store.contains entry.id with
  | true => rfl
  | false =>
      simp only [Bool.false_eq_true, if_false, bind_apply, linkToParent_apply]
      cases store.missingParent? entry with
      | some parent => rfl
      | none =>
          change (_, MemoryStore.addRow (MemoryStore.editEach _ _ _ _) entry) = _
          rw [MemoryStore.editEach_insert]
          rfl

theorem requireChildless_apply (id : EntryId) :
    requireChildless id store =
      if (store.childrenOf id).isEmpty then (.ok (), store)
      else (.error (.refused (.entryHasChildren id)), store) := by
  unfold requireChildless
  rw [get_bind_apply]
  cases store.childrenOf id <;> rfl

theorem unlinkFromParent_apply (entry : Entry) :
    unlinkFromParent entry store =
      (.ok (), { store with links := (store.dropEntry entry).links }) := by
  unfold unlinkFromParent MemoryStore.dropEntry MemoryStore.linkOf
  cases entry.parent with
  | none =>
      have kept : store.links.filter (fun link => none != some link) = store.links :=
        List.filter_eq_self.mpr fun link _ => rfl
      simp only [Option.map_none, kept]
      rfl
  | some parent =>
      have same : (fun link => some ⟨parent, entry.id⟩ != some link) =
          fun link : ParentLink => link != ⟨parent, entry.id⟩ := by
        funext link
        rw [Bool.eq_iff_iff, bne_iff_ne, bne_iff_ne, ne_comm, ne_eq, ne_eq, Option.some_inj]
      simp only [Option.map_some, same]
      rfl

theorem dropLinksBelow_eq {id : EntryId} (childless : store.childrenOf id = []) :
    store.dropLinksBelow id = store := by
  have kept : store.links.filter (·.parent != id) = store.links := by
    refine List.filter_eq_self.mpr fun link member => ?_
    have none_below := List.map_eq_nil_iff.mp childless
    simpa using List.filter_eq_nil_iff.mp none_below link member
  rw [MemoryStore.dropLinksBelow, kept]

theorem removeFound_apply {entry : Entry} (childless : store.childrenOf entry.id = []) :
    removeFound entry store = (.ok (), (store.dropEntry entry).unindexEntry entry) := by
  have dropped : (store.dropRow entry.id).dropLinksBelow entry.id = store.dropRow entry.id :=
    dropLinksBelow_eq _ childless
  change (unlinkFromParent entry >>= fun _ => modify _)
    ((store.dropRow entry.id).dropLinksBelow entry.id) = _
  rw [dropped, bind_apply, unlinkFromParent_apply]
  change (_, MemoryStore.editEach _ _ _ _) = _
  rw [MemoryStore.editEach_erase]
  rfl

/-- Removing is done at once or not at all. -/
theorem remove_apply (id : EntryId) :
    remove id store =
      match store.remove id with
      | .ok (removed, next) => (.ok removed, next)
      | .error error => (.error error, store) := by
  unfold remove MemoryStore.remove
  rw [bind_apply, requireChildless_apply]
  cases childless : store.childrenOf id with
  | cons child rest => rfl
  | nil =>
      simp only [List.isEmpty_nil, if_true, get_bind_apply]
      cases found : store.lookup id with
      | none => rfl
      | some entry =>
          obtain rfl : entry.id = id := by simpa using List.find?_some found
          simp only [bind_apply, removeFound_apply store childless]
          rfl

end Editing

/-! ## Runs of changes -/

namespace Change

theorem perform_insert (store : MemoryStore) (entry : Entry) :
    (insert entry).perform store =
      match store.insert entry with
      | .ok next => (.ok none, next)
      | .error error => (.error error, store) := by
  rw [perform, bind_apply, Editing.insert_apply]
  cases store.insert entry <;> rfl

theorem perform_remove (store : MemoryStore) (id : EntryId) :
    (remove id).perform store =
      match store.remove id with
      | .ok (removed, next) => (.ok removed, next)
      | .error error => (.error error, store) :=
  Editing.remove_apply store id

theorem refused_unchanged {store next : MemoryStore} {change : Change} {error : Error}
    (refused : change.perform store = (.error error, next)) : next = store := by
  cases change with
  | addIndex name => cases refused
  | insert entry =>
      rw [perform_insert] at refused
      cases inserted : store.insert entry <;> rw [inserted] at refused <;> cases refused
      rfl
  | remove id =>
      rw [perform_remove] at refused
      cases removed : store.remove id <;> rw [removed] at refused <;> cases refused
      rfl

theorem perform_reachable {store : MemoryStore} (reachable : MemoryStore.Reachable store)
    (change : Change) : MemoryStore.Reachable (change.perform store).2 := by
  cases change with
  | addIndex name => exact reachable.addIndex name
  | insert entry =>
      rw [perform_insert]
      cases inserted : store.insert entry with
      | error error => exact reachable
      | ok next => exact reachable.insert entry inserted
  | remove id =>
      rw [perform_remove]
      cases removed : store.remove id with
      | error error => exact reachable
      | ok answer => exact reachable.remove id answer.1 removed

end Change

namespace MemoryStore

variable {store : MemoryStore}

theorem Reachable.afterEach (reachable : Reachable store) (changes : List Change) :
    Reachable (store.afterEach changes) := by
  induction changes generalizing store with
  | nil => exact reachable
  | cons change rest ih => exact ih (change.perform_reachable reachable)

/-! ## Which attributes are indexed -/

theorem hasIndexOn_iff {name : String} :
    store.hasIndexOn name = true ↔ name ∈ store.indices.map (·.1) := by
  simp only [hasIndexOn, index?, List.lookup_isSome_iff, List.mem_map, beq_iff_eq,
    eq_comm (a := name)]

theorem hasIndexOn_addIndex {name other : String} :
    (store.addIndex name).hasIndexOn other = true ↔
      other = name ∨ store.hasIndexOn other = true := by
  simp only [hasIndexOn_iff, addIndex, List.map_cons, List.mem_cons, List.mem_map,
    List.mem_filter, bne_iff_ne]
  grind

theorem hasIndexOn_perform {name : String} (change : Change) :
    (change.perform store).2.hasIndexOn name = true ↔
      change = .addIndex name ∨ store.hasIndexOn name = true := by
  cases change with
  | addIndex other =>
      rw [Change.addIndex.injEq, eq_comm (a := other)]
      exact hasIndexOn_addIndex
  | insert entry =>
      rw [Change.perform_insert]
      cases inserted : store.insert entry with
      | error error => simp
      | ok next =>
          obtain ⟨-, -, rfl⟩ := insert_eq_ok_iff.mp inserted
          simp [hasIndexOn_iff, indexEntry, addEntry]
  | remove id =>
      rw [Change.perform_remove]
      cases removed : store.remove id with
      | error error => simp
      | ok answer =>
          obtain ⟨taken, next⟩ := answer
          obtain ⟨-, same⟩ | ⟨entry, -, -, -, same⟩ := remove_eq_ok_cases removed
          · simp [same]
          · simp [same, hasIndexOn_iff, unindexEntry, dropEntry]

theorem hasIndexOn_afterEach {name : String} (changes : List Change) :
    (store.afterEach changes).hasIndexOn name = true ↔
      .addIndex name ∈ changes ∨ store.hasIndexOn name = true := by
  induction changes generalizing store with
  | nil => simp [afterEach]
  | cons change rest ih =>
      rw [afterEach, ih, hasIndexOn_perform, List.mem_cons, eq_comm (a := change)]
      tauto

theorem hasIndexOn_withIndices {names : List String} {name : String} :
    (withIndices names).hasIndexOn name = true ↔ name ∈ names := by
  have each (store : MemoryStore) : (names.foldl addIndex store).hasIndexOn name = true ↔
      name ∈ names ∨ store.hasIndexOn name = true := by
    induction names generalizing store with
    | nil => simp
    | cons first rest ih => rw [List.foldl_cons, ih, hasIndexOn_addIndex, List.mem_cons]; tauto
  rw [withIndices, each]
  simp [hasIndexOn_iff, empty]

/-! ## Which entries are stored -/

def HoldsExactly (store : MemoryStore) (entries : List Entry) : Prop :=
  ∀ entry, entry ∈ store.entries ↔ entry ∈ entries

theorem entries_withIndices (names : List String) : (withIndices names).entries = [] := by
  have each (store : MemoryStore) : (names.foldl addIndex store).entries = store.entries := by
    induction names generalizing store with
    | nil => rfl
    | cons name rest ih => exact ih _
  exact each empty

theorem HoldsExactly.contains_iff {entries : List Entry} (same : store.HoldsExactly entries)
    {id : EntryId} : store.contains id = true ↔ ∃ entry ∈ entries, entry.id = id :=
  MemoryStore.contains_iff.trans (exists_congr fun entry => and_congr_left fun _ => same entry)

theorem HoldsExactly.perform_insert {entries : List Entry}
    (same : store.HoldsExactly entries) (entry : Entry) :
    ((Change.insert entry).perform store).2.HoldsExactly
      ((Change.insert entry).onEntries entries) := by
  have refused_iff : (entries.any (·.id == entry.id) ||
        entry.parent.any fun parent => entries.all (·.id != parent)) = true ↔
      store.contains entry.id = true ∨
        ∃ parent, entry.parent = some parent ∧ store.contains parent = false := by
    simp only [Bool.or_eq_true, List.any_eq_true, beq_iff_eq, Option.any_eq_true,
      List.all_eq_true, bne_iff_ne, same.contains_iff, ← Bool.not_eq_true, not_exists,
      not_and, ne_eq]
  rw [Change.perform_insert, Change.onEntries]
  cases inserted : store.insert entry with
  | error error =>
      rw [if_pos]
      · exact same
      · by_contra accepted
        rw [refused_iff, not_or, not_exists] at accepted
        have ok := insert_eq_ok_iff.mpr ⟨Bool.eq_false_iff.mpr accepted.1, fun parent above => ?_,
          rfl⟩
        · rw [inserted] at ok
          cases ok
        · simpa [above] using accepted.2 parent
  | ok next =>
      obtain ⟨fresh, stored, rfl⟩ := insert_eq_ok_iff.mp inserted
      rw [if_neg]
      · intro other
        rw [List.mem_cons, ← same]
        exact mem_addEntry_entries
      · rw [refused_iff]
        rintro (taken | ⟨parent, above, missing⟩)
        · simp [fresh] at taken
        · simp [stored parent above] at missing

theorem HoldsExactly.perform_remove {entries : List Entry} (wellFormed : store.WellFormed)
    (same : store.HoldsExactly entries) (id : EntryId) :
    ((Change.remove id).perform store).2.HoldsExactly
      ((Change.remove id).onEntries entries) := by
  have refused_iff : entries.any (·.parent == some id) = true ↔
      ∃ child, child ∈ store.childrenOf id := by
    simp only [List.any_eq_true, beq_iff_eq, wellFormed.mem_childrenOf, ← same _]
    constructor
    · rintro ⟨child, member, below⟩
      exact ⟨child.id, child, member, rfl, below⟩
    · rintro ⟨_, child, member, rfl, below⟩
      exact ⟨child, member, below⟩
  rw [Change.perform_remove, Change.onEntries, MemoryStore.remove]
  cases childless : store.childrenOf id with
  | cons child rest =>
      rw [if_pos (refused_iff.mpr ⟨child, by simp [childless]⟩)]
      exact same
  | nil =>
      have accepted : ¬ entries.any (·.parent == some id) = true := by
        rw [refused_iff, childless]
        simp
      rw [if_neg accepted]
      intro other
      cases found : store.lookup id with
      | none =>
          have absent : ∀ entry ∈ store.entries, entry.id ≠ id := by
            simpa [lookup] using found
          simp only [List.isEmpty_nil, if_true, List.mem_filter, bne_iff_ne, ← same other]
          exact ⟨fun member => ⟨member, absent other member⟩, And.left⟩
      | some entry =>
          obtain rfl := (wellFormed.lookup_eq_some_iff.mp found).2
          simp only [List.isEmpty_nil, if_true, List.mem_filter, bne_iff_ne, ← same other]
          exact mem_dropEntry_entries

theorem HoldsExactly.perform {entries : List Entry} (wellFormed : store.WellFormed)
    (same : store.HoldsExactly entries) (change : Change) :
    (change.perform store).2.HoldsExactly (change.onEntries entries) := by
  cases change with
  | addIndex name => exact same
  | insert entry => exact same.perform_insert entry
  | remove id => exact same.perform_remove wellFormed id

theorem lookup_afterEach {entries : List Entry} (reachable : Reachable store)
    (same : store.HoldsExactly entries) (changes : List Change) (id : EntryId) (entry : Entry) :
    (store.afterEach changes).lookup id = some entry ↔
      entry ∈ changes.foldl Change.onEntries entries ∧ entry.id = id := by
  induction changes generalizing store entries with
  | nil =>
      rw [afterEach, reachable.wellFormed.lookup_eq_some_iff, same entry]
      rfl
  | cons change rest ih =>
      exact ih (change.perform_reachable reachable) (same.perform reachable.wellFormed change)

/-! ## Agreement -/

/-- What scans, counts and the forest answer is what the stored entries say. -/
structure Consistent (store : MemoryStore) : Prop where
  indexed : ∀ name, store.hasIndexOn name = true → ∀ seek, ∃ pairs : List IndexPair,
    store.scan (.index name seek) = .ok (pairs.map IndexPair.toCandidate) ∧
      store.count (.index name seek) = .ok pairs.length ∧
      (pairs.Pairwise fun a b => a.value < b.value ∨ a.value = b.value ∧ a.id < b.id) ∧
      ∀ value id, ⟨value, id⟩ ∈ pairs ↔ seek.covers value = true ∧
        ∃ entry, store.lookup id = some entry ∧ value ∈ entry.values name
  present : ∀ name, ∃ ids : List EntryId,
    store.scan (.presence name) = .ok (ids.map .ofId) ∧
      store.count (.presence name) = .ok ids.length ∧
      ids.Pairwise (· < ·) ∧
      ∀ id, id ∈ ids ↔ ∃ entry, store.lookup id = some entry ∧ entry.holds name = true
  parents_stored : ∀ id parent, store.parentOf? id = some parent →
    store.contains parent = true
  acyclic : ∀ id parent, store.parentOf? id = some parent → ¬ store.Below id parent
  children : ∀ id, (store.childrenOf id).Pairwise (· < ·) ∧
    ∀ child, child ∈ store.childrenOf id ↔ store.parentOf? child = some id
  refused : ∀ (change : Change) (error : Error) (next : MemoryStore),
    change.perform store = (.error error, next) → next = store

namespace WellFormed

variable (wellFormed : store.WellFormed)

include wellFormed

theorem scan_index {name : String} (indexed : store.hasIndexOn name = true) (seek : Seek) :
    ∃ pairs : List IndexPair,
      store.scan (.index name seek) = .ok (pairs.map IndexPair.toCandidate) ∧
        store.count (.index name seek) = .ok pairs.length ∧
        (pairs.Pairwise fun a b => a.value < b.value ∨ a.value = b.value ∧ a.id < b.id) ∧
        ∀ value id, ⟨value, id⟩ ∈ pairs ↔ seek.covers value = true ∧
          ∃ entry, store.lookup id = some entry ∧ value ∈ entry.values name := by
  obtain ⟨index, found⟩ := Option.isSome_iff_exists.mp indexed
  have represents := wellFormed.index?_represents found
  have counted : index.scanCount seek = (index.scan seek).length := by
    unfold AttributeIndex.scanCount
    split
    · next all => rw [all, represents.count_eq, AttributeIndex.scan]
    · rfl
  refine ⟨index.scan seek, scan_of_index found seek, ?_, ?_, fun value id => ?_⟩
  · rw [count, requireIndex, found, ← counted]
    rfl
  · exact (represents.sorted.sublist (index.scan_sublist seek)).imp IndexPair.comesBefore_iff.mp
  · rw [represents.mem_scan, and_comm]
    simp only [wellFormed.lookup_eq_some_iff, and_assoc]
    rfl

theorem holders_ascending (name : String) : (store.holders name).Pairwise (· < ·) := by
  have sorted := wellFormed.existence.sorted.sublist
    (store.existence.scan_sublist (.equal name))
  refine List.pairwise_map.mpr ((List.Pairwise.and_mem.mp sorted).imp ?_)
  rintro a b ⟨a_mem, b_mem, before⟩
  have value_eq {pair : IndexPair} (member : pair ∈ store.existence.scan (.equal name)) :
      pair.value = name := by
    simpa [Seek.covers] using ((wellFormed.existence.mem_scan _ _).mp member).2
  rcases IndexPair.comesBefore_iff.mp before with below | ⟨-, below⟩
  · rw [value_eq a_mem, value_eq b_mem] at below
    exact absurd below (lt_irrefl _)
  · exact below

theorem consistent : store.Consistent where
  indexed name indexed seek := wellFormed.scan_index indexed seek
  present name := by
    refine ⟨store.holders name, rfl, rfl, wellFormed.holders_ascending name, fun id => ?_⟩
    simp only [wellFormed.mem_holders_iff, HoldsAny, wellFormed.lookup_eq_some_iff,
      Entry.mem_heldNames_iff, and_assoc]
  parents_stored id parent above := by
    obtain ⟨entry, member, -, named⟩ := wellFormed.parentOf?_eq_some_iff.mp above
    exact contains_iff.mpr (wellFormed.parent_stored entry member parent named)
  acyclic id parent above below := by
    obtain ⟨rank, ranks⟩ := wellFormed.ranked
    have falls := wellFormed.rank_lt ranks above
    have rises := below.rank_le wellFormed ranks
    omega
  children id :=
    ⟨wellFormed.childrenOf_ascending id, fun child => wellFormed.mem_childrenOf_iff⟩
  refused _ _ _ := Change.refused_unchanged

end WellFormed

/--
After any run of changes, accepted or refused, the attributes that were asked for
are indexed, the entries are those inserted and not removed since, and everything
kept beside them says the same.
-/
theorem changes_keep_consistent (names : List String) (changes : List Change) :
    (∀ name, ((withIndices names).afterEach changes).hasIndexOn name = true ↔
        name ∈ names ∨ .addIndex name ∈ changes) ∧
      (∀ id entry, ((withIndices names).afterEach changes).lookup id = some entry ↔
        entry ∈ changes.foldl Change.onEntries [] ∧ entry.id = id) ∧
      ((withIndices names).afterEach changes).Consistent := by
  have begins := Reachable.withIndices names
  have holds_none : (withIndices names).HoldsExactly [] := by
    rw [HoldsExactly, entries_withIndices]
    exact fun _ => Iff.rfl
  refine ⟨fun name => ?_, ?_, (begins.afterEach changes).wellFormed.consistent⟩
  · rw [hasIndexOn_afterEach, hasIndexOn_withIndices, or_comm]
  · exact lookup_afterEach begins holds_none changes

end MemoryStore

end DirectoryStore.Query
