import DirectoryStore.Identifier

/-!
# Directory entries

An entry has a number, perhaps a parent, and attributes with any number of
values.  An attribute can be declared without a value; searches then see no
difference to an entry that lacks it.
-/

namespace DirectoryStore.Query

/-- Attributes are kept in the order of their names. -/
structure Entry where
  id : EntryId
  parent : Option EntryId
  attributes : List (String × List String)
  deriving DecidableEq, Repr

namespace Entry

def empty (id : EntryId) (parent : Option EntryId) : Entry := ⟨id, parent, []⟩

/-! ## Attributes -/

def appendValues (name : String) (values : List String) :
    List (String × List String) → List (String × List String)
  | [] => [(name, values)]
  | (other, held) :: rest =>
      if other = name then
        (other, held ++ values) :: rest
      else if name < other then
        (name, values) :: (other, held) :: rest
      else
        (other, held) :: appendValues name values rest

def declare (entry : Entry) (name : String) : Entry :=
  { entry with attributes := appendValues name [] entry.attributes }

def add (entry : Entry) (name value : String) : Entry :=
  { entry with attributes := appendValues name [value] entry.attributes }

/-- The values of an attribute in the order they were added, or none. -/
def values (entry : Entry) (name : String) : List String :=
  (entry.attributes.filter (·.1 == name)).flatMap (·.2)

def holds (entry : Entry) (name : String) : Bool :=
  !(entry.values name).isEmpty

def heldNames (entry : Entry) : List String :=
  (entry.attributes.filter (!·.2.isEmpty)).map (·.1)

/-! ## Laws -/

theorem mem_values_iff {entry : Entry} {name value : String} :
    value ∈ entry.values name ↔
      ∃ held, (name, held) ∈ entry.attributes ∧ value ∈ held := by
  simp only [values, List.mem_flatMap, List.mem_filter, beq_iff_eq]
  constructor
  · rintro ⟨⟨_, held⟩, ⟨member, rfl⟩, value_mem⟩
    exact ⟨held, member, value_mem⟩
  · rintro ⟨held, member, value_mem⟩
    exact ⟨(name, held), ⟨member, rfl⟩, value_mem⟩

theorem holds_iff {entry : Entry} {name : String} :
    entry.holds name = true ↔ ∃ value, value ∈ entry.values name := by
  simp [holds, List.eq_nil_iff_forall_not_mem]

theorem mem_heldNames_iff {entry : Entry} {name : String} :
    name ∈ entry.heldNames ↔ entry.holds name = true := by
  rw [holds_iff]
  simp only [heldNames, List.mem_map, List.mem_filter, mem_values_iff]
  constructor
  · rintro ⟨⟨_, held⟩, ⟨member, nonempty⟩, rfl⟩
    cases held with
    | nil => simp at nonempty
    | cons value rest => exact ⟨value, _, member, by simp⟩
  · rintro ⟨value, held, member, value_mem⟩
    refine ⟨(name, held), ⟨member, ?_⟩, rfl⟩
    cases held with
    | nil => simp at value_mem
    | cons value rest => simp

end Entry

end DirectoryStore.Query
