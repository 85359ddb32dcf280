import DirectoryStore.Query.Candidate

/-!
# Attribute indices

An index holds pairs of a value and an entry, each once, in the order of the
values and of the entries with one value.  Every seek covers neighbouring pairs,
so a scan skips up to the first of them and stops after the last.
-/

namespace DirectoryStore.Query

/-- Puts an element before the first one that does not come before it. -/
def insertSorted {α : Type} (comesBefore : α → α → Bool) (element : α) :
    List α → List α
  | [] => [element]
  | other :: rest =>
      if comesBefore other element then
        other :: insertSorted comesBefore element rest
      else
        element :: other :: rest

theorem mem_insertSorted {α : Type} (comesBefore : α → α → Bool)
    {element other : α} {list : List α} :
    other ∈ insertSorted comesBefore element list ↔
      other = element ∨ other ∈ list := by
  induction list with
  | nil => simp [insertSorted]
  | cons head rest ih =>
      simp only [insertSorted]
      split
      · simp only [List.mem_cons, ih]
        constructor <;> rintro (h | h | h) <;> simp [h]
      · simp

theorem length_insertSorted {α : Type} (comesBefore : α → α → Bool)
    (element : α) (list : List α) :
    (insertSorted comesBefore element list).length = list.length + 1 := by
  induction list with
  | nil => rfl
  | cons head rest ih =>
      simp only [insertSorted]
      split
      · simp [ih]
      · rfl

/-! ## Pairs -/

structure IndexPair where
  value : String
  id : EntryId
  deriving DecidableEq, Repr

namespace IndexPair

def comesBefore (a b : IndexPair) : Bool :=
  a.value < b.value || (a.value == b.value && a.id < b.id)

def toCandidate (pair : IndexPair) : Candidate := ⟨pair.id, some pair.value⟩

end IndexPair

/-! ## Indices -/

structure AttributeIndex where
  pairs : List IndexPair
  count : Nat
  deriving DecidableEq, Repr

namespace AttributeIndex

def empty : AttributeIndex := ⟨[], 0⟩

def insert (index : AttributeIndex) (pair : IndexPair) : AttributeIndex :=
  if pair ∈ index.pairs then
    index
  else
    ⟨insertSorted IndexPair.comesBefore pair index.pairs, index.count + 1⟩

def erase (index : AttributeIndex) (pair : IndexPair) : AttributeIndex :=
  if pair ∈ index.pairs then
    ⟨index.pairs.erase pair, index.count - 1⟩
  else
    index

def insertAll (index : AttributeIndex) (values : List String) (id : EntryId) :
    AttributeIndex :=
  values.foldl (fun index value => index.insert ⟨value, id⟩) index

def eraseAll (index : AttributeIndex) (values : List String) (id : EntryId) :
    AttributeIndex :=
  values.foldl (fun index value => index.erase ⟨value, id⟩) index

def scan (index : AttributeIndex) : Seek → List IndexPair
  | .equal value =>
      (index.pairs.dropWhile (·.value < value)).takeWhile (·.value ≤ value)
  | .atLeast value => index.pairs.dropWhile (·.value < value)
  | .atMost value => index.pairs.takeWhile (·.value ≤ value)
  | .startingWith start =>
      (index.pairs.dropWhile (·.value < start)).takeWhile
        (startsWith start ·.value)
  | .all => index.pairs

/-- The number of pairs that a seek covers; for all of them it is known. -/
def scanCount (index : AttributeIndex) (seek : Seek) : Nat :=
  if seek = .all then index.count else (index.scan seek).length

end AttributeIndex

end DirectoryStore.Query
