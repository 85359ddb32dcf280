import DirectoryStore.Query.Evaluation
import DirectoryStore.Query.Search
import DirectoryStore.Proofs.Query.Blaming

/-!
# What a filter means

`Filter.Searchable` leaves out the filters that no search can be planned for,
and these are the ones that `check` refuses.  `Filter.truth` is the plain truth
value of a filter on an entry; evaluating a searchable filter answers it, or
fails with what a call failed with.
-/

namespace DirectoryStore.Query

namespace Filter

/-! ## Filters that can be searched -/

inductive Searchable : Filter → Prop where
  | presence (name : String) : Searchable (.presence name)
  | equality (name value : String) : Searchable (.equality name value)
  | approximate (name value : String) : Searchable (.approximate name value)
  | greaterOrEqual (name value : String) :
      Searchable (.greaterOrEqual name value)
  | lessOrEqual (name value : String) : Searchable (.lessOrEqual name value)
  | substring (pattern : SubstringPattern) : Searchable (.substring pattern)
  | within (scope : Scope) : Searchable (.within scope)
  | and {children : List (Estimated Filter)} (nonempty : children ≠ [])
      (each : ∀ child ∈ children, Searchable child.condition) :
      Searchable (.and children)
  | or {children : List Filter} (nonempty : children ≠ [])
      (each : ∀ child ∈ children, Searchable child) : Searchable (.or children)
  | not {child : Filter} (searchable : Searchable child) :
      Searchable (.not child)

theorem checkConjuncts_ok {children : List (Estimated Filter)}
    (each : ∀ child ∈ children, child.condition.check = .ok ()) :
    checkConjuncts children = .ok () := by
  induction children with
  | nil => rfl
  | cons child rest ih =>
      obtain ⟨condition, count⟩ := child
      have first : condition.check = .ok () := each ⟨condition, count⟩ (by simp)
      rw [checkConjuncts, first]
      exact ih fun other member => each other (List.mem_cons_of_mem _ member)

theorem checkAll_ok {children : List Filter}
    (each : ∀ child ∈ children, child.check = .ok ()) :
    checkAll children = .ok () := by
  induction children with
  | nil => rfl
  | cons child rest ih =>
      rw [checkAll, each child (by simp)]
      exact ih fun other member => each other (List.mem_cons_of_mem _ member)

theorem Searchable.check_ok {filter : Filter} (searchable : filter.Searchable) :
    filter.check = .ok () := by
  induction searchable with
  | @and children nonempty _ ih =>
      cases children with
      | nil => contradiction
      | cons child rest =>
          rw [check]
          · exact checkConjuncts_ok ih
          · simp
  | @or children nonempty _ ih =>
      cases children with
      | nil => contradiction
      | cons child rest =>
          rw [check]
          · exact checkAll_ok ih
          · simp
  | not _ ih => rwa [check]
  | _ => rfl

theorem checkConjuncts_each {children : List (Estimated Filter)}
    (accepted : checkConjuncts children = .ok ()) :
    ∀ child ∈ children, child.condition.check = .ok () := by
  induction children with
  | nil => simp
  | cons child rest ih =>
      obtain ⟨condition, count⟩ := child
      rw [checkConjuncts] at accepted
      cases first : condition.check with
      | error error => simp [first, bind, Except.bind] at accepted
      | ok _ =>
          rw [first] at accepted
          exact List.forall_mem_cons.mpr ⟨first, ih accepted⟩

theorem checkAll_each {children : List Filter} (accepted : checkAll children = .ok ()) :
    ∀ child ∈ children, child.check = .ok () := by
  induction children with
  | nil => simp
  | cons child rest ih =>
      rw [checkAll] at accepted
      cases first : child.check with
      | error error => simp [first, bind, Except.bind] at accepted
      | ok _ =>
          rw [first] at accepted
          exact List.forall_mem_cons.mpr ⟨first, ih accepted⟩

theorem Searchable.of_check : ∀ {filter : Filter}, filter.check = .ok () → filter.Searchable
  | .presence _, _ | .equality .., _ | .approximate .., _ | .greaterOrEqual .., _
  | .lessOrEqual .., _ | .substring _, _ | .within _, _ => by constructor
  | .extensible _, accepted | .assertion, accepted
  | .and [], accepted | .or [], accepted => by simp [check] at accepted
  | .and (first :: rest), accepted => by
      refine .and (by simp) fun child member => .of_check ?_
      exact checkConjuncts_each (by rwa [check] at accepted; simp) child member
  | .or (first :: rest), accepted => by
      refine .or (by simp) fun child member => .of_check ?_
      exact checkAll_each (by rwa [check] at accepted; simp) child member
  | .not child, accepted => .not (.of_check (by rwa [check] at accepted))
termination_by filter => sizeOf filter
decreasing_by
  · have := List.sizeOf_lt_of_mem member
    obtain ⟨condition, count⟩ := child
    simp only [Estimated.mk.sizeOf_spec, Filter.and.sizeOf_spec] at this ⊢
    omega
  · have := List.sizeOf_lt_of_mem member
    simp only [Filter.or.sizeOf_spec] at this ⊢
    omega
  · simp

/-! ## Truth values -/

mutual

/-- Whether an entry matches, when `inScope` says which entries a scope holds. -/
def truth (inScope : Scope → EntryId → Bool) (entry : Entry) : Filter → Bool
  | presence name => entry.holds name
  | equality name value | approximate name value =>
      (entry.values name).any (· == value)
  | greaterOrEqual name value => (entry.values name).any (value ≤ ·)
  | lessOrEqual name value => (entry.values name).any (· ≤ value)
  | substring pattern => (entry.values pattern.name).any pattern.accepts
  | extensible _ | assertion => false
  | within scope => inScope scope entry.id
  | and children => truthOfEach inScope entry children
  | or children => truthOfSome inScope entry children
  | not child => !truth inScope entry child

def truthOfEach (inScope : Scope → EntryId → Bool) (entry : Entry) :
    List (Estimated Filter) → Bool
  | [] => true
  | ⟨child, _⟩ :: rest =>
      truth inScope entry child && truthOfEach inScope entry rest

def truthOfSome (inScope : Scope → EntryId → Bool) (entry : Entry) :
    List Filter → Bool
  | [] => false
  | child :: rest =>
      truth inScope entry child || truthOfSome inScope entry rest

end

variable {inScope : Scope → EntryId → Bool} {entry : Entry}

theorem truthOfEach_eq_true_iff {children : List (Estimated Filter)} :
    truthOfEach inScope entry children = true ↔
      ∀ child ∈ children, child.condition.truth inScope entry = true := by
  induction children with
  | nil => simp [truthOfEach]
  | cons child rest ih => simp [truthOfEach, ih]

theorem truthOfSome_eq_true_iff {children : List Filter} :
    truthOfSome inScope entry children = true ↔
      ∃ child ∈ children, child.truth inScope entry = true := by
  induction children with
  | nil => simp [truthOfSome]
  | cons child rest ih => simp [truthOfSome, ih]

/-! ## Evaluation -/

variable {view : StoreView} {plan : FailurePlan StoreCall}

theorem allHold_blames {children : List (Estimated Filter)}
    (each : ∀ child ∈ children, Blames plan (child.condition.holdsFor view entry)
      (· = child.condition.truth view.inScope entry)) :
    Blames plan (allHold view children entry)
      (· = truthOfEach view.inScope entry children) := by
  induction children with
  | nil => exact .pure rfl
  | cons child rest ih =>
      obtain ⟨condition, count⟩ := child
      have ⟨here, later⟩ := List.forall_mem_cons.mp each
      rw [allHold, truthOfEach]
      refine Blames.bind here ?_
      rintro _ rfl
      cases condition.truth view.inScope entry with
      | true => exact ih later
      | false => exact .pure rfl

theorem anyHolds_blames {children : List Filter}
    (each : ∀ child ∈ children, Blames plan (child.holdsFor view entry)
      (· = child.truth view.inScope entry)) :
    Blames plan (anyHolds view children entry)
      (· = truthOfSome view.inScope entry children) := by
  induction children with
  | nil => exact .pure rfl
  | cons child rest ih =>
      have ⟨here, later⟩ := List.forall_mem_cons.mp each
      rw [anyHolds, truthOfSome]
      refine Blames.bind here ?_
      rintro _ rfl
      cases child.truth view.inScope entry with
      | true => exact .pure rfl
      | false => exact ih later

/-- Evaluating a filter answers its truth value, unless a call fails. -/
theorem Searchable.holdsFor_blames {filter : Filter} (searchable : filter.Searchable)
    (plan : FailurePlan StoreCall) (view : StoreView) (entry : Entry) :
    Blames plan (filter.holdsFor view entry) (· = filter.truth view.inScope entry) := by
  induction searchable with
  | within scope =>
      rw [holdsFor, truth]
      exact ask_blames plan _ _
  | and _ _ ih =>
      rw [holdsFor, truth]
      exact allHold_blames ih
  | or _ _ ih =>
      rw [holdsFor, truth]
      exact anyHolds_blames ih
  | not _ ih =>
      rw [holdsFor, truth]
      exact ih.not
  | _ =>
      rw [holdsFor, truth]
      exact .pure rfl

/-- The entry is stored and matches. -/
def Matches (view : StoreView) (filter : Filter) (id : EntryId) : Prop :=
  ∃ entry, view.lookup id = some entry ∧ filter.truth view.inScope entry = true

theorem Matches.stored {filter : Filter} {id : EntryId} (matched : filter.Matches view id) :
    (view.lookup id).isSome = true := by
  obtain ⟨entry, found, -⟩ := matched
  simp [found]

theorem Matches.iff_of_lookup {filter : Filter} {id : EntryId}
    (found : view.lookup id = some entry) :
    filter.Matches view id ↔ filter.truth view.inScope entry = true := by
  simp [Matches, found]

theorem matches_and_iff {children : List (Estimated Filter)}
    (nonempty : children ≠ []) {id : EntryId} :
    (and children).Matches view id ↔
      ∀ child ∈ children, child.condition.Matches view id := by
  cases found : view.lookup id with
  | none =>
      obtain ⟨child, member⟩ := List.exists_mem_of_ne_nil children nonempty
      simp only [Matches, found, reduceCtorEq, false_and, exists_false, false_iff]
      exact fun each => each child member
  | some entry =>
      simp only [Matches.iff_of_lookup found, truth, truthOfEach_eq_true_iff]

theorem matches_or_iff {children : List Filter} {id : EntryId} :
    (or children).Matches view id ↔ ∃ child ∈ children, child.Matches view id := by
  cases found : view.lookup id with
  | none => simp [Matches, found]
  | some entry =>
      simp only [Matches.iff_of_lookup found, truth, truthOfSome_eq_true_iff]

theorem matches_not_iff {child : Filter} {id : EntryId} :
    (not child).Matches view id ↔
      (view.lookup id).isSome = true ∧ ¬ child.Matches view id := by
  cases found : view.lookup id with
  | none => simp [Matches, found]
  | some entry => simp [Matches.iff_of_lookup found, truth]

theorem Searchable.evaluate_succeeds {filter : Filter}
    (searchable : filter.Searchable) (view : StoreView) (id : EntryId) :
    ∃ answer, Succeeds (filter.evaluate view id) answer ∧
      (answer = true ↔ filter.Matches view id) := by
  cases found : view.lookup id with
  | none =>
      refine ⟨false, (view.askEntry_succeeds id).bind ?_, by simp [Matches, found]⟩
      rw [found]
      exact .pure false
  | some entry =>
      refine ⟨filter.truth view.inScope entry,
        (view.askEntry_succeeds id).bind ?_, (Matches.iff_of_lookup found).symm⟩
      rw [found]
      exact (searchable.holdsFor_blames .never view entry).succeeds

end Filter

/-! ## Tests of candidates -/

namespace Test

def conditions : Test → List Filter
  | matchesAll conditions => conditions.map (·.condition)
  | fails condition => [condition]

/-- Whether an entry that is stored passes. -/
def truth (view : StoreView) (test : Test) (id : EntryId) : Bool :=
  match view.lookup id with
  | none => false
  | some entry =>
      match test with
      | matchesAll conditions => Filter.truthOfEach view.inScope entry conditions
      | fails condition => !condition.truth view.inScope entry

variable {view : StoreView} {id : EntryId}

theorem truth_matchesAll_iff {conditions : List (Estimated Filter)} :
    (matchesAll conditions).truth view id = true ↔ (Filter.and conditions).Matches view id := by
  cases found : view.lookup id with
  | none => simp [truth, Filter.Matches, found]
  | some entry => simp [truth, Filter.Matches.iff_of_lookup found, Filter.truth, found]

theorem truth_fails_iff {condition : Filter} :
    (fails condition).truth view id = true ↔ (Filter.not condition).Matches view id := by
  cases found : view.lookup id with
  | none => simp [truth, Filter.Matches, found]
  | some entry => simp [truth, Filter.Matches.iff_of_lookup found, Filter.truth, found]

theorem passes_blames {test : Test}
    (searchable : ∀ condition ∈ test.conditions, condition.Searchable)
    (plan : FailurePlan StoreCall) (id : EntryId) :
    Blames plan (test.passes view id) (· = test.truth view id) := by
  refine (ask_blames plan _ (view.lookup id)).bind ?_
  rintro _ rfl
  unfold truth
  cases view.lookup id with
  | none => exact .pure rfl
  | some entry =>
      cases test with
      | matchesAll conditions =>
          exact Filter.allHold_blames fun child member =>
            (searchable _ (List.mem_map_of_mem member)).holdsFor_blames plan view entry
      | fails condition =>
          have decided := searchable condition (List.mem_singleton_self condition)
          exact (decided.holdsFor_blames plan view entry).not

end Test

end DirectoryStore.Query
