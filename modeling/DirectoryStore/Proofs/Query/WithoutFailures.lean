import DirectoryStore.Query.Cursor

/-!
# Calls that do not fail

`Succeeds` and `Finds` say what an operation answers as long as no call on the
store fails, whatever number of calls was made before.  Both go through the
steps of an operation one after the other, so every operation gets one lemma
here and is not opened again.
-/

namespace DirectoryStore.Query

/-- The operation answers the value when no call fails. -/
def Finds {α : Type} (operation : FindM α) (value : α) : Prop :=
  ∀ callsMade, ∃ callsMade',
    operation ⟨FailurePlan.never, callsMade⟩ =
      (value, ⟨FailurePlan.never, callsMade'⟩)

/-- The operation succeeds with the value when no call fails. -/
def Succeeds {α : Type} (operation : QueryM α) (value : α) : Prop :=
  Finds operation.run (.ok value)

variable {α β : Type}

/-! ## Steps -/

theorem Finds.pure (value : α) : Finds (Pure.pure value) value :=
  fun callsMade => ⟨callsMade, rfl⟩

theorem Finds.bind {operation : FindM α} {next : α → FindM β} {value : α}
    {result : β} (first : Finds operation value)
    (second : Finds (next value) result) : Finds (operation >>= next) result := by
  intro callsMade
  obtain ⟨between, first_run⟩ := first callsMade
  obtain ⟨after, second_run⟩ := second between
  refine ⟨after, ?_⟩
  rw [← second_run]
  change (next (operation _).1 (operation _).2) = _
  rw [first_run]

theorem Finds.unique {operation : FindM α} {first second : α}
    (found : Finds operation first) (found' : Finds operation second) :
    first = second := by
  obtain ⟨_, run⟩ := found 0
  obtain ⟨_, run'⟩ := found' 0
  exact congrArg Prod.fst (run.symm.trans run')

theorem Succeeds.pure (value : α) : Succeeds (Pure.pure value) value :=
  Finds.pure _

theorem Succeeds.bind {operation : QueryM α} {next : α → QueryM β} {value : α}
    {result : β} (first : Succeeds operation value)
    (second : Succeeds (next value) result) :
    Succeeds (operation >>= next) result := by
  change Finds (operation.run >>= ExceptT.bindCont next) _
  exact Finds.bind first second

theorem Finds.map {operation : FindM α} {value : α} (change : α → β)
    (found : Finds operation value) :
    Finds (change <$> operation) (change value) := by
  intro callsMade
  obtain ⟨after, run⟩ := found callsMade
  refine ⟨after, ?_⟩
  show (change (operation _).1, (operation _).2) = _
  rw [run]

theorem Succeeds.lift {operation : FindM α} {value : α}
    (found : Finds operation value) :
    Succeeds (ExceptT.lift operation) value :=
  found.map Except.ok

theorem Succeeds.unique {operation : QueryM α} {first second : α}
    (succeeds : Succeeds operation first) (succeeds' : Succeeds operation second) :
    first = second :=
  Except.ok.inj (Finds.unique succeeds succeeds')

/-! ## Calls -/

theorem ask_succeeds (call : StoreCall) (value : α) :
    Succeeds (ask call (.ok value)) value :=
  fun callsMade => ⟨callsMade + 1, rfl⟩

namespace StoreView

variable (view : StoreView)

theorem askEntry_succeeds (id : EntryId) :
    Succeeds (view.askEntry id) (view.lookup id) :=
  ask_succeeds _ _

theorem readAll_finds (scan : Scan) (candidates : List Candidate) :
    Finds (readAll scan candidates) (candidates.map .ok) := by
  induction candidates with
  | nil => exact Finds.pure _
  | cons candidate rest ih =>
      exact Finds.bind (ask_succeeds (.readCandidate scan candidate.id) candidate)
        (ih.bind (Finds.pure _))

theorem openScan_succeeds {scan : Scan} {candidates : List Candidate}
    (scanned : view.scan scan = .ok candidates) :
    Succeeds (view.openScan scan) (candidates.map .ok) := by
  unfold openScan
  rw [scanned]
  exact (ask_succeeds _ candidates).bind (.lift (readAll_finds scan candidates))

end StoreView

/-! ## Tests of candidates -/

theorem sift_finds {passes : EntryId → QueryM Bool} {accepts : EntryId → Bool}
    {candidates : List Candidate}
    (decided : ∀ candidate ∈ candidates,
      Succeeds (passes candidate.id) (accepts candidate.id)) :
    Finds (sift passes (candidates.map .ok))
      ((candidates.filter (accepts ·.id)).map .ok) := by
  induction candidates with
  | nil => exact Finds.pure _
  | cons candidate rest ih =>
      have rest_found := ih fun other member =>
        decided other (List.mem_cons_of_mem _ member)
      refine Finds.bind (decided candidate (by simp)) ?_
      cases kept : accepts candidate.id with
      | true =>
          simp only [List.filter_cons, kept, if_true, List.map_cons]
          exact rest_found.bind (Finds.pure _)
      | false =>
          simp only [List.filter_cons, kept, Bool.false_eq_true, if_false]
          exact rest_found

end DirectoryStore.Query
