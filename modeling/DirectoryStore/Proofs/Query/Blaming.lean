import DirectoryStore.Proofs.Outcomes
import DirectoryStore.Proofs.Query.WithoutFailures

/-!
# Calls that may fail

`Blames` says of an operation that it fails with nothing but what the plan of
failures makes a call on the store fail with, and that its answer has a property
otherwise.  What is shown so for every plan holds in particular of the plan
under which no call fails, and there the operation succeeds.
-/

namespace DirectoryStore.Query

/-! ## Failures that a plan makes -/

def CausedBy (plan : FailurePlan StoreCall) (error : Error) : Prop :=
  ∃ callNumber call fault, plan callNumber call = some fault ∧ error = .io fault

theorem not_causedBy_never (error : Error) : ¬ CausedBy .never error := by
  rintro ⟨_, _, _, planned, -⟩
  cases planned

def Collects {α : Type} (plan : FailurePlan StoreCall) (operation : FindM α)
    (holds : α → Prop) : Prop :=
  ∀ callsMade, ∃ value callsMade',
    operation ⟨plan, callsMade⟩ = (value, ⟨plan, callsMade'⟩) ∧ holds value

/-- What an operation ends with: an answer with the property, or a failure of the plan. -/
def EndsAs {α : Type} (plan : FailurePlan StoreCall) (holds : α → Prop) :
    Except Error α → Prop
  | .ok value => holds value
  | .error error => CausedBy plan error

/-- Under the plan, the operation answers so, or it blames a call that the plan made fail. -/
def Blames {α : Type} (plan : FailurePlan StoreCall) (operation : QueryM α)
    (holds : α → Prop) : Prop :=
  Collects plan operation.run (EndsAs plan holds)

variable {α β : Type} {plan : FailurePlan StoreCall}

namespace Collects

variable {operation : FindM α} {holds : α → Prop}

theorem pure {value : α} (held : holds value) : Collects plan (Pure.pure value) holds :=
  fun callsMade => ⟨value, callsMade, rfl, held⟩

theorem bind {next : α → FindM β} {result : β → Prop} (first : Collects plan operation holds)
    (rest : ∀ value, holds value → Collects plan (next value) result) :
    Collects plan (operation >>= next) result := by
  intro callsMade
  obtain ⟨value, between, ran, held⟩ := first callsMade
  obtain ⟨value', after, ran', held'⟩ := rest value held between
  refine ⟨value', after, ?_, held'⟩
  rw [stateM_bind_apply, ran, ran']

end Collects

namespace Blames

variable {operation : QueryM α} {holds : α → Prop}

theorem pure {value : α} (held : holds value) : Blames plan (Pure.pure value) holds :=
  Collects.pure held

theorem bind {next : α → QueryM β} {result : β → Prop} (first : Blames plan operation holds)
    (rest : ∀ value, holds value → Blames plan (next value) result) :
    Blames plan (operation >>= next) result := by
  change Collects plan (operation.run >>= ExceptT.bindCont next) _
  refine Collects.bind first ?_
  rintro (error | value) ended
  · exact Collects.pure ended
  · exact rest value ended

theorem lift {steps : FindM α} (collects : Collects plan steps holds) :
    Blames plan (ExceptT.lift steps) holds := by
  intro callsMade
  obtain ⟨value, after, ran, held⟩ := collects callsMade
  refine ⟨.ok value, after, ?_, held⟩
  change (Except.ok (steps _).1, (steps _).2) = _
  rw [ran]

theorem answers (blames : Blames .never operation holds) (callsMade : Nat) :
    ∃ value callsMade',
      operation ⟨.never, callsMade⟩ = (.ok value, ⟨.never, callsMade'⟩) ∧ holds value := by
  obtain ⟨error | value, after, ran, held⟩ := blames callsMade
  · exact absurd held (not_causedBy_never error)
  · exact ⟨value, after, ran, held⟩

theorem succeeds {value : α} (blames : Blames .never operation (· = value)) :
    Succeeds operation value := by
  intro callsMade
  obtain ⟨_, after, ran, rfl⟩ := blames.answers callsMade
  exact ⟨after, ran⟩

theorem not {answering : QueryM Bool} {answer : Bool}
    (blames : Blames plan answering (· = answer)) :
    Blames plan (do return !(← answering)) (· = !answer) :=
  blames.bind fun _ same => .pure (congrArg _ same)

end Blames

theorem ask_blames (plan : FailurePlan StoreCall) (call : StoreCall) (value : α) :
    Blames plan (ask call (.ok value)) (· = value) := by
  intro callsMade
  cases planned : plan callsMade call with
  | none =>
      refine ⟨.ok value, callsMade + 1, ?_, rfl⟩
      simp [ExceptT.run, ask, Injection.next, planned]
  | some fault =>
      refine ⟨.error (.io fault), callsMade + 1, ?_, callsMade, call, fault, planned, rfl⟩
      simp [ExceptT.run, ask, Injection.next, planned]

end DirectoryStore.Query
