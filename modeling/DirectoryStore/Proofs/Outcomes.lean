import DirectoryStore.Error

/-!
# Outcomes of operations

An operation keeps what it did before it failed, so a statement about it speaks of
the state afterwards in both cases.  `Leads` gives it two postconditions, one for
each outcome.
-/

namespace DirectoryStore

theorem bind_apply {σ α β : Type} (first : ExceptT Error (StateM σ) α)
    (following : α → ExceptT Error (StateM σ) β) (state : σ) :
    (first >>= following) state =
      match first state with
      | (.ok value, state') => following value state'
      | (.error error, state') => (.error error, state') := by
  simp only [bind, ExceptT.bind, ExceptT.mk, StateT.bind, ExceptT.bindCont]
  rcases first state with ⟨outcome, state'⟩
  cases outcome <;> rfl

theorem ok_of_bind {σ α β : Type} {first : ExceptT Error (StateM σ) α}
    {following : α → ExceptT Error (StateM σ) β} {state state' : σ} {result : β}
    (ran : (first >>= following) state = (.ok result, state')) :
    ∃ value between, first state = (.ok value, between) ∧
      following value between = (.ok result, state') := by
  rw [bind_apply] at ran
  rcases begun : first state with ⟨error | value, between⟩ <;> rw [begun] at ran
  · cases congrArg Prod.fst ran
  · exact ⟨value, between, rfl, ran⟩

theorem get_bind_apply {σ β : Type} (following : σ → ExceptT Error (StateM σ) β) (state : σ) :
    (get >>= following) state = following state state :=
  rfl

section

variable {σ α β : Type}

theorem stateM_bind_apply (first : StateM σ α) (following : α → StateM σ β) (state : σ) :
    (first >>= following) state = following (first state).1 (first state).2 :=
  rfl

theorem stateM_pure_apply (value : α) (state : σ) :
    (pure value : StateM σ α) state = (value, state) :=
  rfl

theorem stateM_get_apply (state : σ) : (get : StateM σ σ) state = (state, state) :=
  rfl

end

/-- Running the action ends in one of these ways. -/
def Leads {σ α : Type} (action : ExceptT Error (StateM σ) α) (state : σ)
    (done : α → σ → Prop) (failed : Error → σ → Prop) : Prop :=
  match action state with
  | (.ok value, state') => done value state'
  | (.error error, state') => failed error state'

namespace Leads

variable {σ α β : Type} {state : σ} {failed : Error → σ → Prop}

theorem pure {value : α} {done : α → σ → Prop} (holds : done value state) :
    Leads (pure value) state done failed :=
  holds

theorem throw {error : Error} {done : α → σ → Prop} (holds : failed error state) :
    Leads (throw error) state done failed :=
  holds

theorem bind {first : ExceptT Error (StateM σ) α}
    {following : α → ExceptT Error (StateM σ) β} {between : α → σ → Prop}
    {done : β → σ → Prop} (begins : Leads first state between failed)
    (rest : ∀ value state', between value state' →
      Leads (following value) state' done failed) :
    Leads (first >>= following) state done failed := by
  unfold Leads at begins ⊢
  rw [bind_apply]
  rcases ran : first state with ⟨error | value, state'⟩ <;> rw [ran] at begins
  · exact begins
  · exact rest value state' begins

theorem get_bind {following : σ → ExceptT Error (StateM σ) β} {done : β → σ → Prop}
    (rest : Leads (following state) state done failed) :
    Leads (get >>= following) state done failed :=
  rest

theorem modify_bind {change : σ → σ} {following : PUnit → ExceptT Error (StateM σ) β}
    {done : β → σ → Prop} (rest : Leads (following ⟨⟩) (change state) done failed) :
    Leads (modify change >>= following) state done failed :=
  rest

theorem ofExcept_bind {value : α} {following : α → ExceptT Error (StateM σ) β}
    {done : β → σ → Prop} (rest : Leads (following value) state done failed) :
    Leads (MonadExcept.ofExcept (Except.ok value : Except Error α) >>= following) state done
      failed :=
  rest

theorem throw_bind {error : Error} {following : α → ExceptT Error (StateM σ) β}
    {done : β → σ → Prop} (holds : failed error state) :
    Leads (MonadExcept.throw error >>= following) state done failed :=
  holds

theorem ran_bind {first : ExceptT Error (StateM σ) α}
    {following : α → ExceptT Error (StateM σ) β} {done : β → σ → Prop} {value : α} {state' : σ}
    (ran : first state = (.ok value, state'))
    (rest : Leads (following value) state' done failed) :
    Leads (first >>= following) state done failed := by
  unfold Leads at rest ⊢
  rwa [bind_apply, ran]

theorem failed_bind {first : ExceptT Error (StateM σ) α}
    {following : α → ExceptT Error (StateM σ) β} {done : β → σ → Prop} {error : Error}
    {state' : σ} (ran : first state = (.error error, state')) (holds : failed error state') :
    Leads (first >>= following) state done failed := by
  unfold Leads
  rwa [bind_apply, ran]

theorem branch {condition : Prop} [Decidable condition]
    {first second : ExceptT Error (StateM σ) α}
    {following : α → ExceptT Error (StateM σ) β} {done : β → σ → Prop}
    (leads : Leads ((if condition then first else second) >>= following) state done failed) :
    Leads (if condition then first >>= following else second >>= following) state done
      failed := by
  split <;> rename_i holds <;> simpa only [holds, if_true, if_false] using leads

theorem mono {action : ExceptT Error (StateM σ) α} {done done' : α → σ → Prop}
    {failed' : Error → σ → Prop} (leads : Leads action state done failed)
    (done_imp : ∀ value state', done value state' → done' value state')
    (failed_imp : ∀ error state', failed error state' → failed' error state') :
    Leads action state done' failed' := by
  unfold Leads at leads ⊢
  rcases ran : action state with ⟨error | value, state'⟩ <;> rw [ran] at leads
  · exact failed_imp error state' leads
  · exact done_imp value state' leads

theorem imp {action : ExceptT Error (StateM σ) α} {done done' : α → σ → Prop}
    (leads : Leads action state done failed)
    (done_imp : ∀ value state', done value state' → done' value state') :
    Leads action state done' failed :=
  leads.mono done_imp fun _ _ ended => ended

theorem imp_failed {action : ExceptT Error (StateM σ) α} {done : α → σ → Prop}
    {failed' : Error → σ → Prop} (leads : Leads action state done failed)
    (failed_imp : ∀ error state', failed error state' → failed' error state') :
    Leads action state done failed' :=
  leads.mono (fun _ _ ended => ended) failed_imp

theorem both {action : ExceptT Error (StateM σ) α} {done done' : α → σ → Prop}
    {failed' : Error → σ → Prop} (first : Leads action state done failed)
    (second : Leads action state done' failed') :
    Leads action state (fun value state' => done value state' ∧ done' value state')
      (fun error state' => failed error state' ∧ failed' error state') := by
  unfold Leads at first second ⊢
  rcases ran : action state with ⟨error | value, state'⟩ <;> rw [ran] at first second
  · exact ⟨first, second⟩
  · exact ⟨first, second⟩

theorem succeeds {action : ExceptT Error (StateM σ) α} {done : α → σ → Prop}
    (leads : Leads action state done fun _ _ => False) :
    ∃ value state', action state = (.ok value, state') ∧ done value state' := by
  unfold Leads at leads
  rcases ran : action state with ⟨error | value, state'⟩ <;> rw [ran] at leads
  · exact leads.elim
  · exact ⟨value, state', rfl, leads⟩

theorem of_forall {action : ExceptT Error (StateM σ) α} {done : α → σ → Prop}
    (done_all : ∀ value state', done value state')
    (failed_all : ∀ error state', failed error state') : Leads action state done failed := by
  unfold Leads
  split
  · exact done_all _ _
  · exact failed_all _ _

theorem of_error {action : ExceptT Error (StateM σ) α} {done : α → σ → Prop}
    (leads : Leads action state done failed) {error : Error} {state' : σ}
    (ran : action state = (.error error, state')) : failed error state' := by
  unfold Leads at leads
  rwa [ran] at leads

theorem of_ok {action : ExceptT Error (StateM σ) α} {done : α → σ → Prop}
    (leads : Leads action state done failed) {value : α} {state' : σ}
    (ran : action state = (.ok value, state')) : done value state' := by
  unfold Leads at leads
  rwa [ran] at leads

theorem of_run {action : ExceptT Error (StateM σ) α} {holds : σ → Prop}
    (leads : Leads action state (fun _ => holds) fun _ => holds)
    {outcome : Except Error α} {state' : σ} (ran : action state = (outcome, state')) :
    holds state' := by
  cases outcome with
  | error error => exact leads.of_error ran
  | ok value => exact leads.of_ok ran

end Leads

/-! ## What stays true of the state -/

/-- What holds of the state before the action holds afterwards, however the action ends. -/
def Keeps {σ α : Type} (holds : σ → Prop) (action : ExceptT Error (StateM σ) α) : Prop :=
  ∀ state, holds state → holds (action state).2

namespace Keeps

variable {σ α β : Type} {holds : σ → Prop}

theorem of_leads {action : ExceptT Error (StateM σ) α}
    (leads : ∀ state, holds state → Leads action state (fun _ => holds) fun _ => holds) :
    Keeps holds action :=
  fun state held => (leads state held).of_run rfl

theorem leads {action : ExceptT Error (StateM σ) α} (keeps : Keeps holds action) {state : σ}
    (held : holds state) : Leads action state (fun _ => holds) fun _ => holds := by
  have kept := keeps state held
  unfold Leads
  rcases ran : action state with ⟨error | value, state'⟩ <;> rwa [ran] at kept

theorem pure (value : α) : Keeps holds (Pure.pure value) :=
  fun _ => id

theorem throw (error : Error) :
    Keeps holds (MonadExcept.throw error : ExceptT Error (StateM σ) α) :=
  fun _ => id

theorem ofExcept (outcome : Except Error α) :
    Keeps holds (MonadExcept.ofExcept outcome : ExceptT Error (StateM σ) α) := by
  cases outcome <;> exact fun _ => id

theorem bind {first : ExceptT Error (StateM σ) α}
    {following : α → ExceptT Error (StateM σ) β} (begins : Keeps holds first)
    (rest : ∀ value, Keeps holds (following value)) : Keeps holds (first >>= following) :=
  of_leads fun _ held => Leads.bind (begins.leads held) fun value _ held' =>
    (rest value).leads held'

theorem get_bind {following : σ → ExceptT Error (StateM σ) β}
    (rest : ∀ state, Keeps holds (following state)) : Keeps holds (get >>= following) :=
  fun state => rest state state

theorem modify {change : σ → σ} (stays : ∀ state, holds state → holds (change state)) :
    Keeps holds (modify change : ExceptT Error (StateM σ) PUnit) :=
  stays

theorem when {condition : Prop} [Decidable condition] {step : ExceptT Error (StateM σ) PUnit}
    (taken : Keeps holds step) : Keeps holds (if condition then step else Pure.pure ⟨⟩) := by
  split
  · exact taken
  · exact .pure _

theorem when_bind {condition : Prop} [Decidable condition]
    {step : ExceptT Error (StateM σ) PUnit} {following : PUnit → ExceptT Error (StateM σ) β}
    (taken : Keeps holds step) (rest : Keeps holds (following ⟨⟩)) :
    Keeps holds (if condition then step >>= following else following ⟨⟩) := by
  split
  · exact taken.bind fun _ => rest
  · exact rest

theorem branch {condition : Prop} [Decidable condition]
    {first second : ExceptT Error (StateM σ) α}
    {following : α → ExceptT Error (StateM σ) β} (begins : Keeps holds first)
    (begins' : Keeps holds second) (rest : ∀ value, Keeps holds (following value)) :
    Keeps holds (if condition then first >>= following else second >>= following) := by
  split
  · exact begins.bind rest
  · exact begins'.bind rest

end Keeps

end DirectoryStore
