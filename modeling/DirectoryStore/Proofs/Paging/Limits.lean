import DirectoryStore.Paging.FreeSpace
import DirectoryStore.Proofs.Outcomes

/-!
# Limits of walks

The links of a file may lead in circles, and a walk along them then never ends.  So what
walks along a list is given a limit on its steps, and is out of steps behind it.  The limit
is nothing but that: whatever the blocks hold and whichever calls fail, what ends within
some steps ends in the same way with more.
-/

namespace DirectoryStore.Paging

/-- The outcome is not that of a walk that was given up. -/
def Ended {α : Type} (outcome : Except Error α) : Prop :=
  ∀ kind, outcome ≠ .error (.refused (.outOfSteps kind))

/-- Where the action ends within some steps, more of them make no difference. -/
def Settles {α : Type} (action : Nat → PageM α) : Prop :=
  ∀ ⦃fewer more : Nat⦄ ⦃pages pages' : PageFile⦄ ⦃outcome : Except Error α⦄,
    fewer ≤ more → Ended outcome → action fewer pages = (outcome, pages') →
      action more pages = (outcome, pages')

theorem ended_ok {α : Type} (value : α) : Ended (.ok value) := nofun

theorem Ended.of_error {α β : Type} {error : Error} (ended : Ended (.error error : Except Error α)) :
    Ended (.error error : Except Error β) :=
  fun kind same => ended kind (congrArg Except.error (Except.error.inj same))

namespace Settles

variable {α β : Type}

theorem unlimited (action : PageM α) : Settles fun _ => action :=
  fun _ _ _ _ _ _ _ ran => ran

theorem bind {action : Nat → PageM α} {following : Nat → α → PageM β}
    (settles : Settles action) (rest : ∀ value, Settles (following · value)) :
    Settles fun limit => action limit >>= following limit := by
  intro fewer more pages pages' outcome le ended ran
  dsimp only at ran ⊢
  rw [bind_apply] at ran ⊢
  rcases begun : action fewer pages with ⟨error | value, between⟩ <;> rw [begun] at ran
  · obtain ⟨rfl, rfl⟩ := Prod.mk.inj ran
    rw [settles le ended.of_error begun]
  · rw [settles le (ended_ok value) begun]
    exact rest value le ended ran

theorem ite {condition : Prop} [Decidable condition] {first second : Nat → PageM α}
    (settles : Settles first) (settles' : Settles second) :
    Settles fun limit => if condition then first limit else second limit := by
  by_cases holds : condition
  · simpa only [holds, if_true] using settles
  · simpa only [holds, if_false] using settles'

end Settles

/-! ## Walks -/

namespace PageFile

variable {α : Type}

theorem searchFrom_settles (visit : BlockId → PageM (Option α)) (cursor : Cursor) :
    Settles fun limit => searchFrom visit limit cursor := by
  intro fewer more pages pages' outcome le ended ran
  induction fewer generalizing more cursor pages with
  | zero => exact absurd (congrArg Prod.fst ran).symm (ended cursor.kind)
  | succ fewer ih =>
      obtain ⟨more, rfl⟩ := Nat.exists_eq_add_one.mpr (Nat.zero_lt_of_lt le)
      simp only [searchFrom, bind_apply] at ran ⊢
      rcases moved : cursor.advance pages with ⟨error | ⟨_ | block, onward⟩, advanced⟩ <;>
        rw [moved] at ran
      · exact ran
      · exact ran
      · simp only [bind_apply] at ran ⊢
        rcases answered : visit block advanced with ⟨error | _ | answer, visited⟩ <;>
          rw [answered] at ran
        · exact ran
        · exact ih onward (Nat.le_of_succ_le_succ le) ran
        · exact ran

theorem collectFrom_settles (visit : BlockId → PageM (List α)) (cursor : Cursor)
    (collected : List α) : Settles fun limit => collectFrom visit limit cursor collected := by
  intro fewer more pages pages' outcome le ended ran
  induction fewer generalizing more cursor pages collected with
  | zero => exact absurd (congrArg Prod.fst ran).symm (ended cursor.kind)
  | succ fewer ih =>
      obtain ⟨more, rfl⟩ := Nat.exists_eq_add_one.mpr (Nat.zero_lt_of_lt le)
      simp only [collectFrom, bind_apply] at ran ⊢
      rcases moved : cursor.advance pages with ⟨error | ⟨_ | block, onward⟩, advanced⟩ <;>
        rw [moved] at ran
      · exact ran
      · exact ran
      · simp only [bind_apply] at ran ⊢
        rcases answered : visit block advanced with ⟨error | found, visited⟩ <;>
          rw [answered] at ran
        · exact ran
        · exact ih onward (collected ++ found) (Nat.le_of_succ_le_succ le) ran

/--
The steps a walk is given show in nothing but its being out of them: with more of them each
operation that walks along a list ends in the same way and leaves the same file.
-/
theorem walks_settle :
    (∀ kind, Settles (list kind ·)) ∧ (∀ kind, Settles (count kind ·)) ∧
      (∀ size, Settles (FreeSpace.get size ·)) ∧
      (∀ location size, Settles (FreeSpace.put location size ·)) ∧
      Settles (FreeSpace.slots ·) := by
  have lists (kind : PageKind) : Settles (list kind ·) :=
    collectFrom_settles _ (.start kind) []
  refine ⟨lists, fun kind => .bind (lists kind) fun _ => .unlimited _, fun size =>
    searchFrom_settles _ (.start .freeList), fun location size => ?_,
    collectFrom_settles _ (.start .freeList) []⟩
  have searched (slot : FreeSlot) :
      Settles fun limit => search .freeList (FreeSpace.giveTo slot) limit :=
    searchFrom_settles _ (.start .freeList)
  unfold FreeSpace.put
  refine .ite (.unlimited _) (.bind (.unlimited _) fun _ => .bind (searched _) fun found => ?_)
  exact .unlimited _

end PageFile

end DirectoryStore.Paging
