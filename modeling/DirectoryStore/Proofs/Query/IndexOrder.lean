import Mathlib.Data.String.Basic
import DirectoryStore.Query.AttributeIndex

/-!
# The order of an index

The pairs of an index stand in strictly ascending order of value and entry.
Every seek covers a run of neighbouring values, so on ordered pairs a scan that
skips to the first covered pair and stops after the last one names exactly the
covered pairs, each once.

`AttributeIndex.Represents` ties an index to the facts it stands for.  Inserting
and erasing change the facts by exactly the pairs they are given.
-/

namespace DirectoryStore.Query

/-! ## Sorted lists -/

theorem pairwise_insertSorted {α : Type} {comesBefore : α → α → Bool}
    (trans : ∀ a b c, comesBefore a b = true → comesBefore b c = true →
      comesBefore a c = true)
    {element : α} {list : List α}
    (sorted : list.Pairwise (comesBefore · · = true))
    (comparable : ∀ other ∈ list,
      comesBefore other element = true ∨ comesBefore element other = true) :
    (insertSorted comesBefore element list).Pairwise
      (comesBefore · · = true) := by
  induction list with
  | nil => simp [insertSorted]
  | cons head rest ih =>
      obtain ⟨head_before, rest_sorted⟩ := List.pairwise_cons.mp sorted
      simp only [insertSorted]
      split
      · next head_first =>
          have rest_comparable := fun other member =>
            comparable other (List.mem_cons_of_mem _ member)
          refine List.pairwise_cons.mpr ⟨?_, ih rest_sorted rest_comparable⟩
          intro other member
          rcases (mem_insertSorted comesBefore).mp member with rfl | member
          · exact head_first
          · exact head_before other member
      · next not_first =>
          have element_first : comesBefore element head = true :=
            (comparable head (by simp)).resolve_left not_first
          refine List.pairwise_cons.mpr ⟨?_, sorted⟩
          intro other member
          rcases List.mem_cons.mp member with rfl | member
          · exact element_first
          · exact trans _ _ _ element_first (head_before other member)

/-- Skipping to a bound that only later elements satisfy is the same as filtering. -/
theorem mem_dropWhile_iff {α : Type} {skip : α → Bool} {list : List α}
    (upward : list.Pairwise fun a b => skip a = false → skip b = false)
    {element : α} :
    element ∈ list.dropWhile skip ↔ element ∈ list ∧ skip element = false := by
  induction list with
  | nil => simp
  | cons head rest ih =>
      obtain ⟨head_upward, rest_upward⟩ := List.pairwise_cons.mp upward
      cases skipped : skip head with
      | true =>
          rw [List.dropWhile_cons_of_pos skipped, ih rest_upward]
          constructor
          · rintro ⟨member, kept⟩
            exact ⟨List.mem_cons_of_mem _ member, kept⟩
          · rintro ⟨member, kept⟩
            rcases List.mem_cons.mp member with rfl | member
            · simp [skipped] at kept
            · exact ⟨member, kept⟩
      | false =>
          rw [List.dropWhile_cons_of_neg (by simp [skipped])]
          constructor
          · intro member
            refine ⟨member, ?_⟩
            rcases List.mem_cons.mp member with rfl | member
            · exact skipped
            · exact head_upward element member skipped
          · exact fun ⟨member, _⟩ => member

theorem mem_takeWhile_iff {α : Type} {keep : α → Bool} {list : List α}
    (downward : list.Pairwise fun a b => keep b = true → keep a = true)
    {element : α} :
    element ∈ list.takeWhile keep ↔ element ∈ list ∧ keep element = true := by
  induction list with
  | nil => simp
  | cons head rest ih =>
      obtain ⟨head_downward, rest_downward⟩ := List.pairwise_cons.mp downward
      cases kept : keep head with
      | true =>
          rw [List.takeWhile_cons_of_pos kept, List.mem_cons, ih rest_downward,
            List.mem_cons]
          constructor
          · rintro (rfl | ⟨member, holds⟩)
            · exact ⟨.inl rfl, kept⟩
            · exact ⟨.inr member, holds⟩
          · rintro ⟨rfl | member, holds⟩
            · exact .inl rfl
            · exact .inr ⟨member, holds⟩
      | false =>
          rw [List.takeWhile_cons_of_neg (by simp [kept])]
          constructor
          · simp
          · rintro ⟨member, holds⟩
            rcases List.mem_cons.mp member with rfl | member
            · simp [kept] at holds
            · simp [head_downward element member holds] at kept

/-! ## Values with a common start -/

theorem not_lex_of_prefix {start value : List Char} (shared : start <+: value) :
    ¬ List.Lex (· < ·) value start := by
  induction start generalizing value with
  | nil => exact List.not_lex_nil
  | cons c start ih =>
      obtain ⟨tail, rfl⟩ := shared
      rw [List.cons_append, List.cons_lex_cons_iff]
      rintro (below | ⟨-, below⟩)
      · exact absurd below (lt_irrefl c)
      · exact ih (List.prefix_append start tail) below

/-- A value between a text and a value that starts with it starts with it too. -/
theorem prefix_of_between {start middle last : List Char}
    (lower : ¬ List.Lex (· < ·) middle start)
    (upper : ¬ List.Lex (· < ·) last middle) (shared : start <+: last) :
    start <+: middle := by
  induction start generalizing middle last with
  | nil => exact List.nil_prefix
  | cons c start ih =>
      obtain ⟨tail, rfl⟩ := shared
      cases middle with
      | nil => exact absurd List.Lex.nil lower
      | cons d middle =>
          rw [List.cons_append, List.cons_lex_cons_iff] at upper
          rw [List.cons_lex_cons_iff] at lower
          have same : c = d := by
            rcases lt_trichotomy c d with below | same | above
            · exact absurd (.inl below) upper
            · exact same
            · exact absurd (.inl above) lower
          subst same
          have lower_tail : ¬ List.Lex (· < ·) middle start := fun below =>
            lower (.inr ⟨rfl, below⟩)
          have upper_tail : ¬ List.Lex (· < ·) (start ++ tail) middle :=
            fun below => upper (.inr ⟨rfl, below⟩)
          exact (List.prefix_cons_inj c).mpr
            (ih lower_tail upper_tail (List.prefix_append start tail))

theorem startsWith_iff {start value : String} :
    startsWith start value = true ↔ start.toList <+: value.toList := by
  simp [startsWith]

theorem le_of_startsWith {start value : String}
    (shared : startsWith start value = true) : start ≤ value :=
  not_lex_of_prefix (startsWith_iff.mp shared)

theorem startsWith_of_between {start middle last : String}
    (lower : start ≤ middle) (upper : middle ≤ last)
    (shared : startsWith start last = true) : startsWith start middle = true :=
  startsWith_iff.mpr
    (prefix_of_between lower upper (startsWith_iff.mp shared))

/-! ## Pairs in order -/

namespace IndexPair

theorem comesBefore_iff {a b : IndexPair} :
    a.comesBefore b = true ↔ a.value < b.value ∨ a.value = b.value ∧ a.id < b.id := by
  simp [comesBefore]

theorem comesBefore_trans (a b c : IndexPair) (first : a.comesBefore b = true)
    (second : b.comesBefore c = true) : a.comesBefore c = true := by
  rw [comesBefore_iff] at first second ⊢
  rcases first with below | ⟨same, below⟩
  · rcases second with above | ⟨same, -⟩
    · exact .inl (lt_trans below above)
    · exact .inl (same ▸ below)
  · rcases second with above | ⟨same', above⟩
    · exact .inl (same ▸ above)
    · exact .inr ⟨same.trans same', lt_trans below above⟩

theorem comesBefore_connex (a b : IndexPair) :
    a.comesBefore b = true ∨ a = b ∨ b.comesBefore a = true := by
  rw [comesBefore_iff, comesBefore_iff]
  rcases lt_trichotomy a.value b.value with below | same | above
  · exact .inl (.inl below)
  · rcases lt_trichotomy a.id b.id with below | same' | above
    · exact .inl (.inr ⟨same, below⟩)
    · refine .inr (.inl ?_)
      cases a
      cases b
      simp_all
    · exact .inr (.inr (.inr ⟨same.symm, above⟩))
  · exact .inr (.inr (.inl above))

theorem value_le_of_comesBefore {a b : IndexPair}
    (before : a.comesBefore b = true) : a.value ≤ b.value := by
  rcases comesBefore_iff.mp before with below | ⟨same, -⟩
  · exact le_of_lt below
  · exact le_of_eq same

end IndexPair

/-! ## Scans of an index -/

namespace AttributeIndex

theorem scan_sublist (index : AttributeIndex) (seek : Seek) :
    (index.scan seek).Sublist index.pairs := by
  cases seek with
  | equal value =>
      exact (List.takeWhile_sublist _).trans (List.dropWhile_sublist _)
  | atLeast value => exact List.dropWhile_sublist _
  | atMost value => exact List.takeWhile_sublist _
  | startingWith start =>
      exact (List.takeWhile_sublist _).trans (List.dropWhile_sublist _)
  | all => exact List.Sublist.refl _

/-- The index stands for the facts that entries hold values, and counts them. -/
structure Represents (index : AttributeIndex)
    (holds : EntryId → String → Prop) : Prop where
  sorted : index.pairs.Pairwise (IndexPair.comesBefore · · = true)
  mem_iff : ∀ pair, pair ∈ index.pairs ↔ holds pair.id pair.value
  count_eq : index.count = index.pairs.length

namespace Represents

variable {index : AttributeIndex} {holds : EntryId → String → Prop}

theorem ascending (represents : index.Represents holds) :
    index.pairs.Pairwise fun a b => a.value ≤ b.value :=
  represents.sorted.imp IndexPair.value_le_of_comesBefore

theorem nodup (represents : index.Represents holds) : index.pairs.Nodup := by
  refine represents.sorted.imp ?_
  rintro a b before rfl
  simp [IndexPair.comesBefore_iff] at before

private theorem mem_from (represents : index.Represents holds) (bound : String)
    (pair : IndexPair) :
    pair ∈ index.pairs.dropWhile (·.value < bound) ↔
      pair ∈ index.pairs ∧ bound ≤ pair.value := by
  rw [mem_dropWhile_iff (represents.ascending.imp fun below => ?_)]
  · simp only [decide_eq_false_iff_not, not_lt]
  · simp only [decide_eq_false_iff_not, not_lt]
    exact fun bounded => bounded.trans below

private theorem mem_startingWith (represents : index.Represents holds)
    (start : String) (pair : IndexPair) :
    pair ∈ index.scan (.startingWith start) ↔
      pair ∈ index.pairs ∧ startsWith start pair.value = true := by
  have kept : (index.pairs.dropWhile (·.value < start)).Pairwise fun a b =>
      startsWith start b.value = true → startsWith start a.value = true := by
    have below := represents.ascending.sublist
      (List.dropWhile_sublist (p := fun pair => decide (pair.value < start)))
    refine (List.Pairwise.and_mem.mp below).imp ?_
    rintro a b ⟨member, -, below⟩
    exact startsWith_of_between ((represents.mem_from start a).mp member).2 below
  rw [scan, mem_takeWhile_iff kept, represents.mem_from]
  constructor
  · exact fun ⟨⟨member, _⟩, shared⟩ => ⟨member, shared⟩
  · exact fun ⟨member, shared⟩ =>
      ⟨⟨member, le_of_startsWith shared⟩, shared⟩

theorem mem_scan (represents : index.Represents holds) (seek : Seek)
    (pair : IndexPair) :
    pair ∈ index.scan seek ↔
      holds pair.id pair.value ∧ seek.covers pair.value = true := by
  rw [← represents.mem_iff]
  cases seek with
  | equal value =>
      have ascending := represents.ascending.sublist
        (List.dropWhile_sublist (p := fun pair => decide (pair.value < value)))
      rw [scan, mem_takeWhile_iff (ascending.imp fun below => ?_),
        represents.mem_from]
      · simp only [Seek.covers, decide_eq_true_eq, beq_iff_eq, and_assoc]
        rw [le_antisymm_iff (a := pair.value), and_comm (a := value ≤ pair.value)]
      · simp only [decide_eq_true_eq]
        exact fun bounded => below.trans bounded
  | atLeast value =>
      rw [scan, represents.mem_from, Seek.covers, decide_eq_true_eq]
  | atMost value =>
      rw [scan, mem_takeWhile_iff (represents.ascending.imp fun below => ?_)]
      · simp [Seek.covers]
      · simp only [decide_eq_true_eq]
        exact fun bounded => below.trans bounded
  | startingWith start => exact represents.mem_startingWith start pair
  | all => simp [scan, Seek.covers]

theorem scan_nodup (represents : index.Represents holds) (seek : Seek) :
    (index.scan seek).Nodup :=
  represents.nodup.sublist (index.scan_sublist seek)

end Represents

/-! ## Changes of an index -/

theorem represents_empty : empty.Represents fun _ _ => False :=
  ⟨List.Pairwise.nil, by simp [empty], rfl⟩

namespace Represents

variable {index : AttributeIndex} {holds holds' : EntryId → String → Prop}

theorem congr (represents : index.Represents holds)
    (same : ∀ id value, holds id value ↔ holds' id value) :
    index.Represents holds' :=
  ⟨represents.sorted, fun pair => (represents.mem_iff pair).trans (same _ _),
    represents.count_eq⟩

theorem insert (represents : index.Represents holds) (pair : IndexPair) :
    (index.insert pair).Represents fun id value =>
      holds id value ∨ pair = ⟨value, id⟩ := by
  by_cases member : pair ∈ index.pairs
  · rw [AttributeIndex.insert, if_pos member]
    refine represents.congr fun id value => ⟨.inl, ?_⟩
    rintro (held | rfl)
    · exact held
    · exact (represents.mem_iff _).mp member
  · rw [AttributeIndex.insert, if_neg member]
    have comparable : ∀ other ∈ index.pairs,
        other.comesBefore pair = true ∨ pair.comesBefore other = true := by
      intro other other_mem
      rcases IndexPair.comesBefore_connex other pair with first | rfl | second
      · exact .inl first
      · exact absurd other_mem member
      · exact .inr second
    refine ⟨pairwise_insertSorted IndexPair.comesBefore_trans represents.sorted
      comparable, ?_, ?_⟩
    · intro other
      rw [mem_insertSorted, represents.mem_iff, or_comm, eq_comm]
    · simp [length_insertSorted, represents.count_eq]

theorem erase (represents : index.Represents holds) (pair : IndexPair) :
    (index.erase pair).Represents fun id value =>
      holds id value ∧ pair ≠ ⟨value, id⟩ := by
  by_cases member : pair ∈ index.pairs
  · rw [AttributeIndex.erase, if_pos member]
    refine ⟨represents.sorted.sublist List.erase_sublist, ?_, ?_⟩
    · intro other
      rw [represents.nodup.mem_erase_iff, represents.mem_iff, and_comm,
        ne_comm]
    · simp [List.length_erase_of_mem member, represents.count_eq]
  · rw [AttributeIndex.erase, if_neg member]
    refine represents.congr fun id value => ⟨fun held => ⟨held, ?_⟩, And.left⟩
    rintro rfl
    exact member ((represents.mem_iff _).mpr held)

theorem insertAll (represents : index.Represents holds) (values : List String)
    (id : EntryId) :
    (index.insertAll values id).Represents fun holder value =>
      holds holder value ∨ holder = id ∧ value ∈ values := by
  induction values generalizing index holds with
  | nil => exact represents.congr (by simp)
  | cons value rest ih =>
      refine (ih (represents.insert ⟨value, id⟩)).congr fun holder other => ?_
      simp only [IndexPair.mk.injEq, List.mem_cons]
      constructor
      · rintro ((held | ⟨rfl, rfl⟩) | ⟨rfl, member⟩)
        · exact .inl held
        · exact .inr ⟨rfl, .inl rfl⟩
        · exact .inr ⟨rfl, .inr member⟩
      · rintro (held | ⟨rfl, rfl | member⟩)
        · exact .inl (.inl held)
        · exact .inl (.inr ⟨rfl, rfl⟩)
        · exact .inr ⟨rfl, member⟩

theorem eraseAll (represents : index.Represents holds) (values : List String)
    (id : EntryId) :
    (index.eraseAll values id).Represents fun holder value =>
      holds holder value ∧ ¬ (holder = id ∧ value ∈ values) := by
  induction values generalizing index holds with
  | nil => exact represents.congr (by simp)
  | cons value rest ih =>
      refine (ih (represents.erase ⟨value, id⟩)).congr fun holder other => ?_
      simp only [ne_eq, IndexPair.mk.injEq, List.mem_cons]
      constructor
      · rintro ⟨⟨held, other_pair⟩, other_values⟩
        refine ⟨held, ?_⟩
        rintro ⟨rfl, rfl | member⟩
        · exact other_pair ⟨rfl, rfl⟩
        · exact other_values ⟨rfl, member⟩
      · rintro ⟨held, other_values⟩
        refine ⟨⟨held, ?_⟩, ?_⟩
        · rintro ⟨rfl, rfl⟩
          exact other_values ⟨rfl, .inl rfl⟩
        · rintro ⟨rfl, member⟩
          exact other_values ⟨rfl, .inr member⟩

end Represents

end AttributeIndex

end DirectoryStore.Query
