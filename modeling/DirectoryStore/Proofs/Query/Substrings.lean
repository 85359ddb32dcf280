import Mathlib.Data.List.Infix
import DirectoryStore.Query.Substring

/-!
# Values that fit a substring pattern

A value fits a pattern when it is made of the parts of the pattern, in their order, with
any text between them.  Matching finds every such value although it takes each fragment
at its first occurrence: whatever a later occurrence would leave for the fragments behind
it is the end of what the first occurrence leaves.
-/

namespace DirectoryStore.Query.SubstringPattern

/-- The parts of the pattern, with a text behind its start and behind each fragment. -/
def compose (pattern : SubstringPattern) (first : String) (gaps : List String) : String :=
  pattern.initial.getD "" ++ first ++
    String.join (List.zipWith (· ++ ·) pattern.fragments gaps) ++ pattern.final.getD ""

section

variable {fragment value rest tail longer : List Char} {fragments : List (List Char)}

/-! ## First occurrences -/

theorem append_suffix_of_after? (found : after? fragment value = some tail) :
    fragment ++ tail <:+ value := by
  induction value with
  | nil =>
      rw [after?, List.isPrefixOf?_eq_some_iff_append_eq] at found
      rw [found]
  | cons char value ih =>
      rw [after?] at found
      split at found
      · rename_i here
        obtain rfl := Option.some.inj found
        rw [List.isPrefixOf?_eq_some_iff_append_eq.mp here]
      · exact (ih found).trans (List.suffix_cons char value)

theorem after?_of_append_suffix (occurs : fragment ++ rest <:+ value) :
    ∃ tail, after? fragment value = some tail ∧ rest <:+ tail := by
  induction value with
  | nil =>
      obtain ⟨rfl, rfl⟩ := List.append_eq_nil_iff.mp (List.suffix_nil.mp occurs)
      exact ⟨[], rfl, List.suffix_rfl⟩
  | cons char value ih =>
      rw [after?]
      cases here : fragment.isPrefixOf? (char :: value) with
      | some tail =>
          rw [← List.isPrefixOf?_eq_some_iff_append_eq.mp here] at occurs
          refine ⟨tail, rfl, List.suffix_of_suffix_length_le
            ((List.suffix_append _ _).trans occurs) (List.suffix_append _ _) ?_⟩
          simpa using occurs.length_le
      | none =>
          refine ih ((List.suffix_cons_iff.mp occurs).resolve_left fun whole => ?_)
          rw [List.isPrefixOf?_eq_some_iff_append_eq.mpr whole] at here
          cases here

/-! ## All fragments -/

/-- The rest stands somewhere behind the fragments. -/
def StandsBehind (rest : List Char) : List (List Char) → List Char → Prop
  | [], value => rest <:+ value
  | fragment :: fragments, value =>
      ∃ tail, fragment ++ tail <:+ value ∧ StandsBehind rest fragments tail

theorem StandsBehind.mono (stands : StandsBehind rest fragments value)
    (suffix : value <:+ longer) : StandsBehind rest fragments longer := by
  cases fragments with
  | nil => exact List.IsSuffix.trans stands suffix
  | cons fragment fragments =>
      obtain ⟨tail, occurs, behind⟩ := stands
      exact ⟨tail, occurs.trans suffix, behind⟩

theorem StandsBehind.of_suffix (stands : StandsBehind tail fragments value)
    (suffix : rest <:+ tail) : StandsBehind rest fragments value := by
  induction fragments generalizing value with
  | nil => exact suffix.trans stands
  | cons fragment fragments ih =>
      obtain ⟨left, occurs, behind⟩ := stands
      exact ⟨left, occurs, ih behind⟩

theorem standsBehind_of_afterAll? (found : afterAll? fragments value = some tail) :
    StandsBehind tail fragments value := by
  induction fragments generalizing value with
  | nil => exact Option.some.inj found ▸ List.suffix_rfl
  | cons fragment fragments ih =>
      rw [afterAll?] at found
      split at found
      · rename_i left here
        exact ⟨left, append_suffix_of_after? here, ih found⟩
      · cases found

/-- Taking every fragment at its first occurrence leaves the most for the rest. -/
theorem StandsBehind.exists_afterAll? (stands : StandsBehind rest fragments value) :
    ∃ tail, afterAll? fragments value = some tail ∧ rest <:+ tail := by
  induction fragments generalizing value with
  | nil => exact ⟨value, rfl, stands⟩
  | cons fragment fragments ih =>
      obtain ⟨left, occurs, behind⟩ := stands
      obtain ⟨first, found, suffix⟩ := after?_of_append_suffix occurs
      rw [afterAll?, found]
      exact ih (behind.mono suffix)

theorem standsBehind_iff (fragments : List String) :
    StandsBehind rest (fragments.map String.toList) value ↔
      ∃ (first : String) (gaps : List String), gaps.length = fragments.length ∧
        value = first.toList ++
          ((String.join (List.zipWith (· ++ ·) fragments gaps)).toList ++ rest) := by
  induction fragments generalizing value with
  | nil =>
      constructor
      · rintro ⟨first, rfl⟩
        exact ⟨String.ofList first, [], rfl, by simp⟩
      · rintro ⟨first, gaps, -, rfl⟩
        exact ⟨first.toList, by simp⟩
  | cons fragment fragments ih =>
      simp only [List.map_cons, StandsBehind, ih]
      constructor
      · rintro ⟨_, ⟨first, rfl⟩, gap, gaps, same, rfl⟩
        exact ⟨String.ofList first, gap :: gaps, by simp [same], by simp⟩
      · rintro ⟨first, _ | ⟨gap, gaps⟩, same, rfl⟩
        · cases same
        · exact ⟨_, ⟨first.toList, by simp⟩, gap, gaps, by simpa using same, rfl⟩

end

/-! ## Matching -/

theorem accepts_iff_standsBehind (pattern : SubstringPattern) (value : String) :
    pattern.accepts value = true ↔
      ∃ tail, value.toList = chars pattern.initial ++ tail ∧
        StandsBehind (chars pattern.final) (pattern.fragments.map String.toList) tail := by
  rw [accepts, matchesChars]
  constructor
  · intro accepted
    split at accepted
    · cases accepted
    · rename_i tail started
      split at accepted
      · cases accepted
      · rename_i last found
        exact ⟨tail, (List.isPrefixOf?_eq_some_iff_append_eq.mp started).symm,
          (standsBehind_of_afterAll? found).of_suffix (List.isSuffixOf_iff_suffix.mp accepted)⟩
  · rintro ⟨tail, split, stands⟩
    obtain ⟨last, found, suffix⟩ := stands.exists_afterAll?
    rw [List.isPrefixOf?_eq_some_iff_append_eq.mpr split.symm]
    simpa [found] using suffix

/-- A pattern matches the values that are composed of its parts, and no others. -/
theorem accepts_iff_composed (pattern : SubstringPattern) (value : String) :
    pattern.accepts value = true ↔
      ∃ (first : String) (gaps : List String), gaps.length = pattern.fragments.length ∧
        value = pattern.compose first gaps := by
  rw [accepts_iff_standsBehind]
  simp only [standsBehind_iff, compose, ← String.toList_inj, String.toList_append,
    List.append_assoc]
  constructor
  · rintro ⟨_, split, first, gaps, same, rfl⟩
    exact ⟨first, gaps, same, split⟩
  · rintro ⟨first, gaps, same, split⟩
    exact ⟨_, split, first, gaps, same, rfl⟩

-- The fragments and the end compete for the same text.
example : (⟨"cn", some "a", ["ba", "a"], some "ba"⟩ : SubstringPattern).accepts "abaaba" = true ∧
    (⟨"cn", some "a", ["ba", "a"], some "aba"⟩ : SubstringPattern).accepts "abaaba" = false := by
  decide +kernel

end DirectoryStore.Query.SubstringPattern
