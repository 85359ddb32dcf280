import DirectoryStore.Proofs.Paging.Lists
import Mathlib.Data.List.Perm.Subperm

/-!
# Walks along the lists

A cursor that has passed the first pages of a list finds the others in list order,
and the walk ends behind the last one.  A list has fewer pages than the file has
blocks, so as many steps as there are blocks are enough.
-/

namespace DirectoryStore.Paging

def PageFile.Cursor.behind (kind : PageKind) (front : List BlockId) : PageFile.Cursor :=
  ⟨kind, front.getLast?⟩

/-- A visit that answers `answer` and leaves the file as it was. -/
def Reads {α : Type} (width count : Nat) (lists : PageLists) (layout : Layout)
    (pages : PageFile) (answer : α) (found : α) (pages' : PageFile) : Prop :=
  found = answer ∧ Represents width count lists layout pages' ∧ SameFile pages pages'

namespace Represents

variable {width count : Nat} {layout : Layout} {lists : PageLists} {pages : PageFile}
  {kind : PageKind} {block : BlockId} {front back : List BlockId}
  {failed : Error → PageFile → Prop}

theorem next (represents : Represents width count lists layout pages)
    (parts : lists kind = front ++ block :: back) :
    Leads (PageFile.next block) pages
      (fun following pages' => following = back.headD BlockId.header ∧
        Represents width count lists layout pages' ∧ SameFile pages pages') failed := by
  have row := (represents.threads.rows kind).1.1
  rw [parts] at row
  have here := row.at_place
  refine Leads.bind (represents.readHeader.imp_failed ?_)
    fun header pages' ⟨there, read, same⟩ => ?_
  · rintro _ _ ⟨missing, -⟩
    rw [here] at missing
    contradiction
  · rw [here] at there
    obtain rfl := Option.some.inj there
    exact Leads.pure ⟨rfl, read, same⟩

def Advanced (lists : PageLists) (kind : PageKind) (front back : List BlockId)
    (moved : Option BlockId × PageFile.Cursor) : Prop :=
  moved.1 = back.head? ∧ ∀ block rest, back = block :: rest →
    moved.2 = PageFile.Cursor.behind kind (front ++ [block]) ∧
      lists kind = (front ++ [block]) ++ rest

theorem arrive (represents : Represents width count lists layout pages)
    (parts : lists kind = front ++ back) {done : Option BlockId × PageFile.Cursor → PageFile → Prop}
    (rest : ∀ moved, Advanced lists kind front back moved → done moved pages) :
    Leads
      (if (back.headD BlockId.header).isNull = true then
        pure (none, PageFile.Cursor.behind kind front)
      else
        pure (some (back.headD BlockId.header),
          { PageFile.Cursor.behind kind front with
            current := some (back.headD BlockId.header) })) pages done failed := by
  cases back with
  | nil =>
      apply rest
      exact ⟨rfl, fun _ _ impossible => nomatch impossible⟩
  | cons block behind =>
      have listed : block ∈ lists kind := by simp [parts]
      have real : ¬ block.isNull := mt BlockId.isNull_iff.mp (represents.threads.real listed)
      simp only [List.headD_cons, real, Bool.false_eq_true, if_false]
      apply rest
      refine ⟨rfl, ?_⟩
      rintro _ _ ⟨⟩
      refine ⟨?_, by simp [parts]⟩
      simp [PageFile.Cursor.behind]

theorem advance (represents : Represents width count lists layout pages)
    (parts : lists kind = front ++ back) :
    Leads (PageFile.Cursor.behind kind front).advance pages
      (fun moved pages' => Advanced lists kind front back moved ∧
        Represents width count lists layout pages' ∧ SameFile pages pages') failed := by
  unfold PageFile.Cursor.advance
  rcases List.eq_nil_or_concat front with rfl | ⟨before, last, concat⟩
  · apply Leads.get_bind
    have first : pages.first kind = back.headD BlockId.header := by
      rw [represents.first_eq, parts, List.nil_append]
    rw [pure_bind, show (PageFile.Cursor.behind kind []).kind = kind from rfl, first]
    exact represents.arrive parts fun moved advanced => ⟨advanced, represents, rfl, rfl⟩
  · rw [List.concat_eq_append] at concat
    subst concat
    rw [List.append_assoc, List.singleton_append] at parts
    have current : (PageFile.Cursor.behind kind (before ++ [last])).current = some last := by
      simp [PageFile.Cursor.behind]
    simp only [current]
    refine Leads.bind (represents.next parts) fun following pages' ⟨here, read, same⟩ => ?_
    rw [here]
    apply read.arrive (by simp [parts])
    exact fun moved advanced => ⟨advanced, read, same⟩

theorem take (represents : Represents width count lists layout pages)
    (parts : lists kind = front ++ back) (limit : Nat) :
    Leads ((PageFile.Cursor.behind kind front).take limit) pages
      (fun found pages' => found = back.take limit ∧
        Represents width count lists layout pages' ∧ SameFile pages pages') failed := by
  induction limit generalizing front back pages with
  | zero => exact Leads.pure ⟨List.take_zero.symm, represents, rfl, rfl⟩
  | succ limit ih =>
      refine Leads.bind (represents.advance parts)
        fun ⟨found, cursor⟩ pages' ⟨⟨found_eq, onward⟩, read, same⟩ => ?_
      cases back with
      | nil =>
          obtain rfl : found = none := found_eq
          exact Leads.pure ⟨rfl, read, same⟩
      | cons block rest =>
          obtain rfl : found = some block := found_eq
          obtain ⟨cursor_eq, parts'⟩ := onward block rest rfl
          obtain rfl : cursor = PageFile.Cursor.behind kind (front ++ [block]) := cursor_eq
          refine Leads.bind (ih read parts') fun found pages'' ⟨found_eq, walked, same'⟩ => ?_
          refine Leads.pure ⟨?_, walked, same.trans same'⟩
          rw [found_eq, List.take_succ_cons]

theorem length_lt (represents : Represents width count lists layout pages)
    (kind : PageKind) : (lists kind).length < count := by
  have distinct : ((lists kind).map UInt64.toNat).Nodup :=
    (represents.threads.nodup kind).map fun _ _ => UInt64.toNat_inj.mp
  have inside : (lists kind).map UInt64.toNat ⊆ List.range' 1 (count - 1) := by
    intro number member
    obtain ⟨block, listed, rfl⟩ := List.mem_map.mp member
    have := (represents.covers block).mp ⟨kind, listed⟩
    rw [List.mem_range'_1]
    omega
  have bound := (distinct.subperm inside).length_le
  rw [List.length_map, List.length_range'] at bound
  have := represents.positive
  omega

theorem length_lt_stepLimit (represents : Represents width count lists layout pages)
    (room : count < 2 ^ 63) (kind : PageKind) : (lists kind).length < PageFile.stepLimit :=
  calc
    (lists kind).length < count := represents.length_lt kind
    _ < 2 ^ 63 := room
    _ < PageFile.stepLimit := by decide

/-- What is collected along a list are the answers of its pages, in list order. -/
theorem collectFrom {α ε : Type} (represents : Represents width count lists layout pages)
    {place : ε → BlockId} {entries : List ε} (parts : lists kind = front ++ entries.map place)
    {visit : BlockId → PageM (List α)} {answer : ε → List α}
    (visits : ∀ entry ∈ entries, ∀ pages', Represents width count lists layout pages' →
      Leads (visit (place entry)) pages'
        (Reads width count lists layout pages' (answer entry)) failed)
    {limit : Nat} (enough : entries.length < limit) (collected : List α) :
    Leads (PageFile.collectFrom visit limit (PageFile.Cursor.behind kind front) collected) pages
      (Reads width count lists layout pages (collected ++ entries.flatMap answer)) failed := by
  induction limit generalizing front entries pages collected with
  | zero => omega
  | succ limit ih =>
      refine Leads.bind (represents.advance parts)
        fun ⟨found, cursor⟩ pages' ⟨⟨found_eq, onward⟩, read, same⟩ => ?_
      cases entries with
      | nil =>
          obtain rfl : found = none := found_eq
          exact Leads.pure ⟨(List.append_nil _).symm, read, same⟩
      | cons entry rest =>
          obtain rfl : found = some (place entry) := found_eq
          obtain ⟨cursor_eq, parts'⟩ := onward (place entry) (rest.map place) rfl
          obtain rfl : cursor = PageFile.Cursor.behind kind (front ++ [place entry]) := cursor_eq
          refine Leads.bind (visits entry List.mem_cons_self pages' read)
            fun found pages'' ⟨found_eq, visited, same'⟩ => ?_
          subst found_eq
          have visits' : ∀ later ∈ rest, ∀ pages', Represents width count lists layout pages' →
              Leads (visit (place later)) pages'
                (Reads width count lists layout pages' (answer later)) failed :=
            fun later member => visits later (List.mem_cons_of_mem _ member)
          have shorter : rest.length < limit := by
            rw [List.length_cons] at enough
            omega
          apply (ih visited parts' visits' shorter (collected ++ answer entry)).imp
          intro found pages₁ ⟨found_eq, walked, same''⟩
          refine ⟨?_, walked, (same.trans same').trans same''⟩
          rw [found_eq, List.append_assoc, List.flatMap_cons]

theorem collect {α ε : Type} (represents : Represents width count lists layout pages)
    {place : ε → BlockId} {entries : List ε} (parts : lists kind = entries.map place)
    {visit : BlockId → PageM (List α)} {answer : ε → List α}
    (visits : ∀ entry ∈ entries, ∀ pages', Represents width count lists layout pages' →
      Leads (visit (place entry)) pages'
        (Reads width count lists layout pages' (answer entry)) failed)
    {limit : Nat} (enough : (lists kind).length < limit) :
    Leads (PageFile.collect kind visit limit) pages
      (Reads width count lists layout pages (entries.flatMap answer)) failed := by
  rw [parts, List.length_map] at enough
  have begun : lists kind = [] ++ entries.map place := parts
  exact represents.collectFrom begun visits enough []

theorem list (represents : Represents width count lists layout pages) {limit : Nat}
    (enough : (lists kind).length < limit) :
    Leads (PageFile.list kind limit) pages
      (fun found pages' => found = lists kind ∧
        Represents width count lists layout pages' ∧ SameFile pages pages') failed := by
  have visits (block : BlockId) (_ : block ∈ lists kind) (pages' : PageFile)
      (represents' : Represents width count lists layout pages') :
      Leads (pure [block]) pages' (Reads width count lists layout pages' [block]) failed :=
    Leads.pure ⟨rfl, represents', rfl, rfl⟩
  apply (represents.collect (List.map_id _).symm visits enough).imp
  intro found pages' ⟨found_eq, walked⟩
  rw [List.flatMap_singleton'] at found_eq
  exact ⟨found_eq, walked⟩

theorem count_pages (represents : Represents width count lists layout pages) {limit : Nat}
    (enough : (lists kind).length < limit) :
    Leads (PageFile.count kind limit) pages
      (fun found pages' => found = (lists kind).length ∧
        Represents width count lists layout pages' ∧ SameFile pages pages') failed := by
  refine Leads.bind (represents.list enough) fun found pages' ⟨found_eq, walked⟩ => ?_
  exact Leads.pure ⟨congrArg List.length found_eq, walked⟩

end Represents

end DirectoryStore.Paging
