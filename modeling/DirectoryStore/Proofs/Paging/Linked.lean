import DirectoryStore.Paging.Header
import Mathlib.Logic.Function.Basic
import Mathlib.Tactic.Tauto

/-!
# Doubly linked rows of pages

The pages of one kind stand in a row between two null links.  A row is taken apart
into a front half, which the file header knows by its first page, and a back half,
which it knows by its last one.  Taking a page out, and putting one in at either
end, joins a front half and a back half again.
-/

namespace DirectoryStore

@[simp] theorem BlockId.isNull_iff {block : BlockId} :
    block.isNull = true ↔ block = BlockId.header := by
  simp [BlockId.isNull]

namespace Paging

/-! ## Ends of lists -/

namespace FileHeader

@[simp] theorem ends_setFirst (header : FileHeader) (kind other : PageKind)
    (block : BlockId) : (header.setFirst kind block).ends other =
      if other = kind then { header.ends other with first := block }
      else header.ends other := by
  cases kind <;> cases other <;> rfl

@[simp] theorem ends_setLast (header : FileHeader) (kind other : PageKind)
    (block : BlockId) : (header.setLast kind block).ends other =
      if other = kind then { header.ends other with last := block }
      else header.ends other := by
  cases kind <;> cases other <;> rfl

theorem ext_ends {header header' : FileHeader}
    (same : ∀ kind, header'.ends kind = header.ends kind) : header' = header := by
  cases header
  cases header'
  have free := same .free
  have data := same .data
  have freeList := same .freeList
  simp_all [ends]

end FileHeader

/-! ## Rows -/

/-- The headers of the pages of a file; a block may have none. -/
abbrev Heads := BlockId → Option PageHeader

/-- The pages stand in a row between two links, and each one links its neighbours. -/
def Linked (heads : Heads) (kind : PageKind) : BlockId → List BlockId → BlockId → Prop
  | _, [], _ => True
  | prev, block :: rest, next =>
      heads block = some ⟨kind, rest.headD next, prev⟩ ∧ Linked heads kind block rest next

theorem headD_mem_cons (row : List BlockId) :
    row.headD BlockId.header ∈ BlockId.header :: row := by
  cases row <;> simp

namespace Linked

variable {heads heads' : Heads} {kind : PageKind} {prev next block : BlockId}
  {row front back : List BlockId}

theorem append_iff : Linked heads kind prev (front ++ back) next ↔
    Linked heads kind prev front (back.headD next) ∧
      Linked heads kind (front.getLastD prev) back next := by
  induction front generalizing prev with
  | nil => simp [Linked]
  | cons block rest ih =>
      have joined : (rest ++ back).headD next = rest.headD (back.headD next) := by
        cases rest <;> simp
      simp only [List.cons_append, Linked, joined, ih, List.getLastD_cons, and_assoc]

theorem congr (linked : Linked heads kind prev row next)
    (same : ∀ block ∈ row, heads' block = heads block) :
    Linked heads' kind prev row next := by
  induction row generalizing prev with
  | nil => trivial
  | cons block rest ih =>
      obtain ⟨here, after⟩ := linked
      have same_rest : ∀ other ∈ rest, heads' other = heads other :=
        fun other member => same other (List.mem_cons_of_mem _ member)
      exact ⟨(same block List.mem_cons_self).trans here, ih after same_rest⟩

theorem at_place (linked : Linked heads kind prev (front ++ block :: back) next) :
    heads block = some ⟨kind, back.headD next, front.getLastD prev⟩ :=
  (append_iff.mp linked).2.1

theorem of_mem (linked : Linked heads kind prev row next) (member : block ∈ row) :
    ∃ header, heads block = some header ∧ header.kind = kind := by
  obtain ⟨front, back, rfl⟩ := List.append_of_mem member
  exact ⟨_, linked.at_place, rfl⟩

/-- A page that came twice would follow two different pages. -/
theorem nodup (linked : Linked heads kind prev row next) (outside : prev ∉ row) :
    row.Nodup := by
  induction row generalizing prev with
  | nil => exact List.nodup_nil
  | cons block rest ih =>
      have fresh : block ∉ rest := by
        intro again
        obtain ⟨front, back, rfl⟩ := List.append_of_mem again
        have first := linked.1
        rw [linked.2.at_place] at first
        have before : front.getLastD block = prev := by
          simpa using congrArg (Option.map PageHeader.prev) first
        have inside : front.getLastD block ∈ block :: front := List.getLastD_mem_cons
        grind
      exact List.nodup_cons.mpr ⟨fresh, ih linked.2 fresh⟩

theorem null_notMem (linked : Linked heads kind prev row next)
    (null : heads BlockId.header = none) : BlockId.header ∉ row := by
  intro member
  obtain ⟨header, here, -⟩ := linked.of_mem member
  rw [null] at here
  contradiction

end Linked

/-! ## Layouts -/

/-- What the headers of a file say, and what stands behind the header of every page. -/
structure Layout where
  heads : Heads
  header : FileHeader
  bodies : BlockId → Bytes

namespace Layout

def put (layout : Layout) (block : BlockId) (header : PageHeader) : Layout :=
  { layout with heads := Function.update layout.heads block (some header) }

def setBody (layout : Layout) (block : BlockId) (body : Bytes) : Layout :=
  { layout with bodies := Function.update layout.bodies block body }

def setFirst (layout : Layout) (kind : PageKind) (block : BlockId) : Layout :=
  { layout with header := layout.header.setFirst kind block }

def setLast (layout : Layout) (kind : PageKind) (block : BlockId) : Layout :=
  { layout with header := layout.header.setLast kind block }

def joinNext (layout : Layout) (kind : PageKind) (prev next : BlockId) : Layout :=
  if prev.isNull then layout.setFirst kind next
  else
    { layout with
      heads := Function.update layout.heads prev
        ((layout.heads prev).map ({ · with next := next })) }

def joinPrev (layout : Layout) (kind : PageKind) (next prev : BlockId) : Layout :=
  if next.isNull then layout.setLast kind prev
  else
    { layout with
      heads := Function.update layout.heads next
        ((layout.heads next).map ({ · with prev := prev })) }

def Fronts (layout : Layout) (kind : PageKind) (front : List BlockId) (next : BlockId) :
    Prop :=
  Linked layout.heads kind BlockId.header front next ∧
    (layout.header.ends kind).first = front.headD next

def Backs (layout : Layout) (kind : PageKind) (prev : BlockId) (back : List BlockId) : Prop :=
  Linked layout.heads kind prev back BlockId.header ∧
    (layout.header.ends kind).last = back.getLastD prev

def Lists (layout : Layout) (kind : PageKind) (row : List BlockId) : Prop :=
  layout.Backs kind BlockId.header row ∧
    (layout.header.ends kind).first = row.headD BlockId.header

variable {layout layout' : Layout} {kind : PageKind} {prev next : BlockId}
  {front back row : List BlockId}

theorem lists_append_iff : layout.Lists kind (front ++ back) ↔
    layout.Fronts kind front (back.headD BlockId.header) ∧
      layout.Backs kind (front.getLastD BlockId.header) back := by
  have first : (front ++ back).headD BlockId.header =
      front.headD (back.headD BlockId.header) := by
    cases front <;> simp
  have last : (front ++ back).getLastD BlockId.header =
      back.getLastD (front.getLastD BlockId.header) := by
    cases back <;> simp [List.getLast?_append]
  unfold Lists Fronts Backs
  rw [Linked.append_iff, first, last]
  tauto

theorem Lists.fronts (lists : layout.Lists kind row) :
    layout.Fronts kind row BlockId.header :=
  ⟨lists.1.1, lists.2⟩

theorem Fronts.congr (fronts : layout.Fronts kind front next)
    (same : ∀ block ∈ front, layout'.heads block = layout.heads block)
    (first : (layout'.header.ends kind).first = (layout.header.ends kind).first) :
    layout'.Fronts kind front next :=
  ⟨fronts.1.congr same, first.trans fronts.2⟩

theorem Backs.congr (backs : layout.Backs kind prev back)
    (same : ∀ block ∈ back, layout'.heads block = layout.heads block)
    (last : (layout'.header.ends kind).last = (layout.header.ends kind).last) :
    layout'.Backs kind prev back :=
  ⟨backs.1.congr same, last.trans backs.2⟩

theorem Lists.congr (lists : layout.Lists kind row)
    (same : ∀ block ∈ row, layout'.heads block = layout.heads block)
    (ends : layout'.header.ends kind = layout.header.ends kind) :
    layout'.Lists kind row :=
  ⟨lists.1.congr same (by rw [ends]), by rw [ends]; exact lists.2⟩

/-! ### Joining two halves -/

section

variable (layout) {other : PageKind} {block : BlockId}

theorem heads_joinNext_of_ne (different : block ≠ prev) :
    (layout.joinNext kind prev next).heads block = layout.heads block := by
  unfold joinNext setFirst
  split
  · rfl
  · exact Function.update_of_ne different _ _

theorem heads_joinPrev_of_ne (different : block ≠ next) :
    (layout.joinPrev kind next prev).heads block = layout.heads block := by
  unfold joinPrev setLast
  split
  · rfl
  · exact Function.update_of_ne different _ _

theorem ends_joinNext_of_ne (different : other ≠ kind) :
    (layout.joinNext kind prev next).header.ends other = layout.header.ends other := by
  unfold joinNext setFirst
  split <;> simp [different]

theorem ends_joinPrev_of_ne (different : other ≠ kind) :
    (layout.joinPrev kind next prev).header.ends other = layout.header.ends other := by
  unfold joinPrev setLast
  split <;> simp [different]

theorem last_joinNext :
    ((layout.joinNext kind prev next).header.ends kind).last =
      (layout.header.ends kind).last := by
  unfold joinNext setFirst
  split <;> simp

theorem first_joinPrev :
    ((layout.joinPrev kind next prev).header.ends kind).first =
      (layout.header.ends kind).first := by
  unfold joinPrev setLast
  split <;> simp

theorem bodies_setBody_self {body : Bytes} : (layout.setBody block body).bodies block = body :=
  Function.update_self _ _ _

theorem bodies_setBody_of_ne {page : BlockId} {body : Bytes} (different : page ≠ block) :
    (layout.setBody block body).bodies page = layout.bodies page :=
  Function.update_of_ne different _ _

@[simp] theorem bodies_joinNext :
    (layout.joinNext kind prev next).bodies = layout.bodies := by
  unfold joinNext setFirst
  split <;> rfl

@[simp] theorem bodies_joinPrev :
    (layout.joinPrev kind next prev).bodies = layout.bodies := by
  unfold joinPrev setLast
  split <;> rfl

theorem null_joinNext :
    (layout.joinNext kind prev next).heads BlockId.header = layout.heads BlockId.header := by
  by_cases null : prev.isNull
  · simp [joinNext, null, setFirst]
  · apply heads_joinNext_of_ne
    rintro rfl
    simp at null

theorem null_joinPrev :
    (layout.joinPrev kind next prev).heads BlockId.header = layout.heads BlockId.header := by
  by_cases null : next.isNull
  · simp [joinPrev, null, setLast]
  · apply heads_joinPrev_of_ne
    rintro rfl
    simp at null

end

/-! ### What follows a page -/

/-- The page behind another one, or the first page where there is none before it. -/
def follower (layout : Layout) (kind : PageKind) (prev : BlockId) : Option BlockId :=
  if prev.isNull then some (layout.header.ends kind).first
  else (layout.heads prev).map (·.next)

section

variable {other : PageKind} {block link : BlockId}

theorem follower_of_null (layout : Layout) (kind : PageKind) :
    layout.follower kind BlockId.header = some (layout.header.ends kind).first :=
  rfl

theorem follower_of_ne (layout : Layout) (kind : PageKind) (real : prev ≠ BlockId.header) :
    layout.follower kind prev = (layout.heads prev).map (·.next) :=
  if_neg (mt BlockId.isNull_iff.mp real)

theorem follower_congr (first : (layout'.header.ends kind).first =
      (layout.header.ends kind).first)
    (next : (layout'.heads prev).map (·.next) = (layout.heads prev).map (·.next)) :
    layout'.follower kind prev = layout.follower kind prev := by
  unfold follower
  rw [first, next]

theorem follower_joinNext_self (known : prev ≠ BlockId.header → ∃ header,
      layout.heads prev = some header) :
    (layout.joinNext kind prev next).follower kind prev = some next := by
  by_cases null : prev = BlockId.header
  · subst null
    simp [joinNext, setFirst, follower_of_null]
  · obtain ⟨header, here⟩ := known null
    have real : ¬ prev.isNull := mt BlockId.isNull_iff.mp null
    simp [joinNext, real, follower_of_ne _ _ null, here]

theorem follower_joinPrev (layout : Layout) (other : PageKind) (link before : BlockId) :
    (layout.joinPrev other link before).follower kind prev = layout.follower kind prev := by
  refine follower_congr ?_ ?_
  · unfold joinPrev setLast
    split
    · rw [FileHeader.ends_setLast]
      split <;> rfl
    · rfl
  · unfold joinPrev
    split
    · rfl
    · by_cases same : prev = link
      · subst same
        simp [Function.comp_def]
      · exact congrArg _ (Function.update_of_ne same _ _)

theorem follower_put (layout : Layout) (header : PageHeader) (different : prev ≠ block) :
    (layout.put block header).follower kind prev = layout.follower kind prev :=
  follower_congr rfl (congrArg _ (Function.update_of_ne different _ _))

theorem follower_setFirst (layout : Layout) (block : BlockId)
    (elsewhere : prev ≠ BlockId.header ∨ kind ≠ other) :
    (layout.setFirst other block).follower kind prev = layout.follower kind prev := by
  rcases elsewhere with real | different
  · rw [follower_of_ne _ _ real, follower_of_ne _ _ real]
    rfl
  · refine follower_congr ?_ rfl
    simp [setFirst, different]

theorem follower_setLast (layout : Layout) (other : PageKind) (block : BlockId) :
    (layout.setLast other block).follower kind prev = layout.follower kind prev := by
  refine follower_congr ?_ rfl
  unfold setLast
  rw [FileHeader.ends_setLast]
  split <;> rfl

theorem first_joinNext_of_ne (layout : Layout) (prev next : BlockId) (different : kind ≠ other) :
    (layout.joinNext other prev next).follower kind BlockId.header =
      layout.follower kind BlockId.header := by
  rw [follower_of_null, follower_of_null, ends_joinNext_of_ne _ different]

end

theorem Fronts.joinNext (fronts : layout.Fronts kind front prev)
    (null : layout.heads BlockId.header = none) (next : BlockId) :
    (layout.joinNext kind (front.getLastD BlockId.header) next).Fronts kind front next := by
  obtain ⟨linked, first⟩ := fronts
  have outside := linked.null_notMem null
  have nodup := linked.nodup outside
  rcases List.eq_nil_or_concat front with rfl | ⟨before, last, parts⟩
  · simp [Layout.joinNext, Fronts, Linked, setFirst]
  · rw [List.concat_eq_append] at parts
    subst parts
    have here := linked.at_place
    have real : ¬ last.isNull := by
      intro is_null
      rw [BlockId.isNull_iff.mp is_null, null] at here
      contradiction
    have fresh : ∀ block ∈ before, block ≠ last := by
      rintro block member rfl
      simp [List.nodup_append] at nodup
      grind
    simp only [List.getLastD_concat, Layout.joinNext, real, Bool.false_eq_true, if_false]
    refine ⟨Linked.append_iff.mpr ⟨?_, ?_⟩, ?_⟩
    · apply (Linked.append_iff.mp linked).1.congr
      intro block member
      exact Function.update_of_ne (fresh block member) _ _
    · simp [Linked, here]
    · rw [first]
      cases before <;> simp

theorem Backs.joinPrev (backs : layout.Backs kind next back)
    (null : layout.heads BlockId.header = none) (outside : next ∉ back) (prev : BlockId) :
    (layout.joinPrev kind (back.headD BlockId.header) prev).Backs kind prev back := by
  obtain ⟨linked, last⟩ := backs
  have nodup := linked.nodup outside
  cases back with
  | nil => simp [Layout.joinPrev, Backs, Linked, setLast]
  | cons head rest =>
      obtain ⟨here, after⟩ := linked
      have real : ¬ head.isNull := by
        intro is_null
        rw [BlockId.isNull_iff.mp is_null, null] at here
        contradiction
      have fresh : ∀ block ∈ rest, block ≠ head := by
        rintro block member rfl
        exact (List.nodup_cons.mp nodup).1 member
      simp only [List.headD_cons, Layout.joinPrev, real, Bool.false_eq_true, if_false]
      refine ⟨⟨?_, ?_⟩, ?_⟩
      · simp [here]
      · apply after.congr
        intro block member
        exact Function.update_of_ne (fresh block member) _ _
      · rw [List.getLastD_cons] at last ⊢
        exact last

end Layout

/-! ## The three lists -/

abbrev PageLists := PageKind → List BlockId

structure Threads (layout : Layout) (lists : PageLists) : Prop where
  null : layout.heads BlockId.header = none
  rows : ∀ kind, layout.Lists kind (lists kind)

namespace Threads

variable {layout : Layout} {lists : PageLists} {kind other : PageKind} {block link : BlockId}
  {front back : List BlockId}

theorem of_mem (threads : Threads layout lists) (member : block ∈ lists kind) :
    ∃ header, layout.heads block = some header ∧ header.kind = kind :=
  (threads.rows kind).1.1.of_mem member

theorem kind_unique (threads : Threads layout lists) (member : block ∈ lists kind)
    (member' : block ∈ lists other) : kind = other := by
  obtain ⟨header, here, rfl⟩ := threads.of_mem member
  obtain ⟨header', here', rfl⟩ := threads.of_mem member'
  rw [Option.some.inj (here.symm.trans here')]

theorem null_notMem (threads : Threads layout lists) (kind : PageKind) :
    BlockId.header ∉ lists kind :=
  (threads.rows kind).1.1.null_notMem threads.null

theorem real (threads : Threads layout lists) (listed : block ∈ lists kind) :
    block ≠ BlockId.header := by
  rintro rfl
  exact threads.null_notMem kind listed

theorem nodup (threads : Threads layout lists) (kind : PageKind) : (lists kind).Nodup :=
  (threads.rows kind).1.1.nodup (threads.null_notMem kind)

theorem apart (threads : Threads layout lists) (different : other ≠ kind)
    (near : link ∈ BlockId.header :: lists kind) (member : block ∈ lists other) :
    block ≠ link := by
  rintro rfl
  rcases List.mem_cons.mp near with rfl | near
  · exact threads.null_notMem other member
  · exact different (threads.kind_unique member near)

theorem ends_eq (threads : Threads layout lists) (kind : PageKind) :
    layout.header.ends kind =
      ⟨(lists kind).headD BlockId.header, (lists kind).getLastD BlockId.header⟩ := by
  obtain ⟨⟨-, last⟩, first⟩ := threads.rows kind
  rw [← first, ← last]

theorem heads_eq (threads : Threads layout lists) (parts : lists kind = front ++ block :: back) :
    layout.heads block =
      some ⟨kind, back.headD BlockId.header, front.getLastD BlockId.header⟩ := by
  have row := (threads.rows kind).1.1
  rw [parts] at row
  exact row.at_place

theorem follower_eq (threads : Threads layout lists)
    (parts : lists kind = front ++ block :: back) :
    layout.follower kind (front.getLastD BlockId.header) = some block := by
  rcases List.eq_nil_or_concat front with rfl | ⟨before, last, rfl⟩
  · simp [Layout.follower_of_null, threads.ends_eq, parts]
  · have parts' : lists kind = before ++ last :: block :: back := by simp [parts]
    have listed : last ∈ lists kind := by simp [parts']
    simp [Layout.follower_of_ne _ _ (threads.real listed), threads.heads_eq parts']

/-- Once a page is passed over, another one follows the page before it. -/
theorem diverted {layout' : Layout} (threads : Threads layout lists)
    (parts : lists kind = front ++ block :: back)
    (followed : layout'.follower kind (front.getLastD BlockId.header) =
      some (back.headD BlockId.header)) :
    layout'.follower kind (front.getLastD BlockId.header) ≠
      layout.follower kind (front.getLastD BlockId.header) := by
  rw [followed, threads.follower_eq parts]
  intro same
  have near := headD_mem_cons back
  rw [Option.some.inj same] at near
  rcases List.mem_cons.mp near with rfl | again
  · exact threads.null_notMem kind (by simp [parts])
  · have nodup := threads.nodup kind
    rw [parts, List.nodup_append] at nodup
    exact (List.nodup_cons.mp nodup.2.1).1 again

/-- One list is changed, and nothing of the others. -/
theorem edited {layout' : Layout} {row : List BlockId} (threads : Threads layout lists)
    (null : layout'.heads BlockId.header = none) (own : layout'.Lists kind row)
    (heads_kept : ∀ other ≠ kind, ∀ page ∈ lists other, layout'.heads page = layout.heads page)
    (ends_kept : ∀ other ≠ kind, layout'.header.ends other = layout.header.ends other) :
    Threads layout' (Function.update lists kind row) := by
  refine ⟨null, fun other => ?_⟩
  by_cases same : other = kind
  · subst same
    rwa [Function.update_self]
  · rw [Function.update_of_ne same]
    exact (threads.rows other).congr (heads_kept other same) (ends_kept other same)

theorem unlink (threads : Threads layout lists) (parts : lists kind = front ++ block :: back) :
    Threads
      ((layout.joinNext kind (front.getLastD BlockId.header)
        (back.headD BlockId.header)).joinPrev kind (back.headD BlockId.header)
          (front.getLastD BlockId.header))
      (Function.update lists kind (front ++ back)) := by
  have nodup := threads.nodup kind
  have outside := threads.null_notMem kind
  have whole := threads.rows kind
  rw [parts] at nodup outside whole
  obtain ⟨fronts, backs⟩ := Layout.lists_append_iff.mp whole
  have before : front.getLastD BlockId.header ∈ BlockId.header :: front :=
    List.getLastD_mem_cons
  have after := headD_mem_cons back
  have behind : layout.Backs kind block back := by
    refine ⟨backs.1.2, ?_⟩
    rw [backs.2, List.getLastD_cons]
  refine threads.edited ?_ ?_ (fun other same page member => ?_) fun other same => ?_
  · rw [Layout.null_joinPrev, Layout.null_joinNext, threads.null]
  · refine Layout.lists_append_iff.mpr ⟨?_, ?_⟩
    · apply (fronts.joinNext threads.null (back.headD BlockId.header)).congr
      · intro page member
        apply Layout.heads_joinPrev_of_ne
        grind
      · exact Layout.first_joinPrev _
    · have kept : (layout.joinNext kind (front.getLastD BlockId.header)
          (back.headD BlockId.header)).Backs kind block back := by
        apply behind.congr
        · intro page member
          apply Layout.heads_joinNext_of_ne
          grind
        · exact Layout.last_joinNext _
      apply kept.joinPrev
      · rw [Layout.null_joinNext, threads.null]
      · grind
  · rw [Layout.heads_joinPrev_of_ne, Layout.heads_joinNext_of_ne]
    · exact threads.apart same (by rw [parts]; grind) member
    · exact threads.apart same (by rw [parts]; grind) member
  · rw [Layout.ends_joinPrev_of_ne _ same, Layout.ends_joinNext_of_ne _ same]

theorem setBody (threads : Threads layout lists) (block : BlockId) (body : Bytes) :
    Threads (layout.setBody block body) lists :=
  ⟨threads.null, threads.rows⟩

theorem put (threads : Threads layout lists) (real : block ≠ BlockId.header)
    (fresh : ∀ kind, block ∉ lists kind) (header : PageHeader) :
    Threads (layout.put block header) lists := by
  refine ⟨?_, fun kind => ?_⟩
  · exact (Function.update_of_ne real.symm _ _).trans threads.null
  · apply (threads.rows kind).congr
    · intro page member
      apply Function.update_of_ne
      rintro rfl
      exact fresh kind member
    · rfl

theorem append (threads : Threads layout lists) (real : block ≠ BlockId.header)
    (fresh : ∀ kind, block ∉ lists kind) :
    Threads
      (((layout.put block ⟨kind, BlockId.header, (lists kind).getLastD BlockId.header⟩).joinNext
        kind ((lists kind).getLastD BlockId.header) block).setLast kind block)
      (Function.update lists kind (lists kind ++ [block])) := by
  have placed := threads.put real fresh
    ⟨kind, BlockId.header, (lists kind).getLastD BlockId.header⟩
  have tail : (lists kind).getLastD BlockId.header ∈ BlockId.header :: lists kind :=
    List.getLastD_mem_cons
  have unlinked : block ≠ (lists kind).getLastD BlockId.header := by
    have := fresh kind
    grind
  have fronts := (placed.rows kind).fronts
  refine placed.edited ?_ ?_ (fun other same page member => ?_) fun other same => ?_
  · exact (Layout.null_joinNext _).trans placed.null
  · refine Layout.lists_append_iff.mpr ⟨?_, ⟨?_, trivial⟩, ?_⟩
    · apply (fronts.joinNext placed.null block).congr
      · exact fun _ _ => rfl
      · simp [Layout.setLast]
    · refine (Layout.heads_joinNext_of_ne _ unlinked).trans ?_
      simp [Layout.put]
    · simp [Layout.setLast]
  · exact Layout.heads_joinNext_of_ne _ (threads.apart same tail member)
  · simp only [Layout.setLast, FileHeader.ends_setLast, same, if_false]
    exact Layout.ends_joinNext_of_ne _ same

theorem push (threads : Threads layout lists) (real : block ≠ BlockId.header)
    (fresh : ∀ kind, block ∉ lists kind) :
    Threads
      (((layout.put block ⟨kind, (lists kind).headD BlockId.header, BlockId.header⟩).joinPrev
        kind ((lists kind).headD BlockId.header) block).setFirst kind block)
      (Function.update lists kind (block :: lists kind)) := by
  have placed := threads.put real fresh
    ⟨kind, (lists kind).headD BlockId.header, BlockId.header⟩
  have head := headD_mem_cons (lists kind)
  have unlinked : block ≠ (lists kind).headD BlockId.header := by
    have := fresh kind
    grind
  have backs := (placed.rows kind).1
  refine placed.edited ?_ ?_ (fun other same page member => ?_) fun other same => ?_
  · exact (Layout.null_joinPrev _).trans placed.null
  · rw [← List.singleton_append]
    refine Layout.lists_append_iff.mpr ⟨⟨⟨?_, trivial⟩, ?_⟩, ?_⟩
    · refine (Layout.heads_joinPrev_of_ne _ unlinked).trans ?_
      simp [Layout.put]
    · simp [Layout.setFirst]
    · apply (backs.joinPrev placed.null (placed.null_notMem kind) block).congr
      · exact fun _ _ => rfl
      · simp [Layout.setFirst]
  · exact Layout.heads_joinPrev_of_ne _ (threads.apart same head member)
  · simp only [Layout.setFirst, FileHeader.ends_setFirst, same, if_false]
    exact Layout.ends_joinPrev_of_ne _ same

end Threads

end Paging

end DirectoryStore
