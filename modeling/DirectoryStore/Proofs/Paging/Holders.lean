import DirectoryStore.Proofs.Paging.Blocks

/-!
# Callers that hold blocks

Callers fetch blocks, change the pages they hold byte by byte, and release them in any
order while others are held.  A history keeps each act with the state before and after
it, and tells what every block holds: the data of its last changed release, else what
the file held at the start, else zeros.  `Tends` says that the file is what its history
tells.  Every act keeps that, and is answered as the history before it tells.
-/

namespace DirectoryStore

/-- The bytes of a block as they stand in a byte store; behind its end they are zeros. -/
def Contents.block (contents : Contents) (width : Nat) (block : BlockId) : Bytes :=
  if block.toNat * width < contents.size then contents.slice (block.toNat * width) width
  else Bytes.zeros width

namespace Paging

section

variable {width : Nat}

theorem Whole.block_eq {blocks : List Bytes} (whole : Whole width blocks) (positive : 0 < width)
    {contents : Contents} (bytes_eq : contents.bytes = joined blocks) (block : BlockId) :
    contents.block width block = blockAt width blocks block := by
  have size_eq : contents.size = blocks.length * width := by
    rw [contents.size_eq, bytes_eq, whole.length_joined]
  have below_iff : block.toNat * width < contents.size ↔ block.toNat < blocks.length := by
    rw [size_eq, Nat.mul_lt_mul_right positive]
  unfold Contents.block
  by_cases inside : block.toNat < blocks.length
  · rw [if_pos (below_iff.mpr inside), Contents.slice, bytes_eq, whole.slice_joined inside]
    simp [blockAt, inside]
  · have outside : blocks.length ≤ block.toNat := Nat.not_lt.mp inside
    rw [if_neg (mt below_iff.mp inside)]
    simp [blockAt, List.getElem?_eq_none outside]

theorem exists_blocks {count : Nat} {bytes : Bytes} (length_eq : bytes.length = count * width) :
    ∃ blocks, Whole width blocks ∧ bytes = joined blocks := by
  induction count generalizing bytes with
  | zero =>
      obtain rfl : bytes = [] := List.length_eq_zero_iff.mp (by simpa using length_eq)
      exact ⟨[], List.forall_mem_nil _, rfl⟩
  | succ count ih =>
      rw [Nat.succ_mul] at length_eq
      have rest_length : (bytes.drop width).length = count * width := by
        rw [List.length_drop]
        omega
      obtain ⟨rest, rest_whole, rest_eq⟩ := ih rest_length
      refine ⟨bytes.take width :: rest, ?_, ?_⟩
      · intro block member
        rcases List.mem_cons.mp member with rfl | member
        · rw [List.length_take]
          omega
        · exact rest_whole block member
      · show bytes = bytes.take width ++ joined rest
        rw [← rest_eq, List.take_append_drop]

end

/-! ## Acts of callers -/

inductive Act where
  | fetch (block : BlockId)
  | edit (block : BlockId) (index : Nat) (byte : UInt8)
  | release (block : BlockId) (changed : Bool)
  deriving DecidableEq, Repr

/-- A block file, and the pages that were fetched from it and not released. -/
structure Desk where
  file : BlockFile
  held : List Page

def Page.setByte (page : Page) (index : Nat) (byte : UInt8) : Page :=
  { page with data := page.data.set index byte }

namespace Desk

def page? (desk : Desk) (block : BlockId) : Option Page :=
  desk.held.find? (·.block == block)

/-- Only a page that is held can be changed or released. -/
def perform (desk : Desk) : Act → Except Error (Option Page) × Desk
  | .fetch block =>
      match BlockFile.fetch block desk.file with
      | (.ok page, file) => (.ok (some page), ⟨file, page :: desk.held⟩)
      | (.error error, file) => (.error error, ⟨file, desk.held⟩)
  | .edit block index byte =>
      (.ok none, { desk with
        held := desk.held.map fun page =>
          if page.block = block then page.setByte index byte else page })
  | .release block changed =>
      match desk.page? block with
      | none => (.ok none, desk)
      | some page =>
          let (released, file) := BlockFile.release page changed desk.file
          (released.map fun _ => none, ⟨file, desk.held.eraseP (·.block == block)⟩)

structure Moment where
  act : Act
  before : Desk
  answer : Except Error (Option Page)
  after : Desk

def moment (desk : Desk) (act : Act) : Moment :=
  ⟨act, desk, (desk.perform act).1, (desk.perform act).2⟩

def live (desk : Desk) : List Act → List Moment
  | [] => []
  | act :: rest => desk.moment act :: (desk.moment act).after.live rest

/-! ## What a history tells -/

def Moment.written? (moment : Moment) (block : BlockId) : Option Bytes :=
  match moment.act with
  | .release released true =>
      if released = block then (moment.before.page? released).map (·.data) else none
  | _ => none

def lastWritten (moments : List Moment) (block : BlockId) : Option Bytes :=
  (moments.filterMap (·.written? block)).getLast?

/-- The data of the last changed release of a block, or what it held at the start. -/
def told (width : Nat) (initial : Contents) (moments : List Moment) (block : BlockId) : Bytes :=
  (lastWritten moments block).getD (initial.block width block)

structure Writes (width : Nat) (old new : Contents) (page : Page) : Prop where
  blocks_eq : ∀ block, new.block width block =
    if block = page.block then page.data else old.block width block
  filled : ∀ block : BlockId, old.size ≤ block.toNat * width → block.toNat < page.block.toNat →
    new.slice (block.toNat * width) width = Bytes.zeros width
  size_eq : new.size = max old.size ((page.block.toNat + 1) * width)

/-- What an act does and answers, given what happened before it. -/
structure Moment.Follows (width : Nat) (initial : Contents) (earlier : List Moment)
    (moment : Moment) : Prop where
  refused : ∀ block, moment.act = .fetch block → block ∈ moment.before.held.map (·.block) →
    moment.answer = .error (.pageInUse block) ∧ moment.after = moment.before
  fetched : ∀ block, moment.act = .fetch block → block ∉ moment.before.held.map (·.block) →
    moment.answer = .ok (some ⟨block, told width initial earlier block⟩) ∧
      moment.after.held = ⟨block, told width initial earlier block⟩ :: moment.before.held
  stores : ∀ block page, moment.act = .release block true →
    moment.before.page? block = some page →
    moment.answer = .ok none ∧
      Writes width moment.before.file.contents moment.after.file.contents page
  spares : (∀ block, moment.act ≠ .release block true) →
    moment.after.file.contents = moment.before.file.contents ∧
      ∀ error, moment.answer = .error error → ∃ block, moment.act = .fetch block
  whole : moment.after.file.contents.size % width = 0

/-! ## What each act does to the blocks -/

/-- The file holds the blocks, and knows which of them are held by callers. -/
structure Holds (width : Nat) (desk : Desk) (blocks : List Bytes) : Prop where
  stores : Stores width desk.file blocks (desk.held.map (·.block))
  lengths : ∀ page ∈ desk.held, page.data.length = width

section

variable {width : Nat} {desk : Desk} {blocks : List Bytes} {block : BlockId} {page : Page}

theorem mem_of_page? (found : desk.page? block = some page) :
    page ∈ desk.held ∧ page.block = block :=
  ⟨List.mem_of_find?_eq_some found, by simpa using List.find?_some found⟩

theorem map_eraseP (held : List Page) (block : BlockId) :
    (held.eraseP (·.block == block)).map (·.block) = (held.map (·.block)).erase block := by
  rw [List.erase_eq_eraseP, List.eraseP_map]
  simp only [Function.comp_def, Bool.beq_comm]

namespace Holds

theorem fetch_held (holds : Holds width desk blocks) (held : block ∈ desk.held.map (·.block)) :
    desk.perform (.fetch block) = (.error (.pageInUse block), desk) := by
  have inUse : desk.file.isInUse block = true := by
    simpa [BlockFile.isInUse, holds.stores.held_eq] using held
  have refused : BlockFile.fetch block desk.file = (.error (.pageInUse block), desk.file) := by
    unfold BlockFile.fetch
    rw [get_bind_apply, inUse]
    rfl
  simp only [perform, refused]

theorem fetch_unheld (holds : Holds width desk blocks)
    (unheld : block ∉ desk.held.map (·.block)) :
    ∃ file, desk.perform (.fetch block) = (.ok (some ⟨block, blockAt width blocks block⟩),
        ⟨file, ⟨block, blockAt width blocks block⟩ :: desk.held⟩) ∧
      Holds width ⟨file, ⟨block, blockAt width blocks block⟩ :: desk.held⟩ blocks := by
  obtain ⟨page, file, fetched, rfl, stores⟩ := (holds.stores.fetch unheld).succeeds
  refine ⟨file, by simp only [perform, fetched], stores, fun page member => ?_⟩
  rcases List.mem_cons.mp member with rfl | member
  · exact stores.whole.length_blockAt block
  · exact holds.lengths page member

theorem edit (holds : Holds width desk blocks) (block : BlockId) (index : Nat) (byte : UInt8) :
    Holds width (desk.perform (.edit block index byte)).2 blocks := by
  have same_block (page : Page) :
      (if page.block = block then page.setByte index byte else page).block = page.block := by
    split <;> rfl
  have same_length (page : Page) :
      (if page.block = block then page.setByte index byte else page).data.length =
        page.data.length := by
    split
    · exact List.length_set
    · rfl
  constructor
  · simpa only [perform, List.map_map, Function.comp_def, same_block] using holds.stores
  · intro page member
    obtain ⟨before, was_held, rfl⟩ := List.mem_map.mp member
    rw [same_length]
    exact holds.lengths before was_held

theorem released (holds : Holds width desk blocks) (found : desk.page? block = some page)
    {file : BlockFile} {blocks' : List Bytes}
    (stores : Stores width file blocks' ((desk.held.map (·.block)).erase page.block)) :
    Holds width ⟨file, desk.held.eraseP (·.block == block)⟩ blocks' := by
  obtain ⟨-, rfl⟩ := mem_of_page? found
  rw [← map_eraseP] at stores
  exact ⟨stores, fun other member => holds.lengths other (List.mem_of_mem_eraseP member)⟩

theorem release_unchanged (holds : Holds width desk blocks)
    (found : desk.page? block = some page) :
    ∃ after, desk.perform (.release block false) = (.ok none, after) ∧
      Holds width after blocks := by
  obtain ⟨⟨⟩, file, ran, stores⟩ := (holds.stores.releaseUnchanged page).succeeds
  exact ⟨_, by simp only [perform, found, ran, Except.map], holds.released found stores⟩

theorem release_changed (holds : Holds width desk blocks)
    (found : desk.page? block = some page) :
    ∃ after, desk.perform (.release block true) = (.ok none, after) ∧
      Holds width after (putBlock width blocks page.block.toNat page.data) := by
  have fits := holds.lengths page (mem_of_page? found).1
  obtain ⟨⟨⟩, file, ran, stores⟩ := (holds.stores.releaseChanged fits).succeeds
  exact ⟨_, by simp only [perform, found, ran, Except.map], holds.released found stores⟩

theorem release_unheld (missing : desk.page? block = none) (changed : Bool) :
    desk.perform (.release block changed) = (.ok none, desk) := by
  simp only [perform, missing]

/-- Only a changed release changes the blocks, and only a fetch can be refused. -/
theorem spare (holds : Holds width desk blocks) {act : Act}
    (unwritten : ∀ block page, act = .release block true → desk.page? block ≠ some page) :
    Holds width (desk.perform act).2 blocks ∧
      ∀ error, (desk.perform act).1 = .error error → ∃ block, act = .fetch block := by
  cases act with
  | fetch block =>
      refine ⟨?_, fun _ _ => ⟨block, rfl⟩⟩
      by_cases held : block ∈ desk.held.map (·.block)
      · rw [holds.fetch_held held]
        exact holds
      · obtain ⟨file, ran, holds'⟩ := holds.fetch_unheld held
        rw [ran]
        exact holds'
  | edit block index byte => exact ⟨holds.edit block index byte, fun _ refused => nomatch refused⟩
  | release block changed =>
      cases found : desk.page? block with
      | none =>
          rw [release_unheld found]
          exact ⟨holds, fun _ refused => nomatch refused⟩
      | some page =>
          obtain rfl : changed = false := by
            cases changed
            · rfl
            · exact absurd found (unwritten block page rfl)
          obtain ⟨after, ran, holds'⟩ := holds.release_unchanged found
          rw [ran]
          exact ⟨holds', fun _ refused => nomatch refused⟩

theorem contents_eq (holds : Holds width desk blocks) {after : Desk}
    (holds' : Holds width after blocks) : after.file.contents = desk.file.contents :=
  Contents.ext (holds'.stores.bytes_eq.trans holds.stores.bytes_eq.symm)

theorem block_eq (holds : Holds width desk blocks) (block : BlockId) :
    desk.file.contents.block width block = blockAt width blocks block :=
  holds.stores.whole.block_eq holds.stores.positive holds.stores.bytes_eq block

theorem size_eq (holds : Holds width desk blocks) :
    desk.file.contents.size = blocks.length * width := by
  rw [Contents.size_eq, holds.stores.length_eq]

theorem writes (holds : Holds width desk blocks) {after : Desk}
    (holds' : Holds width after (putBlock width blocks page.block.toNat page.data)) :
    Writes width desk.file.contents after.file.contents page := by
  have blocks_eq (block : BlockId) : after.file.contents.block width block =
      if block = page.block then page.data else desk.file.contents.block width block := by
    rw [holds'.block_eq, blockAt_putBlock, holds.block_eq]
  have size_eq : after.file.contents.size =
      max desk.file.contents.size ((page.block.toNat + 1) * width) := by
    rw [holds.size_eq, holds'.size_eq, length_putBlock, Nat.mul_max_mul_right]
  refine ⟨blocks_eq, fun block missing before => ?_, size_eq⟩
  have other : block ≠ page.block := fun same => by simp [same] at before
  have inside : block.toNat * width < after.file.contents.size := by
    have below : block.toNat * width < (page.block.toNat + 1) * width :=
      Nat.mul_lt_mul_of_pos_right (Nat.lt_succ_of_lt before) holds.stores.positive
    omega
  have here := blocks_eq block
  rwa [if_neg other, Contents.block, if_pos inside, Contents.block,
    if_neg (Nat.not_lt.mpr missing)] at here

end Holds

end

/-! ## Files that are what their history tells -/

theorem lastWritten_append (moments : List Moment) (moment : Moment) (block : BlockId) :
    lastWritten (moments ++ [moment]) block =
      (moment.written? block).or (lastWritten moments block) := by
  cases written : moment.written? block <;>
    simp [lastWritten, List.filterMap_append, written]

theorem told_append (width : Nat) (initial : Contents) (moments : List Moment)
    (moment : Moment) (block : BlockId) :
    told width initial (moments ++ [moment]) block =
      (moment.written? block).getD (told width initial moments block) := by
  unfold told
  rw [lastWritten_append]
  cases moment.written? block <;> rfl

def Tends (width : Nat) (initial : Contents) (moments : List Moment) (desk : Desk) : Prop :=
  ∃ blocks, Holds width desk blocks ∧
    ∀ block, blockAt width blocks block = told width initial moments block

section

variable {width : Nat} {initial : Contents} {past : List Moment} {desk : Desk}

theorem Tends.whole (tends : Tends width initial past desk) :
    desk.file.contents.size % width = 0 := by
  obtain ⟨blocks, holds, -⟩ := tends
  rw [holds.size_eq, Nat.mul_mod_left]

theorem written?_release {block : BlockId} {page : Page} (found : desk.page? block = some page)
    (other : BlockId) : (desk.moment (.release block true)).written? other =
      if other = page.block then some page.data else none := by
  obtain ⟨-, rfl⟩ := mem_of_page? found
  simp only [Moment.written?, moment, found, Option.map_some, eq_comm]

theorem written?_spare {act : Act}
    (unwritten : ∀ block page, act = .release block true → desk.page? block ≠ some page)
    (block : BlockId) : (desk.moment act).written? block = none := by
  unfold Moment.written?
  split
  · rename_i released act_eq
    have missing : (desk.moment act).before.page? released = none :=
      Option.eq_none_iff_forall_ne_some.mpr fun page => unwritten released page act_eq
    simp only [missing, Option.map_none, ite_self]
  · rfl

theorem Tends.after (tends : Tends width initial past desk) (act : Act) :
    Tends width initial (past ++ [desk.moment act]) (desk.moment act).after := by
  obtain ⟨blocks, holds, told_eq⟩ := tends
  by_cases writing : ∃ block page, act = .release block true ∧ desk.page? block = some page
  · obtain ⟨block, page, rfl, found⟩ := writing
    obtain ⟨after, ran, holds'⟩ := holds.release_changed found
    have after_eq : (desk.moment (.release block true)).after = after := congrArg Prod.snd ran
    rw [after_eq]
    refine ⟨_, holds', fun other => ?_⟩
    rw [told_append, blockAt_putBlock, written?_release found, told_eq]
    split <;> rfl
  · have unwritten (block : BlockId) (page : Page) (act_eq : act = .release block true) :
        desk.page? block ≠ some page :=
      fun found => writing ⟨block, page, act_eq, found⟩
    refine ⟨blocks, (holds.spare unwritten).1, fun block => ?_⟩
    rw [told_append, written?_spare unwritten, told_eq]
    rfl

theorem Tends.follows (tends : Tends width initial past desk) (act : Act) :
    (desk.moment act).Follows width initial past := by
  have whole := (tends.after act).whole
  obtain ⟨blocks, holds, told_eq⟩ := tends
  refine ⟨?_, ?_, ?_, ?_, whole⟩
  · rintro block rfl held
    have ran := holds.fetch_held held
    exact ⟨congrArg Prod.fst ran, congrArg Prod.snd ran⟩
  · rintro block rfl unheld
    obtain ⟨file, ran, -⟩ := holds.fetch_unheld unheld
    rw [told_eq] at ran
    exact ⟨congrArg Prod.fst ran, congrArg (·.2.held) ran⟩
  · rintro block page rfl found
    obtain ⟨after, ran, holds'⟩ := holds.release_changed found
    have after_eq : (desk.moment (.release block true)).after = after := congrArg Prod.snd ran
    rw [after_eq]
    exact ⟨congrArg Prod.fst ran, holds.writes holds'⟩
  · intro unwritten
    obtain ⟨holds', refused⟩ := holds.spare fun block page act_eq => absurd act_eq (unwritten block)
    exact ⟨holds.contents_eq holds', refused⟩

theorem Tends.live (tends : Tends width initial past desk) {acts : List Act}
    {earlier later : List Moment} {moment : Moment}
    (run_eq : desk.live acts = earlier ++ moment :: later) :
    moment.Follows width initial (past ++ earlier) := by
  induction acts generalizing desk past earlier with
  | nil => simp [Desk.live] at run_eq
  | cons act rest ih =>
      rw [Desk.live] at run_eq
      cases earlier with
      | nil =>
          obtain ⟨rfl, -⟩ := List.cons.inj run_eq
          simpa using tends.follows act
      | cons first earlier =>
          obtain ⟨rfl, rest_eq⟩ := List.cons.inj run_eq
          simpa using ih (tends.after act) rest_eq

end

/-! ## Runs on files without failures -/

variable {width : Nat} {initial : Contents} {handle : Handle} {injection : Injection Request}

theorem exists_stores (positive : 0 < width) (aligned : initial.size % width = 0)
    (knows : handle.Knows initial) (plan_eq : injection.plan = FailurePlan.never) :
    ∃ blocks, Stores width ⟨initial, handle, injection, width, []⟩ blocks [] := by
  have length_eq : initial.bytes.length = initial.size / width * width := by
    rw [← initial.size_eq, Nat.div_mul_cancel (Nat.dvd_of_mod_eq_zero aligned)]
  obtain ⟨blocks, whole, bytes_eq⟩ := exists_blocks length_eq
  exact ⟨blocks, rfl, positive, whole, bytes_eq, knows, plan_eq, rfl⟩

theorem acts_follow_releases (positive : 0 < width) (aligned : initial.size % width = 0)
    (knows : handle.Knows initial) (plan_eq : injection.plan = FailurePlan.never) :
    ∃ opened, BlockFile.requireWholeBlocks ⟨initial, handle, injection, width, []⟩ =
        (.ok (), opened) ∧ opened.contents = initial ∧
      ∀ acts earlier moment later,
        Desk.live ⟨opened, []⟩ acts = earlier ++ moment :: later →
          moment.Follows width initial earlier := by
  obtain ⟨blocks, stores⟩ := exists_stores positive aligned knows plan_eq
  obtain ⟨⟨⟩, opened, ran, stores'⟩ := stores.requireWholeBlocks.succeeds
  have holds : Holds width ⟨opened, []⟩ blocks := ⟨stores', List.forall_mem_nil _⟩
  have tends : Tends width initial [] ⟨opened, []⟩ :=
    ⟨blocks, holds, fun block =>
      (stores.whole.block_eq positive stores.bytes_eq block).symm⟩
  have same : opened.contents = initial :=
    Contents.ext (stores'.bytes_eq.trans stores.bytes_eq.symm)
  exact ⟨opened, ran, same, fun _ _ _ _ run_eq => tends.live run_eq⟩

/-- Block 3 is fetched and changed before the file reaches it, and block 0 meanwhile. -/
def fillingActs : List Act :=
  [.fetch 3, .fetch 0, .edit 3 0 7, .fetch 3, .edit 0 1 9, .release 3 true, .fetch 2,
    .release 0 false, .fetch 3, .fetch 0]

theorem acts_follow_releases_filling :
    ∃ opened, BlockFile.requireWholeBlocks
        ⟨.ofBytes [1, 2, 3, 4], .buffer, .never, 2, []⟩ = (.ok (), opened) ∧
      ∃ earlier moment, Desk.live ⟨opened, []⟩ fillingActs = earlier ++ [moment] ∧
        moment.Follows 2 (.ofBytes [1, 2, 3, 4]) earlier ∧
        moment.before.file.contents.bytes = [1, 2, 3, 4, 0, 0, 7, 0] ∧
        moment.answer = .ok (some ⟨0, [1, 2]⟩) := by
  obtain ⟨opened, ran, -, follows⟩ :=
    @acts_follow_releases 2 (.ofBytes [1, 2, 3, 4]) .buffer .never (by decide) rfl rfl rfl
  obtain rfl : _ = opened := congrArg Prod.snd ran
  refine ⟨_, ran, ?_⟩
  have nonempty (desk : Desk) : desk.live fillingActs ≠ [] := List.cons_ne_nil _ _
  have split (desk : Desk) := (List.dropLast_concat_getLast (nonempty desk)).symm
  exact ⟨_, _, split _, follows _ _ _ [] (split _), rfl, rfl⟩

end Desk

end Paging

end DirectoryStore
