import DirectoryStore.Proofs.Log.InMemory

/-!
# Cutting a log

To cut a log at a place is to keep the segment of the place up to there, and a
segment whose header is cut gets its header back.  A log that is cut where a chain
stops is read up to the cut as before.  What is read then depends on the segment
behind: the log ends when that segment is missing, and goes on with it otherwise.
-/

namespace DirectoryStore.Log

/-! ## Segments that are put and removed -/

@[simp] theorem Segments.put_put (segments : Segments) (number : SegmentNumber)
    (first second : Option Bytes) :
    (segments.put number first).put number second = segments.put number second := by
  funext other
  unfold put
  split <;> rfl

theorem Segments.put_self {segments : Segments} {number : SegmentNumber}
    {bytes : Option Bytes} (stored : segments number = bytes) :
    segments.put number bytes = segments := by
  funext other
  unfold put
  split
  · subst_vars
    rfl
  · rfl

def Segments.without (segments : Segments) (numbers : List SegmentNumber) : Segments :=
  fun number => if number ∈ numbers then none else segments number

theorem Segments.without_cons (segments : Segments) (number : SegmentNumber)
    (rest : List SegmentNumber) :
    segments.without (number :: rest) = (segments.put number none).without rest := by
  funext other
  simp only [without, put, List.mem_cons]
  grind

@[simp] theorem Segments.without_nil (segments : Segments) :
    segments.without [] = segments := by
  funext number
  simp [without]

/-! ## Segments that are cut -/

def CanCut (segments : Segments) (number : SegmentNumber) (offset : Nat) : Prop :=
  offset < SegmentHeader.size ∨
    ∃ bytes, segments number = some bytes ∧ offset ≤ bytes.length

/-- What is left of a segment that is cut; a header that is cut is made anew. -/
def cutBytes (segments : Segments) (number : SegmentNumber) (offset : Nat) : Bytes :=
  if offset < SegmentHeader.size then headerBytes number
  else ((segments number).getD []).take offset

def cutAt (segments : Segments) (number : SegmentNumber) (offset : Nat) : Segments :=
  segments.put number (some (cutBytes segments number offset))

/-- The segments with nothing behind a position. -/
def Segments.cutAfter (segments : Segments) (place : LogAnchor) : Segments :=
  fun number =>
    if place.segment < number then none
    else cutAt segments place.segment place.offset number

theorem cutAt_of_ne {segments : Segments} {number other : SegmentNumber}
    (different : other ≠ number) (offset : Nat) :
    cutAt segments number offset other = segments other :=
  if_neg different

/-! ## Reading a log that was cut -/

theorem Chain.stop_place {segments : Segments} {number : SegmentNumber} {offset : Nat}
    {prior : Prior} {records : List Found} {stop : Stop}
    (chain : Chain segments number offset prior records stop) :
    stop.offset = 0 ∨ SegmentHeader.size ≤ stop.offset := by
  induction chain with
  | header _ _ _ ih | record _ _ _ _ ih | onward _ _ _ _ ih => exact ih
  | unheaded => exact .inl rfl
  | damaged past_header | pastEnd past_header | ended past_header =>
      exact .inr past_header

theorem Chain.of_agree_from {segments segments' : Segments} {number : SegmentNumber}
    {offset : Nat} {prior : Prior} {records : List Found} {stop : Stop}
    (chain : Chain segments number offset prior records stop)
    (agree : ∀ other, number ≤ other → segments' other = segments other) :
    Chain segments' number offset prior records stop := by
  have here := agree _ (Nat.le_refl _)
  induction chain with
  | header stored passed _ ih => exact .header (here.trans stored) passed (ih agree here)
  | unheaded stored broken => exact .unheaded (here.trans stored) broken
  | record past_header stored read _ ih =>
      exact .record past_header (here.trans stored) read (ih agree here)
  | damaged past_header stored inside broken =>
      exact .damaged past_header (here.trans stored) inside broken
  | pastEnd past_header stored beyond =>
      exact .pastEnd past_header (here.trans stored) beyond
  | onward past_header stored at_end _ ih =>
      have following : ∀ other, _ + 1 ≤ other → segments' other = segments other :=
        fun other beyond => agree other (Nat.le_of_succ_le beyond)
      exact .onward past_header (here.trans stored) at_end
        (ih following (following _ (Nat.le_refl _)))
  | ended past_header stored at_end missing =>
      exact .ended past_header (here.trans stored) at_end
        ((agree _ (Nat.le_succ _)).trans missing)

def cutEnd (offset : Nat) : Nat := max SegmentHeader.size offset

/-- The second log agrees with the first up to a place, and its segment there is cut. -/
structure CutLike (segments segments' : Segments) (number : SegmentNumber)
    (offset : Nat) : Prop where
  before : ∀ other < number, segments' other = segments other
  at_cut : segments' number = some (cutBytes segments number offset)

namespace CutLike

variable {segments segments' : Segments} {number : SegmentNumber} {prior : Prior}
  {records : List Found} {stop : Stop}

theorem agree {offset : Nat} {bytes : Bytes} (cut : CutLike segments segments' number offset)
    (stored : segments number = some bytes) (past_header : SegmentHeader.size ≤ offset)
    (inside : offset ≤ bytes.length) :
    segments' number = some (bytes.take offset) ∧
      Chain.AgreeUpTo segments segments' number offset := by
  have at_cut := cut.at_cut
  rw [cutBytes, if_neg (Nat.not_lt.mpr past_header), stored, Option.getD_some] at at_cut
  exact ⟨at_cut, cut.before, _, _, stored, at_cut, .take inside⟩

theorem chain (cut : CutLike segments segments' stop.segment stop.offset)
    (chain : Chain segments number 0 prior records stop)
    (fits : stop.segment < UInt64.size) {rest : List Found} {stop' : Stop}
    (tail : ∀ {bytes : Bytes}, segments' stop.segment = some bytes →
      bytes.length = cutEnd stop.offset →
      Chain segments' stop.segment (cutEnd stop.offset) (prior.following records)
        rest stop') :
    Chain segments' number 0 prior (records ++ rest) stop' := by
  obtain ⟨first_bytes, first_stored⟩ := chain.stored
  obtain ⟨bytes, stored, inside⟩ := chain.stop_inside first_stored (Nat.zero_le _)
  have at_cut := cut.at_cut
  rcases chain.stop_place with at_start | past_header
  · have short : stop.offset < SegmentHeader.size := by
      rw [at_start]
      decide
    have header : cutBytes segments stop.segment stop.offset =
        headerBytes stop.segment := if_pos short
    have whole : cutEnd stop.offset = SegmentHeader.size := Nat.max_eq_left short.le
    rw [header] at at_cut
    have headed := headed_headerBytes fits []
    rw [List.append_nil] at headed
    have tail := tail at_cut (by rw [length_headerBytes, whole])
    rw [whole] at tail
    have agree : Chain.AgreeUpTo segments segments' stop.segment stop.offset :=
      ⟨cut.before, _, _, stored, at_cut, by simp [at_start], by simp [at_start],
        by simp [at_start]⟩
    refine chain.resume agree ?_
    rw [at_start]
    exact .header at_cut (checkHeader_eq_ok_iff.mpr headed) tail
  · obtain ⟨kept, agree⟩ := cut.agree stored past_header inside
    have whole : cutEnd stop.offset = stop.offset := Nat.max_eq_right past_header
    have tail := tail kept (by rw [whole, List.length_take, Nat.min_eq_left inside])
    rw [whole] at tail
    exact chain.resume agree tail

theorem cutEnd_ge (offset : Nat) : SegmentHeader.size ≤ cutEnd offset :=
  Nat.le_max_left _ _

theorem ended (cut : CutLike segments segments' stop.segment stop.offset)
    (chain : Chain segments number 0 prior records stop)
    (fits : stop.segment < UInt64.size) (missing : segments' (stop.segment + 1) = none) :
    Chain segments' number 0 prior records
      ⟨none, stop.segment, cutEnd stop.offset⟩ := by
  have whole := cut.chain chain fits fun stored at_end =>
    .ended (cutEnd_ge _) stored at_end missing
  rwa [List.append_nil] at whole

theorem onward (cut : CutLike segments segments' stop.segment stop.offset)
    (chain : Chain segments number 0 prior records stop)
    (fits : stop.segment < UInt64.size)
    (agree : ∀ other, stop.segment < other → segments' other = segments other)
    {behind : List Found} {stop' : Stop}
    (next : Chain segments (stop.segment + 1) 0 (prior.following records) behind stop') :
    Chain segments' number 0 prior (records ++ behind) stop' :=
  cut.chain chain fits fun stored at_end =>
    .onward (cutEnd_ge _) stored at_end (next.of_agree_from agree)

end CutLike

end DirectoryStore.Log
