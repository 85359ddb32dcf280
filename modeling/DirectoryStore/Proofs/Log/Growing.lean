import DirectoryStore.Proofs.Log.Appending

/-!
# How a log grows

A log with a writer at its end holds the records of a chain up to the writer's
segment.  Behind it there may be one more segment, begun by a step that failed: it
holds no record, and the writer does not know of it.  `Grown` says so, and each way
in which an append ends leads from one grown log to another.  When the writer is
gone, a scan reads the same records and stops in the last segment there is.
-/

namespace DirectoryStore.Log

/-! ## Chains that get longer -/

section

variable {segments segments' : Segments} {first number : SegmentNumber} {offset size : Nat}
  {prior : Prior} {records : List Found}

theorem Chain.of_recordBytes {base payload : Bytes} {lsn : Lsn}
    (stored : segments number = some (base ++ recordBytes lsn payload))
    (past_header : SegmentHeader.size ≤ base.length) (fits : lsn < UInt64.size)
    (storable : Storable payload) (admits : prior.Admits lsn)
    (missing : segments (number + 1) = none) :
    Chain segments number base.length prior [⟨number, base.length, lsn, payload⟩]
      ⟨none, number, (base ++ recordBytes lsn payload).length⟩ := by
  have stands := recordAt_recordBytes base [] fits storable
  rw [List.append_nil] at stands
  have behind : (base ++ recordBytes lsn payload).length =
      base.length + frameSize + payload.length := by
    simp
    omega
  refine .record past_header stored (recordAt_eq_ok_iff.mpr ⟨stands, admits⟩) ?_
  rw [behind]
  exact .ended (Nat.le_trans past_header (by omega)) stored behind missing

theorem Chain.of_headerBytes (stored : segments number = some (headerBytes number))
    (fits : number < UInt64.size) (missing : segments (number + 1) = none) :
    Chain segments number 0 prior [] ⟨none, number, SegmentHeader.size⟩ := by
  have headed := headed_headerBytes fits []
  rw [List.append_nil] at headed
  exact .header stored (checkHeader_eq_ok_iff.mpr headed)
    (.ended (Nat.le_refl _) stored (length_headerBytes number) missing)

theorem Chain.append_record {bytes payload : Bytes} {lsn : Lsn}
    (chain : Chain segments first offset prior records ⟨none, number, bytes.length⟩)
    (stored : segments number = some bytes) (fits : lsn < UInt64.size)
    (storable : Storable payload) (admits : (prior.following records).Admits lsn) :
    Chain (segments.put number (some (bytes ++ recordBytes lsn payload))) first offset prior
      (records ++ [⟨number, bytes.length, lsn, payload⟩])
      ⟨none, number, (bytes ++ recordBytes lsn payload).length⟩ := by
  obtain ⟨past_header, -, missing⟩ := chain.eof_place rfl
  have here : segments.put number (some (bytes ++ recordBytes lsn payload)) number =
      some (bytes ++ recordBytes lsn payload) := if_pos rfl
  have agree : Chain.AgreeUpTo segments
      (segments.put number (some (bytes ++ recordBytes lsn payload))) number bytes.length :=
    ⟨fun other earlier => if_neg (Nat.ne_of_lt earlier), _, _, stored, here, .append _ _⟩
  exact chain.resume agree (.of_recordBytes here past_header fits storable admits
    ((if_neg (Nat.succ_ne_self _)).trans missing))

theorem Chain.go_on (chain : Chain segments first offset prior records ⟨none, number, size⟩)
    (agree : ∀ other ≤ number, segments' other = segments other) {rest : List Found}
    {stop : Stop} (next : Chain segments' (number + 1) 0 (prior.following records) rest stop) :
    Chain segments' first offset prior (records ++ rest) stop := by
  obtain ⟨past_header, ⟨bytes, stored, length⟩, -⟩ := chain.eof_place rfl
  have here := (agree number (Nat.le_refl _)).trans stored
  exact chain.resume ⟨fun other earlier => agree other earlier.le, _, _, stored, here,
    .refl length.ge⟩ (.onward past_header here length next)

theorem Chain.begin_segment
    (chain : Chain segments first offset prior records ⟨none, number, size⟩)
    (fits : number + 1 < UInt64.size) (missing : segments (number + 1 + 1) = none) :
    Chain (segments.begun number (headerBytes (number + 1))) first offset prior records
      ⟨none, number + 1, SegmentHeader.size⟩ := by
  have header : segments.begun number (headerBytes (number + 1)) (number + 1) =
      some (headerBytes (number + 1)) := if_pos rfl
  have ended : segments.begun number (headerBytes (number + 1)) (number + 1 + 1) = none :=
    (if_neg (Nat.succ_ne_self _)).trans missing
  have whole := chain.go_on (fun _ le => if_neg (Nat.ne_of_lt (Nat.lt_succ_of_le le)))
    (Chain.of_headerBytes header fits ended)
  rw [List.append_nil] at whole
  exact whole

end

/-! ## Segments without records -/

theorem IsBegun.chain {segments : Segments} {number : SegmentNumber} {left : Bytes}
    (is_begun : IsBegun number left) (stored : segments number = some left)
    (fits : number < UInt64.size) (missing : segments (number + 1) = none)
    (prior : Prior) :
    ∃ stop, Chain segments number 0 prior [] stop ∧ stop.segment = number ∧
      stop.offset ≤ SegmentHeader.size := by
  rcases is_begun with rfl | rfl
  · have broken : checkHeader number [] =
        .error (.truncated (.storage (.readPastEnd 0 SegmentHeader.size 0))) := rfl
    exact ⟨_, .unheaded stored broken, rfl, Nat.zero_le _⟩
  · exact ⟨_, .of_headerBytes stored fits missing, rfl, Nat.le_refl _⟩

def Segments.upTo (segments : Segments) (number : SegmentNumber) : Segments :=
  fun other => if other ≤ number then segments other else none

theorem Segments.upTo_of_le {segments : Segments} {number other : SegmentNumber}
    (le : other ≤ number) : segments.upTo number other = segments other :=
  if_pos le

theorem Segments.upTo_of_lt {segments : Segments} {number other : SegmentNumber}
    (later : number < other) : segments.upTo number other = none :=
  if_neg (Nat.not_le.mpr later)

theorem Segments.upTo_eq {segments : Segments} {number : SegmentNumber}
    (last : ∀ other, number < other → segments other = none) :
    segments.upTo number = segments := by
  funext other
  unfold upTo
  split
  · rfl
  · exact (last other (Nat.lt_of_not_le ‹_›)).symm

theorem Segments.upTo_put (segments : Segments) (number : SegmentNumber)
    (bytes : Option Bytes) :
    (segments.put number bytes).upTo number = (segments.upTo number).put number bytes := by
  funext other
  unfold upTo put
  grind

theorem Segments.upTo_begun (segments : Segments) (number : SegmentNumber)
    (left : Bytes) : (segments.begun number left).upTo number = segments.upTo number := by
  funext other
  unfold upTo begun put
  grind

theorem Segments.upTo_begun_succ (segments : Segments) (number : SegmentNumber)
    (left : Bytes) :
    (segments.begun number left).upTo (number + 1) =
      (segments.upTo number).begun number left := by
  funext other
  unfold upTo begun put
  grind

/-! ## Logs with a writer -/

/-- The records end with the bytes of a segment, and no other record stands behind it. -/
structure Grown (segments : Segments) (records : List Found) (number : SegmentNumber)
    (bytes : Bytes) : Prop where
  stored : segments number = some bytes
  chain : Chain (segments.upTo number) 0 0 (.start none) records
    ⟨none, number, bytes.length⟩
  next : ∀ left, segments (number + 1) = some left → IsBegun (number + 1) left
  last : ∀ other, number + 1 < other → segments other = none
  /-- Every segment but the first was begun for a record. -/
  number_le : number ≤ records.length
  full : SegmentHeader.size < bytes.length ∨ segments (number + 1) ≠ none →
    number < records.length

section

variable {segments : Segments} {records : List Found} {number : SegmentNumber}
  {bytes payload : Bytes} {lsn : Lsn}

theorem Grown.record (grown : Grown segments records number bytes)
    (fits : lsn < UInt64.size) (storable : Storable payload)
    (admits : ((Prior.start none).following records).Admits lsn) :
    Grown (segments.put number (some (bytes ++ recordBytes lsn payload)))
      (records ++ [⟨number, bytes.length, lsn, payload⟩]) number
      (bytes ++ recordBytes lsn payload) := by
  have elsewhere {other : SegmentNumber} (different : other ≠ number) :
      segments.put number (some (bytes ++ recordBytes lsn payload)) other =
        segments other := if_neg different
  have longer : number < (records ++
      [(⟨number, bytes.length, lsn, payload⟩ : Found)]).length := by
    rw [List.length_append]
    exact Nat.lt_succ_of_le grown.number_le
  refine ⟨if_pos rfl, ?_, fun left stored => ?_, fun other later => ?_, longer.le,
    fun _ => longer⟩
  · rw [Segments.upTo_put]
    exact grown.chain.append_record
      ((Segments.upTo_of_le (Nat.le_refl _)).trans grown.stored) fits storable admits
  · exact grown.next left ((elsewhere (Nat.succ_ne_self _)).symm.trans stored)
  · exact (elsewhere (Nat.ne_of_gt (Nat.lt_of_succ_lt later))).trans (grown.last other later)

theorem Grown.begun (grown : Grown segments records number bytes)
    (full : number < records.length) {left : Bytes} (is_begun : IsBegun (number + 1) left) :
    Grown (segments.begun number left) records number bytes := by
  have elsewhere {other : SegmentNumber} (different : other ≠ number + 1) :
      segments.begun number left other = segments other := if_neg different
  refine ⟨(elsewhere (Nat.succ_ne_self _).symm).trans grown.stored, ?_, ?_,
    fun other later => (elsewhere (Nat.ne_of_gt later)).trans (grown.last other later),
    grown.number_le, fun _ => full⟩
  · rw [Segments.upTo_begun]
    exact grown.chain
  · intro other stored
    have here : segments.begun number left (number + 1) = some left := if_pos rfl
    obtain rfl := Option.some.inj (here.symm.trans stored)
    exact is_begun

theorem Grown.moved (grown : Grown segments records number bytes)
    (full : number < records.length) (fits : number + 1 < UInt64.size) :
    Grown (segments.begun number (headerBytes (number + 1))) records (number + 1)
      (headerBytes (number + 1)) := by
  have elsewhere {other : SegmentNumber} (later : number + 1 < other) :
      segments.begun number (headerBytes (number + 1)) other = none :=
    (if_neg (Nat.ne_of_gt later)).trans (grown.last other later)
  have missing := elsewhere (Nat.lt_succ_self _)
  refine ⟨if_pos rfl, ?_, ?_, fun other later => elsewhere (Nat.lt_of_succ_lt later), full,
    ?_⟩
  · rw [Segments.upTo_begun_succ, length_headerBytes]
    exact grown.chain.begin_segment fits
      (Segments.upTo_of_lt (Nat.lt_succ_of_lt (Nat.lt_succ_self number)))
  · intro left stored
    rw [missing] at stored
    cases stored
  · rintro (inside | some_next)
    · rw [length_headerBytes] at inside
      exact absurd inside (Nat.lt_irrefl _)
    · exact absurd missing some_next

theorem Grown.first (empty : ∀ other, segments other = none) :
    Grown (segments.put 0 (some (headerBytes 0))) [] 0 (headerBytes 0) := by
  have missing (other : SegmentNumber) (later : 0 < other) :
      segments.put 0 (some (headerBytes 0)) other = none :=
    (if_neg (Nat.ne_of_gt later)).trans (empty other)
  have nothing := missing 1 (by decide)
  refine ⟨if_pos rfl, ?_, ?_, fun other later => missing other (Nat.lt_of_succ_lt later),
    Nat.le_refl _, ?_⟩
  · rw [Segments.upTo_eq missing, length_headerBytes]
    exact .of_headerBytes (if_pos rfl) (by decide) nothing
  · intro left stored
    rw [nothing] at stored
    cases stored
  · rintro (inside | some_next)
    · rw [length_headerBytes] at inside
      exact absurd inside (Nat.lt_irrefl _)
    · exact absurd nothing some_next

end

/-! ## Logs without a writer -/

/-- A scan reads these records and stops in the last segment there is. -/
structure AtStop (segments : Segments) (records : List Found) (stop : Stop) : Prop where
  chain : Chain segments 0 0 (.start none) records stop
  last : ∀ other, stop.segment < other → segments other = none
  number_le : stop.segment ≤ records.length
  full : SegmentHeader.size < stop.offset → stop.segment < records.length

section

variable {segments : Segments} {records : List Found} {number : SegmentNumber}
  {bytes left : Bytes} {stop : Stop}

theorem AtStop.of_front (chain : Chain segments 0 0 (.start none) records stop)
    (segment_eq : stop.segment = number) (offset_le : stop.offset ≤ SegmentHeader.size)
    (last : ∀ other, number < other → segments other = none)
    (number_le : number ≤ records.length) : AtStop segments records stop :=
  ⟨chain, segment_eq ▸ last, segment_eq ▸ number_le,
    fun inside => absurd inside (Nat.not_lt.mpr offset_le)⟩

theorem AtStop.first (empty : ∀ other, segments other = none) (is_begun : IsBegun 0 left) :
    ∃ stop, AtStop (segments.put 0 (some left)) [] stop := by
  have missing (other : SegmentNumber) (later : 0 < other) :
      segments.put 0 (some left) other = none :=
    (if_neg (Nat.ne_of_gt later)).trans (empty other)
  obtain ⟨stop, chain, segment_eq, offset_le⟩ :=
    is_begun.chain (if_pos rfl) (by decide) (missing 1 (by decide)) (.start none)
  exact ⟨stop, .of_front chain segment_eq offset_le missing (Nat.le_refl _)⟩

theorem Grown.atStop (grown : Grown segments records number bytes)
    (fits : records.length < UInt64.size) : ∃ stop, AtStop segments records stop := by
  have before (other : SegmentNumber) (le : other ≤ number) :
      segments other = segments.upTo number other := (Segments.upTo_of_le le).symm
  cases next : segments (number + 1) with
  | none =>
      have last (other : SegmentNumber) (later : number < other) : segments other = none := by
        rcases Nat.eq_or_lt_of_le (Nat.succ_le_of_lt later) with rfl | beyond
        · exact next
        · exact grown.last other beyond
      exact ⟨_, Segments.upTo_eq last ▸ grown.chain, last, grown.number_le,
        fun inside => grown.full (.inl inside)⟩
  | some left =>
      have full := grown.full (.inr (by simp [next]))
      obtain ⟨stop, empty, segment_eq, offset_le⟩ := (grown.next left next).chain next
        (Nat.lt_of_le_of_lt full fits) (grown.last _ (Nat.lt_succ_self _))
        ((Prior.start none).following records)
      have whole := grown.chain.go_on before empty
      rw [List.append_nil] at whole
      exact ⟨stop, .of_front whole segment_eq offset_le grown.last full⟩

theorem AtStop.begun (stopped : AtStop segments records stop)
    (fits : records.length < UInt64.size) (headless : stop.offset = 0)
    (is_begun : IsBegun stop.segment left) :
    ∃ stop', AtStop (segments.put stop.segment (some left)) records stop' := by
  obtain ⟨bytes, stored⟩ := stopped.chain.stop_stored
  have here : segments.put stop.segment (some left) stop.segment = some left := if_pos rfl
  have last (other : SegmentNumber) (later : stop.segment < other) :
      segments.put stop.segment (some left) other = none :=
    (if_neg (Nat.ne_of_gt later)).trans (stopped.last other later)
  obtain ⟨stop', empty, segment_eq, offset_le⟩ := is_begun.chain here
    (Nat.lt_of_le_of_lt stopped.number_le fits) (last _ (Nat.lt_succ_self _))
    ((Prior.start none).following records)
  have agree : Chain.AgreeUpTo segments (segments.put stop.segment (some left))
      stop.segment stop.offset :=
    ⟨fun _ earlier => if_neg (Nat.ne_of_lt earlier), bytes, left, stored, here,
      by simp [headless], by simp [headless], by simp [headless]⟩
  rw [← headless] at empty
  have whole := stopped.chain.resume agree empty
  rw [List.append_nil] at whole
  exact ⟨stop', .of_front whole segment_eq offset_le last stopped.number_le⟩

theorem AtStop.cut_missing (stopped : AtStop segments records stop)
    {other : SegmentNumber} (later : stop.segment < other) :
    cutAt segments stop.segment stop.offset other = none :=
  (cutAt_of_ne (Nat.ne_of_gt later) _).trans (stopped.last other later)

theorem AtStop.cut_chain (stopped : AtStop segments records stop)
    (fits : records.length < UInt64.size) :
    Chain (cutAt segments stop.segment stop.offset) 0 0 (.start none) records
      ⟨none, stop.segment, cutEnd stop.offset⟩ :=
  CutLike.ended
    ⟨fun _ earlier => cutAt_of_ne (Nat.ne_of_lt earlier) _, if_pos rfl⟩
    stopped.chain (Nat.lt_of_le_of_lt stopped.number_le fits)
    (stopped.cut_missing (Nat.lt_succ_self _))

theorem AtStop.cut_full (stopped : AtStop segments records stop)
    (inside : SegmentHeader.size < cutEnd stop.offset) : stop.segment < records.length := by
  refine stopped.full ?_
  unfold cutEnd at inside
  omega

theorem AtStop.cut (stopped : AtStop segments records stop)
    (fits : records.length < UInt64.size) :
    AtStop (cutAt segments stop.segment stop.offset) records
      ⟨none, stop.segment, cutEnd stop.offset⟩ :=
  ⟨stopped.cut_chain fits, fun _ => stopped.cut_missing, stopped.number_le,
    stopped.cut_full⟩

theorem AtStop.cutAfter_eq (stopped : AtStop segments records stop) (lsn : Option Lsn) :
    segments.cutAfter ⟨stop.segment, stop.offset, lsn⟩ =
      cutAt segments stop.segment stop.offset := by
  funext other
  unfold Segments.cutAfter
  split
  · rename_i later
    exact (stopped.cut_missing later).symm
  · rfl

/-- A log that was cut where its scan stops is ready for a writer. -/
theorem AtStop.grown (stopped : AtStop segments records stop)
    (fits : records.length < UInt64.size) :
    Grown (cutAt segments stop.segment stop.offset) records stop.segment
      (cutBytes segments stop.segment stop.offset) := by
  have chain := stopped.cut_chain fits
  have stored : cutAt segments stop.segment stop.offset stop.segment =
      some (cutBytes segments stop.segment stop.offset) := if_pos rfl
  have length : (cutBytes segments stop.segment stop.offset).length =
      cutEnd stop.offset := by
    obtain ⟨-, ⟨bytes, held, length⟩, -⟩ := chain.eof_place rfl
    obtain rfl := Option.some.inj (stored.symm.trans held)
    exact length
  have same : (cutAt segments stop.segment stop.offset).upTo stop.segment =
      cutAt segments stop.segment stop.offset :=
    Segments.upTo_eq fun _ => stopped.cut_missing
  have nothing := stopped.cut_missing (Nat.lt_succ_self _)
  refine ⟨stored, by rw [same, length]; exact chain, ?_,
    fun _ later => stopped.cut_missing (Nat.lt_of_succ_lt later), stopped.number_le, ?_⟩
  · intro left begun
    rw [nothing] at begun
    cases begun
  · rintro (inside | some_next)
    · exact stopped.cut_full (length ▸ inside)
    · exact absurd nothing some_next

end

end DirectoryStore.Log
