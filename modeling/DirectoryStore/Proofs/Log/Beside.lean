import DirectoryStore.Proofs.Log.Readers

/-!
# A reader beside a writer

One writer appends to a log, and one scanner reads it from its start, in any order of
calls.  The scanner returns records in the order in which they were appended, and in a
log in memory it returns all of them.  A log in a folder can overtake its scanner: the
scanner goes on to the next segment at the size that the segment had when it was
opened, and the records that were put behind it are never returned.
-/

namespace DirectoryStore.Log

/-! ## One more record -/

/-- The next record can go there: behind these bytes, or into a new segment behind them. -/
def Writer.MayFill (writer : Writer) (bytes : Bytes) (place : SegmentNumber × Bytes) : Prop :=
  place = (writer.segment.number, bytes) ∨
    place = (writer.segment.number + 1, headerBytes (writer.segment.number + 1)) ∧
      SegmentHeader.size < bytes.length

section

variable {log log' : LogFiles} {writer writer' : Writer} {records passed : List Found}
  {bytes payload base : Bytes} {anchor : LogAnchor} {number : SegmentNumber}
  {segment : OpenSegment}

theorem Wrote.contents_bytes (wrote : Wrote log writer number base payload anchor log' writer')
    (file_eq : log.file? writer.home segment.number = some segment.file) :
    (segment.contents log').bytes =
      if segment.number = number then base ++ recordBytes writer.nextLsn payload
      else (segment.contents log).bytes := by
  have before := LogFiles.segmentsIn_eq file_eq
  have after := LogFiles.segmentsIn_eq (wrote.puts.files_kept file_eq)
  rw [wrote.puts.segments_eq, Segments.put] at after
  split at after
  · rename_i same
    rw [if_pos same]
    exact (Option.some.inj after).symm
  · rename_i different
    rw [if_neg different]
    exact Option.some.inj (after.symm.trans before)

theorem Wrote.segmentsIn_self
    (wrote : Wrote log writer number base payload anchor log' writer') :
    log'.segmentsIn writer.home number = some (base ++ recordBytes writer.nextLsn payload) := by
  rw [wrote.puts.segments_eq]
  exact if_pos rfl

theorem Wrote.segmentsIn_of_ne
    (wrote : Wrote log writer number base payload anchor log' writer') {other : SegmentNumber}
    (different : other ≠ number) :
    log'.segmentsIn writer.home other = log.segmentsIn writer.home other := by
  rw [wrote.puts.segments_eq]
  exact if_neg different

theorem Tended.past_header (tended : Tended log writer records bytes)
    {place : SegmentNumber × Bytes} (cases : writer.MayFill bytes place) :
    SegmentHeader.size ≤ place.2.length := by
  rcases cases with rfl | ⟨rfl, -⟩
  · exact (tended.chain.eof_place rfl).1
  · exact (length_headerBytes _).ge

theorem Tended.chain_grows (tended : Tended log writer records bytes)
    {place : SegmentNumber × Bytes}
    (cases : writer.MayFill bytes place)
    (wrote : Wrote log writer place.1 place.2 payload anchor log' writer')
    (fits : records.length + 1 < UInt64.size) {first : SegmentNumber} {offset : Nat}
    {prior : Prior} {found : List Found}
    (chain : Chain (log.segmentsIn writer.home) first offset prior found
      ⟨none, writer.segment.number, bytes.length⟩)
    (admits : (prior.following found).Admits writer.nextLsn) :
    Chain (log'.segmentsIn writer.home) first offset prior
      (found ++ [⟨place.1, place.2.length, writer.nextLsn, payload⟩])
      ⟨none, place.1, (place.2 ++ recordBytes writer.nextLsn payload).length⟩ := by
  have lsn_fits : writer.nextLsn < UInt64.size := tended.nextLsn_eq ▸ fits
  rw [wrote.puts.segments_eq]
  rcases cases with rfl | ⟨rfl, -⟩
  · exact chain.append_record tended.owned.segments_eq lsn_fits wrote.storable admits
  · have number_fits : writer.segment.number + 1 < UInt64.size :=
      Nat.lt_of_le_of_lt (Nat.succ_le_succ tended.number_le) fits
    have missing : log.segmentsIn writer.home (writer.segment.number + 1 + 1) = none :=
      LogFiles.segmentsIn_eq_none_iff.mpr
        (tended.last _ (Nat.lt_succ_of_lt (Nat.lt_succ_self _)))
    have begun := chain.begin_segment number_fits missing
    rw [← length_headerBytes (writer.segment.number + 1)] at begun
    have whole := begun.append_record (if_pos rfl) lsn_fits wrote.storable admits
    rwa [Segments.begun, Segments.put_put] at whole

theorem Tended.filled_append (tended : Tended log writer records bytes)
    {place : SegmentNumber × Bytes}
    (cases : writer.MayFill bytes place)
    (wrote : Wrote log writer place.1 place.2 payload anchor log' writer')
    {other : SegmentNumber} {bytes' : Bytes}
    (stored : log'.segmentsIn writer.home other = some bytes') :
    SegmentHeader.size < bytes'.length := by
  by_cases here : other = place.1
  · subst here
    obtain rfl := Option.some.inj (wrote.segmentsIn_self.symm.trans stored)
    have header_le := tended.past_header cases
    rw [List.length_append, length_recordBytes]
    have frame := Chain.frameSize_eq
    omega
  · rw [wrote.segmentsIn_of_ne here] at stored
    by_cases none_yet : records = []
    · -- Nothing was there but the header of the first segment, where the record was put.
      obtain ⟨first, size⟩ := tended.of_nil none_yet
      have place_eq : place.1 = 0 := by
        rcases cases with rfl | ⟨-, full⟩
        · exact first
        · exact absurd size (Nat.ne_of_gt full)
      exact tended.filled other bytes' stored (.inl (Nat.pos_of_ne_zero (place_eq ▸ here)))
    · exact tended.filled other bytes' stored (.inr none_yet)

theorem Tended.append (tended : Tended log writer records bytes)
    {place : SegmentNumber × Bytes}
    (cases : writer.MayFill bytes place)
    (wrote : Wrote log writer place.1 place.2 payload anchor log' writer')
    (fits : records.length + 1 < UInt64.size) :
    Tended log' writer' (records ++ [⟨place.1, place.2.length, writer.nextLsn, payload⟩])
      (place.2 ++ recordBytes writer.nextLsn payload) := by
  have home_eq : writer'.home = writer.home := by rw [wrote.writer_eq]
  have number_le : writer.segment.number ≤ place.1 ∧ place.1 ≤ records.length + 1 := by
    have old := tended.number_le
    rcases cases with rfl | ⟨rfl, -⟩
    · exact ⟨Nat.le_refl _, Nat.le_succ_of_le old⟩
    · exact ⟨Nat.le_succ _, Nat.succ_le_succ old⟩
  refine ⟨?_, ?_, ?_, fun other later => ?_, ?_, ?_, ?_, fun other bytes' stored _ => ?_,
    by simp⟩
  · rw [home_eq]
    exact wrote.puts.distinct
  · rw [home_eq]
    exact wrote.owned
  · rw [home_eq, wrote.number_eq]
    exact tended.chain_grows cases wrote fits tended.chain
      (tended.nextLsn_eq ▸ tended.numbered.admits)
  · rw [wrote.number_eq] at later
    rw [home_eq, ← LogFiles.segmentsIn_eq_none_iff,
      wrote.segmentsIn_of_ne (Nat.ne_of_gt later)]
    exact LogFiles.segmentsIn_eq_none_iff.mpr
      (tended.last other (Nat.lt_of_le_of_lt number_le.1 later))
  · exact tended.numbered.concat tended.nextLsn_eq
  · rw [wrote.writer_eq, List.length_append, List.length_singleton]
    exact congrArg Lsn.next tended.nextLsn_eq
  · rw [wrote.number_eq, List.length_append, List.length_singleton]
    exact number_le.2
  · rw [home_eq] at stored
    exact tended.filled_append cases wrote stored

theorem NumberedFromOne.admits_after {tail : List Found} {last : Lsn}
    (numbered : NumberedFromOne records) (last_eq : last = passed.length)
    (split : records = passed ++ tail) :
    ((Prior.after last).following tail).Admits (records.length + 1) := by
  unfold Prior.following
  cases is_last : tail.getLast? with
  | none =>
      rw [last_eq, split, List.length_append]
      exact Nat.le_succ_of_le (Nat.le_add_right _ _)
  | some found =>
      have whole : records.getLast? = some found := by
        rw [split, List.getLast?_append, is_last]
        rfl
      exact (numbered.last whole).le.trans (Nat.le_succ _)

theorem Sees.still {known : Bytes} (sees : Sees log segment known)
    (unchanged : (segment.contents log').bytes = (segment.contents log).bytes) :
    Sees log' segment known := by
  have same : segment.contents log' = segment.contents log := Contents.ext unchanged
  exact ⟨by rw [same, sees.size_eq], by rw [same, sees.front_eq]⟩

theorem Sees.of_longer {known patch : Bytes} {knownSize : Nat} (sees : Sees log segment known)
    (handle_eq : segment.handle = .file knownSize)
    (longer : (segment.contents log').bytes = (segment.contents log).bytes ++ patch) :
    Sees log' segment known := by
  have size_eq := sees.size_eq
  have front_eq := sees.front_eq
  have inside : known.length ≤ (segment.contents log).bytes.length := by
    rw [← front_eq, List.length_take]
    exact Nat.min_le_right _ _
  refine ⟨?_, ?_⟩
  · rw [handle_eq] at size_eq ⊢
    exact size_eq
  · rw [longer, List.take_append_of_le_length inside, front_eq]

theorem Sees.whole {known : Bytes} (sees : Sees log segment known)
    (handle_eq : segment.handle = .buffer) : (segment.contents log).bytes = known := by
  have size_eq := sees.size_eq
  rw [handle_eq] at size_eq
  have size_eq : (segment.contents log).size = known.length := size_eq
  rw [Contents.size_eq] at size_eq
  rw [← sees.front_eq, ← size_eq, List.take_length]

/-- The scanner keeps its place, with a new record behind those that come. -/
def KeepsPlace (log : LogFiles) (home : Home) (segment : OpenSegment) (offset : Nat)
    (last : Lsn) (coming : List Found) (new : Found) (stop : Stop) : Prop :=
  ∃ known seen rest, coming ++ [new] = seen ++ rest ∧
    Within log home segment offset last known seen rest stop

theorem Within.unnoticed (tended : Tended log writer records bytes)
    {place : SegmentNumber × Bytes}
    (cases : writer.MayFill bytes place)
    (wrote : Wrote log writer place.1 place.2 payload anchor log' writer')
    (fits : records.length + 1 < UInt64.size) {offset : Nat} {last : Lsn} {known : Bytes}
    {seen rest : List Found}
    (within : Within log writer.home segment offset last known seen rest
      ⟨none, writer.segment.number, bytes.length⟩)
    (last_eq : last = passed.length) (split : records = passed ++ (seen ++ rest))
    (sees : Sees log' segment known) :
    KeepsPlace log' writer.home segment offset last (seen ++ rest)
      ⟨place.1, place.2.length, writer.nextLsn, payload⟩
      ⟨none, place.1, (place.2 ++ recordBytes writer.nextLsn payload).length⟩ := by
  have admits : (((Prior.after last).following seen).following rest).Admits writer.nextLsn := by
    rw [← Prior.following_append, tended.nextLsn_eq]
    exact tended.numbered.admits_after last_eq split
  exact ⟨known, seen, _, List.append_assoc _ _ _, wrote.puts.files_kept within.file_eq, sees,
    within.in_memory, within.past_header, within.known_chain,
    tended.chain_grows cases wrote fits within.rest_chain admits⟩

theorem Within.nothing_behind (tended : Tended log writer records bytes) {offset : Nat}
    {last : Lsn} {seen rest : List Found}
    (within : Within log writer.home segment offset last bytes seen rest
      ⟨none, writer.segment.number, bytes.length⟩)
    (here : segment.number = writer.segment.number) : rest = [] := by
  obtain ⟨past_header, -, missing⟩ := tended.chain.eof_place rfl
  have here_chain := within.rest_chain
  rw [here] at here_chain
  rcases here_chain.at_end rfl tended.owned.segments_eq past_header rfl with
    ⟨-, none_left⟩ | onward
  · exact none_left
  · obtain ⟨_, some_next⟩ := onward.stored
    rw [missing] at some_next
    cases some_next

theorem Within.noticed (tended : Tended log writer records bytes)
    (wrote : Wrote log writer writer.segment.number bytes payload anchor log' writer')
    (fits : records.length + 1 < UInt64.size) {offset : Nat} {last : Lsn} {known : Bytes}
    {seen rest : List Found}
    (within : Within log writer.home segment offset last known seen rest
      ⟨none, writer.segment.number, bytes.length⟩)
    (last_eq : last = passed.length) (split : records = passed ++ (seen ++ rest))
    (here : segment.number = writer.segment.number) (handle_eq : segment.handle = .buffer) :
    KeepsPlace log' writer.home segment offset last (seen ++ rest)
      ⟨writer.segment.number, bytes.length, writer.nextLsn, payload⟩
      ⟨none, writer.segment.number, (bytes ++ recordBytes writer.nextLsn payload).length⟩ := by
  have contents_eq := wrote.contents_bytes within.file_eq
  rw [if_pos here] at contents_eq
  -- What the scanner knows of the buffer is all that the writer has put there.
  have stored := LogFiles.segmentsIn_eq within.file_eq
  rw [here, tended.owned.segments_eq] at stored
  obtain rfl : bytes = known :=
    (Option.some.inj stored).trans (within.sees.whole handle_eq)
  obtain rfl := within.nothing_behind tended here
  have sees : Sees log' segment (bytes ++ recordBytes writer.nextLsn payload) := by
    refine ⟨?_, by rw [contents_eq, List.take_length]⟩
    rw [handle_eq, Handle.size, Contents.size_eq, contents_eq]
  rw [List.append_nil] at split ⊢
  have admits : ((Prior.after last).following seen).Admits writer.nextLsn := by
    rw [tended.nextLsn_eq]
    exact tended.numbered.admits_after last_eq split
  have lsn_fits : writer.nextLsn < UInt64.size := tended.nextLsn_eq ▸ fits
  have known_chain :=
    within.known_chain.append_record (if_pos rfl) lsn_fits wrote.storable admits
  rw [Segments.only_put] at known_chain
  obtain ⟨past_header, -, missing⟩ := tended.chain.eof_place rfl
  have missing : log'.segmentsIn writer.home (writer.segment.number + 1) = none :=
    (wrote.segmentsIn_of_ne (Nat.succ_ne_self _)).trans missing
  have longer : bytes.length ≤ (bytes ++ recordBytes writer.nextLsn payload).length := by
    rw [List.length_append]
    exact Nat.le_add_right _ _
  have ended (prior : Prior) : Chain (log'.segmentsIn writer.home) writer.segment.number
      (bytes ++ recordBytes writer.nextLsn payload).length prior []
      ⟨none, writer.segment.number, (bytes ++ recordBytes writer.nextLsn payload).length⟩ :=
    .ended (past_header.trans longer) wrote.segmentsIn_self rfl missing
  rw [← here] at ended ⊢
  exact ⟨_, _, [], (List.append_nil _).symm, wrote.puts.files_kept within.file_eq, sees,
    within.in_memory, within.past_header, known_chain, ended _⟩

/-- A scanner keeps its place in a log that grows, whether it sees the new record or not. -/
theorem Within.append (tended : Tended log writer records bytes)
    {place : SegmentNumber × Bytes}
    (cases : writer.MayFill bytes place)
    (wrote : Wrote log writer place.1 place.2 payload anchor log' writer')
    (fits : records.length + 1 < UInt64.size) {offset : Nat} {last : Lsn} {known : Bytes}
    {seen rest : List Found}
    (within : Within log writer.home segment offset last known seen rest
      ⟨none, writer.segment.number, bytes.length⟩)
    (last_eq : last = passed.length) (split : records = passed ++ (seen ++ rest)) :
    KeepsPlace log' writer.home segment offset last (seen ++ rest)
      ⟨place.1, place.2.length, writer.nextLsn, payload⟩
      ⟨none, place.1, (place.2 ++ recordBytes writer.nextLsn payload).length⟩ := by
  have contents_eq := wrote.contents_bytes within.file_eq
  by_cases here : segment.number = place.1
  case neg =>
    rw [if_neg here] at contents_eq
    exact within.unnoticed tended cases wrote fits last_eq split
      (within.sees.still contents_eq)
  rw [if_pos here] at contents_eq
  have in_place : place = (writer.segment.number, bytes) := by
    refine cases.resolve_right fun ⟨new, _⟩ => ?_
    have missing := tended.last place.1 (by rw [new]; exact Nat.lt_succ_self _)
    rw [← here, within.file_eq] at missing
    cases missing
  subst in_place
  have stored := LogFiles.segmentsIn_eq within.file_eq
  rw [here, tended.owned.segments_eq] at stored
  cases handle_eq : segment.handle with
  | file knownSize =>
      have longer : (segment.contents log').bytes =
          (segment.contents log).bytes ++ recordBytes writer.nextLsn payload :=
        contents_eq.trans (congrArg (· ++ _) (Option.some.inj stored))
      exact within.unnoticed tended cases wrote fits last_eq split
        (within.sees.of_longer handle_eq longer)
  | buffer => exact within.noticed tended wrote fits last_eq split here handle_eq

theorem Follows.append (tended : Tended log writer records bytes)
    {place : SegmentNumber × Bytes}
    (cases : writer.MayFill bytes place)
    (wrote : Wrote log writer place.1 place.2 payload anchor log' writer')
    (fits : records.length + 1 < UInt64.size) {scanner : Scanner}
    (follows : Follows log writer.home records ⟨none, writer.segment.number, bytes.length⟩
      scanner passed) :
    Follows log' writer.home (records ++ [⟨place.1, place.2.length, writer.nextLsn, payload⟩])
      ⟨none, place.1, (place.2 ++ recordBytes writer.nextLsn payload).length⟩ scanner
      passed := by
  cases follows with
  | fresh => exact .fresh
  | within within last_eq split =>
      obtain ⟨known, seen, rest, coming, within'⟩ :=
        within.append tended cases wrote fits last_eq split
      exact .within within' last_eq (by rw [split, List.append_assoc, coming])
  | stopped stopped front => exact .stopped stopped (front.trans (List.prefix_append _ _))

end

/-! ## Gaps -/

theorem NumberedFromOne.of_append {front back : List Found}
    (numbered : NumberedFromOne (front ++ back)) : NumberedFromOne front := by
  intro index found held
  obtain ⟨inside, -⟩ := List.getElem?_eq_some_iff.mp held
  exact numbered index found ((List.getElem?_append_left inside).trans held)

/-- A gap in the numbers is made exactly where records are skipped. -/
theorem NumberedFromOne.concat_iff {records passed skipped : List Found} {found : Found}
    (numbered : NumberedFromOne records)
    (front : passed ++ skipped ++ [found] <+: records) :
    NumberedFromOne (passed ++ [found]) ↔ skipped = [] := by
  obtain ⟨back, split⟩ := front
  have lsn_eq : found.lsn = (passed ++ skipped).length + 1 :=
    numbered.lsn_eq (by rw [← split, List.append_assoc, List.singleton_append])
  rw [List.length_append] at lsn_eq
  rw [← split, List.append_assoc, List.append_assoc] at numbered
  have passed_numbered : NumberedFromOne passed := numbered.of_append
  constructor
  · intro together
    have next : found.lsn = passed.length + 1 := together.lsn_eq rfl
    have same : passed.length + skipped.length + 1 = passed.length + 1 := lsn_eq.symm.trans next
    exact List.length_eq_zero_iff.mp (by omega)
  · rintro rfl
    exact passed_numbered.concat lsn_eq

/-! ## Counting calls -/

section

variable {log : LogFiles} {writer : Writer} {records passed : List Found} {bytes : Bytes}

theorem Tended.atCall (tended : Tended log writer records bytes) (calls : Nat) :
    Tended (log.atCall calls) writer records bytes :=
  ⟨tended.distinct.atCall calls, tended.owned.atCall calls, tended.chain, tended.last,
    tended.numbered, tended.nextLsn_eq, tended.number_le, tended.filled, tended.of_nil⟩

theorem Follows.atCall {home : Home} {stop : Stop} {scanner : Scanner}
    (follows : Follows log home records stop scanner passed) (calls : Nat) :
    Follows (log.atCall calls) home records stop scanner passed := by
  cases follows with
  | fresh => exact .fresh
  | within within last_eq split =>
      obtain ⟨file_eq, ⟨size_eq, front_eq⟩, in_memory, past_header, known_chain, rest_chain⟩ :=
        within
      exact .within ⟨file_eq, ⟨size_eq, front_eq⟩, in_memory, past_header, known_chain,
        rest_chain⟩ last_eq split
  | stopped stopped front => exact .stopped stopped front

end

/-! ## Runs of a writer and a reader -/

abbrev Entry := Bytes × Option LogAnchor

def Found.entry (found : Found) : Entry := (found.payload, some found.anchor)

structure Beside where
  log : LogFiles
  writer : Writer
  scanner : Scanner
  appended : List Entry
  returned : List Entry
  /-- The scanner has left a segment without having read all bytes that stood there. -/
  overtaken : Bool

inductive Move where
  | append (payload : Bytes)
  | read (record : Record)

namespace Beside

def start (log : LogFiles) (writer : Writer) : Beside :=
  ⟨log, writer, .startAt writer.home (.startOf 0), [], [], false⟩

def append (payload : Bytes) (state : Beside) : Option Beside :=
  match Writer.append payload (state.log, state.writer) with
  | (.ok anchor, log, writer) =>
      some { state with
        log := log
        writer := writer
        appended := state.appended ++ [(payload, some anchor)] }
  | (.error _, _) => none

def read (record : Record) (state : Beside) : Beside :=
  let (step, log) := state.scanner.next record state.log
  match step.result with
  | .ok true =>
      { state with
        log := log
        scanner := step.scanner
        returned := state.returned ++ [(step.record.payload, step.record.anchor)]
        overtaken := state.overtaken || state.scanner.leftBehind state.log step.scanner }
  | _ => { state with log := log, scanner := step.scanner }

def move (state : Beside) : Move → Option Beside
  | .append payload => state.append payload
  | .read record => some (state.read record)

def run : List Move → Beside → Option Beside
  | [], state => some state
  | move :: rest, state => (state.move move).bind (run rest)

/-- The scanner has returned the first records, and their numbers have no gap. -/
structure InOrder (state : Beside) : Prop where
  front : state.returned <+: state.appended
  numbered : ∀ index entry, state.returned[index]? = some entry →
    entry.2.bind (·.lsn) = some (index + 1)

/-- What the log holds and the scanner has passed, and which of it was returned. -/
structure Consistent (state : Beside) (home : Home) (records passed kept : List Found)
    (bytes : Bytes) : Prop where
  home_eq : state.writer.home = home
  tended : Tended state.log state.writer records bytes
  follows : Follows state.log state.writer.home records
    ⟨none, state.writer.segment.number, bytes.length⟩ state.scanner passed
  appended_eq : state.appended = records.map Found.entry
  returned_eq : state.returned = kept.map Found.entry
  kept_sublist : kept.Sublist passed
  all_kept : state.overtaken = false → kept = passed
  gap : state.overtaken = true → ¬ NumberedFromOne kept
  in_memory : home = .memory → state.overtaken = false

variable {state state' : Beside} {home : Home} {records passed kept : List Found} {bytes : Bytes}

theorem Consistent.append (consistent : state.Consistent home records passed kept bytes)
    (fits : records.length + 1 < UInt64.size) {payload : Bytes}
    (moved : state.append payload = some state') :
    ∃ records' bytes', state'.Consistent home records' passed kept bytes' := by
  obtain ⟨rfl, tended, follows, appended_eq, returned_eq, kept_sublist, all_kept, gap,
    in_memory⟩ := consistent
  have leads := Ends.writerAppend tended.distinct tended.owned
    (tended.last _ (Nat.lt_succ_self _)) payload
  unfold Beside.append at moved
  rcases ran : Writer.append payload (state.log, state.writer) with
    ⟨error | anchor, log, writer⟩
  · simp [ran] at moved
  have wrote : Wrote state.log state.writer _ _ payload anchor log writer := leads.of_ok ran
  have places : state.writer.MayFill bytes (recordPlace state.writer bytes payload) :=
    recordPlace_cases state.writer bytes payload
  simp only [ran, Option.some.injEq] at moved
  subst moved
  have home_eq : writer.home = state.writer.home := by rw [wrote.writer_eq]
  refine ⟨_, _, home_eq, tended.append places wrote fits, ?_, ?_, returned_eq, kept_sublist,
    all_kept, gap, in_memory⟩
  · rw [home_eq, wrote.number_eq]
    exact follows.append tended places wrote fits
  · rw [appended_eq, List.map_append, wrote.anchor_eq]
    rfl

theorem Consistent.read (consistent : state.Consistent home records passed kept bytes)
    (record : Record) :
    ∃ passed' kept', (state.read record).Consistent home records passed' kept' bytes := by
  obtain ⟨rfl, tended, follows, appended_eq, returned_eq, kept_sublist, all_kept, gap,
    in_memory⟩ := consistent
  obtain ⟨calls, step, ran, answered⟩ := follows.next tended record
  unfold Beside.read
  rw [ran]
  rcases answered with ⟨result_ne, stopped⟩ | ⟨skipped, found, reads⟩
  · have kept_all : Consistent { state with log := state.log.atCall calls, scanner := step.scanner }
        state.writer.home records passed kept bytes :=
      ⟨rfl, tended.atCall calls, .stopped stopped follows.front, appended_eq, returned_eq,
        kept_sublist, all_kept, gap, in_memory⟩
    refine ⟨passed, kept, ?_⟩
    dsimp only
    split
    · exact absurd ‹_› result_ne
    · exact kept_all
  obtain ⟨⟨result_eq, payload_eq, anchor_eq⟩, follows', left_iff, skips_none⟩ := reads
  dsimp only
  rw [result_eq, payload_eq, anchor_eq]
  have front := follows'.front
  refine ⟨passed ++ skipped ++ [found], kept ++ [found], rfl, tended.atCall calls,
    follows'.atCall calls, appended_eq, ?_, ?_, ?_, ?_, ?_⟩
  · rw [List.map_append, ← returned_eq]
    rfl
  · exact (kept_sublist.trans (List.sublist_append_left _ _)).append (List.Sublist.refl _)
  · intro never
    obtain ⟨not_before, not_now⟩ := Bool.or_eq_false_iff.mp never
    obtain rfl := all_kept not_before
    have none_skipped : skipped = [] := by
      by_contra some_skipped
      rw [left_iff.mpr some_skipped] at not_now
      cases not_now
    rw [none_skipped, List.append_nil]
  · intro ever together
    cases before : state.overtaken with
    | true => exact gap before together.of_append
    | false =>
        obtain rfl := all_kept before
        rw [before, Bool.false_or] at ever
        exact left_iff.mp ever ((tended.numbered.concat_iff front).mp together)
  · intro memory
    refine Bool.or_eq_false_iff.mpr ⟨in_memory memory, ?_⟩
    exact Bool.eq_false_iff.mpr fun left => left_iff.mp left (skips_none memory)

theorem length_appended {payload : Bytes} (moved : state.append payload = some state') :
    state'.appended.length = state.appended.length + 1 := by
  unfold Beside.append at moved
  rcases ran : Writer.append payload (state.log, state.writer) with
    ⟨error | anchor, log, writer⟩
  · simp [ran] at moved
  · simp only [ran, Option.some.injEq] at moved
    rw [← moved, List.length_append]
    rfl

theorem read_appended (record : Record) (state : Beside) :
    (state.read record).appended = state.appended := by
  unfold Beside.read
  split
  split <;> rfl

theorem length_le_of_run {moves : List Move} (ran : run moves state = some state') :
    state.appended.length ≤ state'.appended.length := by
  induction moves generalizing state with
  | nil =>
      obtain rfl := Option.some.inj ran
      exact Nat.le_refl _
  | cons move rest ih =>
      obtain ⟨between, moved, rest_ran⟩ := Option.bind_eq_some_iff.mp ran
      refine Nat.le_trans ?_ (ih rest_ran)
      cases move with
      | append payload => exact (length_appended moved).ge.trans' (Nat.le_succ _)
      | read record =>
          obtain rfl := Option.some.inj moved
          rw [read_appended]

theorem Consistent.run (consistent : state.Consistent home records passed kept bytes)
    {moves : List Move} (ran : run moves state = some state')
    (fits : state'.appended.length < UInt64.size) :
    ∃ records' passed' kept' bytes', state'.Consistent home records' passed' kept' bytes' := by
  induction moves generalizing state records passed kept bytes with
  | nil =>
      obtain rfl := Option.some.inj ran
      exact ⟨records, passed, kept, bytes, consistent⟩
  | cons move rest ih =>
      obtain ⟨between, moved, rest_ran⟩ := Option.bind_eq_some_iff.mp ran
      cases move with
      | append payload =>
          have longer : records.length + 1 < UInt64.size := by
            refine Nat.lt_of_le_of_lt ?_ fits
            have appended := length_appended moved
            rw [consistent.appended_eq, List.length_map] at appended
            rw [← appended]
            exact length_le_of_run rest_ran
          obtain ⟨records', bytes', consistent'⟩ := consistent.append longer moved
          exact ih consistent' rest_ran
      | read record =>
          obtain rfl := Option.some.inj moved
          obtain ⟨passed', kept', consistent'⟩ := consistent.read record
          exact ih consistent' rest_ran

theorem Consistent.inOrder_iff (consistent : state.Consistent home records passed kept bytes) :
    state.InOrder ↔ state.overtaken = false := by
  have number_eq (index : Nat) (found : Found) (held : kept[index]? = some found) :
      state.returned[index]? = some found.entry := by
    rw [consistent.returned_eq, List.getElem?_map, held]
    rfl
  constructor
  · intro in_order
    refine Bool.eq_false_iff.mpr fun ever => consistent.gap ever fun index found held => ?_
    exact Option.some.inj (in_order.numbered index _ (number_eq index found held))
  · intro never
    obtain rfl := consistent.all_kept never
    obtain ⟨back, split⟩ := consistent.follows.front
    have numbered := consistent.tended.numbered
    rw [← split] at numbered
    refine ⟨?_, fun index entry held => ?_⟩
    · rw [consistent.returned_eq, consistent.appended_eq, ← split, List.map_append]
      exact List.prefix_append _ _
    · rw [consistent.returned_eq, List.getElem?_map] at held
      obtain ⟨found, kept_held, rfl⟩ := Option.map_eq_some_iff.mp held
      exact congrArg some (numbered.of_append index found kept_held)

end Beside

theorem Beside.start_consistent {log : LogFiles} {home : Home} (empty : NoSegments log home)
    {settings : Settings} {writer : Writer} {log' : LogFiles}
    (opened : Writer.openLog home settings log = (.ok writer, log')) :
    (Beside.start log' writer).Consistent home [] [] [] (headerBytes 0) := by
  obtain ⟨writer_eq, number_eq, owned, puts⟩ := (Ends.openLog empty settings).of_ok opened
  have home_eq : writer.home = home := by rw [writer_eq]; rfl
  subst home_eq
  have missing (other : SegmentNumber) (later : 0 < other) :
      log'.segmentsIn writer.home other = none := by
    rw [puts.segments_eq]
    exact (if_neg (Nat.ne_of_gt later)).trans
      (LogFiles.segmentsIn_eq_none_iff.mpr (empty.missing other))
  have stored : log'.segmentsIn writer.home 0 = some (headerBytes 0) := by
    rw [puts.segments_eq]
    exact if_pos rfl
  have nextLsn_eq : writer.nextLsn = Lsn.first := by rw [writer_eq]; rfl
  have chain : Chain (log'.segmentsIn writer.home) 0 0 (.start none) []
      ⟨none, writer.segment.number, (headerBytes 0).length⟩ := by
    rw [length_headerBytes, number_eq]
    exact .of_headerBytes stored (by decide) (missing 1 (by decide))
  refine ⟨rfl, ⟨puts.distinct, owned, chain, fun other later => ?_, nofun, nextLsn_eq,
    number_eq.le, ?_, fun _ => ⟨number_eq, length_headerBytes 0⟩⟩, .fresh, rfl, rfl,
    List.Sublist.refl _, fun _ => rfl, nofun, fun _ => rfl⟩
  · exact LogFiles.segmentsIn_eq_none_iff.mp (missing other (number_eq ▸ later))
  · rintro other bytes held (later | some_record)
    · cases (missing other later).symm.trans held
    · exact absurd rfl some_record

def Beside.runOn (home : Home) (settings : Settings) (moves : List Move) (log : LogFiles) :
    Option Beside :=
  match Writer.openLog home settings log with
  | (.ok writer, log') => Beside.run moves (.start log' writer)
  | (.error _, _) => none

/--
What a scanner returns beside a writer is in the order of the appends.  It is all of
it, up to a place, exactly as long as the scanner leaves no segment with bytes that it
has not read; in memory it never does.
-/
theorem returned_in_order_iff {log : LogFiles} {home : Home} (empty : NoSegments log home)
    {settings : Settings} {moves : List Move} {state : Beside}
    (ran : Beside.runOn home settings moves log = some state)
    (fits : state.appended.length < UInt64.size) :
    state.returned.Sublist state.appended ∧
      (state.InOrder ↔ state.overtaken = false) ∧ (home = .memory → state.InOrder) := by
  unfold Beside.runOn at ran
  rcases opened : Writer.openLog home settings log with ⟨error | writer, log'⟩ <;>
    rw [opened] at ran
  · cases ran
  obtain ⟨records, passed, kept, bytes, consistent⟩ :=
    (Beside.start_consistent empty opened).run ran fits
  refine ⟨?_, consistent.inOrder_iff, fun memory =>
    consistent.inOrder_iff.mpr (consistent.in_memory memory)⟩
  rw [consistent.returned_eq, consistent.appended_eq]
  exact (consistent.kept_sublist.trans consistent.follows.front.sublist).map _

def openedFolder : LogFiles := (LogFiles.openFolder ["d"] {} .empty).2

/-- The third record does not fit into the first segment, where the second one is. -/
def overtakingMoves : List Move :=
  [.append [1], .read .empty, .append [2], .append [3], .read .empty]

theorem returned_in_order_iff_overtakingMoves :
    ∃ state, Beside.runOn (.folder ["d"] 0) { maxSegmentSize := 80 } overtakingMoves
        openedFolder = some state ∧
      state.appended.map (·.1) = [[1], [2], [3]] ∧ state.returned.map (·.1) = [[1], [3]] ∧
      ¬ state.InOrder := by
  have empty : NoSegments openedFolder (.folder ["d"] 0) :=
    .of_names (by decide +kernel)
  have finished : (Beside.runOn (.folder ["d"] 0) { maxSegmentSize := 80 } overtakingMoves
      openedFolder).map (fun state => (state.appended.map (·.1), state.returned.map (·.1),
        state.overtaken)) = some ([[1], [2], [3]], [[1], [3]], true) := by
    decide +kernel
  obtain ⟨state, ran, held⟩ := Option.map_eq_some_iff.mp finished
  obtain ⟨appended_eq, held⟩ := Prod.mk.inj held
  obtain ⟨returned_eq, overtaken⟩ := Prod.mk.inj held
  have fits : state.appended.length < UInt64.size := by
    have length := congrArg List.length appended_eq
    rw [List.length_map] at length
    rw [length]
    decide
  obtain ⟨-, in_order_iff, -⟩ := returned_in_order_iff empty ran fits
  refine ⟨state, ran, appended_eq, returned_eq, fun in_order => ?_⟩
  rw [in_order_iff.mp in_order] at overtaken
  cases overtaken

end DirectoryStore.Log
