import Mathlib.Data.Finset.Preimage
import DirectoryStore.Proofs.Log.Readers

/-!
# What a scanner accepts

A position leads to rows of records that stand one behind the other.  They are defined
here by what stands in the segments, without a scanner and without the order in which it
looks, so a row may end anywhere; every row is the front of one longest row.  A scanner
returns exactly the longest row, whatever it is given to fill, and takes the log to be at
its end exactly if the row ends with a segment that has no successor.
-/

namespace DirectoryStore.Log

/-! ## Rows of records -/

/-- Where a log can be read on, and what is known of the next sequence number. -/
structure Spot where
  segment : SegmentNumber
  offset : Nat
  prior : Prior

/-- An offset of zero stands for the one behind the header of the segment. -/
def Spot.enter (number : SegmentNumber) (offset : Nat) (prior : Prior) : Spot :=
  ⟨number, max offset SegmentHeader.size, prior⟩

def Found.behind (found : Found) : Spot :=
  ⟨found.segment, found.finish, .after found.lsn⟩

/-- Exactly at the end of a segment a log goes on behind the header of the next one. -/
inductive LeadsTo (segments : Segments) : Spot → Spot → Prop where
  | here (spot : Spot) : LeadsTo segments spot spot
  | onward {spot last : Spot} {bytes following : Bytes}
      (stored : segments spot.segment = some bytes) (at_end : bytes.length = spot.offset)
      (stored_next : segments (spot.segment + 1) = some following)
      (headed : Headed (spot.segment + 1) following)
      (rest : LeadsTo segments (.enter (spot.segment + 1) 0 spot.prior) last) :
      LeadsTo segments spot last

structure Found.StandsAt (found : Found) (segments : Segments) (spot : Spot) : Prop where
  segment_eq : found.segment = spot.segment
  offset_eq : found.offset = spot.offset
  record : ∃ bytes, segments spot.segment = some bytes ∧
    RecordAt bytes spot.offset found.lsn found.payload
  admits : spot.prior.Admits found.lsn

/-- The records stand one behind the other on the way from one spot to another. -/
inductive Row (segments : Segments) : Spot → List Found → Spot → Prop where
  | nil {spot last : Spot} (reached : LeadsTo segments spot last) : Row segments spot [] last
  | cons {spot here last : Spot} {found : Found} {rest : List Found}
      (reached : LeadsTo segments spot here) (stands : found.StandsAt segments here)
      (tail : Row segments found.behind rest last) : Row segments spot (found :: rest) last

/-- The spot is the end of a segment that has no successor. -/
def LastEnd (segments : Segments) (spot : Spot) : Prop :=
  (∃ bytes, segments spot.segment = some bytes ∧ bytes.length = spot.offset) ∧
    segments (spot.segment + 1) = none

/-- The records from the spot on lead to the end of the log. -/
def EndsFrom (segments : Segments) (spot : Spot) (records : List Found) : Prop :=
  ∃ last, Row segments spot records last ∧ LastEnd segments last

structure Readable (segments : Segments) (start : LogAnchor) : Prop where
  headed : ∃ bytes, segments start.segment = some bytes ∧ Headed start.segment bytes
  offset : start.offset = 0 ∨ SegmentHeader.size ≤ start.offset

def Spot.starting (start : LogAnchor) : Spot :=
  .enter start.segment start.offset (.start start.lsn)

def RowFrom (segments : Segments) (start : LogAnchor) (records : List Found) : Prop :=
  records = [] ∨ Readable segments start ∧ ∃ last, Row segments (.starting start) records last

/-- The row of records that every other row from the position is a front of. -/
structure LongestRow (segments : Segments) (start : LogAnchor) (records : List Found) :
    Prop where
  row : RowFrom segments start records
  longest : ∀ {others : List Found}, RowFrom segments start others → others <+: records

/-- Behind the records the log ends, or there is no log at all. -/
def EndsWith (segments : Segments) (start : LogAnchor) (records : List Found) : Prop :=
  segments start.segment = none ∨
    Readable segments start ∧ EndsFrom segments (.starting start) records

/-! ## Rows and chains -/

section

variable {segments : Segments} {spot last : Spot} {number : SegmentNumber} {offset : Nat}
  {prior : Prior} {bytes : Bytes} {found : Found} {records rest others : List Found}
  {stop : Stop}

theorem Spot.enter_of_le (past_header : SegmentHeader.size ≤ offset) :
    Spot.enter number offset prior = ⟨number, offset, prior⟩ := by
  rw [enter, Nat.max_eq_left past_header]

theorem Found.standsAt_iff (stored : segments number = some bytes) :
    found.StandsAt segments ⟨number, offset, prior⟩ ↔
      found.segment = number ∧ found.offset = offset ∧
        recordAt number bytes offset prior = .ok (found.lsn, found.payload) := by
  rw [recordAt_eq_ok_iff]
  constructor
  · rintro ⟨segment_eq, offset_eq, ⟨bytes', stored', record⟩, admits⟩
    obtain rfl := Option.some.inj (stored.symm.trans stored')
    exact ⟨segment_eq, offset_eq, record, admits⟩
  · rintro ⟨segment_eq, offset_eq, record, admits⟩
    exact ⟨segment_eq, offset_eq, ⟨bytes, stored, record⟩, admits⟩

theorem leadsTo_iff_of_ne (stored : segments number = some bytes)
    (elsewhere : bytes.length ≠ offset) :
    LeadsTo segments ⟨number, offset, prior⟩ last ↔ last = ⟨number, offset, prior⟩ := by
  constructor
  · rintro (_ | ⟨stored', at_end, -, -, -⟩)
    · rfl
    · obtain rfl := Option.some.inj (stored.symm.trans stored')
      exact absurd at_end elsewhere
  · rintro rfl
    exact .here _

theorem leadsTo_iff_of_eq (stored : segments number = some bytes)
    (at_end : bytes.length = offset) :
    LeadsTo segments ⟨number, offset, prior⟩ last ↔
      last = ⟨number, offset, prior⟩ ∨
        (∃ following, segments (number + 1) = some following ∧ Headed (number + 1) following) ∧
          LeadsTo segments (.enter (number + 1) 0 prior) last := by
  constructor
  · rintro (_ | ⟨-, -, stored_next, headed, rest⟩)
    · exact .inl rfl
    · exact .inr ⟨⟨_, stored_next, headed⟩, rest⟩
  · rintro (rfl | ⟨⟨following, stored_next, headed⟩, rest⟩)
    · exact .here _
    · exact .onward stored at_end stored_next headed rest

def Found.Follows (found : Found) (segments : Segments) (spot : Spot) : Prop :=
  ∃ here, LeadsTo segments spot here ∧ found.StandsAt segments here

theorem row_cons_iff : Row segments spot (found :: rest) last ↔
    found.Follows segments spot ∧ Row segments found.behind rest last := by
  constructor
  · rintro (_ | ⟨reached, stands, tail⟩)
    exact ⟨⟨_, reached, stands⟩, tail⟩
  · rintro ⟨⟨here, reached, stands⟩, tail⟩
    exact .cons reached stands tail

theorem row_nil_iff : Row segments spot [] last ↔ LeadsTo segments spot last := by
  constructor
  · rintro (reached | _)
    exact reached
  · exact .nil

theorem follows_iff_of_ne (stored : segments number = some bytes)
    (elsewhere : bytes.length ≠ offset) :
    found.Follows segments ⟨number, offset, prior⟩ ↔
      found.segment = number ∧ found.offset = offset ∧
        recordAt number bytes offset prior = .ok (found.lsn, found.payload) := by
  simp only [Found.Follows, leadsTo_iff_of_ne stored elsewhere, exists_eq_left,
    Found.standsAt_iff stored]

theorem follows_iff_of_record {lsn : Lsn} {payload : Bytes}
    (stored : segments number = some bytes)
    (read : recordAt number bytes offset prior = .ok (lsn, payload)) :
    found.Follows segments ⟨number, offset, prior⟩ ↔ found = ⟨number, offset, lsn, payload⟩ := by
  have inside := Chain.recordAt_inside read
  have frame := Chain.frameSize_eq
  rw [follows_iff_of_ne stored (by omega), read]
  cases found
  simp [eq_comm]

theorem follows_iff_of_eq (stored : segments number = some bytes)
    (at_end : bytes.length = offset) :
    found.Follows segments ⟨number, offset, prior⟩ ↔
      (∃ following, segments (number + 1) = some following ∧ Headed (number + 1) following) ∧
        found.Follows segments (.enter (number + 1) 0 prior) := by
  have nothing : ¬ found.StandsAt segments ⟨number, offset, prior⟩ := by
    rw [Found.standsAt_iff stored]
    rintro ⟨-, -, read⟩
    have inside := Chain.recordAt_inside read
    have frame := Chain.frameSize_eq
    omega
  unfold Found.Follows
  simp only [leadsTo_iff_of_eq stored at_end, or_and_right, exists_or, exists_eq_left, nothing,
    false_or, and_assoc, exists_and_left]

theorem lastEnd_iff (stored : segments number = some bytes) :
    LastEnd segments ⟨number, offset, prior⟩ ↔
      bytes.length = offset ∧ segments (number + 1) = none := by
  simp [LastEnd, stored]

theorem Headed.of_passed {following : Bytes} (stored : segments number = some following)
    (passed : checkHeader number following = .ok ()) (bytes : Bytes)
    (stored' : segments number = some bytes) : Headed number bytes := by
  obtain rfl := Option.some.inj (stored.symm.trans stored')
  exact checkHeader_eq_ok_iff.mp passed

theorem rows_of_none (none_follow : ∀ found : Found, ¬ found.Follows segments spot) :
    (∃ last, Row segments spot others last) ↔ others <+: [] := by
  cases others with
  | nil => exact iff_of_true ⟨spot, .nil (.here spot)⟩ List.prefix_rfl
  | cons found rest => simp [row_cons_iff, none_follow]

theorem rows_iff_of_eq (stored : segments number = some bytes) (at_end : bytes.length = offset)
    (headed_next : ∃ following, segments (number + 1) = some following ∧
      Headed (number + 1) following) :
    (∃ last, Row segments ⟨number, offset, prior⟩ others last) ↔
      ∃ last, Row segments (.enter (number + 1) 0 prior) others last := by
  cases others with
  | nil => exact iff_of_true ⟨_, .nil (.here _)⟩ ⟨_, .nil (.here _)⟩
  | cons found rest =>
      simp only [row_cons_iff, exists_and_left, follows_iff_of_eq stored at_end, headed_next,
        true_and]

/-- The rows from where a chain begins are the fronts of its records. -/
theorem Chain.rows_iff (chain : Chain segments number offset prior records stop)
    (headed : ∀ bytes, segments number = some bytes → Headed number bytes) :
    (∃ last, Row segments (.enter number offset prior) others last) ↔ others <+: records := by
  -- A row that goes on has the next record of the chain; where the chain stops, none follows.
  induction chain generalizing others with
  | header _ _ _ ih => exact ih headed
  | unheaded stored broken =>
      rw [checkHeader_eq_ok_iff.mpr (headed _ stored)] at broken
      cases broken
  | @record number offset prior bytes lsn payload rest stop past_header stored read tail ih =>
      have behind := @ih
      rw [Spot.enter_of_le past_header]
      rw [Spot.enter_of_le (by omega)] at behind
      cases others with
      | nil => exact iff_of_true ⟨_, .nil (.here _)⟩ List.nil_prefix
      | cons other others =>
          simp only [row_cons_iff, exists_and_left, follows_iff_of_record stored read,
            List.cons_prefix_cons]
          refine and_congr_right ?_
          rintro rfl
          exact behind headed
  | damaged past_header stored inside broken =>
      rw [Spot.enter_of_le past_header]
      refine rows_of_none fun found => ?_
      rw [follows_iff_of_ne stored (Nat.ne_of_gt inside), broken]
      simp
  | pastEnd past_header stored beyond =>
      rw [Spot.enter_of_le past_header]
      refine rows_of_none fun found => ?_
      rw [follows_iff_of_ne stored (Nat.ne_of_lt beyond)]
      rintro ⟨-, -, read⟩
      have inside := recordAt_inside read
      omega
  | onward past_header stored at_end tail ih =>
      rw [Spot.enter_of_le past_header]
      obtain ⟨following, stored_next, ⟨passed, -⟩ | ⟨fault, broken, rfl, -⟩⟩ :=
        tail.front_cases
      · have headed_next := Headed.of_passed stored_next passed
        rw [rows_iff_of_eq stored at_end ⟨_, stored_next, headed_next _ stored_next⟩]
        exact ih headed_next
      · refine rows_of_none fun found => ?_
        simp [follows_iff_of_eq stored at_end, stored_next, ← checkHeader_eq_ok_iff, broken]
  | ended past_header stored at_end missing =>
      rw [Spot.enter_of_le past_header]
      refine rows_of_none fun found => ?_
      rw [follows_iff_of_eq stored at_end]
      simp [missing]

theorem not_endsFrom_nil (stored : segments number = some bytes)
    (elsewhere : bytes.length ≠ offset) : ¬ EndsFrom segments ⟨number, offset, prior⟩ [] := by
  simp [EndsFrom, row_nil_iff, leadsTo_iff_of_ne stored elsewhere, lastEnd_iff stored, elsewhere]

theorem endsFrom_cons_iff : EndsFrom segments spot (found :: rest) ↔
    found.Follows segments spot ∧ EndsFrom segments found.behind rest := by
  simp only [EndsFrom, row_cons_iff, and_assoc, exists_and_left]

theorem endsFrom_iff_of_eq (stored : segments number = some bytes)
    (at_end : bytes.length = offset) {following : Bytes}
    (stored_next : segments (number + 1) = some following) :
    EndsFrom segments ⟨number, offset, prior⟩ records ↔
      Headed (number + 1) following ∧ EndsFrom segments (.enter (number + 1) 0 prior) records := by
  have goes_on : ¬ LastEnd segments ⟨number, offset, prior⟩ := by
    simp [lastEnd_iff stored, stored_next]
  cases records with
  | nil =>
      simp only [EndsFrom, row_nil_iff, leadsTo_iff_of_eq stored at_end, or_and_right, exists_or,
        exists_eq_left, goes_on, false_or, stored_next, Option.some.injEq, exists_eq_left',
        and_assoc, exists_and_left]
  | cons found rest =>
      simp only [endsFrom_cons_iff, follows_iff_of_eq stored at_end, stored_next,
        Option.some.injEq, exists_eq_left', and_assoc]

theorem Chain.endsFrom_iff (chain : Chain segments number offset prior records stop)
    (headed : ∀ bytes, segments number = some bytes → Headed number bytes) :
    EndsFrom segments (.enter number offset prior) records ↔ stop.fault = none := by
  induction chain with
  | header _ _ _ ih => exact ih headed
  | unheaded stored broken =>
      rw [checkHeader_eq_ok_iff.mpr (headed _ stored)] at broken
      cases broken
  | @record number offset prior bytes lsn payload rest stop past_header stored read tail ih =>
      rw [Spot.enter_of_le (by omega)] at ih
      rw [Spot.enter_of_le past_header, endsFrom_cons_iff, follows_iff_of_record stored read]
      exact (and_iff_right rfl).trans (ih headed)
  | damaged past_header stored inside =>
      rw [Spot.enter_of_le past_header]
      exact iff_of_false (not_endsFrom_nil stored (Nat.ne_of_gt inside)) nofun
  | pastEnd past_header stored beyond =>
      rw [Spot.enter_of_le past_header]
      exact iff_of_false (not_endsFrom_nil stored (Nat.ne_of_lt beyond)) nofun
  | onward past_header stored at_end tail ih =>
      rw [Spot.enter_of_le past_header]
      obtain ⟨following, stored_next, ⟨passed, -⟩ | ⟨fault, broken, rfl, rfl⟩⟩ :=
        tail.front_cases
      · have headed_next := Headed.of_passed stored_next passed
        rw [endsFrom_iff_of_eq stored at_end stored_next,
          and_iff_right (headed_next _ stored_next)]
        exact ih headed_next
      · rw [endsFrom_iff_of_eq stored at_end stored_next, ← checkHeader_eq_ok_iff, broken]
        exact iff_of_false nofun nofun
  | ended past_header stored at_end missing =>
      rw [Spot.enter_of_le past_header]
      exact iff_of_true ⟨_, .nil (.here _), (lastEnd_iff stored).mpr ⟨at_end, missing⟩⟩ rfl

/-! ## Rows and readings -/

theorem Readable.headed_of {start : LogAnchor} (readable : Readable segments start)
    (stored : segments start.segment = some bytes) : Headed start.segment bytes := by
  obtain ⟨held, stored', headed⟩ := readable.headed
  exact Option.some.inj (stored'.symm.trans stored) ▸ headed

theorem not_readable_of_broken {start : LogAnchor} {fault : LogFault}
    (stored : segments start.segment = some bytes)
    (broken : checkHeader start.segment bytes = .error fault) : ¬ Readable segments start := by
  intro readable
  rw [checkHeader_eq_ok_iff.mpr (readable.headed_of stored)] at broken
  cases broken

theorem Reading.chain_or_nil {start : LogAnchor}
    (reading : Reading segments start records stop) :
    Readable segments start ∧
        Chain segments start.segment start.offset (.start start.lsn) records stop ∨
      ¬ Readable segments start ∧ records = [] ∧
        (segments start.segment = none ↔ stop.fault = none) := by
  cases reading with
  | missing missing =>
      refine .inr ⟨fun readable => ?_, rfl, iff_of_true missing rfl⟩
      obtain ⟨bytes, stored, -⟩ := readable.headed
      simp [missing] at stored
  | whole at_start chain =>
      obtain ⟨bytes, stored, ⟨passed, -⟩ | ⟨fault, broken, rfl, rfl⟩⟩ := chain.front_cases
      · exact .inl ⟨⟨⟨_, stored, checkHeader_eq_ok_iff.mp passed⟩, .inl at_start⟩,
          at_start.symm ▸ chain⟩
      · exact .inr ⟨not_readable_of_broken stored broken, rfl, by simp [stored]⟩
  | unheaded _ stored broken =>
      exact .inr ⟨not_readable_of_broken stored broken, rfl, by simp [stored]⟩
  | insideHeader inside stored _ short =>
      refine .inr ⟨fun readable => ?_, rfl, by simp [stored]⟩
      rcases readable.offset with at_start | past_header
      · exact inside at_start
      · exact Nat.not_lt.mpr past_header short
  | part stored passed past_header chain =>
      exact .inl ⟨⟨⟨_, stored, checkHeader_eq_ok_iff.mp passed⟩, .inr past_header⟩, chain⟩

theorem Reading.longestRow {start : LogAnchor}
    (reading : Reading segments start records stop) : LongestRow segments start records := by
  suffices every : ∀ others, RowFrom segments start others ↔ others <+: records from
    ⟨(every records).mpr List.prefix_rfl, (every _).mp⟩
  intro others
  rcases reading.chain_or_nil with ⟨readable, chain⟩ | ⟨unreadable, rfl, -⟩
  · have rows : (∃ last, Row segments (.starting start) others last) ↔ others <+: records :=
      chain.rows_iff fun _ => readable.headed_of
    rw [RowFrom, and_iff_right readable, ← rows]
    refine or_iff_right_of_imp ?_
    rintro rfl
    exact ⟨_, .nil (.here _)⟩
  · simp [RowFrom, unreadable]

theorem LongestRow.unique {start : LogAnchor} (first : LongestRow segments start records)
    (second : LongestRow segments start others) : records = others := by
  have front := second.longest first.row
  exact front.eq_of_length_le (first.longest second.row).length_le

theorem Reading.endsWith_iff {start : LogAnchor}
    (reading : Reading segments start records stop) :
    EndsWith segments start records ↔ stop.fault = none := by
  rcases reading.chain_or_nil with ⟨readable, chain⟩ | ⟨unreadable, -, missing_iff⟩
  · obtain ⟨bytes, stored, -⟩ := readable.headed
    rw [EndsWith, and_iff_right readable, stored]
    exact (or_iff_right nofun).trans (chain.endsFrom_iff fun _ => readable.headed_of)
  · rw [EndsWith, ← missing_iff]
    exact or_iff_left fun ends => unreadable ends.1

end

/-! ## Folders that provide segments -/

theorem exists_numbers (system : FileSystem) (path : Path) :
    ∃ numbers : Finset SegmentNumber, numbers.card ≤ system.nodes.length ∧
      ∀ {number : SegmentNumber} {file : FileId},
        system.openFile (segmentPath path number) = .ok file → number ∈ numbers := by
  cases folder_eq : system.reachFrom [] (folderPath path) with
  | error refusal =>
      refine ⟨∅, Nat.zero_le _, fun opened => ?_⟩
      obtain ⟨folder, folder_eq', -⟩ := mem_places_of_opened opened
      rw [folder_eq] at folder_eq'
      cases folder_eq'
  | ok folder =>
      let placeOf (number : SegmentNumber) : Place := folder ++ [segmentName number]
      have injective : Function.Injective placeOf := fun _ _ same =>
        segmentName_injective (List.singleton_inj.mp (List.append_cancel_left same))
      let places : Finset Place := (system.nodes.map (·.1)).toFinset
      refine ⟨places.preimage placeOf injective.injOn, ?_, fun opened => ?_⟩
      · calc
          _ ≤ places.card := Finset.card_le_card_of_injOn placeOf
            (fun _ member => Finset.mem_preimage.mp member) injective.injOn
          _ ≤ (system.nodes.map (·.1)).length := List.toFinset_card_le _
          _ = system.nodes.length := List.length_map _
      · obtain ⟨folder', folder_eq', member⟩ := mem_places_of_opened opened
        obtain rfl : folder = folder' := Except.ok.inj (folder_eq.symm.trans folder_eq')
        exact Finset.mem_preimage.mpr (List.mem_toFinset.mpr member)

/-- Of every segment that a scan asks for, the folder has the file, or no such name. -/
def LogFiles.Answers (log : LogFiles) (home : Home) (first : SegmentNumber) : Prop :=
  match home with
  | .memory => True
  | .folder path _ =>
      ∀ number, Asked (log.segmentsIn home) first number → ∀ refusal,
        log.system.openFile (segmentPath path number) = .error refusal → refusal = .notFound

theorem LogFiles.Answers.provides {log : LogFiles} {home : Home} {first : SegmentNumber}
    (answers : log.Answers home first) : Provides log home first (log.segmentsIn home) := by
  cases home with
  | memory => exact log.provides first
  | folder path lock =>
      refine ⟨fun stored => ?_, fun {number} missing asked => ?_, ?_⟩
      · obtain ⟨file, file_eq, bytes_eq⟩ := Option.map_eq_some_iff.mp stored
        obtain ⟨handle, looks, fresh⟩ := Looks.openSegment_of_file file_eq
        exact ⟨_, rfl, looks, fresh.sees bytes_eq⟩
      · have opened : log.system.openFile (segmentPath path number) = .error .notFound := by
          cases opened : log.system.openFile (segmentPath path number) with
          | ok file =>
              have stored : log.file? (.folder path lock) number = some file :=
                LogFiles.file?_folder_eq_some_iff.mpr opened
              rw [LogFiles.segmentsIn_eq_none_iff.mp missing] at stored
              cases stored
          | error refusal => rw [answers number asked refusal opened]
        refine Looks.of_call (by simp [Call.kind, scanCalls]) (fun _ => .inl rfl)
          (beginOnRow_apply number .openSegment) fun calls => ?_
        have opened : (log.atCall calls).system.openFile (segmentPath path number) =
            .error .notFound := opened
        rw [openInFolder_apply, opened]
        exact ⟨_, rfl, rfl⟩
      · obtain ⟨numbers, few, named⟩ := exists_numbers log.system path
        refine ⟨numbers, few, fun stored => ?_⟩
        obtain ⟨file, file_eq, -⟩ := Option.map_eq_some_iff.mp stored
        exact named (LogFiles.file?_folder_eq_some_iff.mp file_eq)

/-! ## Calls with any records to fill -/

/--
So many calls of a scanner one after the other.  The record that a call fills is chosen
when the calls before it are known, the latest one first.
-/
def Scanner.nextChoosing (choose : List Scanner.Step → Record) (scanner : Scanner)
    (earlier : List Scanner.Step) : (count : Nat) → StateM LogFiles (List Scanner.Step)
  | 0 => return []
  | count + 1 => do
      let step ← scanner.next (choose earlier)
      return step :: (← nextChoosing choose step.scanner (step :: earlier) count)

theorem Scanner.nextChoosing_eq (choose : List Scanner.Step → Record) (scanner : Scanner)
    (earlier : List Scanner.Step) (count : Nat) (log : LogFiles) :
    ∃ buffers : List Record, buffers.length = count ∧
      scanner.nextChoosing choose earlier count log = scanner.nextEach buffers log := by
  induction count generalizing scanner earlier log with
  | zero => exact ⟨[], rfl, rfl⟩
  | succ count ih =>
      rcases called : scanner.next (choose earlier) log with ⟨step, log'⟩
      obtain ⟨buffers, length, same⟩ := ih step.scanner (step :: earlier) log'
      refine ⟨choose earlier :: buffers, by rw [List.length_cons, length], ?_⟩
      rw [nextEach_cons_apply, called]
      simp only [← same]
      rw [nextChoosing, stateM_bind_apply, called, stateM_bind_apply]
      rfl

/--
So many calls come upon no number that is the last one.  Sequence numbers and numbers of
segments are words of 64 bits: behind the last word there is no next sequence number to
tell, and behind the last segment, when all of it is read, there is none to ask for.
-/
structure HaveNext (segments : Segments) (start : LogAnchor) (records : List Found)
    (count : Nat) : Prop where
  lsn_lt : ∀ found ∈ records.take count, found.lsn.next < UInt64.size
  segment_lt : records.length < count → Readable segments start → ∀ spot bytes,
    Row segments (.starting start) records spot → segments spot.segment = some bytes →
    bytes.length = spot.offset → spot.segment + 1 < UInt64.size

def sampleFolder : LogFiles where
  system := { FileSystem.empty "" with
    files := [.ofBytes (headerBytes 0 ++ recordBytes 1 [7, 7]),
      .ofBytes (headerBytes 1 ++ recordBytes 2 [8])]
    nodes := [([segmentName 0], .file 0), ([segmentName 1], .file 1)] }
  memory := []
  injection := .never

def sampleFound : List Found := [⟨0, 12, 1, [7, 7]⟩, ⟨1, 12, 2, [8]⟩]

theorem sampleFolder_stored {number : SegmentNumber} {bytes : Bytes}
    (stored : sampleFolder.segmentsIn (.folder [] 2) number = some bytes) :
    number = 0 ∨ number = 1 := by
  obtain ⟨file, file_eq, -⟩ := Option.map_eq_some_iff.mp stored
  obtain ⟨folder, -, member⟩ :=
    mem_places_of_opened (LogFiles.file?_folder_eq_some_iff.mp file_eq)
  have member : folder ++ [segmentName number] = [segmentName 0] ∨
      folder ++ [segmentName number] = [segmentName 1] := by
    simpa [sampleFolder] using member
  have last {other : SegmentNumber} (same : folder ++ [segmentName number] =
      [segmentName other]) : number = other :=
    segmentName_injective (by simpa using congrArg List.getLast? same)
  exact member.imp last last

theorem sampleFolder_answers : sampleFolder.Answers (.folder [] 2) 0 := by
  intro number asked refusal refused
  cases asked with
  | start =>
      have opened : sampleFolder.system.openFile (segmentPath [] 0) = .ok 0 := by decide
      rw [opened] at refused
      cases refused
  | behind stored =>
      rcases sampleFolder_stored stored with rfl | rfl
      · have opened : sampleFolder.system.openFile (segmentPath [] 1) = .ok 1 := by decide
        rw [opened] at refused
        cases refused
      · have missing : sampleFolder.system.openFile (segmentPath [] 2) = .error .notFound := by
          decide
        rw [missing] at refused
        exact (Except.error.inj refused).symm

theorem sampleFolder_reading :
    Reading (sampleFolder.segmentsIn (.folder [] 2)) (.startOf 0) sampleFound ⟨none, 1, 45⟩ := by
  have first : sampleFolder.segmentsIn (.folder [] 2) 0 =
      some (headerBytes 0 ++ recordBytes 1 [7, 7]) := by decide +kernel
  have second : sampleFolder.segmentsIn (.folder [] 2) 1 =
      some (headerBytes 1 ++ recordBytes 2 [8]) := by decide +kernel
  have missing : sampleFolder.segmentsIn (.folder [] 2) 2 = none := by decide +kernel
  refine .whole rfl (.header first (by decide +kernel) ?_)
  refine .record (by decide) first (by decide +kernel) ?_
  refine .onward (by decide) first (by decide +kernel) ?_
  refine .header second (by decide +kernel) ?_
  refine .record (by decide) second (by decide +kernel) ?_
  exact .ended (by decide) second (by decide +kernel) missing

theorem sampleFolder_haveNext (count : Nat) :
    HaveNext (sampleFolder.segmentsIn (.folder [] 2)) (.startOf 0) sampleFound count := by
  constructor
  · have every : ∀ found ∈ sampleFound, found.lsn.next < UInt64.size := by decide
    exact fun found member => every found (List.mem_of_mem_take member)
  · intro _ _ spot bytes _ stored _
    rcases sampleFolder_stored stored with number_eq | number_eq <;>
      · rw [number_eq]
        decide

-- One record is filled again and again.
example : ((Scanner.startAt (.folder [] 2) (.startOf 0)).nextChoosing
      (fun earlier => (earlier.head?.map (·.record)).getD .empty) [] 3 sampleFolder).1.map
        (fun step => (step.record.payload, step.scanner.lastGood)) =
    [([7, 7], ⟨0, 46, some 1⟩), ([8], ⟨1, 45, some 2⟩), ([8], ⟨1, 45, some 2⟩)] := by
  decide +kernel

end DirectoryStore.Log
