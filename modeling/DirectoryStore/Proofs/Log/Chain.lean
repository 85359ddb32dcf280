import DirectoryStore.Proofs.Log.Grammar

/-!
# Chains of records

A chain is what a scan reads from a place on: records that follow one another
up to the place where no further record stands, together with the reason.  It is
defined on the bytes of the segments alone.  Offset 0 is the start of a segment,
where its header is looked for; at the end of a segment the chain goes on at the
start of the next one.

From a place there is exactly one chain.  A chain can be cut where it stops:
whatever is put there is read after the same records, as long as nothing before
the cut changes.
-/

namespace DirectoryStore.Log

abbrev Segments := SegmentNumber → Option Bytes

def EndsBefore (segments : Segments) (bound : SegmentNumber) : Prop :=
  ∀ number, bound ≤ number → segments number = none

structure Found where
  segment : SegmentNumber
  offset : Nat
  lsn : Lsn
  payload : Bytes
  deriving DecidableEq, Repr

namespace Found

def anchor (found : Found) : LogAnchor :=
  ⟨found.segment, found.offset, some found.lsn⟩

def finish (found : Found) : Nat :=
  found.offset + frameSize + found.payload.length

end Found

/-- Where a chain stops, and what is wrong there unless the log ends. -/
structure Stop where
  fault : Option LogFault
  segment : SegmentNumber
  offset : Nat
  deriving DecidableEq, Repr

def Prior.following (prior : Prior) (records : List Found) : Prior :=
  match records.getLast? with
  | some found => .after found.lsn
  | none => prior

@[simp] theorem Prior.following_nil (prior : Prior) : prior.following [] = prior :=
  rfl

theorem Prior.following_cons (prior : Prior) (found : Found)
    (records : List Found) :
    prior.following (found :: records) =
      (Prior.after found.lsn).following records := by
  cases last : records.getLast? <;>
    simp [following, List.getLast?_cons, last]

theorem Prior.following_append (prior : Prior) (first second : List Found) :
    prior.following (first ++ second) = (prior.following first).following second := by
  induction first generalizing prior with
  | nil => rfl
  | cons found rest ih =>
      rw [List.cons_append, Prior.following_cons, Prior.following_cons, ih]

inductive Chain (segments : Segments) :
    SegmentNumber → Nat → Prior → List Found → Stop → Prop where
  | header {number : SegmentNumber} {prior : Prior} {bytes : Bytes}
      {records : List Found} {stop : Stop}
      (stored : segments number = some bytes)
      (passed : checkHeader number bytes = .ok ())
      (tail : Chain segments number SegmentHeader.size prior records stop) :
      Chain segments number 0 prior records stop
  | unheaded {number : SegmentNumber} {prior : Prior} {bytes : Bytes}
      {fault : LogFault}
      (stored : segments number = some bytes)
      (broken : checkHeader number bytes = .error fault) :
      Chain segments number 0 prior [] ⟨some fault, number, 0⟩
  | record {number : SegmentNumber} {offset : Nat} {prior : Prior} {bytes : Bytes}
      {lsn : Lsn} {payload : Bytes} {rest : List Found} {stop : Stop}
      (past_header : SegmentHeader.size ≤ offset)
      (stored : segments number = some bytes)
      (read : recordAt number bytes offset prior = .ok (lsn, payload))
      (tail : Chain segments number (offset + frameSize + payload.length)
        (.after lsn) rest stop) :
      Chain segments number offset prior (⟨number, offset, lsn, payload⟩ :: rest)
        stop
  | damaged {number : SegmentNumber} {offset : Nat} {prior : Prior} {bytes : Bytes}
      {fault : LogFault}
      (past_header : SegmentHeader.size ≤ offset)
      (stored : segments number = some bytes)
      (inside : offset < bytes.length)
      (broken : recordAt number bytes offset prior = .error fault) :
      Chain segments number offset prior [] ⟨some fault, number, offset⟩
  | pastEnd {number : SegmentNumber} {offset : Nat} {prior : Prior} {bytes : Bytes}
      (past_header : SegmentHeader.size ≤ offset)
      (stored : segments number = some bytes)
      (beyond : bytes.length < offset) :
      Chain segments number offset prior []
        ⟨some (.startPastEnd offset number bytes.length), number, offset⟩
  | onward {number : SegmentNumber} {offset : Nat} {prior : Prior}
      {bytes : Bytes} {records : List Found} {stop : Stop}
      (past_header : SegmentHeader.size ≤ offset)
      (stored : segments number = some bytes)
      (at_end : bytes.length = offset)
      (tail : Chain segments (number + 1) 0 prior records stop) :
      Chain segments number offset prior records stop
  | ended {number : SegmentNumber} {offset : Nat} {prior : Prior} {bytes : Bytes}
      (past_header : SegmentHeader.size ≤ offset)
      (stored : segments number = some bytes)
      (at_end : bytes.length = offset)
      (missing : segments (number + 1) = none) :
      Chain segments number offset prior [] ⟨none, number, offset⟩

namespace Chain

variable {segments segments' : Segments} {number : SegmentNumber} {offset : Nat}
  {prior : Prior} {records : List Found} {stop : Stop}

@[grind →] theorem recordAt_inside {bytes payload : Bytes} {lsn : Lsn}
    (read : recordAt number bytes offset prior = .ok (lsn, payload)) :
    offset + frameSize + payload.length ≤ bytes.length :=
  (recordAt_eq_ok_iff.mp read).1.inside

theorem frameSize_eq : frameSize = 32 := rfl

@[grind →] theorem stored (chain : Chain segments number offset prior records stop) :
    ∃ bytes, segments number = some bytes := by
  cases chain <;> exact ⟨_, ‹_›⟩

/-- Nothing but the contents of the segments decides what a chain is. -/
theorem unique {records' : List Found} {stop' : Stop}
    (chain : Chain segments number offset prior records stop)
    (other : Chain segments number offset prior records' stop') :
    records = records' ∧ stop = stop' := by
  induction chain generalizing records' stop' <;> cases other <;>
    grind [SegmentHeader.size, frameSize_eq]

/-! ## Where a chain leads -/

theorem front_cases (chain : Chain segments number 0 prior records stop) :
    ∃ bytes, segments number = some bytes ∧
      (checkHeader number bytes = .ok () ∧
          Chain segments number SegmentHeader.size prior records stop ∨
        ∃ fault, checkHeader number bytes = .error fault ∧ records = [] ∧
          stop = ⟨some fault, number, 0⟩) := by
  cases chain with
  | header stored passed tail => exact ⟨_, stored, .inl ⟨passed, tail⟩⟩
  | unheaded stored broken => exact ⟨_, stored, .inr ⟨_, broken, rfl, rfl⟩⟩
  | record past | damaged past | pastEnd past | onward past | ended past =>
      simp [SegmentHeader.size] at past

theorem inside_cases {bytes : Bytes}
    (chain : Chain segments number offset prior records stop)
    (past_header : SegmentHeader.size ≤ offset) (stored : segments number = some bytes)
    (inside : offset < bytes.length) :
    (∃ lsn payload rest, records = ⟨number, offset, lsn, payload⟩ :: rest ∧
        recordAt number bytes offset prior = .ok (lsn, payload) ∧
        Chain segments number (offset + frameSize + payload.length) (.after lsn) rest stop) ∨
      ∃ fault, records = [] ∧ stop = ⟨some fault, number, offset⟩ ∧
        recordAt number bytes offset prior = .error fault := by
  have same {bytes' : Bytes} (stored' : segments number = some bytes') : bytes' = bytes :=
    Option.some.inj (stored'.symm.trans stored)
  cases chain with
  | header | unheaded => simp [SegmentHeader.size] at past_header
  | record _ stored' read tail =>
      obtain rfl := same stored'
      exact .inl ⟨_, _, _, rfl, read, tail⟩
  | damaged _ stored' _ broken =>
      obtain rfl := same stored'
      exact .inr ⟨_, rfl, rfl, broken⟩
  | pastEnd _ stored' beyond =>
      obtain rfl := same stored'
      exact absurd inside (Nat.lt_asymm beyond)
  | onward _ stored' at_end | ended _ stored' at_end =>
      obtain rfl := same stored'
      exact absurd at_end (Nat.ne_of_gt inside)

theorem place_le (chain : Chain segments number offset prior records stop) :
    number < stop.segment ∨ number = stop.segment ∧ offset ≤ stop.offset := by
  induction chain with
  | header _ _ _ ih => grind
  | record _ _ _ _ ih => grind
  | onward _ _ _ _ ih => grind
  | unheaded | damaged | pastEnd | ended => simp

theorem segment_le (chain : Chain segments number offset prior records stop) :
    number ≤ stop.segment := by
  have := chain.place_le
  grind

theorem stop_stored (chain : Chain segments number offset prior records stop) :
    ∃ bytes, segments stop.segment = some bytes := by
  induction chain with
  | header _ _ _ ih | record _ _ _ _ ih | onward _ _ _ _ ih => exact ih
  | unheaded stored | damaged _ stored | pastEnd _ stored | ended _ stored =>
      exact ⟨_, stored⟩

theorem stop_inside (chain : Chain segments number offset prior records stop)
    {bytes : Bytes} (stored : segments number = some bytes)
    (inside : offset ≤ bytes.length) :
    ∃ bytes, segments stop.segment = some bytes ∧ stop.offset ≤ bytes.length := by
  induction chain generalizing bytes with
  | header stored' passed _ ih =>
      exact ih stored' (checkHeader_eq_ok_iff.mp passed).inside
  | record _ stored' read _ ih => exact ih stored' (recordAt_inside read)
  | onward _ _ _ tail ih =>
      obtain ⟨following, stored'⟩ := tail.stored
      exact ih stored' (Nat.zero_le _)
  | pastEnd _ stored' beyond =>
      obtain rfl := Option.some.inj (stored.symm.trans stored')
      omega
  | unheaded | damaged | ended => exact ⟨bytes, stored, inside⟩

theorem eof_place (chain : Chain segments number offset prior records stop)
    (eof : stop.fault = none) :
    SegmentHeader.size ≤ stop.offset ∧
      (∃ bytes, segments stop.segment = some bytes ∧
        bytes.length = stop.offset) ∧
      segments (stop.segment + 1) = none := by
  induction chain with
  | header _ _ _ ih | record _ _ _ _ ih | onward _ _ _ _ ih => exact ih eof
  | unheaded | damaged | pastEnd => cases eof
  | ended past_header stored at_end missing =>
      exact ⟨past_header, ⟨_, stored, at_end⟩, missing⟩

theorem eof_of_at_end (chain : Chain segments number offset prior records stop)
    (past_header : SegmentHeader.size ≤ stop.offset) {bytes : Bytes}
    (stored : segments stop.segment = some bytes) (at_end : bytes.length = stop.offset) :
    stop.fault = none := by
  induction chain with
  | header _ _ _ ih | record _ _ _ _ ih | onward _ _ _ _ ih =>
      exact ih past_header stored at_end
  | unheaded => simp [SegmentHeader.size] at past_header
  | damaged _ stored' inside =>
      obtain rfl := Option.some.inj (stored.symm.trans stored')
      exact absurd at_end (Nat.ne_of_gt inside)
  | pastEnd _ stored' beyond =>
      obtain rfl := Option.some.inj (stored.symm.trans stored')
      exact absurd at_end (Nat.ne_of_lt beyond)
  | ended => rfl

theorem headed_iff (chain : Chain segments number offset prior records stop)
    {bytes : Bytes} (stored : segments stop.segment = some bytes)
    (entered : number = stop.segment → offset ≠ 0 → checkHeader stop.segment bytes = .ok ()) :
    checkHeader stop.segment bytes = .ok () ↔ SegmentHeader.size ≤ stop.offset := by
  have nonzero {place : Nat} (past_header : SegmentHeader.size ≤ place) : place ≠ 0 :=
    Nat.ne_of_gt (Nat.lt_of_lt_of_le (by decide) past_header)
  induction chain with
  | @header number _ bytes' _ stop stored' passed _ ih =>
      refine ih stored fun here _ => ?_
      subst here
      obtain rfl := Option.some.inj (stored.symm.trans stored')
      exact passed
  | unheaded stored' broken =>
      obtain rfl := Option.some.inj (stored.symm.trans stored')
      simp [broken, SegmentHeader.size]
  | record past_header _ _ _ ih =>
      exact ih stored fun here _ => entered here (nonzero past_header)
  | onward _ _ _ _ ih => exact ih stored fun _ inside => absurd rfl inside
  | damaged past_header | pastEnd past_header | ended past_header =>
      exact iff_of_true (entered rfl (nonzero past_header)) past_header

theorem place_le_of_mem (chain : Chain segments number offset prior records stop)
    {found : Found} (member : found ∈ records) :
    (number < found.segment ∨ number = found.segment ∧ offset ≤ found.offset) ∧
      SegmentHeader.size ≤ found.offset := by
  induction chain with
  | header _ _ _ ih =>
      obtain ⟨behind, past_header⟩ := ih member
      exact ⟨by grind, past_header⟩
  | record past_header _ _ _ ih =>
      rcases List.mem_cons.mp member with rfl | later
      · exact ⟨.inr ⟨rfl, Nat.le_refl _⟩, past_header⟩
      · obtain ⟨behind, past_header⟩ := ih later
        exact ⟨by grind, past_header⟩
  | onward _ _ _ _ ih =>
      obtain ⟨behind, past_header⟩ := ih member
      exact ⟨by grind, past_header⟩
  | unheaded | damaged | pastEnd | ended => cases member

theorem stored_of_mem (chain : Chain segments number offset prior records stop)
    {found : Found} (member : found ∈ records) :
    ∃ bytes, segments found.segment = some bytes ∧ found.finish ≤ bytes.length := by
  induction chain with
  | header _ _ _ ih | onward _ _ _ _ ih => exact ih member
  | record _ stored read _ ih =>
      rcases List.mem_cons.mp member with rfl | later
      · exact ⟨_, stored, recordAt_inside read⟩
      · exact ih later
  | unheaded | damaged | pastEnd | ended => cases member

theorem finish_le_of_mem (chain : Chain segments number offset prior records stop)
    {found : Found} (member : found ∈ records) :
    found.segment < stop.segment ∨
      found.segment = stop.segment ∧ found.finish ≤ stop.offset := by
  induction chain with
  | header _ _ _ ih | onward _ _ _ _ ih => exact ih member
  | record _ _ _ tail ih =>
      rcases List.mem_cons.mp member with rfl | later
      · exact tail.place_le
      · exact ih later
  | unheaded | damaged | pastEnd | ended => cases member

theorem segment_le_of_mem (chain : Chain segments number offset prior records stop)
    {found : Found} (member : found ∈ records) : found.segment ≤ stop.segment := by
  have := chain.finish_le_of_mem member
  grind

theorem exists_mem_of_lt (chain : Chain segments number offset prior records stop)
    (past_header : SegmentHeader.size < stop.offset)
    (past : number = stop.segment → offset < stop.offset) :
    ∃ found ∈ records, found.segment = stop.segment ∧ found.finish = stop.offset := by
  induction chain with
  | header _ _ _ ih => exact ih past_header fun _ => past_header
  | @record number offset _ _ lsn payload rest stop _ _ _ tail ih =>
      by_cases here : number = stop.segment ∧
          stop.offset ≤ offset + frameSize + payload.length
      · have place := tail.place_le
        refine ⟨_, List.mem_cons_self, here.1, ?_⟩
        unfold Found.finish
        grind
      · obtain ⟨found, member, last⟩ := ih past_header fun same => by
          have := not_and.mp here same
          omega
        exact ⟨found, List.mem_cons_of_mem _ member, last⟩
  | onward _ _ _ _ ih => exact ih past_header fun _ => Nat.zero_lt_of_lt past_header
  | unheaded => cases past_header
  | damaged | pastEnd | ended => exact absurd (past rfl) (Nat.lt_irrefl _)

/-! ## Cutting a chain where it stops -/

/-- Two logs that agree up to a place. -/
structure AgreeUpTo (segments segments' : Segments) (number : SegmentNumber)
    (offset : Nat) : Prop where
  before : ∀ other < number, segments' other = segments other
  at_cut : ∃ bytes bytes', segments number = some bytes ∧
    segments' number = some bytes' ∧ SameUpTo offset bytes bytes'

theorem AgreeUpTo.bytes {cut : Nat}
    (agree : AgreeUpTo segments segments' stop.segment stop.offset)
    (place : number < stop.segment ∨ number = stop.segment ∧ cut ≤ stop.offset)
    {bytes : Bytes} (stored : segments number = some bytes)
    (inside : cut ≤ bytes.length) :
    ∃ bytes', segments' number = some bytes' ∧ SameUpTo cut bytes bytes' := by
  rcases place with earlier | ⟨rfl, cut_le⟩
  · exact ⟨bytes, by rw [agree.before _ earlier, stored], .refl inside⟩
  · obtain ⟨held, bytes', held_stored, stored', same⟩ := agree.at_cut
    obtain rfl : held = bytes := Option.some.inj (held_stored.symm.trans stored)
    exact ⟨bytes', stored', same.mono cut_le⟩

/-- What stands at the cut is read after the records before the cut. -/
theorem resume (chain : Chain segments number offset prior records stop)
    (agree : AgreeUpTo segments segments' stop.segment stop.offset)
    {rest : List Found} {stop' : Stop}
    (tail : Chain segments' stop.segment stop.offset (prior.following records)
      rest stop') :
    Chain segments' number offset prior (records ++ rest) stop' := by
  induction chain with
  | @header number prior bytes records stop stored passed chain ih =>
      have headed := checkHeader_eq_ok_iff.mp passed
      obtain ⟨bytes', stored', same⟩ :=
        agree.bytes chain.place_le stored headed.inside
      exact .header stored'
        (checkHeader_eq_ok_iff.mpr (headed.of_same same (Nat.le_refl _)))
        (ih agree tail)
  | @record number offset prior bytes lsn payload rest' stop past_header stored
      read chain ih =>
      have ⟨found, admits⟩ := recordAt_eq_ok_iff.mp read
      obtain ⟨bytes', stored', same⟩ :=
        agree.bytes chain.place_le stored found.inside
      rw [Prior.following_cons] at tail
      exact .record past_header stored'
        (recordAt_eq_ok_iff.mpr ⟨found.of_same same (Nat.le_refl _), admits⟩)
        (ih agree tail)
  | @onward number offset prior bytes records stop past_header stored at_end
      chain ih =>
      have next_le := chain.place_le
      have same_here := agree.before number (by grind)
      exact .onward past_header (same_here.trans stored) at_end
        (ih agree tail)
  | unheaded | damaged | pastEnd | ended => exact tail

theorem AgreeUpTo.mono {cut cut' : Nat} (agree : AgreeUpTo segments segments' number cut)
    (le : cut' ≤ cut) : AgreeUpTo segments segments' number cut' := by
  obtain ⟨before, bytes, bytes', stored, stored', same⟩ := agree
  exact ⟨before, bytes, bytes', stored, stored', same.mono le⟩

theorem finds {found : Found} {front back : List Found}
    (chain : Chain segments number offset prior (front ++ found :: back) stop) :
    ∃ bytes, segments found.segment = some bytes ∧
      recordAt found.segment bytes found.offset (prior.following front) =
        .ok (found.lsn, found.payload) ∧
      Chain segments found.segment found.finish (.after found.lsn) back stop := by
  generalize same : front ++ found :: back = records at chain
  induction chain generalizing front with
  | header _ _ _ ih | onward _ _ _ _ ih => exact ih same
  | record past_header stored read tail ih =>
      cases front with
      | nil =>
          obtain ⟨rfl, rfl⟩ := List.cons.inj same
          exact ⟨_, stored, read, tail⟩
      | cons other front =>
          obtain ⟨rfl, behind⟩ := List.cons.inj same
          rw [Prior.following_cons]
          exact ih behind
  | unheaded | damaged | pastEnd | ended => simp at same

theorem resume_before {found : Found} {front back : List Found}
    (chain : Chain segments number offset prior (front ++ found :: back) stop)
    (agree : AgreeUpTo segments segments' found.segment found.offset)
    {rest : List Found} {stop' : Stop}
    (tail : Chain segments' found.segment found.offset (prior.following front) rest stop') :
    Chain segments' number offset prior (front ++ rest) stop' := by
  let cut : Stop := ⟨none, found.segment, found.offset⟩
  have agree : AgreeUpTo segments segments' cut.segment cut.offset := agree
  generalize same : front ++ found :: back = records at chain
  have member : found ∈ records := by simp [← same]
  induction chain generalizing front with
  | header stored passed chain ih =>
      have headed := checkHeader_eq_ok_iff.mp passed
      obtain ⟨bytes', stored', agrees⟩ :=
        agree.bytes (chain.place_le_of_mem member).1 stored headed.inside
      exact .header stored'
        (checkHeader_eq_ok_iff.mpr (headed.of_same agrees (Nat.le_refl _)))
        (ih tail same member)
  | @record number offset prior bytes lsn payload records stop past_header stored read
      chain ih =>
      have ⟨stands, admits⟩ := recordAt_eq_ok_iff.mp read
      cases front with
      | nil =>
          obtain ⟨rfl, rfl⟩ := List.cons.inj same
          exact tail
      | cons other front =>
          obtain ⟨rfl, behind⟩ := List.cons.inj same
          have later : found ∈ records := by simp [← behind]
          obtain ⟨bytes', stored', agrees⟩ :=
            agree.bytes (chain.place_le_of_mem later).1 stored stands.inside
          rw [Prior.following_cons] at tail
          exact .record past_header stored' (recordAt_eq_ok_iff.mpr
            ⟨stands.of_same agrees (Nat.le_refl _), admits⟩) (ih tail behind later)
  | @onward number offset prior bytes records stop past_header stored at_end chain ih =>
      have next_le := (chain.place_le_of_mem member).1
      have same_here := agree.before number (by grind)
      exact .onward past_header (same_here.trans stored) at_end (ih tail same member)
  | unheaded | damaged | pastEnd | ended => cases member

theorem resume_behind {found : Found} {front back : List Found}
    (chain : Chain segments number offset prior (front ++ found :: back) stop)
    (agree : AgreeUpTo segments segments' found.segment found.finish)
    {rest : List Found} {stop' : Stop}
    (tail : Chain segments' found.segment found.finish (.after found.lsn) rest stop') :
    Chain segments' number offset prior (front ++ found :: rest) stop' := by
  have past_header := (chain.place_le_of_mem (List.mem_append_right _ List.mem_cons_self)).2
  have offset_le : found.offset ≤ found.finish := by
    unfold Found.finish
    omega
  obtain ⟨bytes, stored, read, -⟩ := chain.finds
  obtain ⟨stands, admits⟩ := recordAt_eq_ok_iff.mp read
  obtain ⟨held, bytes', held_stored, stored', same⟩ := agree.at_cut
  obtain rfl := Option.some.inj (held_stored.symm.trans stored)
  exact chain.resume_before (agree.mono offset_le) (.record past_header stored'
    (recordAt_eq_ok_iff.mpr ⟨stands.of_same same (Nat.le_refl _), admits⟩) tail)

/-! ## Every place has a chain -/

private theorem exists_in_segment {bytes : Bytes} (offset : Nat)
    (stored : segments number = some bytes)
    (onwards : ∀ prior, segments (number + 1) = none ∨
      ∃ records stop, Chain segments (number + 1) 0 prior records stop)
    (past_header : SegmentHeader.size ≤ offset) (prior : Prior) :
    ∃ records stop, Chain segments number offset prior records stop := by
  rcases Nat.lt_trichotomy bytes.length offset with beyond | at_end | inside
  · exact ⟨_, _, .pastEnd past_header stored beyond⟩
  · rcases onwards prior with missing | ⟨records, stop, tail⟩
    · exact ⟨_, _, .ended past_header stored at_end missing⟩
    · exact ⟨_, _, .onward past_header stored at_end tail⟩
  · cases read : recordAt number bytes offset prior with
    | error fault => exact ⟨_, _, .damaged past_header stored inside read⟩
    | ok found =>
        obtain ⟨lsn, payload⟩ := found
        have frame := frameSize_eq
        obtain ⟨records, stop, tail⟩ := exists_in_segment (offset + frameSize + payload.length)
          stored onwards (by omega) (.after lsn)
        exact ⟨_, _, .record past_header stored read tail⟩
termination_by bytes.length - offset

theorem exists_of_endsBefore {number bound : SegmentNumber} {offset : Nat}
    (finite : EndsBefore segments bound) {bytes : Bytes}
    (stored : segments number = some bytes)
    (place : offset = 0 ∨ SegmentHeader.size ≤ offset) (prior : Prior) :
    ∃ records stop, Chain segments number offset prior records stop := by
  have number_lt : number < bound :=
    Nat.lt_of_not_le fun beyond => by simp [finite number beyond] at stored
  have onwards (prior : Prior) : segments (number + 1) = none ∨
      ∃ records stop, Chain segments (number + 1) 0 prior records stop := by
    cases following : segments (number + 1) with
    | none => exact .inl rfl
    | some bytes =>
        exact .inr (exists_of_endsBefore finite following (.inl rfl) prior)
  rcases place with rfl | past_header
  · cases passed : checkHeader number bytes with
    | error fault => exact ⟨_, _, .unheaded stored passed⟩
    | ok =>
        obtain ⟨records, stop, tail⟩ :=
          exists_in_segment _ stored onwards (Nat.le_refl _) prior
        exact ⟨_, _, .header stored passed tail⟩
  · exact exists_in_segment _ stored onwards past_header prior
termination_by bound - number
decreasing_by exact Nat.sub_lt_sub_left number_lt (Nat.lt_succ_self number)

end Chain

/-! ## Reading from a position -/

/-- What a scan from a position reads. -/
inductive Reading (segments : Segments) (start : LogAnchor) :
    List Found → Stop → Prop where
  | missing (missing : segments start.segment = none) :
      Reading segments start [] ⟨none, start.segment, start.offset⟩
  | whole {records : List Found} {stop : Stop} (at_start : start.offset = 0)
      (chain : Chain segments start.segment 0 (.start start.lsn) records stop) :
      Reading segments start records stop
  | unheaded {bytes : Bytes} {fault : LogFault} (inside : start.offset ≠ 0)
      (stored : segments start.segment = some bytes)
      (broken : checkHeader start.segment bytes = .error fault) :
      Reading segments start [] ⟨some fault, start.segment, 0⟩
  | insideHeader {bytes : Bytes} (inside : start.offset ≠ 0)
      (stored : segments start.segment = some bytes)
      (passed : checkHeader start.segment bytes = .ok ())
      (short : start.offset < SegmentHeader.size) :
      Reading segments start []
        ⟨some (.startInsideSegmentHeader start.offset), start.segment,
          SegmentHeader.size⟩
  | part {bytes : Bytes} {records : List Found} {stop : Stop}
      (stored : segments start.segment = some bytes)
      (passed : checkHeader start.segment bytes = .ok ())
      (past_header : SegmentHeader.size ≤ start.offset)
      (chain : Chain segments start.segment start.offset (.start start.lsn)
        records stop) :
      Reading segments start records stop

/-- The end of the last good record, as a scan reports it. -/
def Stop.anchor (stop : Stop) (records : List Found) : LogAnchor :=
  ⟨stop.segment, stop.offset, records.getLast?.map (·.lsn)⟩

def nextLsnAfter (start : LogAnchor) (records : List Found) : Option Lsn :=
  match records.getLast? with
  | some found => some found.lsn.next
  | none => start.lsn

namespace Reading

variable {segments : Segments} {start : LogAnchor} {records : List Found}
  {stop : Stop}

theorem unique {records' : List Found} {stop' : Stop}
    (reading : Reading segments start records stop)
    (other : Reading segments start records' stop') :
    records = records' ∧ stop = stop' := by
  cases reading <;> cases other <;>
    grind [SegmentHeader.size, → Chain.unique]

theorem exists_of_endsBefore {bound : SegmentNumber}
    (finite : EndsBefore segments bound) (start : LogAnchor) :
    ∃ records stop, Reading segments start records stop := by
  cases stored : segments start.segment with
  | none => exact ⟨_, _, .missing stored⟩
  | some bytes =>
      by_cases at_start : start.offset = 0
      · obtain ⟨records, stop, chain⟩ :=
          Chain.exists_of_endsBefore finite stored (.inl rfl) (.start start.lsn)
        exact ⟨_, _, .whole at_start chain⟩
      cases passed : checkHeader start.segment bytes with
      | error fault => exact ⟨_, _, .unheaded at_start stored passed⟩
      | ok =>
          by_cases short : start.offset < SegmentHeader.size
          · exact ⟨_, _, .insideHeader at_start stored passed short⟩
          have past_header := Nat.le_of_not_lt short
          obtain ⟨records, stop, chain⟩ :=
            Chain.exists_of_endsBefore finite stored (.inr past_header)
              (.start start.lsn)
          exact ⟨_, _, .part stored passed past_header chain⟩

end Reading

end DirectoryStore.Log
