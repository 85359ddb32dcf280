import DirectoryStore.Proofs.Log.Interruption

/-!
# Scans follow chains

A scan reads what the grammar says of the segments that its home provides, unless a
call fails.  The statements follow the parts of a scan from a segment's header to a
whole record, and each takes what is left of the chain as its argument.
-/

namespace DirectoryStore.Log

def Scanner.movedTo (scanner : Scanner) (number : SegmentNumber) (offset : Nat) :
    Scanner :=
  { scanner with
    lastGood := { scanner.lastGood with segment := number, offset := offset } }

@[simp] theorem Scanner.movedTo_movedTo (scanner : Scanner)
    (number number' : SegmentNumber) (offset offset' : Nat) :
    (scanner.movedTo number offset).movedTo number' offset' =
      scanner.movedTo number' offset' :=
  rfl

namespace Prior

def lsn? : Prior → Option Lsn
  | start _ => none
  | after previous => some previous

def isStart : Prior → Bool
  | start _ => true
  | after _ => false

structure KnownTo (prior : Prior) (scanner : Scanner) : Prop where
  last_eq : scanner.lastGood.lsn = prior.lsn?
  start_eq : ∀ expected, prior = start expected → scanner.start.lsn = expected

end Prior

namespace Scan

/-! ## The parts of reading a record -/

def readBody (position : ReadPosition) (lsn : Lsn) (payloadSize : Nat)
    (after : ReadPosition) : ScanM Bool := do
  modifyRecord (·.prepare payloadSize)
  let (payload, after) ← readBytes after payloadSize
  modifyRecord (·.fill payload)
  let (bytes, after) ← readBytes after RecordFooter.size
  let footer := RecordFooter.decode bytes
  if footer.magic ≠ RecordFooter.validMagic then
    reject (.badFooterMagic footer.magic lsn)
  let number := position.segment.number
  modifyRecord fun record =>
    { record with anchor := some ⟨number, position.offset, some lsn⟩ }
  modifyScanner fun scanner =>
    { scanner with
      position := some after
      lastGood := ⟨number, after.offset, some lsn⟩
      nextLsn := some lsn.next }
  return true

def readRecordAt (starting : Bool) (position : ReadPosition) : ScanM Bool := do
  let (lsn, payloadSize, after) ← readHeader position
  if starting then
    requireStartLsn lsn
  readBody position lsn payloadSize after

def readRecordFrom (starting : Bool) (fuel : Nat) (opened : Option ReadPosition) :
    ScanM Bool := do
  let some opened := opened
    | return false
  let some position ← seek fuel opened
    | return false
  readRecordAt starting position

theorem readRecord_eq : readRecord = (do
    let scan ← get
    let opened ←
      match scan.scanner.position with
      | some position => pure (some position)
      | none => openStart
    readRecordFrom scan.scanner.position.isNone
      (scan.log.segmentBound scan.scanner.home + 1) opened) :=
  rfl

end Scan

/-! ## Homes that provide segments -/

/-- An open segment of which a scan sees all the bytes that are stored. -/
structure Shows (log : LogFiles) (segments : Segments) (segment : OpenSegment)
    (bytes : Bytes) : Prop where
  stored : segments segment.number = some bytes
  sees : Sees log segment bytes

/-- A scan asks for the segment it starts in, and for the one behind a segment. -/
inductive Asked (segments : Segments) (first : SegmentNumber) : SegmentNumber → Prop where
  | start : Asked segments first first
  | behind {number : SegmentNumber} {bytes : Bytes} (stored : segments number = some bytes) :
      Asked segments first (number + 1)

/-- The home opens these segments for a scan, and says of the others that they are missing. -/
structure Provides (log : LogFiles) (home : Home) (first : SegmentNumber)
    (segments : Segments) : Prop where
  opens : ∀ {number : SegmentNumber} {bytes : Bytes}, segments number = some bytes →
    ∃ segment, segment.number = number ∧
      Looks log (LogFiles.openSegment home number) (.ok (some segment)) ∧
      Sees log segment bytes
  misses : ∀ {number : SegmentNumber}, segments number = none →
    Asked segments first number → Looks log (LogFiles.openSegment home number) (.ok none)
  few : ∃ numbers : Finset SegmentNumber,
    numbers.card ≤ log.segmentBound home ∧ Covers numbers segments

def segmentsAbove (numbers : Finset SegmentNumber) (number : SegmentNumber) : Nat :=
  (numbers.filter (number < ·)).card

theorem segmentsAbove_le (numbers : Finset SegmentNumber) (number : SegmentNumber) :
    segmentsAbove numbers number ≤ numbers.card :=
  Finset.card_filter_le _ _

theorem Covers.segmentsAbove_lt {numbers : Finset SegmentNumber} {segments : Segments}
    (covers : Covers numbers segments) {number : SegmentNumber} {bytes : Bytes}
    (stored : segments (number + 1) = some bytes) :
    segmentsAbove numbers (number + 1) < segmentsAbove numbers number := by
  refine Finset.card_lt_card (Finset.ssubset_iff_of_subset ?_ |>.mpr ⟨number + 1, ?_, ?_⟩)
  · exact Finset.monotone_filter_right numbers fun _ _ => Nat.lt_of_succ_lt
  · exact Finset.mem_filter.mpr ⟨covers stored, Nat.lt_succ_self number⟩
  · simp

theorem LogFiles.provides (log : LogFiles) (first : SegmentNumber) :
    Provides log .memory first log.segments where
  opens {number bytes} stored := by
    obtain ⟨file, present, bytes_eq⟩ := LogFiles.segments_eq_some_iff.mp stored
    have looks := @Looks.openSegment log number
    rw [present] at looks
    have opened : Opened log ⟨number, file, .buffer⟩ bytes := ⟨present, rfl, bytes_eq⟩
    exact ⟨_, rfl, looks, opened.sees⟩
  misses {number} missing _ := by
    have looks := @Looks.openSegment log number
    rwa [LogFiles.segments_eq_none_iff.mp missing] at looks
  few := ⟨_, (List.toFinset_card_le _).trans_eq (List.length_map _), log.covers⟩

namespace Does

variable {log : LogFiles} {held : Scanner × Record} {segment : OpenSegment}
  {bytes : Bytes} {number first : SegmentNumber} {home : Home} {segments : Segments}

/-! ## Segments -/

theorem readBytes_ok (sees : Sees log segment bytes) {offset len : Nat}
    {found : Bytes} (read : readSlice bytes offset len = .ok found) :
    Does log (Scan.readBytes ⟨segment, offset⟩ len) held
      (.ok (found, ⟨segment, offset + len⟩)) held :=
  bind (onLog (read ▸ Looks.readAt sees offset len)) (.pure _)

theorem readBytes_error (sees : Sees log segment bytes) {offset len : Nat}
    {fault : LogFault} (read : readSlice bytes offset len = .error fault) :
    Does log (Scan.readBytes ⟨segment, offset⟩ len) held (.error fault) held :=
  stop (onLog (read ▸ Looks.readAt sees offset len))

theorem openSegment_none
    (looks : Looks log (LogFiles.openSegment held.1.home number) (.ok none)) :
    Does log (Scan.openSegment number) held (.ok none) held :=
  get_bind fun _ => bind (onLog looks) (.pure none)

theorem openSegment_passed
    (looks : Looks log (LogFiles.openSegment held.1.home number) (.ok (some segment)))
    (sees : Sees log segment bytes) (passed : checkHeader number bytes = .ok ()) :
    Does log (Scan.openSegment number) held (.ok (some ⟨segment, SegmentHeader.size⟩))
      (held.1.movedTo number SegmentHeader.size, held.2) := by
  simp only [checkHeader, bind_eq_ok_iff, require_eq_ok_iff] at passed
  obtain ⟨found, read, _, number_eq, magic_eq⟩ := passed
  exact get_bind fun _ => bind (onLog looks) (bind (modifyScanner _)
    (bind (readBytes_ok sees read) (passes (not_not_intro number_eq)
      (passes (not_not_intro magic_eq) (bind (modifyScanner _) (.pure _))))))

theorem openSegment_refused
    (looks : Looks log (LogFiles.openSegment held.1.home number) (.ok (some segment)))
    (sees : Sees log segment bytes) {fault : LogFault}
    (broken : checkHeader number bytes = .error fault) :
    Does log (Scan.openSegment number) held (.error fault)
      (held.1.movedTo number 0, held.2) := by
  simp only [checkHeader, bind_eq_error_iff, require_eq_error_iff] at broken
  rcases broken with short | ⟨found, read, ⟨number_ne, rfl⟩ | ⟨_, passed, magic_ne, rfl⟩⟩
  · exact get_bind fun _ => bind (onLog looks) (bind (modifyScanner _)
      (stop (readBytes_error sees short)))
  · exact get_bind fun _ => bind (onLog looks) (bind (modifyScanner _)
      (bind (readBytes_ok sees read) (rejects number_ne)))
  · have number_eq := require_eq_ok_iff.mp passed
    exact get_bind fun _ => bind (onLog looks) (bind (modifyScanner _)
      (bind (readBytes_ok sees read) (passes (not_not_intro number_eq) (rejects magic_ne))))

theorem openSegment_missing (provides : Provides log home first segments)
    (home_eq : held.1.home = home) (missing : segments number = none)
    (asked : Asked segments first number) :
    Does log (Scan.openSegment number) held (.ok none) held :=
  openSegment_none (home_eq ▸ provides.misses missing asked)

theorem openSegment_headed (provides : Provides log home first segments)
    (home_eq : held.1.home = home) (stored : segments number = some bytes)
    (passed : checkHeader number bytes = .ok ()) :
    ∃ segment, segment.number = number ∧ Shows log segments segment bytes ∧
      Does log (Scan.openSegment number) held
        (.ok (some ⟨segment, SegmentHeader.size⟩))
        (held.1.movedTo number SegmentHeader.size, held.2) := by
  obtain ⟨segment, rfl, looks, sees⟩ := provides.opens stored
  exact ⟨segment, rfl, ⟨stored, sees⟩, openSegment_passed (home_eq ▸ looks) sees passed⟩

theorem openSegment_broken (provides : Provides log home first segments)
    (home_eq : held.1.home = home) (stored : segments number = some bytes) {fault : LogFault}
    (broken : checkHeader number bytes = .error fault) :
    Does log (Scan.openSegment number) held (.error fault)
      (held.1.movedTo number 0, held.2) := by
  obtain ⟨segment, rfl, looks, sees⟩ := provides.opens stored
  exact openSegment_refused (home_eq ▸ looks) sees broken

/-! ## From segment to segment -/

/-- Where following the segments ends: at bytes to read, or with the chain. -/
def Sought (log : LogFiles) (segments : Segments) (records : List Found) (stop : Stop)
    (prior : Prior) (fuel : Nat) (position : ReadPosition) (held : Scanner × Record) :
    Prop :=
  (∃ segment bytes offset, Shows log segments segment bytes ∧
    SegmentHeader.size ≤ offset ∧ offset < bytes.length ∧
    Chain segments segment.number offset prior records stop ∧
    Does log (Scan.seek fuel position) held (.ok (some ⟨segment, offset⟩))
      (held.1.movedTo segment.number offset, held.2)) ∨
  (records = [] ∧ Does log (Scan.seek fuel position) held
    (match stop.fault with
      | none => .ok none
      | some fault => .error fault)
    (held.1.movedTo stop.segment stop.offset, held.2))

theorem seek_inside (sees : Sees log segment bytes) {offset : Nat}
    (inside : offset < bytes.length) {fuel : Nat} (enough : 0 < fuel) :
    Does log (Scan.seek fuel ⟨segment, offset⟩) held (.ok (some ⟨segment, offset⟩)) held := by
  obtain ⟨fuel, rfl⟩ := Nat.exists_eq_add_of_lt enough
  rw [Nat.zero_add]
  unfold Scan.seek
  refine bind (onLog (Looks.size sees)) (passes (Nat.not_lt.mpr (Nat.le_of_lt inside)) ?_)
  simp only [inside, if_true]
  exact .pure _

theorem seek_at_end (sees : Sees log segment bytes) {offset : Nat}
    (at_end : bytes.length = offset) {fuel : Nat} {after : Scanner × Record}
    {result : Except LogFault (Option ReadPosition)}
    (goes_on : Does log (do
      let some next ← Scan.openSegment (segment.number + 1) | return none
      Scan.seek fuel next) held result after) :
    Does log (Scan.seek (fuel + 1) ⟨segment, offset⟩) held result after := by
  subst at_end
  unfold Scan.seek
  refine bind (onLog (Looks.size sees)) (passes (Nat.lt_irrefl _) ?_)
  simp only [Nat.lt_irrefl, if_false]
  exact goes_on

theorem Sought.onward {offset : Nat} {prior : Prior} {records : List Found}
    {stop : Stop} (sees : Sees log segment bytes) (at_end : bytes.length = offset)
    {position : ReadPosition} {fuel : Nat}
    (next : Does log (Scan.openSegment (segment.number + 1)) held
      (.ok (some position)) (held.1.movedTo number SegmentHeader.size, held.2))
    (sought : Sought log segments records stop prior fuel position
      (held.1.movedTo number SegmentHeader.size, held.2)) :
    Sought log segments records stop prior (fuel + 1) ⟨segment, offset⟩ held := by
  rcases sought with ⟨segment', bytes', offset', shows, past, inside, chain, does⟩ |
    ⟨none_left, does⟩
  · exact .inl ⟨segment', bytes', offset', shows, past, inside, chain,
      seek_at_end sees at_end (bind next does)⟩
  · exact .inr ⟨none_left, seek_at_end sees at_end (bind next does)⟩

theorem seek_sought (provides : Provides log home first segments) {offset : Nat}
    {prior : Prior} {records : List Found} {stop : Stop}
    (shows : Shows log segments segment bytes)
    (chain : Chain segments segment.number offset prior records stop)
    (past_header : SegmentHeader.size ≤ offset) (home_eq : held.1.home = home)
    (good : held.1 = held.1.movedTo segment.number offset)
    {numbers : Finset SegmentNumber} (covers : Covers numbers segments)
    {fuel : Nat} (enough : segmentsAbove numbers segment.number < fuel) :
    Sought log segments records stop prior fuel ⟨segment, offset⟩ held := by
  induction fuel generalizing segment bytes offset held with
  | zero => cases enough
  | succ fuel ih =>
      obtain ⟨stored, sees⟩ := shows
      have stays : held = (held.1.movedTo segment.number offset, held.2) := by
        rw [← good]
      by_cases inside : offset < bytes.length
      · refine .inl ⟨segment, bytes, offset, ⟨stored, sees⟩, past_header, inside, chain, ?_⟩
        rw [← stays]
        exact seek_inside sees inside (Nat.succ_pos fuel)
      -- Nothing is left in this segment, so either the chain stops or the next one goes on.
      have same {bytes' : Bytes} (stored' : segments segment.number = some bytes') :
          bytes = bytes' :=
        Option.some.inj (stored.symm.trans stored')
      cases chain with
      | header | unheaded => simp [SegmentHeader.size] at past_header
      | record past stored' read tail =>
          obtain rfl := same stored'
          have frame := Chain.frameSize_eq
          exact absurd (Chain.recordAt_inside read) (by omega)
      | damaged past stored' before_end =>
          obtain rfl := same stored'
          exact absurd before_end inside
      | pastEnd past stored' beyond =>
          obtain rfl := same stored'
          refine .inr ⟨rfl, ?_⟩
          rw [← stays]
          unfold Scan.seek
          exact bind (onLog (Looks.size sees)) (rejects beyond)
      | ended past stored' at_end missing =>
          obtain rfl := same stored'
          refine .inr ⟨rfl, ?_⟩
          rw [← stays]
          exact seek_at_end sees at_end
            (bind (openSegment_missing provides home_eq missing (.behind stored)) (.pure none))
      | onward past stored' at_end tail =>
          obtain rfl := same stored'
          obtain ⟨following, next_stored, ⟨passed, tail⟩ | ⟨fault, broken, rfl, rfl⟩⟩ :=
            tail.front_cases
          · obtain ⟨next, number_eq, next_shows, does⟩ :=
              openSegment_headed provides home_eq next_stored passed
            have fewer := covers.segmentsAbove_lt next_stored
            refine Sought.onward sees at_end does ?_
            rw [← number_eq] at tail ⊢
            exact ih next_shows tail (Nat.le_refl _) home_eq rfl (by grind)
          · exact .inr ⟨rfl, seek_at_end sees at_end
              (Does.stop (openSegment_broken provides home_eq next_stored broken))⟩

/-! ## Record headers -/

theorem check {α : Type} {holds broken : Prop} [Decidable holds] [Decidable broken]
    (broken_iff : broken ↔ ¬ holds) {fault : LogFault} {following : PUnit → ScanM α}
    {outcome : Unit → Except LogFault α}
    (rest : holds → Does log (following ()) held (outcome ()) held) :
    Does log (if broken then Scan.reject fault >>= following else following ()) held
      (require holds fault >>= outcome) held := by
  by_cases passed : holds
  · rw [require, if_pos passed, ok_bind]
    exact passes (mt broken_iff.mp (not_not_intro passed)) (rest passed)
  · rw [require, if_neg passed, error_bind]
    exact rejects (broken_iff.mpr passed)

theorem readHeader_does (sees : Sees log segment bytes) (offset : Nat)
    {prior : Prior} (known : held.1.lastGood.lsn = prior.lsn?) :
    Does log (Scan.readHeader ⟨segment, offset⟩) held
      (do
        let (lsn, payloadSize) ← headerAt segment.number bytes offset prior
        return (lsn, payloadSize, ⟨segment, offset + RecordHeader.size⟩))
      held := by
  unfold Scan.readHeader headerAt
  cases read : readSlice bytes offset RecordHeader.size with
  | error fault => exact stop (readBytes_error sees read)
  | ok found =>
      refine bind (readBytes_ok sees read) ?_
      simp only [ok_bind, bind_assoc, pure_bind]
      generalize RecordHeader.decode found = header
      refine check Iff.rfl fun _ => ?_
      cases size_eq : header.payloadSize? with
      | none =>
          simp only [RecordHeader.checkSize, size_eq, error_bind]
          exact reject _
      | some payloadSize =>
          simp only [RecordHeader.checkSize, size_eq, ok_bind]
          refine get_bind fun calls => ?_
          simp only [known]
          cases prior with
          | start expected => exact check Iff.rfl fun _ => .pure _
          | after previous =>
              exact check Nat.not_le.symm fun _ => check Iff.rfl fun _ => .pure _

/-! ## Records -/

theorem requireStartLsn_does {expected : Option Lsn}
    (known : held.1.start.lsn = expected) (lsn : Lsn) :
    Does log (Scan.requireStartLsn lsn) held
      (Prior.checkStart (.start expected) lsn) held := by
  unfold Scan.requireStartLsn
  refine get_bind fun calls => ?_
  simp only [known]
  cases expected with
  | none => exact .pure ()
  | some expected =>
      by_cases same : expected = lsn
      · rw [Prior.checkStart, require, if_pos same]
        simp only [same, ne_eq, not_true_eq_false, if_false]
        exact .pure ()
      · rw [Prior.checkStart, require, if_neg same]
        simp only [ne_eq, same, not_false_eq_true, if_true]
        exact reject _

def recorded (held : Scanner × Record) (segment : OpenSegment) (offset : Nat)
    (lsn : Lsn) (payload : Bytes) : Scanner × Record :=
  let finish := offset + frameSize + payload.length
  ({ held.1 with
      position := some ⟨segment, finish⟩
      lastGood := ⟨segment.number, finish, some lsn⟩
      nextLsn := some lsn.next },
    { (held.2.prepare payload.length).fill payload with
      anchor := some ⟨segment.number, offset, some lsn⟩ })

theorem readBody_ok (held : Scanner × Record) (sees : Sees log segment bytes) {offset : Nat}
    {lsn : Lsn} {payloadSize : Nat} {payload : Bytes}
    (found : bodyAt bytes offset lsn payloadSize = .ok payload) :
    Does log (Scan.readBody ⟨segment, offset⟩ lsn payloadSize
      ⟨segment, offset + RecordHeader.size⟩) held (.ok true)
      (recorded held segment offset lsn payload) := by
  simp only [bodyAt, bind_eq_ok_iff, require_eq_ok_iff, pure_eq,
    Except.ok.injEq] at found
  obtain ⟨found, body, footer, foot, -, magic_eq, same⟩ := found
  subst same
  obtain ⟨_, cut⟩ := readSlice_eq_ok_iff.mp body
  have length : found.length = payloadSize := by
    rw [← cut, Bytes.length_slice]
    omega
  have finish : offset + RecordHeader.size + payloadSize + RecordFooter.size =
      offset + frameSize + payloadSize := by
    rw [frameSize]
    omega
  subst length
  unfold recorded
  rw [← finish]
  exact bind (modifyRecord _) (bind (readBytes_ok sees body)
    (bind (modifyRecord _) (bind (readBytes_ok sees foot)
      (passes (not_not_intro magic_eq)
        (bind (modifyRecord _) (bind (modifyScanner _) (.pure true)))))))

theorem readBody_error (held : Scanner × Record) (sees : Sees log segment bytes) {offset : Nat}
    {lsn : Lsn} {payloadSize : Nat} {fault : LogFault}
    (broken : bodyAt bytes offset lsn payloadSize = .error fault) :
    ∃ record, Does log (Scan.readBody ⟨segment, offset⟩ lsn payloadSize
      ⟨segment, offset + RecordHeader.size⟩) held (.error fault)
      (held.1, record) := by
  simp only [bodyAt, bind_eq_error_iff, require_eq_error_iff, pure_eq,
    reduceCtorEq, and_false, exists_false, or_false] at broken
  rcases broken with body | ⟨payload, body, foot | ⟨footer, foot, magic_ne, rfl⟩⟩
  · exact ⟨_, bind (modifyRecord _) (stop (readBytes_error sees body))⟩
  · exact ⟨_, bind (modifyRecord _) (bind (readBytes_ok sees body)
      (bind (modifyRecord _) (stop (readBytes_error sees foot))))⟩
  · exact ⟨_, bind (modifyRecord _) (bind (readBytes_ok sees body)
      (bind (modifyRecord _) (bind (readBytes_ok sees foot)
        (rejects magic_ne))))⟩

theorem readRecordAt_ok (held : Scanner × Record)
    (sees : Sees log segment bytes) {offset : Nat}
    {prior : Prior} (known : prior.KnownTo held.1) {lsn : Lsn} {payload : Bytes}
    (found : recordAt segment.number bytes offset prior = .ok (lsn, payload)) :
    Does log (Scan.readRecordAt prior.isStart ⟨segment, offset⟩) held (.ok true)
      (recorded held segment offset lsn payload) := by
  simp only [recordAt, bind_eq_ok_iff, Prod.exists, pure_eq,
    Except.ok.injEq, Prod.mk.injEq] at found
  obtain ⟨number, payloadSize, header, _, started, _, body, rfl, rfl⟩ := found
  have read := readHeader_does sees offset known.last_eq
  rw [header] at read
  have rest := readBody_ok held sees body
  refine bind read ?_
  cases prior with
  | start expected =>
      have passed := @requireStartLsn_does log held _ (known.start_eq expected rfl) number
      rw [started] at passed
      exact bind passed rest
  | after previous => exact rest

theorem readRecordAt_error (held : Scanner × Record)
    (sees : Sees log segment bytes) {offset : Nat}
    {prior : Prior} (known : prior.KnownTo held.1) {fault : LogFault}
    (broken : recordAt segment.number bytes offset prior = .error fault) :
    ∃ record, Does log (Scan.readRecordAt prior.isStart ⟨segment, offset⟩) held
      (.error fault) (held.1, record) := by
  simp only [recordAt, bind_eq_error_iff, Prod.exists, pure_eq,
    reduceCtorEq, and_false, exists_false, or_false] at broken
  have read := readHeader_does sees offset known.last_eq
  rcases broken with header | ⟨lsn, payloadSize, header, broken⟩
  · rw [header] at read
    exact ⟨held.2, stop read⟩
  rw [header] at read
  rcases broken with unexpected | ⟨_, started, body⟩
  · cases prior with
    | start expected =>
        have rejected := @requireStartLsn_does log held _ (known.start_eq expected rfl) lsn
        rw [unexpected] at rejected
        exact ⟨held.2, bind read (stop rejected)⟩
    | after previous => cases unexpected
  · obtain ⟨record, rest⟩ := readBody_error held sees body
    refine ⟨record, bind read ?_⟩
    cases prior with
    | start expected =>
        have passed := @requireStartLsn_does log held _ (known.start_eq expected rfl) lsn
        rw [started] at passed
        exact bind passed rest
    | after previous => exact rest

/-! ## The next record of a chain -/

def stopped (stop : Stop) : Except LogFault Bool :=
  match stop.fault with
  | none => .ok false
  | some fault => .error fault

/-- Reading goes as the chain says: to its first record, or to where it stops. -/
def Next (log : LogFiles) (segments : Segments) (action : ScanM Bool)
    (held : Scanner × Record) : List Found → Stop → Prop
  | found :: rest, stop =>
      ∃ segment bytes, Shows log segments segment bytes ∧
        segment.number = found.segment ∧
        SegmentHeader.size ≤ found.finish ∧
        Chain segments segment.number found.finish (.after found.lsn) rest
          stop ∧
        Does log action held (.ok true)
          (recorded held segment found.offset found.lsn found.payload)
  | [], stop =>
      ∃ record, Does log action held (stopped stop)
        (held.1.movedTo stop.segment stop.offset, record)

theorem readRecordFrom_next (provides : Provides log home first segments)
    (held : Scanner × Record) {offset : Nat} {prior : Prior} {records : List Found}
    {stop : Stop} (shows : Shows log segments segment bytes)
    (chain : Chain segments segment.number offset prior records stop)
    (past_header : SegmentHeader.size ≤ offset) (home_eq : held.1.home = home)
    (good : held.1 = held.1.movedTo segment.number offset)
    (known : prior.KnownTo held.1) :
    Next log segments (Scan.readRecordFrom prior.isStart (log.segmentBound home + 1)
      (some ⟨segment, offset⟩)) held records stop := by
  obtain ⟨numbers, few, covers⟩ := provides.few
  have enough : segmentsAbove numbers segment.number < log.segmentBound home + 1 :=
    Nat.lt_succ_of_le ((segmentsAbove_le numbers segment.number).trans few)
  have known' (number : SegmentNumber) (offset : Nat) :
      prior.KnownTo (held.1.movedTo number offset) :=
    ⟨known.last_eq, known.start_eq⟩
  unfold Scan.readRecordFrom
  rcases seek_sought provides shows chain past_header home_eq good covers enough with
    ⟨segment', bytes', offset', shows', past, inside, chain', sought⟩ |
    ⟨rfl, sought⟩
  · let moved : Scanner × Record := (held.1.movedTo segment'.number offset', held.2)
    rcases chain'.inside_cases past shows'.stored inside with
      ⟨lsn, payload, rest, rfl, read, tail⟩ | ⟨fault, rfl, rfl, broken⟩
    · have does := readRecordAt_ok moved shows'.sees (known' _ _) read
      have past' : SegmentHeader.size ≤ offset' + frameSize + payload.length := by omega
      exact ⟨segment', bytes', shows', rfl, past', tail, bind sought does⟩
    · obtain ⟨record, does⟩ := readRecordAt_error moved shows'.sees (known' _ _) broken
      exact ⟨record, bind sought does⟩
  · refine ⟨held.2, ?_⟩
    unfold stopped
    cases fault_eq : stop.fault with
    | none =>
        rw [fault_eq] at sought
        exact bind sought (.pure false)
    | some fault =>
        rw [fault_eq] at sought
        exact Does.stop sought

/-! ## Starting a scan -/

def Started (log : LogFiles) (segments : Segments) (records : List Found) (stop : Stop)
    (prior : Prior) (held : Scanner × Record) : Prop :=
  (∃ segment bytes offset, Shows log segments segment bytes ∧
    SegmentHeader.size ≤ offset ∧
    Chain segments segment.number offset prior records stop ∧
    Does log Scan.openStart held (.ok (some ⟨segment, offset⟩))
      (held.1.movedTo segment.number offset, held.2)) ∨
  (records = [] ∧ Does log Scan.openStart held
    (match stop.fault with
      | none => .ok none
      | some fault => .error fault)
    (held.1.movedTo stop.segment stop.offset, held.2))

theorem openStart_inside {start : LogAnchor}
    (provides : Provides log home first segments) (home_eq : held.1.home = home)
    (start_eq : held.1.start = start) (stored : segments start.segment = some bytes)
    (passed : checkHeader start.segment bytes = .ok ())
    (past_header : SegmentHeader.size ≤ start.offset) :
    ∃ segment, segment.number = start.segment ∧ Shows log segments segment bytes ∧
      Does log Scan.openStart held (.ok (some ⟨segment, start.offset⟩))
        (held.1.movedTo start.segment start.offset, held.2) := by
  subst start_eq
  obtain ⟨segment, number_eq, shows, does⟩ :=
    openSegment_headed provides home_eq stored passed
  have inside : held.1.start.offset ≠ 0 := by
    intro at_start
    simp [at_start, SegmentHeader.size] at past_header
  refine ⟨segment, number_eq, shows, get_bind fun _ => bind does ?_⟩
  simp only [inside, if_false]
  exact passes (Nat.not_lt.mpr past_header) (bind (modifyScanner _) (.pure _))

theorem openStart_started {start : LogAnchor}
    (provides : Provides log home start.segment segments) {records : List Found}
    {stop : Stop} (reading : Reading segments start records stop)
    (home_eq : held.1.home = home) (start_eq : held.1.start = start)
    (good : held.1 = held.1.movedTo start.segment start.offset) :
    Started log segments records stop (.start start.lsn) held := by
  subst start_eq
  unfold Started Scan.openStart
  cases reading with
  | missing missing =>
      have stays : held = (held.1.movedTo held.1.start.segment
          held.1.start.offset, held.2) := by
        rw [← good]
      refine .inr ⟨rfl, ?_⟩
      rw [← stays]
      exact get_bind fun _ =>
        bind (openSegment_missing provides home_eq missing .start) (.pure none)
  | whole at_start chain =>
      obtain ⟨bytes, stored, ⟨passed, tail⟩ | ⟨fault, broken, rfl, rfl⟩⟩ := chain.front_cases
      · obtain ⟨segment, number_eq, shows, does⟩ :=
          openSegment_headed provides home_eq stored passed
        refine .inl ⟨segment, _, _, shows, Nat.le_refl _, number_eq ▸ tail,
          get_bind fun _ => bind does ?_⟩
        simp only [at_start, if_true]
        exact number_eq ▸ .pure _
      · exact .inr ⟨rfl, get_bind fun _ =>
          Does.stop (openSegment_broken provides home_eq stored broken)⟩
  | unheaded inside stored broken =>
      exact .inr ⟨rfl, get_bind fun _ =>
        Does.stop (openSegment_broken provides home_eq stored broken)⟩
  | insideHeader inside stored passed short =>
      obtain ⟨segment, number_eq, shows, does⟩ :=
        openSegment_headed provides home_eq stored passed
      refine .inr ⟨rfl, get_bind fun _ => bind does ?_⟩
      simp only [inside, if_false]
      exact rejects short
  | part stored passed past_header chain =>
      obtain ⟨segment, number_eq, shows, does⟩ :=
        openStart_inside provides home_eq rfl stored passed past_header
      rw [← number_eq] at chain does
      exact .inl ⟨segment, _, _, shows, past_header, chain, does⟩

theorem Next.after_move {action action' : ScanM Bool} {number : SegmentNumber}
    {offset : Nat} {records : List Found} {stop : Stop}
    (next : Next log segments action (held.1.movedTo number offset, held.2) records stop)
    (lead : ∀ {result after},
      Does log action (held.1.movedTo number offset, held.2) result after →
        Does log action' held result after) :
    Next log segments action' held records stop := by
  cases records with
  | nil =>
      obtain ⟨record, does⟩ := next
      exact ⟨record, lead does⟩
  | cons found rest =>
      obtain ⟨segment, bytes, shows, number_eq, past, tail, does⟩ := next
      exact ⟨segment, bytes, shows, number_eq, past, tail, lead does⟩

end Does

/-- The scanner stands where this chain starts. -/
inductive WillRead (log : LogFiles) : Scanner → List Found → Stop → Prop where
  | opening {home : Home} {segments : Segments} {start : LogAnchor}
      {records : List Found} {stop : Stop}
      (provides : Provides log home start.segment segments)
      (reading : Reading segments start records stop) :
      WillRead log (Scanner.startAt home start) records stop
  | reading {home : Home} {segments : Segments} {segment : OpenSegment} {bytes : Bytes}
      {offset : Nat} {lsn : Lsn} {start : LogAnchor} {records : List Found} {stop : Stop}
      (provides : Provides log home start.segment segments)
      (shows : Shows log segments segment bytes)
      (past_header : SegmentHeader.size ≤ offset)
      (chain : Chain segments segment.number offset (.after lsn) records stop) :
      WillRead log
        ⟨home, start, some ⟨segment, offset⟩, .reading,
          ⟨segment.number, offset, some lsn⟩, some (Lsn.next lsn)⟩
        records stop

theorem WillRead.starting {log : LogFiles} {start : LogAnchor} {records : List Found}
    {stop : Stop} (reading : Reading log.segments start records stop) :
    WillRead log (Scanner.startAt .memory start) records stop :=
  .opening (log.provides start.segment) reading

namespace Does

theorem readRecord_next {log : LogFiles} {scanner : Scanner} {records : List Found}
    {stop : Stop} (will : WillRead log scanner records stop) (record : Record) :
    ∃ segments, Provides log scanner.home scanner.start.segment segments ∧
      Next log segments Scan.readRecord (scanner, record) records stop := by
  rw [Scan.readRecord_eq]
  cases will with
  | @opening home segments start _ _ provides reading =>
      refine ⟨segments, provides, ?_⟩
      let held := (Scanner.startAt home start, record)
      have started : Started log segments records stop (.start start.lsn) held :=
        openStart_started provides reading rfl rfl rfl
      rcases started with ⟨segment, bytes, offset, shows, past, chain, does⟩ |
        ⟨rfl, does⟩
      · have known : (Prior.start start.lsn).KnownTo
            (held.1.movedTo segment.number offset) :=
          ⟨rfl, fun _ same => Prior.start.inj same⟩
        have next := readRecordFrom_next provides
          (held.1.movedTo segment.number offset, held.2) shows chain past rfl rfl known
        exact Next.after_move next fun rest => get_bind fun _ => bind does rest
      · refine ⟨held.2, get_bind fun _ => ?_⟩
        unfold stopped
        cases fault_eq : stop.fault with
        | none =>
            rw [fault_eq] at does
            exact bind does (.pure false)
        | some fault =>
            rw [fault_eq] at does
            exact Does.stop does
  | @reading home segments segment _ _ lsn _ _ _ provides shows past_header chain =>
      have known (scanner : Scanner) (last : scanner.lastGood.lsn = some lsn) :
          (Prior.after lsn).KnownTo scanner :=
        ⟨last, fun _ impossible => by cases impossible⟩
      exact ⟨segments, provides, Next.after_move
        (readRecordFrom_next provides _ shows chain past_header rfl rfl (known _ rfl))
        fun rest => get_bind fun _ => bind (.pure _) rest⟩

end Does

/-! ## Calls of a scanner -/

namespace Scan

theorem next_apply (scan : Scan)
    (going : scan.scanner.state = .needFileHeader ∨ scan.scanner.state = .reading) :
    next scan = settle (readRecord scan).1 (readRecord scan).2 := by
  obtain ⟨log, scanner, record⟩ := scan
  obtain ⟨home, start, position, state, lastGood, nextLsn⟩ := scanner
  rcases going with rfl | rfl <;> rfl

theorem settle_error (scan : Scan) {error : Error} {fault : LogFault}
    (found : error.logFault? = some fault) :
    settle (.error error) scan =
      (.error (.invalidLog fault),
        { scan with
          scanner := { scan.scanner with position := none, state := .invalid fault } }) := by
  cases error with
  | invalidLog fault' =>
      obtain rfl : fault' = fault := Option.some.inj found
      rfl
  | access fault' =>
      cases short : fault'.isShortRead with
      | false => simp [Error.logFault?, short] at found
      | true =>
          simp only [Error.logFault?, short, if_true, Option.some.injEq] at found
          subst found
          simp only [settle, short, if_true]
          rfl
  | _ => cases found

theorem settle_failure (scan : Scan) {fault : AccessFault}
    (other : fault.isShortRead = false) :
    settle (.error (.access fault)) scan =
      (.error (.access fault), { scan with scanner := scan.scanner.close }) := by
  simp only [settle, other]
  rfl

end Scan

/-- The call was stopped by an injected failure, which also stopped the scanner. -/
def Interrupted (log : LogFiles) (step : Scanner.Step) : Prop :=
  ∃ fault, log.Injects scanCalls fault ∧
    (fault.isShortRead = false ∧ step.result = .error (.access fault) ∧
        step.scanner.state = .closed ∨
      fault.isShortRead = true ∧
        step.result = .error (.invalidLog (.truncated fault)) ∧
        step.scanner.state = .invalid (.truncated fault))

def Stop.answer (stop : Stop) : Except Error Bool :=
  match stop.fault with
  | none => .ok false
  | some fault => .error (.invalidLog fault)

theorem Stop.answer_ne (stop : Stop) : stop.answer ≠ .ok true := by
  unfold answer
  cases stop.fault <;> exact nofun

def Stop.state (stop : Stop) : ScanState :=
  match stop.fault with
  | none => .eof
  | some fault => .invalid fault

structure Scanner.Step.Reads (step : Scanner.Step) (found : Found) : Prop where
  result_eq : step.result = .ok true
  payload_eq : step.record.payload = found.payload
  anchor_eq : step.record.anchor = some found.anchor

/-- The call found this record, and the scanner says where it ends. -/
structure Scanner.Step.Returns (step : Scanner.Step) (found : Found) : Prop
    extends step.Reads found where
  lastGood_eq : step.scanner.lastGood =
    ⟨found.segment, found.finish, some found.lsn⟩
  nextLsn_eq : step.scanner.nextLsn = some found.lsn.next

/-- The call found that the chain stops here. -/
structure Scanner.Step.Stops (step : Scanner.Step) (stop : Stop) : Prop where
  result_eq : step.result = stop.answer
  state_eq : step.scanner.state = stop.state

structure FindsRecord (log : LogFiles) (step : Scanner.Step) (found : Found)
    (rest : List Found) (stop : Stop) : Prop extends step.Returns found where
  will : WillRead log step.scanner rest stop

structure FindsStop (scanner : Scanner) (step : Scanner.Step) (stop : Stop) :
    Prop extends step.Stops stop where
  lastGood_eq : step.scanner.lastGood =
    ⟨stop.segment, stop.offset, scanner.lastGood.lsn⟩
  nextLsn_eq : step.scanner.nextLsn = scanner.nextLsn

def StepReads (log : LogFiles) (scanner : Scanner) (step : Scanner.Step) :
    List Found → Stop → Prop
  | found :: rest, stop => FindsRecord log step found rest stop
  | [], stop => FindsStop scanner step stop

theorem WillRead.going {log : LogFiles} {scanner : Scanner} {records : List Found}
    {stop : Stop} (will : WillRead log scanner records stop) :
    scanner.state = .needFileHeader ∨ scanner.state = .reading := by
  cases will with
  | opening => exact .inl rfl
  | reading => exact .inr rfl

def settledAs : Except LogFault Bool → Scanner → Except Error Bool × Scanner
  | .ok true, scanner => (.ok true, { scanner with state := .reading })
  | .ok false, scanner => (.ok false, { scanner with position := none, state := .eof })
  | .error fault, scanner =>
      (.error (.invalidLog fault),
        { scanner with position := none, state := .invalid fault })

theorem Does.settled {log : LogFiles} {scanner : Scanner} {record : Record}
    {result : Except LogFault Bool} {after : Scanner × Record}
    (does : Does log Scan.readRecord (scanner, record) result after)
    (going : scanner.state = .needFileHeader ∨ scanner.state = .reading)
    (calls : Nat) :
    ∃ calls' step,
      scanner.next record (log.atCall calls) = (step, log.atCall calls') ∧
        ((step.result, step.scanner) = settledAs result after.1 ∧
            step.record = after.2 ∨
          Interrupted log step) := by
  obtain ⟨calls', outcome, scanner', record', ran, kept, answered⟩ := does calls
  have settled : scanner.next record (log.atCall calls) =
      (let scan := Scan.settle outcome ⟨log.atCall calls', scanner', record'⟩
       (⟨scan.1, scan.2.scanner, scan.2.record⟩, scan.2.log)) := by
    show (let scan := Scan.next ⟨log.atCall calls, scanner, record⟩
      ((⟨scan.1, scan.2.scanner, scan.2.record⟩ : Scanner.Step), scan.2.log)) = _
    rw [Scan.next_apply _ going, ran]
  rw [settled]
  rcases answered with ⟨agrees, rfl⟩ | ⟨fault, injected, rfl⟩
  · refine ⟨calls', ?_⟩
    rcases result with fault | _ | _ <;> rcases outcome with error | _ | _ <;>
      first | cases agrees | skip
    · rw [Scan.settle_error _ agrees]
      exact ⟨_, rfl, .inl ⟨rfl, rfl⟩⟩
    · exact ⟨_, rfl, .inl ⟨rfl, rfl⟩⟩
    · exact ⟨_, rfl, .inl ⟨rfl, rfl⟩⟩
  · refine ⟨calls', ?_⟩
    cases short : fault.isShortRead with
    | false =>
        have closes : scanner'.close.state = .closed := by
          rw [Scanner.close]
          rcases going with state | state <;> rw [kept, state]
        rw [Scan.settle_failure _ short]
        exact ⟨_, rfl, .inr ⟨fault, injected, .inl ⟨short, rfl, closes⟩⟩⟩
    | true =>
        rw [Scan.settle_error _ (Error.logFault?_of_isShortRead short)]
        exact ⟨_, rfl, .inr ⟨fault, injected, .inr ⟨short, rfl, rfl⟩⟩⟩

theorem payload_recorded (record : Record) (payload : Bytes) (anchor : Option LogAnchor) :
    Record.payload { (record.prepare payload.length).fill payload with anchor := anchor } =
      payload := by
  simp [Record.payload, Record.fill, Record.prepare]

/-- A call reads what comes next, unless an injected failure stops it. -/
theorem WillRead.next {log : LogFiles} {scanner : Scanner} {records : List Found}
    {stop : Stop} (will : WillRead log scanner records stop) (record : Record)
    (calls : Nat) :
    ∃ calls' step,
      scanner.next record (log.atCall calls) = (step, log.atCall calls') ∧
        (StepReads log scanner step records stop ∨ Interrupted log step) := by
  obtain ⟨segments, provides, next⟩ := Does.readRecord_next will record
  have going := will.going
  cases records with
  | nil =>
      obtain ⟨record', does⟩ := next
      obtain ⟨calls', step, ran, answered⟩ := does.settled going calls
      refine ⟨calls', step, ran, ?_⟩
      rcases answered with ⟨settled, -⟩ | interrupted
      · obtain ⟨fault, number, offset⟩ := stop
        cases fault <;> obtain ⟨result_eq, scanner_eq⟩ := Prod.mk.inj settled <;>
          exact .inl ⟨⟨result_eq, by rw [scanner_eq]; rfl⟩, by rw [scanner_eq]; rfl,
            by rw [scanner_eq]; rfl⟩
      · exact .inr interrupted
  | cons found rest =>
      obtain ⟨segment, bytes, shows, number_eq, past, tail, does⟩ := next
      obtain ⟨calls', step, ran, answered⟩ := does.settled going calls
      refine ⟨calls', step, ran, ?_⟩
      rcases answered with ⟨settled, record_eq⟩ | interrupted
      · obtain ⟨result_eq, scanner_eq⟩ := Prod.mk.inj settled
        refine .inl ⟨⟨⟨result_eq, ?_, ?_⟩, ?_, ?_⟩, ?_⟩
        · rw [record_eq]
          exact payload_recorded _ _ _
        · rw [record_eq, Found.anchor, ← number_eq]
          rfl
        · rw [scanner_eq, ← number_eq]
          rfl
        · rw [scanner_eq]
          rfl
        · rw [scanner_eq]
          exact .reading provides shows past tail
      · exact .inr interrupted

end DirectoryStore.Log
