import DirectoryStore.Proofs.Log.Stopping

/-!
# Records that are read into one buffer

Calls of any scanners, on any logs and with any failures, read into one record.  A call
changes the record only when it comes upon a record whose header it accepts, and then
before it knows whether the rest is good.  `Scanner.offer?` says what a call comes upon,
and with it the record is known after every call.
-/

namespace DirectoryStore.Log

namespace Scan

/-! ## Parts that only look -/

/-- Neither reads nor changes the record, and leaves all files as they are. -/
structure OnlyLooks {α : Type} (action : ScanM α) : Prop where
  aside : ∀ scan record, action { scan with record := record } =
    ((action scan).1, { (action scan).2 with record := record })
  system_eq : ∀ scan, (action scan).2.log.system = scan.log.system

namespace OnlyLooks

variable {α β : Type}

theorem record_eq {action : ScanM α} (looks : OnlyLooks action) (scan : Scan) :
    (action scan).2.record = scan.record :=
  congrArg (·.2.record) (looks.aside scan scan.record)

theorem pure (value : α) : OnlyLooks (Pure.pure value) :=
  ⟨fun _ _ => rfl, fun _ => rfl⟩

theorem reject (fault : LogFault) : OnlyLooks (Scan.reject fault : ScanM α) :=
  ⟨fun _ _ => rfl, fun _ => rfl⟩

theorem bind {first : ScanM α} {following : α → ScanM β} (looks : OnlyLooks first)
    (rest : ∀ value, OnlyLooks (following value)) : OnlyLooks (first >>= following) := by
  constructor
  · intro scan record
    rw [bind_apply, bind_apply, looks.aside scan record]
    rcases first scan with ⟨error | value, next⟩
    · rfl
    · exact (rest value).aside next record
  · intro scan
    have begun := looks.system_eq scan
    rw [bind_apply]
    rcases ran : first scan with ⟨error | value, next⟩ <;> rw [ran] at begun
    · exact begun
    · exact ((rest value).system_eq next).trans begun

theorem get_bind {following : Scan → ScanM β}
    (same : ∀ scan record, following { scan with record := record } = following scan)
    (rest : ∀ scan, OnlyLooks (following scan)) : OnlyLooks (get >>= following) := by
  constructor
  · intro scan record
    rw [get_bind_apply, get_bind_apply, same]
    exact (rest scan).aside scan record
  · exact fun scan => (rest scan).system_eq scan

theorem ite {holds : Prop} [Decidable holds] {first second : ScanM α} (looks : OnlyLooks first)
    (looks' : OnlyLooks second) : OnlyLooks (if holds then first else second) := by
  split
  · exact looks
  · exact looks'

theorem check {broken : Prop} [Decidable broken] {fault : LogFault}
    {following : PUnit → ScanM β} (rest : OnlyLooks (following ())) :
    OnlyLooks (if broken then Scan.reject fault >>= following else following ()) :=
  ite (bind (reject fault) fun _ => rest) rest

theorem modifyScanner (change : Scanner → Scanner) : OnlyLooks (Scan.modifyScanner change) :=
  ⟨fun _ _ => rfl, fun _ => rfl⟩

theorem onLog {action : LogM α} (spares : ∀ log, (action log).2.system = log.system) :
    OnlyLooks (Scan.onLog action) :=
  ⟨fun _ _ => rfl, fun scan => spares scan.log⟩

theorem of_call {begin : LogM Unit} {look : LogM α} {request : Request}
    {passedOn : IoFault → AccessFault} (begun : ∀ log, begin log = countCall request passedOn log)
    (looked : ∀ log, (look log).2 = log) : OnlyLooks (Scan.onLog do begin; look) := by
  refine onLog fun log => ?_
  rw [bind_apply, begun, countCall]
  cases log.injection.plan log.injection.callsMade request with
  | some cause => rfl
  | none =>
      show (look (log.atCall (log.injection.callsMade + 1))).2.system = log.system
      rw [looked]
      rfl

theorem openLogSegment (home : Home) (number : SegmentNumber) :
    OnlyLooks (Scan.onLog (LogFiles.openSegment home number)) := by
  refine of_call (beginOnRow_apply number .openSegment) fun log => ?_
  cases home with
  | memory => rfl
  | folder path lock => rw [openInFolder_apply]

theorem size (segment : OpenSegment) : OnlyLooks (Scan.onLog segment.size) :=
  of_call (beginOnBytes_apply segment.number .size) fun _ => rfl

theorem readBytes (position : ReadPosition) (len : Nat) :
    OnlyLooks (Scan.readBytes position len) := by
  refine bind (of_call (beginOnBytes_apply _ (.read _ _)) fun log => ?_) fun _ => .pure _
  rw [OpenSegment.readWithoutFailure_apply]

theorem openSegment (number : SegmentNumber) : OnlyLooks (Scan.openSegment number) := by
  refine get_bind (fun _ _ => rfl) fun scan => bind (openLogSegment _ _) fun opened => ?_
  cases opened with
  | none => exact .pure _
  | some segment =>
      refine bind (modifyScanner _) fun _ => bind (readBytes _ _) fun _ => ?_
      exact check (check (bind (modifyScanner _) fun _ => .pure _))

theorem openStart : OnlyLooks Scan.openStart := by
  refine get_bind (fun _ _ => rfl) fun scan => bind (openSegment _) fun opened => ?_
  cases opened with
  | none => exact .pure _
  | some position =>
      exact ite (.pure _) (check (bind (modifyScanner _) fun _ => .pure _))

theorem seek (fuel : Nat) (position : ReadPosition) : OnlyLooks (Scan.seek fuel position) := by
  induction fuel generalizing position with
  | zero => exact .pure _
  | succ fuel ih =>
      refine bind (size _) fun _ => check (ite (.pure _) ?_)
      refine bind (openSegment _) fun next => ?_
      cases next with
      | none => exact .pure _
      | some next => exact ih next

theorem readHeader (position : ReadPosition) : OnlyLooks (Scan.readHeader position) := by
  refine bind (readBytes _ _) fun read => check ?_
  cases (RecordHeader.decode read.1).payloadSize? with
  | none => exact reject _
  | some payloadSize =>
      refine get_bind (fun _ _ => rfl) fun scan => ?_
      cases scan.scanner.lastGood.lsn with
      | none => exact check (.pure _)
      | some previous => exact check (check (.pure _))

theorem requireStartLsn (lsn : Lsn) : OnlyLooks (Scan.requireStartLsn lsn) := by
  refine get_bind (fun _ _ => rfl) fun scan => ?_
  cases scan.scanner.start.lsn with
  | none => exact .pure _
  | some expected => exact check (.pure _)

end OnlyLooks

/-! ## Coming upon a record -/

/-- A record whose header was accepted: where it stands, and where its payload begins. -/
structure Approached where
  position : ReadPosition
  lsn : Lsn
  payloadSize : Nat
  body : ReadPosition

def approachAt (starting : Bool) (position : ReadPosition) : ScanM Approached := do
  let (lsn, payloadSize, body) ← readHeader position
  if starting then
    requireStartLsn lsn
  return ⟨position, lsn, payloadSize, body⟩

def approachFrom (starting : Bool) (fuel : Nat) (opened : Option ReadPosition) :
    ScanM (Option Approached) := do
  let some opened := opened
    | return none
  let some position ← seek fuel opened
    | return none
  return some (← approachAt starting position)

def approach : ScanM (Option Approached) := do
  let scan ← get
  let opened ←
    match scan.scanner.position with
    | some position => pure (some position)
    | none => openStart
  approachFrom scan.scanner.position.isNone (scan.log.segmentBound scan.scanner.home + 1) opened

def readApproached (found : Option Approached) : ScanM Bool := do
  let some found := found
    | return false
  readBody found.position found.lsn found.payloadSize found.body

theorem readRecordAt_eq (starting : Bool) (position : ReadPosition) :
    readRecordAt starting position =
      approachAt starting position >>= fun found => readApproached (some found) := by
  unfold readRecordAt approachAt readApproached
  simp only [bind_assoc]
  cases starting <;> simp only [Bool.false_eq_true, if_true, if_false, bind_assoc, pure_bind]

theorem readRecordFrom_eq (starting : Bool) (fuel : Nat) (opened : Option ReadPosition) :
    readRecordFrom starting fuel opened =
      approachFrom starting fuel opened >>= readApproached := by
  unfold readRecordFrom approachFrom
  cases opened with
  | none => rfl
  | some opened =>
      simp only [bind_assoc]
      refine bind_congr (m := ScanM) fun sought => ?_
      cases sought with
      | none => rfl
      | some position => simp only [bind_assoc, pure_bind, readRecordAt_eq]

theorem readRecord_eq_approach : readRecord = approach >>= readApproached := by
  rw [readRecord_eq]
  unfold approach
  simp only [bind_assoc]
  refine bind_congr (m := ScanM) fun scan => ?_
  cases scan.scanner.position <;> simp only [bind_assoc, readRecordFrom_eq]

namespace OnlyLooks

theorem approachAt (starting : Bool) (position : ReadPosition) :
    OnlyLooks (Scan.approachAt starting position) := by
  refine bind (readHeader _) fun _ => ite (bind (requireStartLsn _) fun _ => .pure _) (.pure _)

theorem approachFrom (starting : Bool) (fuel : Nat) (opened : Option ReadPosition) :
    OnlyLooks (Scan.approachFrom starting fuel opened) := by
  cases opened with
  | none => exact .pure _
  | some opened =>
      refine bind (seek _ _) fun sought => ?_
      cases sought with
      | none => exact .pure _
      | some position => exact bind (approachAt _ _) fun _ => .pure _

theorem approach : OnlyLooks Scan.approach := by
  refine get_bind (fun _ _ => rfl) fun scan => ?_
  cases scan.scanner.position with
  | none => exact bind openStart fun _ => approachFrom _ _ _
  | some position => exact bind (.pure _) fun _ => approachFrom _ _ _

end OnlyLooks

/-! ## What stands in the log -/

theorem OnlyLooks.of_run {α : Type} {action : ScanM α} (looks : OnlyLooks action)
    {scan next : Scan} {outcome : Except Error α} (ran : action scan = (outcome, next)) :
    next.log.system = scan.log.system ∧ next.record = scan.record := by
  have system_eq := looks.system_eq scan
  have record_eq := looks.record_eq scan
  rw [ran] at system_eq record_eq
  exact ⟨system_eq, record_eq⟩

theorem ok_of_check {β : Type} {broken : Prop} [Decidable broken] {fault : LogFault}
    {following : PUnit → ScanM β} {scan next : Scan} {result : β}
    (ran : (if broken then reject fault >>= following else following ()) scan =
      (.ok result, next)) : ¬ broken ∧ following () scan = (.ok result, next) := by
  split at ran
  · obtain ⟨_, _, rejected, -⟩ := ok_of_bind ran
    cases congrArg Prod.fst rejected
  · exact ⟨‹_›, ran⟩

structure Approached.Stands (found : Approached) (bytes : Bytes) : Prop where
  body_eq : found.body = ⟨found.position.segment, found.position.offset + RecordHeader.size⟩
  announced : (RecordHeader.decode (bytes.slice found.position.offset RecordHeader.size)).Announces
    found.lsn found.payloadSize

theorem readHeader_stands {position body : ReadPosition} {lsn : Lsn} {payloadSize : Nat}
    {scan next : Scan} (ran : readHeader position scan = (.ok (lsn, payloadSize, body), next)) :
    Approached.Stands ⟨position, lsn, payloadSize, body⟩
      (position.segment.contents scan.log).bytes := by
  obtain ⟨⟨bytes, after⟩, read, looked, ran⟩ := ok_of_bind ran
  obtain ⟨cut, -, rfl⟩ := slice_of_readBytes looked
  suffices stands : (RecordHeader.decode bytes).Announces lsn payloadSize ∧
      body = ⟨position.segment, position.offset + RecordHeader.size⟩ from
    ⟨stands.2, cut ▸ stands.1⟩
  simp only at ran
  generalize RecordHeader.decode bytes = header at ran ⊢
  obtain ⟨magic_eq, ran⟩ := ok_of_check ran
  cases size_eq : header.payloadSize? with
  | none =>
      rw [size_eq] at ran
      cases congrArg Prod.fst ran
  | some size =>
      simp only [size_eq, get_bind_apply] at ran
      let answer : Lsn × Nat × ReadPosition :=
        (header.lsn.toNat, size, ⟨position.segment, position.offset + RecordHeader.size⟩)
      have in_order : (if header.checksum ≠ RecordHeader.checksumOf header.lsn header.length then
          reject (.checksumMismatch header.lsn.toNat) >>= fun _ : PUnit => pure answer
          else pure answer) read = (.ok (lsn, payloadSize, body), next) := by
        cases last : read.scanner.lastGood.lsn with
        | none => rwa [last] at ran
        | some previous =>
            rw [last] at ran
            exact (ok_of_check ran).2
      obtain ⟨checksum_eq, ran⟩ := ok_of_check in_order
      obtain ⟨rfl, same⟩ := Prod.mk.inj (Except.ok.inj (congrArg Prod.fst ran))
      obtain ⟨rfl, rfl⟩ := Prod.mk.inj same
      exact ⟨⟨not_not.mp magic_eq, size_eq, rfl, not_not.mp checksum_eq⟩, rfl⟩

theorem approachAt_stands {starting : Bool} {position : ReadPosition} {found : Approached}
    {scan next : Scan} (ran : approachAt starting position scan = (.ok found, next)) :
    found.Stands (found.position.segment.contents scan.log).bytes := by
  obtain ⟨⟨lsn, payloadSize, body⟩, read, headed, ran⟩ := ok_of_bind ran
  have stands := readHeader_stands headed
  obtain rfl : (⟨position, lsn, payloadSize, body⟩ : Approached) = found := by
    cases starting with
    | false => exact Except.ok.inj (congrArg Prod.fst ran)
    | true =>
        obtain ⟨_, _, -, ran⟩ := ok_of_bind ran
        exact Except.ok.inj (congrArg Prod.fst ran)
  exact stands

theorem contents_of_system {log log' : LogFiles} (same : log'.system = log.system)
    (segment : OpenSegment) : segment.contents log' = segment.contents log := by
  unfold OpenSegment.contents
  rw [same]

theorem approachFrom_stands {starting : Bool} {fuel : Nat} {opened : Option ReadPosition}
    {found : Approached} {scan next : Scan}
    (ran : approachFrom starting fuel opened scan = (.ok (some found), next)) :
    found.Stands (found.position.segment.contents scan.log).bytes := by
  cases opened with
  | none => cases congrArg Prod.fst ran
  | some opened =>
      obtain ⟨sought, between, looked, ran⟩ := ok_of_bind ran
      cases sought with
      | none => cases congrArg Prod.fst ran
      | some position =>
          obtain ⟨found', _, approached, ran⟩ := ok_of_bind ran
          obtain rfl : found' = found := Option.some.inj (Except.ok.inj (congrArg Prod.fst ran))
          have same := ((OnlyLooks.seek _ _).of_run looked).1
          exact contents_of_system same _ ▸ approachAt_stands approached

theorem approach_stands {found : Approached} {scan next : Scan}
    (ran : approach scan = (.ok (some found), next)) :
    found.Stands (found.position.segment.contents scan.log).bytes := by
  rw [approach, get_bind_apply] at ran
  cases at_position : scan.scanner.position with
  | none =>
      simp only [at_position] at ran
      obtain ⟨opened, between, started, ran⟩ := ok_of_bind ran
      have same := (OnlyLooks.openStart.of_run started).1
      exact contents_of_system same _ ▸ approachFrom_stands ran
  | some position =>
      simp only [at_position] at ran
      obtain ⟨opened, between, started, ran⟩ := ok_of_bind ran
      have same := ((OnlyLooks.pure _).of_run started).1
      exact contents_of_system same _ ▸ approachFrom_stands ran

/-! ## What a call leaves in the record -/

/-- What a call comes upon: a place, the length of a payload, and the payload if it can be read. -/
structure Offer where
  anchor : LogAnchor
  payloadSize : Nat
  payload? : Option Bytes
  deriving DecidableEq, Repr

def Approached.anchor (found : Approached) : LogAnchor :=
  ⟨found.position.segment.number, found.position.offset, some found.lsn⟩

/-- Comes upon the next record and reads its payload, but looks no further. -/
def offering : ScanM (Option Offer) := do
  let some found ← approach
    | return none
  let read ← attempt (readBytes found.body found.payloadSize)
  return some ⟨found.anchor, found.payloadSize, read.toOption.map (·.1)⟩

/-- The scanner stands behind a whole record of the log. -/
def StandsBehind (log : LogFiles) (scanner : Scanner) (anchor : LogAnchor) (payload : Bytes) :
    Prop :=
  ∃ position lsn, scanner.position = some position ∧
    anchor = ⟨position.segment.number, anchor.offset, some lsn⟩ ∧
    position.offset = anchor.offset + frameSize + payload.length ∧
    RecordAt (position.segment.contents log).bytes anchor.offset lsn payload

/-- What a call does to a record, by how much it could read of what it came upon. -/
inductive Leaves (log : LogFiles) (record : Record) : Option Offer → Scanner.Step → Prop where
  | nothing {outcome : Except Error Bool} {scanner : Scanner} (no_record : outcome ≠ .ok true) :
      Leaves log record none ⟨outcome, scanner, record⟩
  | unread {anchor : LogAnchor} {size : Nat} {error : Error} {scanner : Scanner} :
      Leaves log record (some ⟨anchor, size, none⟩)
        ⟨.error error, scanner, record.prepare size⟩
  | unfinished {anchor : LogAnchor} {payload : Bytes} {error : Error} {scanner : Scanner} :
      Leaves log record (some ⟨anchor, payload.length, some payload⟩)
        ⟨.error error, scanner, (record.prepare payload.length).fill payload⟩
  | whole {anchor : LogAnchor} {payload : Bytes} {scanner : Scanner}
      (stands : StandsBehind log scanner anchor payload) :
      Leaves log record (some ⟨anchor, payload.length, some payload⟩)
        ⟨.ok true, scanner,
          { (record.prepare payload.length).fill payload with anchor := some anchor }⟩

def Leaving (log : LogFiles) (record : Record) (offer : Option Offer) (action : ScanM Bool)
    (scan : Scan) : Prop :=
  Leads action scan
    (fun answer next => Leaves log record offer ⟨.ok answer, next.scanner, next.record⟩)
    fun error next => Leaves log record offer ⟨.error error, next.scanner, next.record⟩

theorem Leaving.leaves {log : LogFiles} {record : Record} {offer : Option Offer}
    {action : ScanM Bool} {scan : Scan} (leaving : Leaving log record offer action scan) :
    Leaves log record offer
      ⟨(action scan).1, (action scan).2.scanner, (action scan).2.record⟩ := by
  unfold Leaving Leads at leaving
  rcases ran : action scan with ⟨error | answer, next⟩ <;> rwa [ran] at leaving

def readFooter (position : ReadPosition) (lsn : Lsn) (after : ReadPosition) : ScanM Bool := do
  let (bytes, after) ← readBytes after RecordFooter.size
  let footer := RecordFooter.decode bytes
  if footer.magic ≠ RecordFooter.validMagic then
    reject (.badFooterMagic footer.magic lsn)
  let number := position.segment.number
  modifyRecord fun record =>
    { record with anchor := some ⟨number, position.offset, some lsn⟩ }
  modifyScanner fun scanner =>
    { scanner with
      position := some after
      lastGood := ⟨number, after.offset, some lsn⟩
      nextLsn := some lsn.next }
  return true

theorem readBody_eq (position : ReadPosition) (lsn : Lsn) (payloadSize : Nat)
    (body : ReadPosition) : readBody position lsn payloadSize body = (do
      modifyRecord (·.prepare payloadSize)
      let (payload, after) ← readBytes body payloadSize
      modifyRecord (·.fill payload)
      readFooter position lsn after) :=
  rfl

theorem readFooter_leads (position : ReadPosition) (lsn : Lsn) (after : ReadPosition)
    (scan : Scan) :
    Leads (readFooter position lsn after) scan
      (fun answer next => answer = true ∧
        next.record = { scan.record with
          anchor := some ⟨position.segment.number, position.offset, some lsn⟩ } ∧
        next.scanner.position = some ⟨after.segment, after.offset + RecordFooter.size⟩ ∧
        after.offset + RecordFooter.size ≤ (after.segment.contents scan.log).bytes.length ∧
        (RecordFooter.decode ((after.segment.contents scan.log).bytes.slice after.offset
          RecordFooter.size)).magic = RecordFooter.validMagic)
      fun _ next => next.record = scan.record := by
  have looks := OnlyLooks.readBytes after RecordFooter.size
  rcases looked : readBytes after RecordFooter.size scan with ⟨error | ⟨bytes, behind⟩, next⟩
  · exact Leads.failed_bind looked (looks.of_run looked).2
  · refine Leads.ran_bind looked ?_
    obtain ⟨-, same⟩ := looks.of_run looked
    obtain ⟨cut, length, rfl⟩ := slice_of_readBytes looked
    have inside : after.offset + RecordFooter.size ≤
        (after.segment.contents scan.log).bytes.length := by
      rw [← cut, Bytes.length_slice] at length
      have positive : 0 < RecordFooter.size := by decide
      omega
    simp only
    split
    · exact Leads.throw_bind same
    · rename_i magic_eq
      refine ⟨rfl, ?_, rfl, inside, ?_⟩
      · rw [← same]
      · rw [cut]
        exact not_not.mp magic_eq

theorem Approached.Stands.recordAt {found : Approached} {bytes payload : Bytes}
    (stands : found.Stands bytes) (length : payload.length = found.payloadSize)
    (payload_eq : bytes.slice found.body.offset found.payloadSize = payload)
    (inside : found.body.offset + found.payloadSize + RecordFooter.size ≤ bytes.length)
    (footer_eq : (RecordFooter.decode (bytes.slice (found.body.offset + found.payloadSize)
      RecordFooter.size)).magic = RecordFooter.validMagic) :
    RecordAt bytes found.position.offset found.lsn payload := by
  have frame : frameSize = RecordHeader.size + RecordFooter.size := rfl
  simp only [stands.body_eq, ← length] at payload_eq inside footer_eq
  exact ⟨by omega, length ▸ stands.announced, payload_eq, footer_eq⟩

theorem readBody_leaves {log : LogFiles} {found : Approached} {scan : Scan}
    (kept : scan.log.system = log.system)
    (stands : found.Stands (found.position.segment.contents log).bytes) :
    Leaving log scan.record
      (some ⟨found.anchor, found.payloadSize,
        (readBytes found.body found.payloadSize scan).1.toOption.map (·.1)⟩)
      (readBody found.position found.lsn found.payloadSize found.body) scan := by
  have looks := OnlyLooks.readBytes found.body found.payloadSize
  have segment_eq : found.body.segment = found.position.segment := by rw [stands.body_eq]
  rw [readBody_eq]
  apply Leads.modify_bind
  have aside := looks.aside scan (scan.record.prepare found.payloadSize)
  rcases looked : readBytes found.body found.payloadSize scan with
    ⟨error | ⟨payload, after⟩, next⟩ <;> rw [looked] at aside
  · exact Leads.failed_bind aside .unread
  · refine Leads.ran_bind aside (Leads.modify_bind ?_)
    obtain ⟨payload_eq, length, rfl⟩ := slice_of_readBytes looked
    rw [segment_eq, contents_of_system kept] at payload_eq
    have kept' := (looks.of_run looked).1.trans kept
    have offered : (some ⟨found.anchor, found.payloadSize, some payload⟩ : Option Offer) =
        some ⟨found.anchor, payload.length, some payload⟩ := by rw [length]
    have filled : (scan.record.prepare found.payloadSize).fill payload =
        (scan.record.prepare payload.length).fill payload := by rw [length]
    simp only [Except.toOption, Option.map_some, offered]
    refine Leads.mono (readFooter_leads _ _ _ _) ?_ ?_
    · rintro answer last ⟨rfl, record_eq, position_eq, inside, footer_eq⟩
      simp only [segment_eq, contents_of_system kept'] at inside footer_eq position_eq
      simp only [record_eq, filled]
      refine .whole ⟨_, found.lsn, position_eq, rfl, ?_,
        stands.recordAt length payload_eq inside footer_eq⟩
      simp only [stands.body_eq, length, frameSize, Approached.anchor]
      omega
    · rintro error last record_eq
      simp only [record_eq, filled]
      exact .unfinished

theorem readRecord_leaves (scan : Scan) :
    Leaving scan.log scan.record (offering scan).1.toOption.join readRecord scan := by
  have looks := OnlyLooks.approach
  rw [readRecord_eq_approach]
  rcases approached : approach scan with ⟨error | _ | found, next⟩ <;>
    obtain ⟨system_eq, record_eq⟩ := looks.of_run approached <;>
    rw [offering, bind_apply, approached, ← record_eq]
  · exact Leads.failed_bind approached (.nothing nofun)
  · exact Leads.ran_bind approached (.nothing nofun)
  · exact Leads.ran_bind approached
      (readBody_leaves system_eq (approach_stands approached))

theorem OnlyLooks.attempt {α : Type} {action : ScanM α} (looks : OnlyLooks action) :
    OnlyLooks (Scan.attempt action) where
  aside scan record := by
    unfold Scan.attempt
    rw [looks.aside]
    rfl
  system_eq scan := looks.system_eq scan

theorem OnlyLooks.offering : OnlyLooks Scan.offering := by
  refine bind approach fun found => ?_
  cases found with
  | none => exact .pure _
  | some found => exact bind (attempt (readBytes _ _)) fun _ => .pure _

theorem settle_of_error (error : Error) (scan : Scan) :
    ∃ error' scanner, settle (.error error) scan =
      (.error error', { scan with scanner := scanner }) := by
  cases error with
  | access fault =>
      simp only [settle]
      split <;> exact ⟨_, _, rfl⟩
  | _ => exact ⟨_, _, rfl⟩

theorem Leaves.settled {log : LogFiles} {record : Record} {offer : Option Offer}
    {outcome : Except Error Bool} {scan : Scan}
    (leaves : Leaves log record offer ⟨outcome, scan.scanner, scan.record⟩) :
    Leaving log record offer (settle outcome) scan := by
  obtain ⟨scanned, scanner, left⟩ := scan
  cases outcome with
  | error error =>
      obtain ⟨error', scanner', ran⟩ := settle_of_error error ⟨scanned, scanner, left⟩
      unfold Leaving Leads
      rw [ran]
      cases leaves with
      | nothing => exact .nothing nofun
      | unread => exact .unread
      | unfinished => exact .unfinished
  | ok answer =>
      cases leaves with
      | whole stands => exact .whole stands
      | nothing no_record =>
          cases answer with
          | false => exact .nothing nofun
          | true => exact absurd rfl no_record

end Scan

/-! ## Calls -/

/-- What the scanner comes upon when it is called. -/
def Scanner.offer? (scanner : Scanner) (log : LogFiles) : Option Scan.Offer :=
  if scanner.Stopped then none
  else (Scan.offering ⟨log, scanner, .empty⟩).1.toOption.join

theorem Scanner.next_leaves (scanner : Scanner) (record : Record) (log : LogFiles) :
    Scan.Leaves log record (scanner.offer? log) (scanner.next record log).1 := by
  unfold Scanner.offer?
  by_cases stopped : scanner.Stopped
  · obtain ⟨answer, answered, ran⟩ := stopped.next_apply record log
    rw [if_pos stopped, ran]
    exact .nothing answered.ne_record
  · have going := Scanner.going_of_not_stopped stopped
    have aside := Scan.OnlyLooks.offering.aside ⟨log, scanner, .empty⟩ record
    have leaves := Scan.readRecord_leaves ⟨log, scanner, record⟩
    rw [congrArg Prod.fst aside] at leaves
    rw [if_neg stopped]
    unfold Scanner.next
    rw [Scan.next_apply _ going]
    exact leaves.leaves.settled.leaves

end DirectoryStore.Log
