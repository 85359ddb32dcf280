import DirectoryStore.Proofs.Log.Scanning

/-!
# Whole scans

Calls of one scanner after another read the records of a chain in order and then
answer how it stopped, for ever.  Recovery and reading back drain a scanner, and
so give the chain too.
-/

namespace DirectoryStore.Log

def lastLsn (records : List Found) (before : Option Lsn) : Option Lsn :=
  match records.getLast? with
  | some found => some found.lsn
  | none => before

@[simp] theorem lastLsn_nil (before : Option Lsn) : lastLsn [] before = before :=
  rfl

theorem lastLsn_cons (found : Found) (rest : List Found) (before : Option Lsn) :
    lastLsn (found :: rest) before = lastLsn rest (some found.lsn) := by
  cases last : rest.getLast? <;> simp [lastLsn, List.getLast?_cons, last]

/-- Nothing that a scan does is made to fail. -/
def LogFiles.Quiet (log : LogFiles) : Prop :=
  log.injection.plan = FailurePlan.never

theorem LogFiles.Quiet.not_injects {log : LogFiles} (quiet : log.Quiet)
    {kinds : List CallKind} {fault : AccessFault} : ¬ log.Injects kinds fault := by
  rintro ⟨callNumber, request, cause, planned, -⟩
  rw [quiet] at planned
  cases planned

theorem LogFiles.Quiet.noShortRead {log : LogFiles} (quiet : log.Quiet) :
    log.injection.plan.NoShortRead := by
  rw [quiet]
  exact nofun

theorem LogFiles.Quiet.not_interrupted {log : LogFiles} (quiet : log.Quiet)
    (step : Scanner.Step) : ¬ Interrupted log step :=
  fun ⟨_, injected, _⟩ => quiet.not_injects injected

/-! ## One call after the other -/

/-- One call for each of the records given, whatever is in them. -/
def Scanner.nextEach (scanner : Scanner) :
    List Record → StateM LogFiles (List Scanner.Step)
  | [] => return []
  | record :: rest => do
      let step ← scanner.next record
      return step :: (← nextEach step.scanner rest)

/-- The steps return the records in order, and then stop for ever. -/
def StepsRead (records : List Found) (stop : Stop) (steps : List Scanner.Step) :
    Prop :=
  ∀ (index : Nat) (step : Scanner.Step), steps[index]? = some step →
    match records[index]? with
    | some found => step.Returns found
    | none => step.Stops stop

theorem nextEach_cons_apply (scanner : Scanner) (record : Record)
    (rest : List Record) (log : LogFiles) :
    scanner.nextEach (record :: rest) log =
      (let (step, log) := scanner.next record log
       let (steps, log) := step.scanner.nextEach rest log
       (step :: steps, log)) :=
  rfl

theorem next_of_stopped {scanner : Scanner} {stop : Stop}
    (stopped : scanner.state = stop.state) (record : Record) (log : LogFiles) :
    scanner.next record log = (⟨stop.answer, scanner, record⟩, log) := by
  obtain ⟨home, start, position, state, lastGood, nextLsn⟩ := scanner
  obtain ⟨_ | fault, number, offset⟩ := stop <;>
    · obtain rfl : state = _ := stopped
      rfl

theorem nextEach_of_stopped {scanner : Scanner} {stop : Stop}
    (stopped : scanner.state = stop.state) (buffers : List Record)
    (log : LogFiles) :
    scanner.nextEach buffers log =
      (buffers.map fun record => ⟨stop.answer, scanner, record⟩, log) := by
  induction buffers with
  | nil => rfl
  | cons record rest ih =>
      rw [nextEach_cons_apply, next_of_stopped stopped]
      simp only [ih]
      rfl

theorem WillRead.nextEach_stop {log : LogFiles} (quiet : log.Quiet) {scanner : Scanner}
    {stop : Stop} (will : WillRead log scanner [] stop) (record : Record)
    (buffers : List Record) (calls : Nat) :
    ∃ calls' step, FindsStop scanner step stop ∧
      scanner.nextEach (record :: buffers) (log.atCall calls) =
        (step :: buffers.map fun record => ⟨stop.answer, step.scanner, record⟩,
          log.atCall calls') := by
  obtain ⟨calls', step, ran, finds | interrupted⟩ := will.next record calls
  case inr => exact absurd interrupted (quiet.not_interrupted step)
  refine ⟨calls', step, finds, ?_⟩
  rw [nextEach_cons_apply, ran]
  simp only [nextEach_of_stopped finds.state_eq]

theorem WillRead.nextEach_record {log : LogFiles} (quiet : log.Quiet) {scanner : Scanner}
    {found : Found} {rest : List Found} {stop : Stop}
    (will : WillRead log scanner (found :: rest) stop) (record : Record)
    (buffers : List Record) (calls : Nat) :
    ∃ calls' step, FindsRecord log step found rest stop ∧
      scanner.nextEach (record :: buffers) (log.atCall calls) =
        (let (steps, log) := step.scanner.nextEach buffers (log.atCall calls')
         (step :: steps, log)) := by
  obtain ⟨calls', step, ran, finds | interrupted⟩ := will.next record calls
  case inr => exact absurd interrupted (quiet.not_interrupted step)
  exact ⟨calls', step, finds, by rw [nextEach_cons_apply, ran]⟩

structure Scanner.Knows (scanner : Scanner) (start : LogAnchor) (seen : List Found) :
    Prop where
  last_eq : scanner.lastGood.lsn = seen.getLast?.map (·.lsn)
  nextLsn_eq : scanner.nextLsn = nextLsnAfter start seen

theorem Scanner.Knows.start (home : Home) (start : LogAnchor) :
    (Scanner.startAt home start).Knows start [] :=
  ⟨rfl, rfl⟩

/-- The call found that the chain stops here, and the scanner knows the records before. -/
structure Scanner.Step.Concludes (step : Scanner.Step) (start : LogAnchor)
    (records : List Found) (stop : Stop) : Prop extends step.Stops stop where
  lastGood_eq : step.scanner.lastGood = stop.anchor records
  nextLsn_eq : step.scanner.nextLsn = nextLsnAfter start records

def StepsConclude (start : LogAnchor) (seen rest : List Found) (stop : Stop)
    (steps : List Scanner.Step) : Prop :=
  ∀ (index : Nat) (step : Scanner.Step), steps[index]? = some step →
    match rest[index]? with
    | some found => step.Returns found ∧ step.scanner.state = .reading
    | none => step.Concludes start (seen ++ rest) stop

theorem StepsConclude.read {start : LogAnchor} {seen rest : List Found} {stop : Stop}
    {steps : List Scanner.Step} (conclude : StepsConclude start seen rest stop steps) :
    StepsRead rest stop steps := by
  intro index step held
  have answer := conclude index step held
  cases here : rest[index]? with
  | none =>
      rw [here] at answer
      exact answer.toStops
  | some found =>
      rw [here] at answer
      exact answer.1

theorem FindsRecord.state_eq {log : LogFiles} {step : Scanner.Step} {found : Found}
    {rest : List Found} {stop : Stop} (finds : FindsRecord log step found rest stop) :
    step.scanner.state = .reading := by
  have behind := finds.lastGood_eq
  have will := finds.will
  generalize step.scanner = scanner at behind will
  cases will with
  | opening => exact nomatch congrArg LogAnchor.lsn behind
  | reading => rfl

theorem FindsRecord.knows {log : LogFiles} {step : Scanner.Step} {found : Found}
    {rest : List Found} {stop : Stop} (finds : FindsRecord log step found rest stop)
    (start : LogAnchor) (seen : List Found) :
    step.scanner.Knows start (seen ++ [found]) where
  last_eq := by
    rw [finds.lastGood_eq, List.getLast?_concat]
    rfl
  nextLsn_eq := by
    rw [finds.nextLsn_eq, nextLsnAfter, List.getLast?_concat]

theorem FindsStop.concludes {scanner : Scanner} {step : Scanner.Step} {stop : Stop}
    (finds : FindsStop scanner step stop) {start : LogAnchor} {seen : List Found}
    (knows : scanner.Knows start seen) (record : Record) :
    Scanner.Step.Concludes ⟨stop.answer, step.scanner, record⟩ start seen stop where
  result_eq := rfl
  state_eq := finds.state_eq
  lastGood_eq := by
    rw [finds.lastGood_eq, knows.last_eq]
    rfl
  nextLsn_eq := finds.nextLsn_eq.trans knows.nextLsn_eq

theorem StepsConclude.of_stop {start : LogAnchor} {seen : List Found} {stop : Stop}
    {steps : List Scanner.Step} (conclude : ∀ step ∈ steps, step.Concludes start seen stop) :
    StepsConclude start seen [] stop steps := by
  intro index step held
  rw [List.append_nil]
  exact conclude step (List.mem_of_getElem? held)

theorem StepsConclude.cons {log : LogFiles} {start : LogAnchor} {seen rest : List Found}
    {found : Found} {stop : Stop} {step : Scanner.Step} {steps : List Scanner.Step}
    (finds : FindsRecord log step found rest stop)
    (conclude : StepsConclude start (seen ++ [found]) rest stop steps) :
    StepsConclude start seen (found :: rest) stop (step :: steps) := by
  intro index other held
  cases index with
  | zero =>
      obtain rfl := Option.some.inj held
      exact ⟨finds.toReturns, finds.state_eq⟩
  | succ index =>
      have answer := conclude index other held
      rwa [List.append_assoc] at answer

theorem WillRead.nextEach_concludes {log : LogFiles} (quiet : log.Quiet) {scanner : Scanner}
    {start : LogAnchor} {seen rest : List Found} {stop : Stop}
    (will : WillRead log scanner rest stop) (knows : scanner.Knows start seen)
    (buffers : List Record) (calls : Nat) :
    ∃ calls' steps,
      scanner.nextEach buffers (log.atCall calls) = (steps, log.atCall calls') ∧
        steps.length = buffers.length ∧ StepsConclude start seen rest stop steps := by
  -- What the scanner knows of the records so far is carried from one call to the next.
  induction buffers generalizing scanner seen rest calls with
  | nil => exact ⟨calls, [], rfl, rfl, by simp [StepsConclude]⟩
  | cons record buffers ih =>
      cases rest with
      | nil =>
          obtain ⟨calls', step, finds, ran⟩ := will.nextEach_stop quiet record buffers calls
          refine ⟨calls', _, ran, by simp, .of_stop fun other member => ?_⟩
          rcases List.mem_cons.mp member with rfl | repeated
          · have same := finds.concludes knows other.record
            rwa [← finds.result_eq] at same
          · obtain ⟨buffer, -, rfl⟩ := List.mem_map.mp repeated
            exact finds.concludes knows buffer
      | cons found rest =>
          obtain ⟨calls', step, finds, ran⟩ := will.nextEach_record quiet record buffers calls
          obtain ⟨last, steps, ran', length, conclude⟩ :=
            ih finds.will (finds.knows start seen) calls'
          rw [ran'] at ran
          exact ⟨last, step :: steps, ran, by simp [length], .cons finds conclude⟩

theorem WillRead.nextEach {log : LogFiles} (quiet : log.Quiet) {home : Home}
    {start : LogAnchor} {records : List Found} {stop : Stop}
    (will : WillRead log (Scanner.startAt home start) records stop) (buffers : List Record)
    (calls : Nat) :
    ∃ calls' steps,
      (Scanner.startAt home start).nextEach buffers (log.atCall calls) =
          (steps, log.atCall calls') ∧
        steps.length = buffers.length ∧ StepsRead records stop steps := by
  obtain ⟨calls', steps, ran, length, conclude⟩ :=
    will.nextEach_concludes quiet (.start home start) buffers calls
  exact ⟨calls', steps, ran, length, conclude.read⟩

/-! ## Recovery -/

theorem LogFiles.Injects.not_short {log : LogFiles} {kinds : List CallKind}
    {fault : AccessFault} (injected : log.Injects kinds fault)
    (noShortRead : log.injection.plan.NoShortRead) : fault.isShortRead = false := by
  obtain ⟨callNumber, request, cause, planned, -, rfl | rfl⟩ := injected <;>
    exact noShortRead callNumber request cause planned

namespace Recovery

/-- The report of a scan that reads these records behind what it knows already. -/
def reportAfter (scanner : Scanner) (seen : Nat) (records : List Found) (stop : Stop) :
    RecoveryReport where
  lastGood := ⟨stop.segment, stop.offset, lastLsn records scanner.lastGood.lsn⟩
  nextLsn :=
    match records.getLast? with
    | some found => some found.lsn.next
    | none => scanner.nextLsn
  records := seen + records.length
  stoppedOnInvalid := stop.fault.isSome

theorem reportAfter_cons (scanner : Scanner) {step : Scanner.Step} (seen : Nat)
    {found : Found} {rest : List Found} {stop : Stop} {log : LogFiles}
    (finds : FindsRecord log step found rest stop) :
    reportAfter scanner seen (found :: rest) stop =
      reportAfter step.scanner (seen + 1) rest stop := by
  unfold reportAfter
  rw [lastLsn_cons, finds.lastGood_eq, finds.nextLsn_eq, List.length_cons,
    List.getLast?_cons]
  congr 1
  · cases rest.getLast? <;> rfl
  · omega

def acceptAll : Apply := fun _ _ => .ok ()

theorem replay_reads {log : LogFiles} (noShortRead : log.injection.plan.NoShortRead)
    {records : List Found} {stop : Stop} {scanner : Scanner}
    (will : WillRead log scanner records stop) (record : Record)
    (seen : List Record) {fuel : Nat} (enough : records.length < fuel) (calls : Nat) :
    ∃ calls' outcome,
      replay acceptAll fuel scanner record seen (log.atCall calls) =
        (outcome, log.atCall calls') ∧
      ((∃ all, outcome = .ok (reportAfter scanner seen.length records stop, all)) ∨
        ∃ fault, log.Injects scanCalls fault ∧ outcome = .error (.access fault)) := by
  induction fuel generalizing records scanner record seen calls with
  | zero => cases enough
  | succ fuel ih =>
      obtain ⟨calls', step, ran, answered⟩ := will.next record calls
      rw [replay]
      simp only [ran]
      rcases answered with reads | interrupted
      · cases records with
        | nil =>
            have result := reads.result_eq
            refine ⟨calls', _, ?_, .inl ⟨seen.reverse, rfl⟩⟩
            obtain ⟨fault, number, offset⟩ := stop
            have report (stoppedOnInvalid : Bool) :
                reportOf step.scanner seen.length stoppedOnInvalid =
                  ⟨⟨number, offset, scanner.lastGood.lsn⟩, scanner.nextLsn,
                    seen.length, stoppedOnInvalid⟩ := by
              rw [reportOf, reads.lastGood_eq, reads.nextLsn_eq]
            cases fault <;> simp only [Stop.answer] at result <;> rw [result] <;>
              simp only [report] <;> rfl
        | cons found rest =>
            rw [reads.result_eq, reportAfter_cons scanner seen.length reads]
            have fewer : rest.length < fuel := by simpa using enough
            have := ih reads.will step.record (step.record :: seen) fewer calls'
            simpa [acceptAll] using this
      · obtain ⟨fault, injected, ⟨-, result, -⟩ | ⟨short, -⟩⟩ := interrupted
        · rw [result]
          exact ⟨calls', _, rfl, .inr ⟨fault, injected, rfl⟩⟩
        · rw [injected.not_short noShortRead] at short
          cases short

end Recovery

def reportFrom (start : LogAnchor) (records : List Found) (stop : Stop) :
    RecoveryReport where
  lastGood := stop.anchor records
  nextLsn := nextLsnAfter start records
  records := records.length
  stoppedOnInvalid := stop.fault.isSome

theorem recover_reads {log : LogFiles} (sound : log.Sound)
    (noShortRead : log.injection.plan.NoShortRead) {start : LogAnchor}
    {records : List Found} {stop : Stop}
    (reading : Reading log.segments start records stop) (calls : Nat) :
    ∃ calls' outcome,
      recover .memory start (log.atCall calls) = (outcome, log.atCall calls') ∧
      (outcome = .ok (reportFrom start records stop) ∨
        ∃ fault, log.Injects scanCalls fault ∧ outcome = .error (.access fault)) := by
  have enough := Nat.lt_succ_of_le (sound.records_le reading)
  obtain ⟨calls', outcome, ran, answered⟩ := Recovery.replay_reads noShortRead
    (.starting reading) Record.empty [] enough calls
  have recovered : recover .memory start (log.atCall calls) =
      (outcome.map (·.1), log.atCall calls') := by
    rw [recover, bind_apply]
    have replayed : recoverWith .memory start (fun _ _ => .ok ()) (log.atCall calls) =
        (outcome, log.atCall calls') := ran
    rw [replayed]
    cases outcome <;> rfl
  rw [recovered]
  refine ⟨calls', _, rfl, ?_⟩
  rcases answered with ⟨all, rfl⟩ | ⟨fault, injected, rfl⟩
  · refine .inl (congrArg Except.ok ?_)
    simp only [Recovery.reportAfter, reportFrom, Stop.anchor, Scanner.startAt,
      lastLsn, nextLsnAfter, List.length_nil, Nat.zero_add]
    cases records.getLast? <;> rfl
  · exact .inr ⟨fault, injected, rfl⟩

/-! ## Reading a log back -/

structure Record.Holds (record : Record) (found : Found) : Prop where
  payload_eq : record.payload = found.payload
  anchor_eq : record.anchor = some found.anchor

theorem take_succ_apply (scanner : Scanner) (limit : Nat) (log : LogFiles)
    (going : scanner.state = .needFileHeader ∨ scanner.state = .reading) :
    scanner.take (limit + 1) log =
      (let (step, log) := scanner.next Record.empty log
       match step.result with
       | .ok true =>
           let ((items, last), log) := step.scanner.take limit log
           ((.ok step.record :: items, last), log)
       | .ok false => (([], step.scanner), log)
       | .error error => (([.error error], step.scanner), log)) := by
  obtain ⟨home, start, position, state, lastGood, nextLsn⟩ := scanner
  rcases going with rfl | rfl <;>
    · simp only [Scanner.take, bind, StateT.bind]
      rcases Scanner.next _ Record.empty log with ⟨⟨result, scanner, record⟩, log⟩
      rcases result with error | _ | _ <;> rfl

theorem take_reads {log : LogFiles} (quiet : log.Quiet) {scanner : Scanner}
    {records : List Found} {stop : Stop}
    (will : WillRead log scanner records stop) {limit : Nat}
    (enough : records.length < limit) (calls : Nat) :
    ∃ calls' items last, scanner.take limit (log.atCall calls) =
        ((items, last), log.atCall calls') ∧
      List.Forall₂ Record.Holds (items.filterMap Except.toOption) records := by
  induction limit generalizing scanner records calls with
  | zero => cases enough
  | succ limit ih =>
      obtain ⟨calls', step, ran, reads | interrupted⟩ :=
        will.next Record.empty calls
      case inr => exact absurd interrupted (quiet.not_interrupted step)
      rw [take_succ_apply _ _ _ will.going, ran]
      cases records with
      | nil =>
          have result := reads.result_eq
          obtain ⟨fault, number, offset⟩ := stop
          cases fault <;> simp only [Stop.answer] at result <;> simp only [result]
          · exact ⟨calls', [], _, rfl, .nil⟩
          · exact ⟨calls', _, _, rfl, .nil⟩
      | cons found rest =>
          have fewer : rest.length < limit := by simpa using enough
          obtain ⟨last, items, scanner', ran', held⟩ := ih reads.will fewer calls'
          simp only [reads.result_eq, ran']
          exact ⟨last, _, _, rfl, .cons ⟨reads.payload_eq, reads.anchor_eq⟩ held⟩

theorem readLog_reads {log : LogFiles} (sound : log.Sound) (quiet : log.Quiet)
    {start : LogAnchor} {records : List Found} {stop : Stop}
    (reading : Reading log.segments start records stop) (calls : Nat) :
    ∃ calls' items last, readLog .memory start (log.atCall calls) =
        ((items, last), log.atCall calls') ∧
      List.Forall₂ Record.Holds items records := by
  have enough := Nat.lt_succ_of_le (sound.records_le reading)
  obtain ⟨calls', items, last, ran, held⟩ :=
    take_reads quiet (.starting reading) enough calls
  refine ⟨calls', _, last, ?_, held⟩
  have taken : (Scanner.startAt .memory start).take
      (Recovery.recordBound (log.atCall calls) + 1) (log.atCall calls) =
        ((items, last), log.atCall calls') := ran
  rw [readLog, stateM_bind_apply, stateM_get_apply, stateM_bind_apply, taken]
  rfl

end DirectoryStore.Log
