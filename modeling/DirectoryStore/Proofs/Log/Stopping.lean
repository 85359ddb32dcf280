import DirectoryStore.Proofs.Log.Accepting
import DirectoryStore.Proofs.Log.Mirroring

/-!
# Scanners that have stopped

A scanner is called, closed, and called again, and calls of it fail in any way.  The
records that it returns are the first ones that a scan without failures returns, and it
reports the end of the log only where that scan finds it.  Once it has stopped it answers
in one way for ever, whatever becomes of the log.
-/

namespace DirectoryStore.Log

/-! ## Scanners in use -/

/-- What happens to a scanner, or to the logs while it is held. -/
inductive Scanner.Event where
  | next (record : Record)
  | close
  | change (log : LogFiles)

def Scanner.Event.isChange : Scanner.Event → Bool
  | .change _ => true
  | _ => false

structure Scanner.Moment where
  event : Scanner.Event
  before : Scanner
  after : Scanner
  step : Option Scanner.Step

def Scanner.happen (scanner : Scanner) (event : Scanner.Event) :
    StateM LogFiles Scanner.Moment := fun log =>
  match event with
  | .next record =>
      let (step, log) := scanner.next record log
      (⟨event, scanner, step.scanner, some step⟩, log)
  | .close => (⟨event, scanner, scanner.close, none⟩, log)
  | .change log => (⟨event, scanner, scanner, none⟩, log)

def Scanner.live (scanner : Scanner) : List Scanner.Event → StateM LogFiles (List Scanner.Moment)
  | [] => return []
  | event :: rest => do
      let moment ← scanner.happen event
      return moment :: (← live moment.after rest)

namespace Scanner.Moment

def answer (moment : Scanner.Moment) : Option (Except Error Bool) :=
  moment.step.map (·.result)

/-- The logs are left alone as long as the scanner may read them. -/
def Undisturbed (moment : Scanner.Moment) : Prop :=
  moment.event.isChange = true → moment.before.Stopped

/-- The call failed to read at all, or a scanner was closed that had not found a fault. -/
def Closes (moment : Scanner.Moment) : Prop :=
  (∃ error, moment.answer = some (.error error) ∧ error.isInvalidLog = false) ∨
    moment.event = .close ∧ ∀ fault, moment.before.state ≠ .invalid fault

/-- What the earlier moment says of the later one. -/
structure Binds (earlier later : Scanner.Moment) : Prop where
  invalid : ∀ fault, earlier.answer = some (.error (.invalidLog fault)) →
    ∀ record, later.event = .next record → later.answer = some (.error (.invalidLog fault))
  closed : earlier.Closes →
    ∀ record, later.event = .next record → later.answer = some (.error .scannerClosed)
  settled : ∀ answer, earlier.answer = some answer → answer ≠ .ok true →
    later.after.lastGood = earlier.after.lastGood ∧ later.after.nextLsn = earlier.after.nextLsn

end Scanner.Moment

def returned (moments : List Scanner.Moment) : List (Bytes × LogAnchor) :=
  validated (moments.filterMap (·.step))

theorem live_cons_apply (scanner : Scanner) (event : Scanner.Event)
    (rest : List Scanner.Event) (log : LogFiles) :
    scanner.live (event :: rest) log =
      (let (moment, log) := scanner.happen event log
       let (moments, log) := moment.after.live rest log
       (moment :: moments, log)) :=
  rfl

/-! ## After the end -/

/-- A stopped scanner stays as it is, but the end of the log is forgotten when it is closed. -/
structure Scanner.StaysAs (ended later : Scanner) : Prop where
  stopped : later.Stopped
  lastGood_eq : later.lastGood = ended.lastGood
  nextLsn_eq : later.nextLsn = ended.nextLsn
  state_cases : later.state = ended.state ∨ ended.state = .eof ∧ later.state = .closed

/-- The scanner had stopped before the moment, and answered as it must if it was called. -/
structure Scanner.Moment.LiesBehind (moment : Scanner.Moment) (ended : Scanner) : Prop where
  before : ended.StaysAs moment.before
  after : ended.StaysAs moment.after
  answers : ∀ answer, moment.answer = some answer → AnswerIn moment.before.state answer
  called : ∀ record, moment.event = .next record → ∃ answer, moment.answer = some answer

section

variable {scanner ended later last : Scanner} {moment : Scanner.Moment}
  {state : ScanState} {answer : Except Error Bool}

theorem Scanner.Stopped.staysAs (stopped : scanner.Stopped) : scanner.StaysAs scanner :=
  ⟨stopped, rfl, rfl, .inl rfl⟩

theorem Scanner.StaysAs.trans (stays : ended.StaysAs later) (stays' : later.StaysAs last) :
    ended.StaysAs last where
  stopped := stays'.stopped
  lastGood_eq := stays'.lastGood_eq.trans stays.lastGood_eq
  nextLsn_eq := stays'.nextLsn_eq.trans stays.nextLsn_eq
  state_cases := by
    have cases := stays.state_cases
    have cases' := stays'.state_cases
    grind

theorem Scanner.Stopped.close_staysAs (stopped : scanner.Stopped) :
    scanner.StaysAs scanner.close := by
  refine ⟨scanner.close_stopped, ?_, ?_, ?_⟩ <;>
  · unfold Scanner.close
    cases state_eq : scanner.state with
    | needFileHeader => exact absurd state_eq stopped.1
    | reading => exact absurd state_eq stopped.2
    | eof | invalid | closed => simp

theorem Scanner.happen_next {record : Record} {log log' : LogFiles} {step : Scanner.Step}
    (ran : scanner.next record log = (step, log')) :
    scanner.happen (.next record) log = (⟨.next record, scanner, step.scanner, some step⟩, log') := by
  rw [happen, ran]

theorem Scanner.Stopped.happen_liesBehind (stopped : scanner.Stopped) {event : Scanner.Event}
    {log log' : LogFiles} (happened : scanner.happen event log = (moment, log')) :
    moment.LiesBehind scanner := by
  cases event with
  | close =>
      obtain ⟨rfl, -⟩ := Prod.mk.inj happened
      exact ⟨stopped.staysAs, stopped.close_staysAs, nofun, nofun⟩
  | change log =>
      obtain ⟨rfl, -⟩ := Prod.mk.inj happened
      exact ⟨stopped.staysAs, stopped.staysAs, nofun, nofun⟩
  | next record =>
      obtain ⟨answer, answered, ran⟩ := stopped.next_apply record log
      obtain ⟨rfl, -⟩ := Prod.mk.inj ((happen_next ran).symm.trans happened)
      exact ⟨stopped.staysAs, stopped.staysAs, fun _ same => Option.some.inj same ▸ answered,
        fun _ _ => ⟨answer, rfl⟩⟩

theorem Scanner.Moment.LiesBehind.trans (behind : moment.LiesBehind later)
    (stays : ended.StaysAs later) : moment.LiesBehind ended :=
  ⟨stays.trans behind.before, stays.trans behind.after, behind.answers, behind.called⟩

theorem Scanner.Stopped.live_liesBehind (stopped : scanner.Stopped)
    (events : List Scanner.Event) (log : LogFiles) :
    ∀ moment ∈ (scanner.live events log).1, moment.LiesBehind scanner := by
  induction events generalizing scanner log with
  | nil => exact fun _ member => nomatch (show _ ∈ [] from member)
  | cons event rest ih =>
      rcases happened : scanner.happen event log with ⟨first, log'⟩
      have behind := stopped.happen_liesBehind happened
      simp only [live_cons_apply, happened]
      refine List.forall_mem_cons.mpr ⟨behind, fun moment member => ?_⟩
      exact (ih behind.after.stopped log' moment member).trans behind.after

theorem AnswerIn.stateAfter (answered : AnswerIn state answer) : StateAfter answer state := by
  cases answered with
  | eof => exact .eof
  | invalid fault => exact .invalid fault
  | closed => exact .closed rfl

theorem Scanner.going_of_not_stopped (going : ¬ scanner.Stopped) :
    scanner.state = .needFileHeader ∨ scanner.state = .reading := by
  unfold Stopped at going
  tauto

theorem Scanner.next_stateAfter (record : Record) {log log' : LogFiles} {step : Scanner.Step}
    (ran : scanner.next record log = (step, log')) : StateAfter step.result step.scanner.state := by
  by_cases stopped : scanner.Stopped
  · obtain ⟨answer, answered, ran'⟩ := stopped.next_apply record log
    obtain ⟨rfl, -⟩ := Prod.mk.inj (ran'.symm.trans ran)
    exact answered.stateAfter
  · obtain ⟨step', log'', _, _, ran', -, after, -⟩ :=
      Scanner.next_mirrors log.shadow (going_of_not_stopped stopped) record record
    obtain ⟨rfl, -⟩ := Prod.mk.inj (ran'.symm.trans ran)
    exact after

structure Scanner.Moment.Stands (moment : Scanner.Moment) : Prop where
  answered : ∀ answer, moment.answer = some answer → StateAfter answer moment.after.state
  closed : moment.event = .close → moment.after = moment.before.close

theorem Scanner.happen_stands {event : Scanner.Event} {log log' : LogFiles}
    (happened : scanner.happen event log = (moment, log')) : moment.Stands := by
  cases event with
  | close =>
      obtain ⟨rfl, -⟩ := Prod.mk.inj happened
      exact ⟨nofun, fun _ => rfl⟩
  | change log =>
      obtain ⟨rfl, -⟩ := Prod.mk.inj happened
      exact ⟨nofun, nofun⟩
  | next record =>
      rcases ran : scanner.next record log with ⟨step, log''⟩
      obtain ⟨rfl, -⟩ := Prod.mk.inj ((happen_next ran).symm.trans happened)
      exact ⟨fun _ same => Option.some.inj same ▸ next_stateAfter record ran, nofun⟩

theorem StateAfter.stopped (after : StateAfter answer scanner.state)
    (no_record : answer ≠ .ok true) : scanner.Stopped := by
  unfold Scanner.Stopped
  generalize scanner.state = state at after ⊢
  cases after with
  | record => exact absurd rfl no_record
  | eof | invalid | closed => exact ⟨nofun, nofun⟩

theorem StateAfter.eq_reading (after : StateAfter (.ok true) state) : state = .reading := by
  cases after
  rfl

theorem StateAfter.eq_eof (after : StateAfter (.ok false) state) : state = .eof := by
  cases after
  rfl

theorem StateAfter.ne_eof {error : Error} (after : StateAfter (.error error) state) :
    state ≠ .eof := by
  cases after <;> nofun

theorem Scanner.Moment.Closes.state_eq (closes : moment.Closes) (stands : moment.Stands) :
    moment.after.state = .closed := by
  rcases closes with ⟨error, answered, other⟩ | ⟨is_close, valid⟩
  · have after := stands.answered _ answered
    generalize moment.after.state = state at after ⊢
    cases after with
    | invalid fault => cases other
    | closed => rfl
  · rw [stands.closed is_close]
    exact Scanner.close_state valid

theorem Scanner.StaysAs.answer_of_invalid (stays : ended.StaysAs later) {fault : LogFault}
    (invalid : ended.state = .invalid fault) (answered : AnswerIn later.state answer) :
    answer = .error (.invalidLog fault) := by
  have same := stays.state_cases
  generalize later.state = state at same answered
  cases answered <;> simp_all

theorem Scanner.StaysAs.answer_of_closed (stays : ended.StaysAs later)
    (closed : ended.state = .closed) (answered : AnswerIn later.state answer) :
    answer = .error .scannerClosed := by
  have same := stays.state_cases
  generalize later.state = state at same answered
  cases answered <;> simp_all

theorem Scanner.Moment.Stands.binds {earlier later : Scanner.Moment} (stands : earlier.Stands)
    (behind : earlier.after.Stopped → later.LiesBehind earlier.after) : earlier.Binds later where
  invalid fault said record is_call := by
    have after := stands.answered _ said
    have behind := behind (after.stopped nofun)
    have invalid : earlier.after.state = .invalid fault := by
      generalize earlier.after.state = state at after ⊢
      cases after with
      | invalid => rfl
      | closed other => cases other
    obtain ⟨answer, answered⟩ := behind.called record is_call
    rw [answered, behind.before.answer_of_invalid invalid (behind.answers answer answered)]
  closed closes record is_call := by
    have closed := closes.state_eq stands
    have behind := behind (by simp [Scanner.Stopped, closed])
    obtain ⟨answer, answered⟩ := behind.called record is_call
    rw [answered, behind.before.answer_of_closed closed (behind.answers answer answered)]
  settled answer said no_record := by
    have behind := behind ((stands.answered answer said).stopped no_record)
    exact ⟨behind.after.lastGood_eq, behind.after.nextLsn_eq⟩

theorem Scanner.live_binds (scanner : Scanner) (events : List Scanner.Event) (log : LogFiles) :
    (scanner.live events log).1.Pairwise Scanner.Moment.Binds := by
  induction events generalizing scanner log with
  | nil => exact .nil
  | cons event rest ih =>
      rcases happened : scanner.happen event log with ⟨first, log'⟩
      simp only [live_cons_apply, happened]
      refine List.pairwise_cons.mpr ⟨fun later member => ?_, ih _ _⟩
      exact (Scanner.happen_stands happened).binds fun stopped =>
        stopped.live_liesBehind rest log' later member

/-! ## What was returned -/

theorem AnswerIn.fails (answered : AnswerIn state answer) (not_eof : state ≠ .eof) :
    ∃ error, answer = .error error := by
  cases answered with
  | eof => exact absurd rfl not_eof
  | invalid | closed => exact ⟨_, rfl⟩

theorem Scanner.Moment.LiesBehind.ne_record (behind : moment.LiesBehind ended) :
    moment.answer ≠ some (.ok true) :=
  fun said => (behind.answers _ said).ne_record rfl

theorem Scanner.Moment.LiesBehind.fails (behind : moment.LiesBehind ended)
    (not_eof : ended.state ≠ .eof) (said : moment.answer = some answer) :
    ∃ error, answer = .error error := by
  refine (behind.answers answer said).fails fun eof => ?_
  rcases behind.before.state_cases with same | ⟨was_eof, -⟩
  · exact not_eof (same ▸ eof)
  · exact not_eof was_eof

theorem Scanner.Step.SameAs.validated_cons {step step' : Scanner.Step} (same : step.SameAs step')
    (said : step.result = .ok true) :
    ∃ entry, (∀ rest, validated (step :: rest) = entry :: validated rest) ∧
      ∀ rest, validated (step' :: rest) = entry :: validated rest := by
  obtain ⟨payload_eq, anchor, anchored, anchored'⟩ := same.read said
  refine ⟨(step.record.payload, anchor), fun rest => ?_, fun rest => ?_⟩
  · refine List.filterMap_cons_some ?_
    rw [said, anchored]
  · refine List.filterMap_cons_some ?_
    rw [same.result_eq, said, anchored', payload_eq]

theorem returned_eq_nil {moments : List Scanner.Moment}
    (none_read : ∀ moment ∈ moments, moment.answer ≠ some (.ok true)) : returned moments = [] := by
  refine validated_eq_nil fun step member said => ?_
  obtain ⟨moment, held, called⟩ := List.mem_filterMap.mp member
  exact none_read moment held (by rw [Scanner.Moment.answer, called, Option.map_some, said])

theorem length_nextEach (scanner : Scanner) (buffers : List Record) (log : LogFiles) :
    (scanner.nextEach buffers log).1.length = buffers.length := by
  induction buffers generalizing scanner log with
  | nil => rfl
  | cons record rest ih =>
      rw [nextEach_cons_apply]
      exact congrArg Nat.succ (ih _ _)

/-- What was returned begins what these calls return, and is all of it if the end was reported. -/
structure Scanner.KeepsTo (scanner : Scanner) (moments : List Scanner.Moment)
    (free : List Scanner.Step) : Prop where
  begins : (returned moments).length ≤ free.length → returned moments <+: validated free
  ends : (∃ moment ∈ moments, moment.answer = some (.ok false)) →
    (returned moments).length < free.length →
      validated free = returned moments ∧ (scanner.after free).state = .eof

theorem Scanner.keepsTo_of_fails {moments : List Scanner.Moment} {free : List Scanner.Step}
    (fails : ∀ moment ∈ moments, ∀ answer, moment.answer = some answer →
      ∃ error, answer = .error error) : scanner.KeepsTo moments free where
  begins _ := by
    rw [returned_eq_nil fun moment member said => nomatch fails moment member _ said]
    exact List.nil_prefix
  ends := by
    rintro ⟨moment, member, said⟩
    exact nomatch fails moment member _ said

theorem Scanner.keepsTo_of_stops {rest : List Scanner.Moment} {free : List Scanner.Step}
    (failed : ∀ answer, moment.answer = some answer → ∃ error, answer = .error error)
    (not_eof : moment.after.state ≠ .eof)
    (behind : ∀ later ∈ rest, later.LiesBehind moment.after) :
    scanner.KeepsTo (moment :: rest) free :=
  keepsTo_of_fails <| List.forall_mem_cons.mpr
    ⟨failed, fun later member _ said => (behind later member).fails not_eof said⟩

theorem Scanner.keepsTo_nil (moments : List Scanner.Moment) : scanner.KeepsTo moments [] where
  begins no_room := by
    rw [List.eq_nil_of_length_eq_zero (Nat.le_zero.mp no_room)]
    exact List.nil_prefix
  ends _ no_room := absurd no_room (Nat.not_lt_zero _)

section

variable {record : Record} {step step' : Scanner.Step} {rest : List Scanner.Moment}

theorem Scanner.keepsTo_of_record {free : List Scanner.Step} (same : step.SameAs step')
    (said : step.result = .ok true) (keeps : step.scanner.KeepsTo rest free) :
    scanner.KeepsTo (⟨.next record, scanner, step.scanner, some step⟩ :: rest) (step' :: free) := by
  obtain ⟨entry, validated_eq, validated_eq'⟩ := same.validated_cons said
  have returned_eq : returned (⟨.next record, scanner, step.scanner, some step⟩ :: rest) =
      entry :: returned rest := validated_eq _
  refine ⟨fun room => ?_, fun ends room => ?_⟩ <;>
    simp only [returned_eq, List.length_cons] at room ⊢ <;> rw [validated_eq']
  · exact List.cons_prefix_cons.mpr ⟨rfl, keeps.begins (Nat.le_of_succ_le_succ room)⟩
  · have later : ∃ moment ∈ rest, moment.answer = some (.ok false) := by
      obtain ⟨moment, member, answered⟩ := ends
      rcases List.mem_cons.mp member with rfl | member
      · exact nomatch said.symm.trans (Option.some.inj answered)
      · exact ⟨moment, member, answered⟩
    obtain ⟨whole, eof⟩ := keeps.ends later (Nat.lt_of_succ_lt_succ room)
    rw [after_cons, same.scanner_eq]
    exact ⟨congrArg (entry :: ·) whole, eof⟩

theorem Scanner.keepsTo_of_error {error : Error} (said : step.result = .error error)
    (not_eof : step.scanner.state ≠ .eof)
    (behind : ∀ later ∈ rest, later.LiesBehind step.scanner) (free : List Scanner.Step) :
    scanner.KeepsTo (⟨.next record, scanner, step.scanner, some step⟩ :: rest) free :=
  keepsTo_of_stops (fun _ answered => ⟨error, (Option.some.inj answered).symm.trans said⟩)
    not_eof behind

theorem Scanner.keepsTo_of_eof (same : step.SameAs step') (said : step.result = .ok false)
    (eof : step.scanner.state = .eof)
    (behind : ∀ later ∈ rest, later.LiesBehind step.scanner) (buffers : List Record)
    (quiet : LogFiles) :
    scanner.KeepsTo (⟨.next record, scanner, step.scanner, some step⟩ :: rest)
      (step' :: (step'.scanner.nextEach buffers quiet).1) := by
  have no_record : step.result ≠ .ok true := by rw [said]; nofun
  have nothing : returned (⟨.next record, scanner, step.scanner, some step⟩ :: rest) = [] :=
    returned_eq_nil <| List.forall_mem_cons.mpr
      ⟨fun answered => no_record (Option.some.inj answered),
        fun later member => (behind later member).ne_record⟩
  let stop : Stop := ⟨none, 0, 0⟩
  have stopped : step'.scanner.state = stop.state := by rw [same.scanner_eq, eof]; rfl
  refine ⟨fun _ => nothing ▸ List.nil_prefix, fun _ _ => ?_⟩
  rw [nothing, nextEach_of_stopped stopped, after_cons, after_map,
    validated_cons_of_not_read (same.result_eq ▸ no_record)]
  refine ⟨validated_eq_nil fun call member => ?_, stopped⟩
  obtain ⟨_, -, rfl⟩ := List.mem_map.mp member
  exact stop.answer_ne

end

theorem Scanner.live_keepsTo {log quiet : LogFiles} (shadow : Shadow log quiet)
    (going : scanner.state = .needFileHeader ∨ scanner.state = .reading)
    (events : List Scanner.Event) (buffers : List Record)
    (undisturbed : ∀ moment ∈ (scanner.live events log).1, moment.Undisturbed) :
    scanner.KeepsTo (scanner.live events log).1 (scanner.nextEach buffers quiet).1 := by
  induction events generalizing scanner log quiet buffers with
  | nil => exact keepsTo_of_fails fun _ member => nomatch (show _ ∈ [] from member)
  | cons event rest ih =>
      rcases happened : scanner.happen event log with ⟨first, log'⟩
      simp only [live_cons_apply, happened] at undisturbed ⊢
      have behind (stopped : first.after.Stopped) := stopped.live_liesBehind rest log'
      cases event with
      | change log =>
          obtain ⟨rfl, -⟩ := Prod.mk.inj happened
          have stopped := undisturbed _ List.mem_cons_self rfl
          exact absurd going (not_or.mpr stopped)
      | close =>
          obtain ⟨rfl, -⟩ := Prod.mk.inj happened
          have closed : scanner.close.state = .closed := by
            refine close_state fun fault => ?_
            rcases going with here | here <;> simp [here]
          exact keepsTo_of_stops nofun (closed ▸ nofun) (behind scanner.close_stopped)
      | next record =>
          cases buffers with
          | nil => exact keepsTo_nil _
          | cons buffer buffers =>
              obtain ⟨step, log'', step', quiet', ran, ran', after, alike⟩ :=
                Scanner.next_mirrors shadow going record buffer
              obtain ⟨rfl, rfl⟩ := Prod.mk.inj ((happen_next ran).symm.trans happened)
              rcases said : step.result with error | _ | _ <;> rw [said] at after
              · exact keepsTo_of_error said after.ne_eof (behind (after.stopped nofun)) _
              -- A call that answers without an error does the same without failures.
              all_goals
                obtain ⟨shadow', same⟩ := alike.resolve_right fun ⟨_, failed⟩ =>
                  nomatch said.symm.trans failed
                rw [nextEach_cons_apply, ran']
              · exact keepsTo_of_eof same said after.eq_eof (behind (after.stopped nofun)) _ _
              · refine keepsTo_of_record same said ?_
                rw [same.scanner_eq]
                exact ih shadow' (.inr after.eq_reading) buffers fun moment member =>
                  undisturbed moment (List.mem_cons_of_mem _ member)

end

/-- Whatever fails, a scan returns the first records of a scan without failures, reports the
end only where that scan finds it, and answers in one way once it has stopped. -/
theorem scan_stops_for_good (home : Home) (start : LogAnchor) (log : LogFiles)
    (events : List Scanner.Event)
    (undisturbed : ∀ moment ∈ ((Scanner.startAt home start).live events log).1,
      moment.Undisturbed) :
    let scanner := Scanner.startAt home start
    let moments := (scanner.live events log).1
    (∀ buffers : List Record,
      let free := (scanner.nextEach buffers log.withoutFailures).1
      ((returned moments).length ≤ buffers.length → returned moments <+: validated free) ∧
      ((∃ moment ∈ moments, moment.answer = some (.ok false)) →
        (returned moments).length < buffers.length →
          validated free = returned moments ∧ (scanner.after free).state = .eof)) ∧
      moments.Pairwise Scanner.Moment.Binds := by
  intro scanner moments
  refine ⟨fun buffers => ?_, scanner.live_binds events log⟩
  have keeps := scanner.live_keepsTo log.shadow (.inl rfl) events buffers undisturbed
  rw [← length_nextEach scanner buffers log.withoutFailures]
  exact ⟨keeps.begins, keeps.ends⟩

instance (scanner : Scanner) : Decidable scanner.Stopped :=
  inferInstanceAs (Decidable (_ ∧ _))

instance (moment : Scanner.Moment) : Decidable moment.Undisturbed :=
  inferInstanceAs (Decidable (_ → _))

/-- The second segment of this folder cannot be opened; that looks like a short read. -/
def failingFolder : LogFiles :=
  { sampleFolder with
    injection := ⟨fun callNumber _ => if callNumber = 7 then some .injectedShortRead else none, 0⟩ }

/-- Two calls, then the log is whole again, the scanner is closed, and it is called once more. -/
def sampleEvents : List Scanner.Event :=
  [.next .empty, .next .empty, .change sampleFolder, .close, .next .empty]

theorem scan_stops_for_good_failingFolder :
    let scanner := Scanner.startAt (.folder [] 2) (.startOf 0)
    let moments := (scanner.live sampleEvents failingFolder).1
    (∀ moment ∈ moments, moment.Undisturbed) ∧
      (∀ buffers : List Record, 1 ≤ buffers.length → returned moments <+:
        validated (scanner.nextEach buffers failingFolder.withoutFailures).1) ∧
      returned moments = [([7, 7], ⟨0, 12, some 1⟩)] ∧
      moments.Pairwise Scanner.Moment.Binds := by
  intro scanner moments
  have undisturbed : ∀ moment ∈ moments, moment.Undisturbed := by decide +kernel
  have returned_eq : returned moments = [([7, 7], ⟨0, 12, some 1⟩)] := by decide +kernel
  obtain ⟨keeps, binds⟩ :=
    scan_stops_for_good (.folder [] 2) (.startOf 0) failingFolder sampleEvents undisturbed
  refine ⟨undisturbed, fun buffers room => (keeps buffers).1 ?_, returned_eq, binds⟩
  rw [returned_eq]
  exact room

end DirectoryStore.Log
