import DirectoryStore.Proofs.Log.Offering

/-!
# One record for many calls

Calls of any scanners on any logs pass on one record.  Its anchor is always that of the
record returned last.  Its payload is not: a call that fails behind a header leaves the
length that was announced, and the bytes if it read them.  The record is right after every
call exactly when each failing call comes upon the same payload once more.
-/

namespace DirectoryStore.Log

/-! ## What a record shows -/

def shownPayload (last : Option (Bytes × LogAnchor)) : Bytes :=
  (last.map (·.1)).getD []

/-- The record is the one that was returned last, or as new. -/
structure Record.Shows (record : Record) (last : Option (Bytes × LogAnchor)) : Prop where
  payload_eq : record.payload = shownPayload last
  len_eq : record.len = (shownPayload last).length
  isEmpty_eq : record.isEmpty = last.isNone
  lsn_eq : record.lsn = last.bind (·.2.lsn)
  anchor_eq : record.anchor = last.map (·.2)

/-- A payload is come upon that is announced as long as this one, and no other bytes are read. -/
structure Scan.Offer.Repeats (offer : Scan.Offer) (payload : Bytes) : Prop where
  size_eq : offer.payloadSize = payload.length
  payload_eq : ∀ bytes, offer.payload? = some bytes → bytes = payload

section

variable {record : Record} {last : Option (Bytes × LogAnchor)}

theorem Record.shows_new (capacity : Nat) : (Record.withCapacity capacity).Shows none :=
  ⟨rfl, rfl, rfl, rfl, rfl⟩

theorem Record.Shows.prepare_eq (shows : record.Shows last) :
    record.prepare record.len = record := by
  have fits : record.len ≤ record.buffer.length := by
    have payload_eq := congrArg List.length shows.payload_eq
    rw [← shows.len_eq, payload, List.length_take] at payload_eq
    omega
  simp [prepare, Nat.max_eq_left fits, Bytes.resize, Bytes.zeros]

theorem Record.Shows.prepare_iff (shows : record.Shows last) (size : Nat) :
    (record.prepare size).Shows last ↔ size = (shownPayload last).length := by
  constructor
  · exact fun shows' => shows'.len_eq
  · rintro rfl
    rwa [← shows.len_eq, shows.prepare_eq]

theorem Record.Shows.fill_iff (shows : record.Shows last) (payload : Bytes) :
    ((record.prepare payload.length).fill payload).Shows last ↔ payload = shownPayload last := by
  have payload_eq : ((record.prepare payload.length).fill payload).payload = payload :=
    payload_filled rfl
  constructor
  · exact fun shows' => payload_eq.symm.trans shows'.payload_eq
  · intro same
    have len_eq : payload.length = record.len := by rw [same, shows.len_eq]
    refine ⟨payload_eq.trans same, congrArg List.length same, ?_, shows.lsn_eq, shows.anchor_eq⟩
    show (payload.length == 0) = _
    rw [len_eq]
    exact shows.isEmpty_eq

end

section

variable {log : LogFiles} {record : Record} {offer : Option Scan.Offer} {step : Scanner.Step}
  {last : Option (Bytes × LogAnchor)}

/-- A call that returns no record leaves the old one if what it came upon is the same. -/
theorem Scan.Leaves.shows_iff (leaves : Scan.Leaves log record offer step)
    (no_record : step.result ≠ .ok true) (shows : record.Shows last) :
    step.record.Shows last ↔ ∀ found, offer = some found → found.Repeats (shownPayload last) := by
  cases leaves with
  | nothing => exact ⟨nofun, fun _ => shows⟩
  | @unread anchor size =>
      rw [shows.prepare_iff]
      constructor
      · rintro size_eq _ ⟨⟩
        exact ⟨size_eq, nofun⟩
      · exact fun repeats => (repeats _ rfl).size_eq
  | @unfinished anchor payload =>
      rw [shows.fill_iff]
      constructor
      · rintro same _ ⟨⟩
        exact ⟨congrArg List.length same, fun _ is_payload => Option.some.inj is_payload ▸ same⟩
      · exact fun repeats => (repeats _ rfl).payload_eq payload rfl
  | whole => exact absurd rfl no_record

theorem Scan.Leaves.anchor_eq (leaves : Scan.Leaves log record offer step)
    (no_record : step.result ≠ .ok true) : step.record.anchor = record.anchor := by
  cases leaves with
  | nothing | unread | unfinished => rfl
  | whole => exact absurd rfl no_record

theorem Scan.StandsBehind.nonempty {scanner : Scanner} {anchor : LogAnchor} {payload : Bytes}
    (stands : Scan.StandsBehind log scanner anchor payload) : payload.length ≠ 0 := by
  obtain ⟨position, lsn, -, -, -, record_at⟩ := stands
  have size_eq := record_at.announced.size_eq
  unfold RecordHeader.payloadSize? at size_eq
  split at size_eq
  · have := Option.some.inj size_eq
    omega
  · cases size_eq

theorem Scan.Leaves.returns (leaves : Scan.Leaves log record offer step)
    (returned : step.result = .ok true) :
    ∃ anchor, step.record.Shows (some (step.record.payload, anchor)) ∧
      Scan.StandsBehind log step.scanner anchor step.record.payload := by
  cases leaves with
  | nothing no_record => exact absurd returned no_record
  | unread | unfinished => cases returned
  | @whole anchor payload scanner stands =>
      have payload_eq := payload_recorded record payload (some anchor)
      refine ⟨anchor, ⟨rfl, congrArg List.length payload_eq.symm, ?_, rfl, rfl⟩, ?_⟩
      · exact beq_eq_false_iff_ne.mpr stands.nonempty
      · rwa [payload_eq]

end

/-! ## Many calls -/

structure Turn where
  scanner : Scanner
  log : LogFiles
  step : Scanner.Step

def Record.turn (record : Record) (scanner : Scanner) (log : LogFiles) : Turn :=
  ⟨scanner, log, (scanner.next record log).1⟩

def Record.turns (record : Record) : List (Scanner × LogFiles) → List Turn
  | [] => []
  | (scanner, log) :: rest =>
      record.turn scanner log :: (record.turn scanner log).step.record.turns rest

def lastReturned (turns : List Turn) : Option (Bytes × LogAnchor) :=
  (validated (turns.map (·.step))).getLast?

namespace Turn

/-- The call returned a record, or came upon none, or upon the same payload again. -/
def Spares (turn : Turn) (last : Option (Bytes × LogAnchor)) : Prop :=
  turn.step.result ≠ .ok true → ∀ offer, turn.scanner.offer? turn.log = some offer →
    offer.Repeats (shownPayload last)

/-- What holds after every call, whether it failed or not. -/
structure Keeps (turn : Turn) (earlier : List Turn) : Prop where
  anchor_eq : turn.step.record.anchor = (lastReturned (earlier ++ [turn])).map (·.2)
  returned : turn.step.result = .ok true →
    turn.step.record.Shows (lastReturned (earlier ++ [turn])) ∧
      ∃ anchor, turn.step.record.anchor = some anchor ∧
        Scan.StandsBehind turn.log turn.step.scanner anchor turn.step.record.payload

end Turn

section

variable {record : Record} {turn : Turn} {earlier past : List Turn}

theorem lastReturned_append (earlier : List Turn) (turn : Turn) :
    lastReturned (earlier ++ [turn]) =
      (validated [turn.step]).getLast?.or (lastReturned earlier) := by
  simp only [lastReturned, validated, List.map_append, List.filterMap_append,
    List.getLast?_append, List.map_cons, List.map_nil]

theorem lastReturned_of_not_returned (earlier : List Turn)
    (no_record : turn.step.result ≠ .ok true) :
    lastReturned (earlier ++ [turn]) = lastReturned earlier := by
  rw [lastReturned_append, validated_cons_of_not_read no_record]
  rfl

theorem lastReturned_of_returned (earlier : List Turn) (returned : turn.step.result = .ok true)
    {anchor : LogAnchor} (anchored : turn.step.record.anchor = some anchor) :
    lastReturned (earlier ++ [turn]) = some (turn.step.record.payload, anchor) := by
  rw [lastReturned_append, validated, List.filterMap_cons_some (by rw [returned, anchored])]
  rfl

theorem Record.turn_leaves (record : Record) (scanner : Scanner) (log : LogFiles) :
    Scan.Leaves log record (scanner.offer? log) (record.turn scanner log).step :=
  scanner.next_leaves record log

theorem Record.turn_keeps (scanner : Scanner) (log : LogFiles)
    (anchored : record.anchor = (lastReturned earlier).map (·.2)) :
    (record.turn scanner log).Keeps earlier := by
  have leaves := record.turn_leaves scanner log
  by_cases returned : (record.turn scanner log).step.result = .ok true
  · obtain ⟨anchor, shows, stands⟩ := leaves.returns returned
    have here : (record.turn scanner log).step.record.anchor = some anchor := shows.anchor_eq
    rw [← lastReturned_of_returned earlier returned here] at shows
    exact ⟨shows.anchor_eq, fun _ => ⟨shows, anchor, here, stands⟩⟩
  · refine ⟨?_, fun returned' => absurd returned' returned⟩
    rw [lastReturned_of_not_returned earlier returned, ← anchored]
    exact leaves.anchor_eq returned

theorem Record.turn_shows_iff (scanner : Scanner) (log : LogFiles)
    (shows : record.Shows (lastReturned earlier)) :
    (record.turn scanner log).step.record.Shows
        (lastReturned (earlier ++ [record.turn scanner log])) ↔
      (record.turn scanner log).Spares (lastReturned earlier) := by
  have leaves := record.turn_leaves scanner log
  by_cases returned : (record.turn scanner log).step.result = .ok true
  · have keeps := Record.turn_keeps scanner log shows.anchor_eq
    exact iff_of_true (keeps.returned returned).1 fun no_record => absurd returned no_record
  · rw [lastReturned_of_not_returned earlier returned, leaves.shows_iff returned shows]
    exact ⟨fun repeats _ => repeats, fun spares => spares returned⟩

theorem forall_split_cons {α : Type} {first : α} {rest : List α} {holds : List α → α → Prop} :
    (∀ front item back, first :: rest = front ++ item :: back → holds front item) ↔
      holds [] first ∧
        ∀ front item back, rest = front ++ item :: back → holds (first :: front) item := by
  constructor
  · intro all
    refine ⟨all [] first rest rfl, fun front item back split => ?_⟩
    exact all (first :: front) item back (congrArg (first :: ·) split)
  · rintro ⟨here, later⟩ front item back split
    cases front with
    | nil =>
        obtain ⟨rfl, -⟩ := List.cons.inj split
        exact here
    | cons head front =>
        obtain ⟨rfl, split'⟩ := List.cons.inj split
        exact later front item back split'

theorem Record.turns_keep (calls : List (Scanner × LogFiles))
    (anchored : record.anchor = (lastReturned past).map (·.2)) :
    ∀ earlier turn later, record.turns calls = earlier ++ turn :: later →
      turn.Keeps (past ++ earlier) := by
  induction calls generalizing record past with
  | nil => exact fun earlier turn later split => by simp [turns] at split
  | cons call rest ih =>
      have keeps := Record.turn_keeps call.1 call.2 anchored
      refine forall_split_cons.mpr ⟨by rwa [List.append_nil], fun front turn back split => ?_⟩
      rw [List.append_cons]
      exact ih keeps.anchor_eq front turn back split

theorem Record.turns_show_iff (calls : List (Scanner × LogFiles))
    (shows : record.Shows (lastReturned past)) :
    (∀ earlier turn later, record.turns calls = earlier ++ turn :: later →
        turn.step.record.Shows (lastReturned (past ++ earlier ++ [turn]))) ↔
      ∀ earlier turn later, record.turns calls = earlier ++ turn :: later →
        turn.Spares (lastReturned (past ++ earlier)) := by
  induction calls generalizing record past with
  | nil => simp [turns]
  | cons call rest ih =>
      rw [turns, forall_split_cons, forall_split_cons, List.append_nil]
      rw [Record.turn_shows_iff call.1 call.2 shows]
      refine and_congr_right fun spares => ?_
      have later := ih ((Record.turn_shows_iff call.1 call.2 shows).mpr spares)
      simpa only [List.append_assoc, List.cons_append, List.nil_append] using later

end

/-- The anchor is always that of the record returned last, and a call that returns a record
shows it; the whole record is right exactly while failing calls repeat its payload. -/
theorem shared_record_right_iff (capacity : Nat) (calls : List (Scanner × LogFiles)) :
    let turns := (Record.withCapacity capacity).turns calls
    (∀ earlier turn later, turns = earlier ++ turn :: later → turn.Keeps earlier) ∧
      ((∀ earlier turn later, turns = earlier ++ turn :: later →
          turn.step.record.Shows (lastReturned (earlier ++ [turn]))) ↔
        ∀ earlier turn later, turns = earlier ++ turn :: later →
          turn.Spares (lastReturned earlier)) := by
  have shows : (Record.withCapacity capacity).Shows (lastReturned []) :=
    Record.shows_new capacity
  exact ⟨@Record.turns_keep _ [] calls shows.anchor_eq, @Record.turns_show_iff _ [] calls shows⟩

/-- A record, and behind it one whose footer is broken. -/
def brokenLog : LogFiles where
  system := { FileSystem.empty "" with
    files := [.ofBytes (headerBytes 0 ++ (recordBytes 1 [7, 7] ++
      ((RecordHeader.standard 2 1).encode ++ ([8] ++ (⟨0, 0⟩ : RecordFooter).encode))))] }
  memory := [(0, 0)]
  injection := .never

def brokenCalls : List (Scanner × LogFiles) :=
  let scanner := Scanner.startAt .memory (.startOf 0)
  let (step, log) := scanner.next .empty brokenLog
  [(scanner, brokenLog), (step.scanner, log)]

theorem shared_record_right_iff_brokenLog :
    let turns := (Record.withCapacity 0).turns brokenCalls
    turns.map (fun turn => (turn.step.record.payload, turn.step.record.lsn)) =
        [([7, 7], some 1), ([8], some 1)] ∧
      lastReturned turns = some ([7, 7], ⟨0, 12, some 1⟩) ∧
      ¬ ∀ earlier turn later, turns = earlier ++ turn :: later →
        turn.Spares (lastReturned earlier) := by
  intro turns
  have left : turns.map (fun turn => (turn.step.record.payload, turn.step.record.lsn)) =
      [([7, 7], some 1), ([8], some 1)] := by decide +kernel
  have last : lastReturned turns = some ([7, 7], ⟨0, 12, some 1⟩) := by decide +kernel
  refine ⟨left, last, fun spares => ?_⟩
  obtain ⟨first, rest, turns_eq, -, rest_eq⟩ := List.map_eq_cons_iff.mp left
  obtain ⟨turn, none_left, rfl, shown, nothing⟩ := List.map_eq_cons_iff.mp rest_eq
  obtain rfl := List.map_eq_nil_iff.mp nothing
  have shows := (shared_record_right_iff 0 brokenCalls).2.mpr spares [first] turn [] turns_eq
  have whole : [first] ++ [turn] = turns := turns_eq.symm
  rw [whole, last] at shows
  have mixed : [8] = shownPayload (some ([7, 7], ⟨0, 12, some 1⟩)) :=
    (congrArg Prod.fst shown).symm.trans shows.payload_eq
  cases mixed

end DirectoryStore.Log
