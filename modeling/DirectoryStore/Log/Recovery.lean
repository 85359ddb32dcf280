import DirectoryStore.Log.Scanner

/-!
# Recovery

Recovery reads a log from a position to its end or to the first content that is
not a log, and hands every record on to be applied.  Its report says where the
log can be cut and which sequence number comes next, which is what a writer
needs to go on.  A failure to read, or to apply a record, is not recovered from.
-/

namespace DirectoryStore.Log

structure RecoveryReport where
  lastGood : LogAnchor
  nextLsn : Option Lsn
  records : Nat
  stoppedOnInvalid : Bool
  deriving DecidableEq, Repr

namespace Recovery

/-- What applies a record, given how many records came before it. -/
abbrev Apply := (before : Nat) → Record → Except Error Unit

def reportOf (scanner : Scanner) (records : Nat) (stoppedOnInvalid : Bool) :
    RecoveryReport :=
  ⟨scanner.lastGood, scanner.nextLsn, records, stoppedOnInvalid⟩

/--
The bytes in all files there are.  Every record takes more than one of them,
so a scan has returned fewer records than this when it ends.
-/
def recordBound (log : LogFiles) : Nat :=
  log.system.files.foldl (fun total file => total + file.size) 0

def replay (apply : Apply) :
    (fuel : Nat) → Scanner → Record → List Record →
      LogM (RecoveryReport × List Record)
  | 0, scanner, _, seen =>
      return (reportOf scanner seen.length false, seen.reverse)
  | fuel + 1, scanner, record, seen => fun log =>
      let (step, log) := scanner.next record log
      match step.result with
      | .ok true =>
          match apply seen.length step.record with
          | .ok () =>
              replay apply fuel step.scanner step.record (step.record :: seen)
                log
          | .error error => (.error error, log)
      | .ok false =>
          (.ok (reportOf step.scanner seen.length false, seen.reverse), log)
      | .error (.invalidLog _) =>
          (.ok (reportOf step.scanner seen.length true, seen.reverse), log)
      | .error error => (.error error, log)

end Recovery

def recoverWith (home : Home) (start : LogAnchor) (apply : Recovery.Apply) :
    LogM (RecoveryReport × List Record) := do
  let bound := Recovery.recordBound (← get)
  Recovery.replay apply (bound + 1) (Scanner.startAt home start) Record.empty []

def recover (home : Home) (start : LogAnchor) : LogM RecoveryReport := do
  return (← recoverWith home start fun _ _ => .ok ()).1

/-- All records from `start` on up to the end of the scan, and the scanner there. -/
def readLog (home : Home) (start : LogAnchor) :
    StateM LogFiles (List Record × Scanner) := do
  let bound := Recovery.recordBound (← get)
  let (items, scanner) ← (Scanner.startAt home start).take (bound + 1)
  return (items.filterMap Except.toOption, scanner)

end DirectoryStore.Log
