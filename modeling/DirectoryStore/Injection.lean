import DirectoryStore.Error

/-!
# Injected failures

A store can be run under an injection, which makes chosen calls fail before
they reach the medium.  Calls are counted, and a plan says for each call number
and request whether the call fails and how, so every pattern of failures is a
plan.  Plans for byte stores that only look at the request are given by lists of
rules.
-/

namespace DirectoryStore

/-! ## Calls on byte stores -/

inductive Call where
  | read (offset len : Nat)
  | write (offset len : Nat)
  | append
  | flush
  | size
  | sync
  | truncate
  | openSegment
  | createSegment
  | removeSegment
  | listSegments
  deriving DecidableEq, Repr

/-- A call together with the segment it is made on; a page file counts as segment 0. -/
structure Request where
  segment : SegmentNumber
  call : Call
  deriving DecidableEq, Repr

/-! ## Plans -/

/-- Says which calls fail, where `ρ` is what a call asks for. -/
abbrev FailurePlan (ρ : Type) := (callNumber : Nat) → ρ → Option IoFault

namespace FailurePlan

variable {ρ : Type}

def never : FailurePlan ρ := fun _ _ => none

/-- A plan none of whose failures could be taken for the end of a file. -/
def NoShortRead (plan : FailurePlan ρ) : Prop :=
  ∀ callNumber request fault,
    plan callNumber request = some fault → fault.isShortRead = false

end FailurePlan

structure Injection (ρ : Type) where
  plan : FailurePlan ρ
  callsMade : Nat

namespace Injection

variable {ρ : Type}

def never : Injection ρ := ⟨FailurePlan.never, 0⟩

def next (injection : Injection ρ) (request : ρ) :
    Option IoFault × Injection ρ :=
  (injection.plan injection.callsMade request,
    { injection with callsMade := injection.callsMade + 1 })

end Injection

/-! ## Rules -/

inductive CallKind where
  | read
  | write
  | append
  | flush
  | size
  | sync
  | truncate
  | openSegment
  | createSegment
  | removeSegment
  | listSegments
  deriving DecidableEq, Repr

def Call.kind : Call → CallKind
  | read .. => .read
  | write .. => .write
  | append => .append
  | flush => .flush
  | size => .size
  | sync => .sync
  | truncate => .truncate
  | openSegment => .openSegment
  | createSegment => .createSegment
  | removeSegment => .removeSegment
  | listSegments => .listSegments

def Call.touches (call : Call) (position : Nat) : Bool :=
  match call with
  | read offset len | write offset len =>
      offset ≤ position && position < offset + len
  | _ => false

/--
Fails every call of one kind.  With a segment only calls on that segment fail,
and with a position only reads and writes that touch the byte there.
-/
structure FailureRule where
  kind : CallKind
  shortRead : Bool
  segment : Option SegmentNumber
  position : Option Nat
  deriving DecidableEq, Repr

namespace FailureRule

def appliesTo (rule : FailureRule) (request : Request) : Bool :=
  rule.kind == request.call.kind &&
    rule.segment.all (· == request.segment) &&
    rule.position.all request.call.touches

def fault (rule : FailureRule) : IoFault :=
  if rule.shortRead then .injectedShortRead else .injected

end FailureRule

/-- The first rule that applies decides how a call fails. -/
def FailurePlan.ofRules (rules : List FailureRule) : FailurePlan Request :=
  fun _ request => (rules.find? (·.appliesTo request)).map FailureRule.fault

end DirectoryStore
