import Koine.Domain.Events

namespace Koine.Domain

open Library

inductive JobState where
  | pending (notBefore : Option DateTime)
  | leased (worker : WorkerId) (lease : LeaseId) (expiresAt : DateTime)
  | running (worker : WorkerId) (lease : LeaseId) (expiresAt : DateTime)
  | succeeded
  | parked (reason : ParkReason)
  | cancelled
  | suspended
  | awaitingApproval (key : String)
deriving DecidableEq

def JobState.name : JobState → String
  | .pending .. => "pending"
  | .leased .. => "leased"
  | .running .. => "running"
  | .succeeded => "succeeded"
  | .parked .. => "parked"
  | .cancelled => "cancelled"
  | .suspended => "suspended"
  | .awaitingApproval .. => "awaiting_approval"

structure Job where
  id : JobId
  queue : QueueName
  priority : Priority
  payload : Value
  retryPolicy : RetryPolicy
  attempt : UInt32
  state : JobState
  /-- A `u64` in the source. It is the length of the stream that was folded, and no stream in memory has `2 ^ 64`
      events. -/
  version : Nat

/-- Whether the build checks integer overflow: a checked build panics, a release build wraps. -/
class BuildProfile where
  overflowChecks : Bool

@[reducible] def BuildProfile.release : BuildProfile := ⟨false⟩

/-- `count + 1` on `u32`; `none` where the addition panics. -/
def u32Succ [BuildProfile] (count : UInt32) : Option UInt32 :=
  if count.toNat + 1 < 2 ^ 32 then some (count + 1)
  else if BuildProfile.overflowChecks then none
  else some 0

section Counter

variable [BuildProfile] {count : UInt32}

theorem u32Succ_eq (room : count.toNat + 1 < 2 ^ 32) : u32Succ count = some (count + 1) :=
  if_pos room

theorem u32Succ_of_room (room : count.toNat + 1 < 2 ^ 32) : u32Succ count ≠ none := by
  rw [u32Succ_eq room]
  exact Option.some_ne_none _

theorem u32Succ_toNat {next : UInt32} (room : count.toNat + 1 < 2 ^ 32)
    (counted : u32Succ count = some next) : next.toNat = count.toNat + 1 := by
  rw [u32Succ_eq room] at counted
  cases counted
  rw [UInt32.toNat_add]
  exact Nat.mod_eq_of_lt room

theorem u32Succ_mod {next : UInt32} (counted : u32Succ count = some next) :
    next.toNat = (count.toNat + 1) % 2 ^ 32 := by
  by_cases room : count.toNat + 1 < 2 ^ 32
  · rw [u32Succ_toNat room counted, Nat.mod_eq_of_lt room]
  · unfold u32Succ at counted
    rw [if_neg room] at counted
    have full : count.toNat + 1 = 2 ^ 32 := by
      have bound := count.toNat_lt
      omega
    split at counted
    · cases counted
    · cases counted
      rw [full]
      rfl

theorem u32Succ_counts (counts : BuildProfile.overflowChecks = true → count.toNat + 1 < 2 ^ 32) :
    ∃ next, u32Succ count = some next := by
  by_cases room : count.toNat + 1 < 2 ^ 32
  · exact ⟨count + 1, u32Succ_eq room⟩
  · refine ⟨0, ?_⟩
    rw [u32Succ, if_neg room, if_neg fun checks => room (counts checks)]

end Counter

namespace Job

def initialEvent (queue : QueueName) (payload : Value) (priority : Priority)
    (retryPolicy : RetryPolicy) (notBefore : Option DateTime) : JobEvent :=
  .enqueued queue payload priority retryPolicy notBefore

def advance (job : Job) (next : JobState) : Job × Outcome DomainError Unit :=
  ({ job with state := next, version := job.version + 1 }, .ok ())

/-- The transition table. The receiver is returned beside the verdict, so that a rejection can be
    seen to leave it untouched. -/
def apply [BuildProfile] (job : Job) (event : JobEvent) : Job × Outcome DomainError Unit :=
  match job.state, event with
  | .pending _, .leased worker lease expiresAt => job.advance (.leased worker lease expiresAt)
  | .leased worker lease expiresAt, .started _ => job.advance (.running worker lease expiresAt)
  | .running .., .succeeded _ => job.advance .succeeded
  | .running .., .failed _ attempt => { job with attempt }.advance (.pending none)
  | .pending _, .retryScheduled attempt notBefore =>
    { job with attempt }.advance (.pending (some notBefore))
  | .leased .., .leaseExpired _ | .running .., .leaseExpired _ =>
    match u32Succ job.attempt with
    | some attempt => { job with attempt }.advance (.pending none)
    | none => (job, .panic)
  | .pending _, .parked reason => job.advance (.parked reason)
  | .pending _, .cancelled _ | .leased .., .cancelled _ | .running .., .cancelled _
  | .suspended, .cancelled _ | .awaitingApproval _, .cancelled _ | .parked _, .cancelled _ =>
    job.advance .cancelled
  | state, .lateAckConflict .. => job.advance state
  | .running worker lease expiresAt, .checkpointRecorded .. =>
    job.advance (.running worker lease expiresAt)
  | .pending notBefore, .signalReceived .. => job.advance (.pending notBefore)
  | .leased worker lease expiresAt, .signalReceived .. =>
    job.advance (.leased worker lease expiresAt)
  | .running worker lease expiresAt, .signalReceived .. =>
    job.advance (.running worker lease expiresAt)
  | .suspended, .signalReceived .. => job.advance .suspended
  | .awaitingApproval key, .signalReceived .. => job.advance (.awaitingApproval key)
  | .leased worker lease expiresAt, .stalled => job.advance (.leased worker lease expiresAt)
  | .running worker lease expiresAt, .stalled => job.advance (.running worker lease expiresAt)
  | .running .., .approvalRequested key => job.advance (.awaitingApproval key)
  | .awaitingApproval _, .approvalGranted .. => job.advance (.pending none)
  | .awaitingApproval _, .approvalDenied .. => job.advance (.parked .approvalDenied)
  | .pending _, .suspended | .running .., .suspended => job.advance .suspended
  | .suspended, .resumed => job.advance (.pending none)
  | .parked _, .repaired newPayload _ =>
    { job with payload := newPayload.getD job.payload, attempt := 0 }.advance (.pending none)
  | state, event => (job, .err (.illegalTransition state.name event.kind))

def foldRest [BuildProfile] (job : Job) : List EventEnvelope → Outcome DomainError Job
  | [] => .ok job
  | envelope :: rest =>
    if envelope.version ≠ job.version + 1 then
      .err (.nonSequentialVersion (job.version + 1) envelope.version)
    else
      match job.apply envelope.event with
      | (next, .ok ()) => next.foldRest rest
      | (_, .err error) => .err error
      | (_, .panic) => .panic

def opened (id : JobId) (queue : QueueName) (payload : Value) (priority : Priority)
    (retryPolicy : RetryPolicy) (notBefore : Option DateTime) : Job :=
  { id, queue, priority, payload, retryPolicy, attempt := 0, state := .pending notBefore, version := 1 }

def fromEvents [BuildProfile] : List EventEnvelope → Outcome DomainError Job
  | [] => .err (.streamMustStartWithEnqueued "nothing")
  | first :: rest =>
    match first.event with
    | .enqueued queue payload priority retryPolicy notBefore =>
      if first.version ≠ 1 then .err (.nonSequentialVersion 1 first.version)
      else (opened first.streamId queue payload priority retryPolicy notBefore).foldRest rest
    | event => .err (.streamMustStartWithEnqueued event.kind)

def lease (job : Job) (worker : WorkerId) (lease : LeaseId) (now : DateTime) (ttl : Duration) :
    Outcome DomainError JobEvent :=
  match job.state with
  | .pending notBefore =>
    if notBefore.all (· ≤ now) then
      match TimeDelta.fromStd ttl with
      | none => .err .invalidTtl
      | some ttl => do
        let expiresAt ← now.add ttl
        pure (.leased worker lease expiresAt)
    else .err (.illegalTransition job.state.name "leased")
  | state => .err (.illegalTransition state.name "leased")

def start (job : Job) (worker : WorkerId) : Outcome DomainError JobEvent :=
  match job.state with
  | .leased holder _ _ => if holder = worker then .ok (.started worker) else .err .leaseMismatch
  | state => .err (.illegalTransition state.name "started")

def succeed (job : Job) (lease : LeaseId) (result : Option Value) : Outcome DomainError JobEvent :=
  match job.state with
  | .running _ held _ => if held = lease then .ok (.succeeded result) else .err .leaseMismatch
  | state => .err (.illegalTransition state.name "succeeded")

def retryDecisionEvent (job : Job) (attempt : UInt32) (now : DateTime) (seed : UInt64) :
    Outcome DomainError JobEvent :=
  match job.retryPolicy.decide attempt seed with
  | .retryAfter delay =>
    match TimeDelta.fromStd delay with
    | none => .err .invalidTtl
    | some delay =>
      match now.checkedAddSigned delay with
      | none => .err .invalidTtl
      | some notBefore => .ok (.retryScheduled attempt notBefore)
  | .park => .ok (.parked .retriesExhausted)

def fail [BuildProfile] (job : Job) (lease : LeaseId) (error : JobError) (now : DateTime) (seed : UInt64) :
    Outcome DomainError (List JobEvent) :=
  match job.state with
  | .running _ held _ =>
    if held = lease then
      match u32Succ job.attempt with
      | none => .panic
      | some attempt => do
        let decision ← (if error.retryable then job.retryDecisionEvent attempt now seed
          else .ok (.parked .nonRetryableError) : Outcome DomainError JobEvent)
        pure [.failed error attempt, decision]
    else .err .leaseMismatch
  | state => .err (.illegalTransition state.name "failed")

def expireLease [BuildProfile] (job : Job) (now : DateTime) (seed : UInt64) :
    Outcome DomainError (List JobEvent) :=
  match job.state with
  | .leased _ lease _ | .running _ lease _ =>
    match u32Succ job.attempt with
    | none => .panic
    | some attempt => do
      let decision ← job.retryDecisionEvent attempt now seed
      pure [.leaseExpired lease, decision]
  | state => .err (.illegalTransition state.name "lease_expired")

def cancel (job : Job) (reason : Option String) : Outcome DomainError JobEvent :=
  match job.state with
  | .succeeded | .cancelled => .err (.illegalTransition job.state.name "cancelled")
  | _ => .ok (.cancelled reason)

def lateAck (worker : WorkerId) (lease : LeaseId) (reported : ReportedOutcome) : JobEvent :=
  .lateAckConflict worker lease reported

end Job

end Koine.Domain
