import Koine.Domain.Ids
import Koine.Domain.Retry

namespace Koine.Domain

/-- `serde_json::Number`; floats are kept by their IEEE bits. -/
inductive Number where
  | posInt (n : UInt64)
  | negInt (n : Int64)
  | float (bits : UInt64)
deriving DecidableEq

inductive Value where
  | null
  | bool (b : Bool)
  | number (n : Number)
  | string (s : String)
  | array (items : List Value)
  | object (fields : List (String × Value))

structure JobError where
  kind : String
  message : String
  stacktrace : Option String
  retryable : Bool
deriving DecidableEq

inductive ParkReason where
  | retriesExhausted
  | nonRetryableError
  | approvalDenied
deriving DecidableEq

inductive ReportedOutcome where
  | succeeded
  | failed
deriving DecidableEq

inductive JobEvent where
  | enqueued (queue : QueueName) (payload : Value) (priority : Priority)
      (retryPolicy : RetryPolicy) (notBefore : Option DateTime)
  | leased (worker : WorkerId) (lease : LeaseId) (expiresAt : DateTime)
  | started (worker : WorkerId)
  | succeeded (result : Option Value)
  | failed (error : JobError) (attempt : UInt32)
  | leaseExpired (lease : LeaseId)
  | retryScheduled (attempt : UInt32) (notBefore : DateTime)
  | parked (reason : ParkReason)
  | cancelled (reason : Option String)
  | lateAckConflict (worker : WorkerId) (lease : LeaseId) (reported : ReportedOutcome)
  | stalled
  | checkpointRecorded (key : String) (data : Value)
  | signalReceived (name : String) (data : Value)
  | approvalRequested (key : String)
  | approvalGranted (key approver : String)
  | approvalDenied (key approver : String)
  | suspended
  | resumed
  | repaired (newPayload : Option Value) (note : String)

def JobEvent.kind : JobEvent → String
  | .enqueued .. => "enqueued"
  | .leased .. => "leased"
  | .started .. => "started"
  | .succeeded .. => "succeeded"
  | .failed .. => "failed"
  | .leaseExpired .. => "lease_expired"
  | .retryScheduled .. => "retry_scheduled"
  | .parked .. => "parked"
  | .cancelled .. => "cancelled"
  | .lateAckConflict .. => "late_ack_conflict"
  | .stalled => "stalled"
  | .checkpointRecorded .. => "checkpoint_recorded"
  | .signalReceived .. => "signal_received"
  | .approvalRequested .. => "approval_requested"
  | .approvalGranted .. => "approval_granted"
  | .approvalDenied .. => "approval_denied"
  | .suspended => "suspended"
  | .resumed => "resumed"
  | .repaired .. => "repaired"

def schemaVersion : UInt16 := 1

structure EventEnvelope where
  eventId : EventId
  streamId : JobId
  version : Nat
  recordedAt : DateTime
  correlationId : CorrelationId
  causationId : Option EventId
  traceparent : Option String
  schemaVersion : UInt16
  event : JobEvent

end Koine.Domain
