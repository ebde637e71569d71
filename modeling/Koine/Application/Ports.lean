import Koine.Domain.Commands

namespace Koine.Application

open Library Domain

inductive EventStoreError where
  | versionConflict (stream : JobId) (expected : Nat)
  | streamNotFound (stream : JobId)
  | backend (message : String)
deriving DecidableEq

inductive DispatchError where
  | store (error : EventStoreError)
  | domain (error : DomainError)
  | backend (message : String)
deriving DecidableEq

def EventStoreError.display : EventStoreError → String
  | .versionConflict stream expected =>
    "version conflict on " ++ stream.display ++ ": expected " ++ toString expected
  | .streamNotFound stream => "stream " ++ stream.display ++ " not found"
  | .backend message => "backend: " ++ message

def DispatchError.display : DispatchError → String
  | .store error => error.display
  | .domain error => error.display
  | .backend message => "backend: " ++ message

inductive SinkError where
  | failed (message : String)
deriving DecidableEq

inductive RelayError where
  | sink (error : SinkError)
  | backend (message : String)
deriving DecidableEq

structure LeasedJob where
  jobId : JobId
  queue : QueueName
  payload : Value
  attempt : UInt32
  lease : LeaseId
  expiresAt : DateTime
  correlationId : CorrelationId
  traceparent : Option String

/-- What the `Clock` and `IdGenerator` ports answer during one operation: the operation's own
    reading, the reading inside `wrap_events`, and the ids and the seed it draws. -/
structure Ports where
  now : DateTime
  recordedAt : DateTime
  jobId : JobId
  eventId : Nat → EventId
  leaseId : LeaseId
  correlationId : CorrelationId
  jitterSeed : UInt64

class EventStore (S : Type) where
  append : S → JobId → Nat → List EventEnvelope → S × Outcome EventStoreError Unit
  load : S → JobId → Outcome EventStoreError (List EventEnvelope)

class Dispatcher (D : Type) where
  leaseNext : D → Ports → QueueName → WorkerId → Duration → D × Outcome DispatchError (Option LeasedJob)
  extendLease : D → Ports → LeaseId → Duration → D × Outcome DispatchError Bool
  retireNextExpiredLease : D → Ports → D × Outcome DispatchError (Option JobId)

inductive Operation where
  | append (stream : JobId) (expectedVersion : Nat) (envelopes : List EventEnvelope)
  | load (stream : JobId)
  | leaseNext (ports : Ports) (queue : QueueName) (worker : WorkerId) (ttl : Duration)
  | extendLease (ports : Ports) (lease : LeaseId) (ttl : Duration)
  | retireNextExpiredLease (ports : Ports)

inductive Answer where
  | appended (result : Outcome EventStoreError Unit)
  | loaded (result : Outcome EventStoreError (List EventEnvelope))
  | leased (result : Outcome DispatchError (Option LeasedJob))
  | extended (result : Outcome DispatchError Bool)
  | retired (result : Outcome DispatchError (Option JobId))

def Operation.exec {S : Type} [EventStore S] [Dispatcher S] (operation : Operation) (store : S) :
    S × Answer :=
  match operation with
  | .append stream expectedVersion envelopes =>
    let (store, result) := EventStore.append store stream expectedVersion envelopes
    (store, .appended result)
  | .load stream => (store, .loaded (EventStore.load store stream))
  | .leaseNext ports queue worker ttl =>
    let (store, result) := Dispatcher.leaseNext store ports queue worker ttl
    (store, .leased result)
  | .extendLease ports lease ttl =>
    let (store, result) := Dispatcher.extendLease store ports lease ttl
    (store, .extended result)
  | .retireNextExpiredLease ports =>
    let (store, result) := Dispatcher.retireNextExpiredLease store ports
    (store, .retired result)

/-- The batch check of both stores: each envelope continues the versions and names the stream. -/
def continues (stream : JobId) (current : Nat) : List EventEnvelope → Bool
  | [] => true
  | envelope :: rest =>
    envelope.version == current + 1 && envelope.streamId == stream && continues stream (current + 1) rest

theorem continues_iff {stream : JobId} {current : Nat} {envelopes : List EventEnvelope} :
    continues stream current envelopes = true ↔
      Job.Sequential current envelopes ∧ ∀ envelope ∈ envelopes, envelope.streamId = stream := by
  induction envelopes generalizing current with
  | nil => simp [continues, Job.Sequential]
  | cons envelope envelopes ih =>
    simp only [continues, Bool.and_eq_true, beq_iff_eq, ih, Job.Sequential, List.mem_cons,
      forall_eq_or_imp]
    tauto

structure Lineage where
  correlationId : Option CorrelationId
  causationId : Option EventId
  traceparent : Option String

def wrapEvents (ports : Ports) (stream : JobId) (baseVersion : Nat) (correlationId : CorrelationId)
    (causationId : Option EventId) (traceparent : Option String) (events : List JobEvent) :
    List EventEnvelope :=
  events.mapIdx fun k event =>
    { eventId := ports.eventId k
      streamId := stream
      version := baseVersion + k + 1
      recordedAt := ports.recordedAt
      correlationId
      causationId
      traceparent
      schemaVersion
      event }

def lineageOf (stream : List EventEnvelope) : CorrelationId × Option EventId × Option String :=
  (stream.head?.elim ⟨0⟩ (·.correlationId), stream.getLast?.map (·.eventId),
    stream.head?.bind (·.traceparent))

theorem sequential_mapIdx (events : List JobEvent) (base : Nat) (wrap : Nat → JobEvent → EventEnvelope)
    (versions : ∀ k event, (wrap k event).version = base + k + 1) :
    Job.Sequential base (events.mapIdx wrap) := by
  induction events generalizing base wrap with
  | nil => trivial
  | cons event events ih =>
    rw [List.mapIdx_cons]
    refine ⟨versions 0 event, ih (base + 1) _ ?_⟩
    intro k event
    rw [versions]
    omega

theorem wrapEvents_sequential (ports : Ports) (stream : JobId) (baseVersion : Nat)
    (correlationId : CorrelationId) (causationId : Option EventId) (traceparent : Option String)
    (events : List JobEvent) :
    Job.Sequential baseVersion
      (wrapEvents ports stream baseVersion correlationId causationId traceparent events) :=
  sequential_mapIdx _ _ _ fun _ _ => rfl

theorem wrapEvents_events (ports : Ports) (stream : JobId) (baseVersion : Nat)
    (correlationId : CorrelationId) (causationId : Option EventId) (traceparent : Option String)
    (events : List JobEvent) :
    (wrapEvents ports stream baseVersion correlationId causationId traceparent events).map (·.event) =
      events := by
  apply List.ext_getElem?
  intro k
  rw [List.getElem?_map, wrapEvents, List.getElem?_mapIdx]
  cases events[k]? <;> rfl

theorem wrapEvents_streamId {ports : Ports} {stream : JobId} {baseVersion : Nat}
    {correlationId : CorrelationId} {causationId : Option EventId} {traceparent : Option String}
    {events : List JobEvent} {envelope : EventEnvelope}
    (member : envelope ∈
      wrapEvents ports stream baseVersion correlationId causationId traceparent events) :
    envelope.streamId = stream := by
  obtain ⟨k, bound, rfl⟩ := List.mem_mapIdx.mp member
  rfl

theorem wrapEvents_continues (ports : Ports) (stream : JobId) (baseVersion : Nat)
    (correlationId : CorrelationId) (causationId : Option EventId) (traceparent : Option String)
    (events : List JobEvent) :
    continues stream baseVersion
      (wrapEvents ports stream baseVersion correlationId causationId traceparent events) = true :=
  continues_iff.mpr ⟨wrapEvents_sequential .., fun _ member => wrapEvents_streamId member⟩

end Koine.Application
