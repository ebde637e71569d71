import Koine.Library.Select
import Koine.Memory.Store

namespace Koine.Memory

open Library Domain Application

/-- The order of the claim key `(priority, Reverse(seq))`. -/
def DispatchEntry.keyLe (left right : DispatchEntry) : Bool :=
  left.priority.value.toInt < right.priority.value.toInt ||
    (left.priority.value.toInt == right.priority.value.toInt && right.seq ≤ left.seq)

def DispatchEntry.eligible (entry : DispatchEntry) (queue : QueueName) (now : DateTime) : Bool :=
  entry.queue = queue && entry.lease.isNone && entry.notBefore.all (· ≤ now)

def Inner.pickEligible (inner : Inner) (queue : QueueName) (now : DateTime) : Option JobId :=
  (maxBy (fun left right => left.2.keyLe right.2)
    (inner.index.entries.filter fun entry => entry.2.eligible queue now)).map (·.1)

def Inner.claim [BuildProfile] (inner : Inner) (ports : Ports) (queue : QueueName) (worker : WorkerId)
    (ttl : Duration) : Inner × Outcome EventStoreError (Option LeasedJob) :=
  match inner.pickEligible queue ports.now with
  | none => (inner, .ok none)
  | some jobId =>
    match inner.streams.lookup jobId with
    | none => (inner, .err (.streamNotFound jobId))
    | some stream =>
      match Job.fromEvents stream with
      | .err error => (inner, .err (.backend ("fold: " ++ error.display)))
      | .panic => (inner, .panic)
      | .ok job =>
        match job.lease worker ports.leaseId ports.now ttl with
        | .err error => (inner, .err (.backend ("index/state drift: " ++ error.display)))
        | .panic => (inner, .panic)
        | .ok event =>
          let (correlationId, causationId, traceparent) := lineageOf stream
          let envelopes :=
            wrapEvents ports jobId job.version correlationId causationId traceparent [event]
          match envelopes.head?.map EventEnvelope.event with
          | some (.leased _ _ expiresAt) =>
            match inner.appendLocked jobId job.version envelopes with
            | (inner, .err error) => (inner, .err error)
            | (inner, .panic) => (inner, .panic)
            | (inner, .ok ()) =>
              (inner, .ok (some
                { jobId, queue := job.queue, payload := job.payload, attempt := job.attempt
                  lease := ports.leaseId, expiresAt, correlationId, traceparent }))
          | _ => (inner, .err (.backend "lease produced non-lease"))

def DispatchEntry.overdue (entry : DispatchEntry) (now : DateTime) : Bool :=
  entry.lease.any fun state => state.expiresAt ≤ now

def Inner.pickExpired (inner : Inner) (now : DateTime) : Option JobId :=
  ((inner.index.entries.filter fun entry => entry.2.overdue now).map (·.1)).min?

/-- Domain rejections are carried inside the lock's own result, as in the source. -/
def Inner.retireOne [BuildProfile] (inner : Inner) (ports : Ports) :
    Inner × Outcome EventStoreError (Except DomainError (Option JobId)) :=
  match inner.pickExpired ports.now with
  | none => (inner, .ok (.ok none))
  | some jobId =>
    match inner.streams.lookup jobId with
    | none => (inner, .err (.streamNotFound jobId))
    | some stream =>
      match Job.fromEvents stream with
      | .err error => (inner, .ok (.error error))
      | .panic => (inner, .panic)
      | .ok job =>
        match job.expireLease ports.now ports.jitterSeed with
        | .err error => (inner, .ok (.error error))
        | .panic => (inner, .panic)
        | .ok events =>
          let (correlationId, causationId, traceparent) := lineageOf stream
          let envelopes :=
            wrapEvents ports jobId job.version correlationId causationId traceparent events
          match inner.appendLocked jobId job.version envelopes with
          | (inner, .err error) => (inner, .err error)
          | (inner, .panic) => (inner, .panic)
          | (inner, .ok ()) => (inner, .ok (.ok (some jobId)))

/-- The first entry, in iteration order, that is held under `lease`. -/
def Inner.findLease (inner : Inner) (lease : LeaseId) : Option (JobId × DispatchEntry × LeaseState) :=
  inner.index.entries.findSome? fun entry =>
    match entry.2.lease with
    | some state => if state.lease = lease then some (entry.1, entry.2, state) else none
    | none => none

def Inner.extendLease (inner : Inner) (ports : Ports) (lease : LeaseId) (ttl : Duration) :
    Inner × Outcome EventStoreError (Except DispatchError Bool) :=
  match TimeDelta.fromStd ttl with
  | none => (inner, .ok (.error (.backend "ttl out of range")))
  | some delta =>
    match ports.now.checkedAddSigned delta with
    | none => (inner, .panic)
    | some deadline =>
      match inner.findLease lease with
      | none => (inner, .ok (.ok false))
      | some (jobId, entry, state) =>
        if state.expiresAt ≤ ports.now then (inner, .ok (.ok false))
        else
          let entry := { entry with lease := some { state with expiresAt := deadline } }
          ({ inner with index := inner.index.insert jobId entry }, .ok (.ok true))

def flatten {ε α : Type} (inject : ε → DispatchError) :
    Outcome EventStoreError (Except ε α) → Outcome DispatchError α
  | .ok (.ok value) => .ok value
  | .ok (.error error) => .err (inject error)
  | .err error => .err (.store error)
  | .panic => .panic

@[simp] theorem flatten_eq_ok {ε α : Type} {inject : ε → DispatchError}
    {outcome : Outcome EventStoreError (Except ε α)} {value : α} :
    flatten inject outcome = .ok value ↔ outcome = .ok (.ok value) := by
  rcases outcome with (error | found) | error | _ <;> simp [flatten]

namespace InMemoryEventStore

def leaseNext [BuildProfile] (store : InMemoryEventStore) (ports : Ports) (queue : QueueName)
    (worker : WorkerId) (ttl : Duration) :
    InMemoryEventStore × Outcome DispatchError (Option LeasedJob) :=
  let (store, result) := store.locked fun inner => inner.claim ports queue worker ttl
  (store, result.mapErr .store)

def extendLease (store : InMemoryEventStore) (ports : Ports) (lease : LeaseId) (ttl : Duration) :
    InMemoryEventStore × Outcome DispatchError Bool :=
  let (store, result) := store.locked fun inner => inner.extendLease ports lease ttl
  (store, flatten id result)

def retireNextExpiredLease [BuildProfile] (store : InMemoryEventStore) (ports : Ports) :
    InMemoryEventStore × Outcome DispatchError (Option JobId) :=
  let (store, result) := store.locked fun inner => inner.retireOne ports
  (store, flatten .domain result)

end InMemoryEventStore

instance [BuildProfile] : Dispatcher InMemoryEventStore where
  leaseNext := InMemoryEventStore.leaseNext
  extendLease := InMemoryEventStore.extendLease
  retireNextExpiredLease := InMemoryEventStore.retireNextExpiredLease

end Koine.Memory
