import Mathlib.Data.List.AList
import Koine.Application.Ports

namespace Koine.Memory

open Library Domain Application

/-- A live lease as the index sees it; heartbeats move its deadline without an event. -/
structure LeaseState where
  lease : LeaseId
  worker : WorkerId
  expiresAt : DateTime
deriving DecidableEq

structure DispatchEntry where
  queue : QueueName
  priority : Priority
  seq : Nat
  notBefore : Option DateTime
  lease : Option LeaseState
deriving DecidableEq

/-- The store's state. A hash map is an association list whose order stands for the map's
    iteration order; every envelope of a stored stream carries the stream's key. -/
structure Inner where
  streams : AList fun _ : JobId => List EventEnvelope
  index : AList fun _ : JobId => DispatchEntry
  /-- A `u64` in the source. It goes up by one with an append at most, so it needs `2 ^ 64` appends to overflow. -/
  seq : Nat
  keyed : ∀ id stream, streams.lookup id = some stream → ∀ envelope ∈ stream, envelope.streamId = id

def Inner.empty : Inner where
  streams := ∅
  index := ∅
  seq := 0
  keyed := by intro id stream found; cases found

def Inner.stream (inner : Inner) (id : JobId) : List EventEnvelope := (inner.streams.lookup id).getD []

theorem Inner.stream_keyed (inner : Inner) (id : JobId) :
    ∀ envelope ∈ inner.stream id, envelope.streamId = id := by
  unfold Inner.stream
  cases found : inner.streams.lookup id with
  | none => simp
  | some stream => exact inner.keyed id stream found

structure InMemoryEventStore where
  inner : Inner
  poisoned : Bool

def InMemoryEventStore.new : InMemoryEventStore := ⟨.empty, false⟩

/-- A panic unwinds through the guard and poisons the mutex for every later call. -/
def InMemoryEventStore.locked {α : Type} (store : InMemoryEventStore)
    (body : Inner → Inner × Outcome EventStoreError α) :
    InMemoryEventStore × Outcome EventStoreError α :=
  if store.poisoned then (store, .err (.backend "store mutex poisoned"))
  else
    match body store.inner with
    | (inner, .panic) => (⟨inner, true⟩, .panic)
    | (inner, result) => (⟨inner, false⟩, result)

def Inner.projectLocked (inner : Inner) (job : Job) : Inner :=
  let (seq, inner) :=
    match inner.index.lookup job.id with
    | none => (inner.seq + 1, { inner with seq := inner.seq + 1 })
    | some entry => (entry.seq, inner)
  match job.state with
  | .pending notBefore =>
    { inner with
      index := inner.index.insert job.id
        { queue := job.queue, priority := job.priority, seq, notBefore, lease := none } }
  | .leased worker lease expiresAt | .running worker lease expiresAt =>
    { inner with
      index := inner.index.insert job.id
        { queue := job.queue, priority := job.priority, seq, notBefore := none
          lease := some { lease, worker, expiresAt } } }
  | .succeeded | .parked _ | .cancelled | .suspended | .awaitingApproval _ =>
    { inner with index := inner.index.erase job.id }

def Inner.insertStream (inner : Inner) (stream : JobId) (combined : List EventEnvelope)
    (keyed : ∀ envelope ∈ combined, envelope.streamId = stream) : Inner where
  streams := inner.streams.insert stream combined
  index := inner.index
  seq := inner.seq
  keyed := by
    intro id found stored
    by_cases same : id = stream
    · subst same
      rw [AList.lookup_insert] at stored
      cases stored
      exact keyed
    · rw [AList.lookup_insert_ne same] at stored
      exact inner.keyed id found stored

theorem Inner.combined_keyed (inner : Inner) {stream : JobId} {current : Nat}
    {envelopes : List EventEnvelope} (accepted : continues stream current envelopes = true) :
    ∀ envelope ∈ inner.stream stream ++ envelopes, envelope.streamId = stream := by
  intro envelope member
  rcases List.mem_append.mp member with member | member
  · exact inner.stream_keyed stream envelope member
  · exact (continues_iff.mp accepted).2 envelope member

/-- Checks the version and the batch, folds old and new events, and only then writes. -/
def Inner.appendLocked [BuildProfile] (inner : Inner) (stream : JobId) (expectedVersion : Nat)
    (envelopes : List EventEnvelope) : Inner × Outcome EventStoreError Unit :=
  let current := (inner.stream stream).length
  if current ≠ expectedVersion then (inner, .err (.versionConflict stream expectedVersion))
  else if accepted : continues stream current envelopes then
    let combined := inner.stream stream ++ envelopes
    match Job.fromEvents combined with
    | .err error => (inner, .err (.backend ("batch does not fold: " ++ error.display)))
    | .panic => (inner, .panic)
    | .ok folded =>
      ((inner.insertStream stream combined (inner.combined_keyed accepted)).projectLocked folded, .ok ())
  else (inner, .err (.backend ("malformed envelope batch for " ++ stream.display)))

def InMemoryEventStore.append [BuildProfile] (store : InMemoryEventStore) (stream : JobId)
    (expectedVersion : Nat) (envelopes : List EventEnvelope) :
    InMemoryEventStore × Outcome EventStoreError Unit :=
  store.locked fun inner => inner.appendLocked stream expectedVersion envelopes

def InMemoryEventStore.load (store : InMemoryEventStore) (stream : JobId) :
    Outcome EventStoreError (List EventEnvelope) :=
  (store.locked fun inner =>
    match inner.streams.lookup stream with
    | some envelopes => (inner, .ok envelopes)
    | none => (inner, .err (.streamNotFound stream))).2

instance [BuildProfile] : EventStore InMemoryEventStore where
  append := InMemoryEventStore.append
  load := InMemoryEventStore.load

end Koine.Memory
