import Mathlib.Data.List.AList
import Mathlib.Data.List.Sort
import Koine.Application.UseCases

namespace Koine.Postgres

open Library Domain Application

def postgresEpochNanos : Int := 946684800 * 1000000000

/-- What a `TIMESTAMPTZ` keeps of an instant: whole microseconds, truncated towards its epoch. -/
def timestamptz (t : DateTime) : DateTime where
  nanos :=
    if postgresEpochNanos ≤ t.nanos then
      postgresEpochNanos + (t.nanos - postgresEpochNanos) / 1000 * 1000
    else postgresEpochNanos - (postgresEpochNanos - t.nanos) / 1000 * 1000
  lower := by
    have lower := t.lower
    unfold minUtcNanos at lower ⊢
    unfold postgresEpochNanos
    split <;> omega
  upper := by
    have upper := t.upper
    unfold maxUtcNanos at upper ⊢
    unfold postgresEpochNanos
    split <;> omega

/-- The columns an insert into `event_store.events` binds; `J` is the type of `JSONB` values. -/
structure EventColumns (J : Type) where
  streamId : JobId
  version : Nat
  eventId : EventId
  eventType : String
  schemaVersion : UInt16
  payload : J
  correlationId : CorrelationId
  causationId : Option EventId
  traceparent : Option String
  recordedAt : DateTime

structure EventRow (J : Type) extends EventColumns J where
  globalSeq : Nat

structure DispatchRow where
  queue : QueueName
  priority : Priority
  seq : Nat
  notBefore : Option DateTime
  leaseId : Option LeaseId
  workerId : Option WorkerId
  leaseExpiresAt : Option DateTime
deriving DecidableEq

structure OutboxRow (J : Type) where
  outboxSeq : Nat
  eventId : EventId
  streamId : JobId
  envelope : J

/-- The committed tables. `removed` is not a table: it remembers the outbox rows deleted so far. -/
structure Tables (J : Type) where
  events : List (EventRow J)
  dispatch : AList fun _ : JobId => DispatchRow
  outbox : List (OutboxRow J)
  removed : List (OutboxRow J)

/-- The database, its sequences, and what the relay's sink has received. Sequences and the sink
    take no part in rollbacks. -/
structure World (J : Type) where
  tables : Tables J
  globalSeq : Nat
  dispatchSeq : Nat
  outboxSeq : Nat
  delivered : List EventEnvelope

def World.empty {J : Type} : World J := ⟨⟨[], ∅, [], []⟩, 0, 0, 0, []⟩

variable {J : Type}

/-- `ORDER BY version`. -/
def inOrder (rows : List (EventRow J)) : List (EventRow J) :=
  rows.insertionSort fun left right => left.version ≤ right.version

def Tables.streamRows (tables : Tables J) (stream : JobId) : List (EventRow J) :=
  tables.events.filter (·.streamId = stream)

inductive Write (J : Type) where
  | event (row : EventRow J)
  | outbox (row : OutboxRow J)
  | put (jobId : JobId) (row : DispatchRow)
  | drop (jobId : JobId)
  | remove (seqs : List Nat)

def Write.apply (tables : Tables J) : Write J → Tables J
  | .event row => { tables with events := tables.events ++ [row] }
  | .outbox row => { tables with outbox := tables.outbox ++ [row] }
  | .put jobId row => { tables with dispatch := tables.dispatch.insert jobId row }
  | .drop jobId => { tables with dispatch := tables.dispatch.erase jobId }
  | .remove seqs =>
    { tables with
      outbox := tables.outbox.filter fun row => row.outboxSeq ∉ seqs
      removed := tables.removed ++ tables.outbox.filter fun row => row.outboxSeq ∈ seqs }

/-- An open transaction: what it wrote, and the rows it locked `FOR UPDATE`. -/
structure Transaction (J : Type) where
  writes : List (Write J)
  locks : List JobId
  claimed : List Nat

def Transaction.begin : Transaction J := ⟨[], [], []⟩

/-- What a statement of the transaction sees: the committed tables under its own writes. A commit
    makes it the committed tables. -/
def Transaction.view (tx : Transaction J) (tables : Tables J) : Tables J :=
  tx.writes.foldl Write.apply tables

def Transaction.write (tx : Transaction J) (write : Write J) : Transaction J :=
  { tx with writes := tx.writes ++ [write] }

theorem Transaction.view_write (tx : Transaction J) (write : Write J) (tables : Tables J) :
    (tx.write write).view tables = Write.apply (tx.view tables) write := by
  rw [Transaction.view, Transaction.write, List.foldl_append]
  rfl

def Transaction.rows (tx : Transaction J) : List (EventRow J) :=
  tx.writes.filterMap fun
    | .event row => some row
    | _ => none

def Transaction.outs (tx : Transaction J) : List (OutboxRow J) :=
  tx.writes.filterMap fun
    | .outbox row => some row
    | _ => none

/-- The last thing the transaction did to a dispatch row: wrote it, deleted it, or nothing. -/
def Transaction.moved (tx : Transaction J) (jobId : JobId) : Option (Option DispatchRow) :=
  tx.writes.foldl (fun last write =>
    match write with
    | .put id row => if id = jobId then some (some row) else last
    | .drop id => if id = jobId then some none else last
    | _ => last) none

def Transaction.holdsRow (tx : Transaction J) (jobId : JobId) : Bool :=
  jobId ∈ tx.locks || (tx.moved jobId).isSome

end Koine.Postgres
