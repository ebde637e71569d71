import Koine.Library.Program
import Koine.Library.Select
import Koine.Postgres.Tables

namespace Koine.Postgres

open Library Domain Application

inductive Constraint where
  | eventsEventIdKey
  | eventsStreamVersionUnique
deriving DecidableEq

inductive Inserted where
  | inserted
  | violates (constraint : Constraint)
deriving DecidableEq

/-- The SQL statements of the adapters, the sink call of the relay, and `COMMIT`. -/
inductive Stmt (J : Type) where
  | maxVersion (stream : JobId)
  | insertEvent (columns : EventColumns J)
  | insertOutbox (eventId : EventId) (streamId : JobId) (envelope : J)
  | loadStream (stream : JobId)
  | upsertPending (jobId : JobId) (queue : QueueName) (priority : Priority) (notBefore : Option DateTime)
  | notifyDispatch (queue : QueueName)
  | upsertLeased (jobId : JobId) (queue : QueueName) (priority : Priority) (lease : LeaseId)
      (worker : WorkerId) (expiresAt : DateTime)
  | deleteDispatch (jobId : JobId)
  | selectEligible (queue : QueueName) (now : DateTime)
  | selectExpired (now : DateTime)
  | updateDeadline (deadline : DateTime) (lease : LeaseId) (now : DateTime)
  | selectOutbox (batch : Nat)
  | deliver (envelopes : List EventEnvelope)
  | deleteOutbox (seqs : List Nat)
  | commit

abbrev Stmt.Reply {J : Type} : Stmt J → Type
  | .maxVersion _ => Option Nat
  | .insertEvent _ => Inserted
  | .loadStream _ => List (EventRow J)
  | .selectEligible .. | .selectExpired _ => Option JobId
  | .updateDeadline .. => Nat
  | .selectOutbox _ => List (Nat × J)
  | .deliver _ => Except SinkError Unit
  | .insertOutbox .. | .upsertPending .. | .notifyDispatch _ | .upsertLeased .. | .deleteDispatch _
  | .deleteOutbox _ | .commit => Unit

/-- How the sink answers a delivery; a sink that fails may have taken in part of the batch. -/
inductive Verdict where
  | accepts
  | fails (received : Nat) (error : SinkError)

variable {J : Type}

def DispatchRow.eligible (row : DispatchRow) (queue : QueueName) (now : DateTime) : Bool :=
  row.queue = queue && row.leaseId.isNone && row.notBefore.all (· ≤ now)

def DispatchRow.expired (row : DispatchRow) (now : DateTime) : Bool :=
  row.leaseId.isSome && row.leaseExpiresAt.any (· ≤ now)

/-- The rows a heartbeat moves: `lease_id = $2 AND lease_expires_at > $3`. -/
def DispatchRow.alive (row : DispatchRow) (lease : LeaseId) (now : DateTime) : Bool :=
  row.leaseId = some lease && row.leaseExpiresAt.any (now < ·)

/-- `ORDER BY priority DESC, seq`, the last row first. -/
def DispatchRow.claimLe (left right : DispatchRow) : Bool :=
  left.priority.value.toInt < right.priority.value.toInt ||
    (left.priority.value.toInt == right.priority.value.toInt && right.seq ≤ left.seq)

/-- `ORDER BY lease_expires_at, job_id`, the last row first. -/
def expiryLe (left right : (_ : JobId) × DispatchRow) : Bool :=
  let deadline (row : DispatchRow) : Int := row.leaseExpiresAt.elim 0 (·.nanos)
  deadline right.2 < deadline left.2 || (deadline right.2 == deadline left.2 && right.1 ≤ left.1)

def Tables.hasEventId (tables : Tables J) (eventId : EventId) : Bool :=
  tables.events.any (·.eventId = eventId)

def Tables.hasVersion (tables : Tables J) (stream : JobId) (version : Nat) : Bool :=
  tables.events.any fun row => row.streamId = stream && row.version = version

/-- A statement waits for another open transaction that holds a key it inserts or a row it changes;
    the unique keys of `events` are checked one after the other. -/
def Stmt.waits (view : Tables J) (others : List (Transaction J)) : Stmt J → Bool
  | .insertEvent columns =>
    !view.hasEventId columns.eventId &&
      (others.any (·.rows.any (·.eventId = columns.eventId)) ||
        !view.hasVersion columns.streamId columns.version &&
          others.any (·.rows.any fun row =>
            row.streamId = columns.streamId && row.version = columns.version))
  | .upsertPending jobId .. | .upsertLeased jobId .. => others.any (·.holdsRow jobId)
  | .deleteDispatch jobId => (view.dispatch.lookup jobId).isSome && others.any (·.holdsRow jobId)
  | .updateDeadline _ lease now =>
    view.dispatch.entries.any fun entry =>
      entry.2.alive lease (timestamptz now) && others.any (·.holdsRow entry.1)
  | .deleteOutbox seqs => others.any (·.claimed.any (· ∈ seqs))
  | _ => false

/-- `INSERT … ON CONFLICT (job_id) DO UPDATE`: the sequence is drawn in any case, a row that exists
    keeps its own number. -/
def upsert (world : World J) (tx : Transaction J) (jobId : JobId) (row : Nat → DispatchRow) :
    World J × Transaction J :=
  let drawn := world.dispatchSeq + 1
  let seq := ((tx.view world.tables).dispatch.lookup jobId).elim drawn (·.seq)
  ({ world with dispatchSeq := drawn }, tx.write (.put jobId (row seq)))

/-- One statement, run when it has nothing to wait for. It sees what is committed and its own
    writes, skips rows others have locked where the SQL says so, and truncates timestamps. -/
def Stmt.exec (others : List (Transaction J)) (verdict : Verdict) (world : World J)
    (tx : Transaction J) : (statement : Stmt J) → (World J × Transaction J) × statement.Reply
  | .maxVersion stream =>
    ((world, tx), (((tx.view world.tables).streamRows stream).map (·.version)).max?)
  | .insertEvent columns =>
    let view := tx.view world.tables
    let world := { world with globalSeq := world.globalSeq + 1 }
    if view.hasEventId columns.eventId then ((world, tx), .violates .eventsEventIdKey)
    else if view.hasVersion columns.streamId columns.version then
      ((world, tx), .violates .eventsStreamVersionUnique)
    else
      let row := { columns with recordedAt := timestamptz columns.recordedAt, globalSeq := world.globalSeq }
      ((world, tx.write (.event row)), .inserted)
  | .insertOutbox eventId streamId envelope =>
    let world := { world with outboxSeq := world.outboxSeq + 1 }
    ((world, tx.write (.outbox { outboxSeq := world.outboxSeq, eventId, streamId, envelope })), ())
  | .loadStream stream =>
    ((world, tx), inOrder ((tx.view world.tables).streamRows stream))
  | .upsertPending jobId queue priority notBefore =>
    (upsert world tx jobId fun seq =>
      { queue, priority, seq, notBefore := notBefore.map timestamptz
        leaseId := none, workerId := none, leaseExpiresAt := none }, ())
  | .notifyDispatch _ => ((world, tx), ())
  | .upsertLeased jobId queue priority lease worker expiresAt =>
    (upsert world tx jobId fun seq =>
      { queue, priority, seq, notBefore := none
        leaseId := some lease, workerId := some worker
        leaseExpiresAt := some (timestamptz expiresAt) }, ())
  | .deleteDispatch jobId =>
    match (tx.view world.tables).dispatch.lookup jobId with
    | some _ => ((world, tx.write (.drop jobId)), ())
    | none => ((world, tx), ())
  | .selectEligible queue now =>
    let free := (tx.view world.tables).dispatch.entries.filter fun entry =>
      entry.2.eligible queue (timestamptz now) && !others.any (·.holdsRow entry.1)
    match maxBy (fun left right => left.2.claimLe right.2) free with
    | some entry => ((world, { tx with locks := entry.1 :: tx.locks }), some entry.1)
    | none => ((world, tx), none)
  | .selectExpired now =>
    let free := (tx.view world.tables).dispatch.entries.filter fun entry =>
      entry.2.expired (timestamptz now) && !others.any (·.holdsRow entry.1)
    match maxBy expiryLe free with
    | some entry => ((world, { tx with locks := entry.1 :: tx.locks }), some entry.1)
    | none => ((world, tx), none)
  | .updateDeadline deadline lease now =>
    let alive := (tx.view world.tables).dispatch.entries.filter fun entry =>
      entry.2.alive lease (timestamptz now)
    let writes := alive.map fun entry =>
      Write.put entry.1 { entry.2 with leaseExpiresAt := some (timestamptz deadline) }
    ((world, { tx with writes := tx.writes ++ writes }), alive.length)
  | .selectOutbox batch =>
    let free := (tx.view world.tables).outbox.filter fun row =>
      !others.any fun other => row.outboxSeq ∈ other.claimed
    let rows := (free.insertionSort fun left right => left.outboxSeq ≤ right.outboxSeq).take batch
    ((world, { tx with claimed := tx.claimed ++ rows.map (·.outboxSeq) }),
      rows.map fun row => (row.outboxSeq, row.envelope))
  | .deliver envelopes =>
    match verdict with
    | .accepts => (({ world with delivered := world.delivered ++ envelopes }, tx), .ok ())
    | .fails received error =>
      (({ world with delivered := world.delivered ++ envelopes.take received }, tx), .error error)
  | .deleteOutbox seqs => ((world, tx.write (.remove seqs)), ())
  | .commit => (({ world with tables := tx.view world.tables }, .begin), ())

abbrev Tx (J : Type) := Program (Stmt J) Stmt.Reply

def Stmt.alone (statement : Stmt J) (state : World J × Transaction J) :
    (World J × Transaction J) × statement.Reply :=
  statement.exec [] .accepts state.1 state.2

/-- A transaction run with no other one open; what was not committed is gone. -/
def World.transact {ε α : Type} (world : World J) (program : Tx J ε α) : World J × Outcome ε α :=
  let ((world, _), result) := program.run Stmt.alone (world, .begin)
  (world, result)

end Koine.Postgres
