import Koine.Postgres.Statements

namespace Koine.Postgres

open Library Domain Application

/-- Encoding to and from `JSONB`. Of a decoded envelope only the ids and the version are promised. -/
class Serde (J : Type) where
  encodeEvent : JobEvent → Except String J
  decodeEvent : J → Except String JobEvent
  encodeEnvelope : EventEnvelope → Except String J
  decodeEnvelope : J → Except String EventEnvelope
  decoded_ids : ∀ envelope json decoded, encodeEnvelope envelope = .ok json →
    decodeEnvelope json = .ok decoded → decoded.eventId = envelope.eventId ∧
      decoded.streamId = envelope.streamId ∧ decoded.version = envelope.version

/-- JSON that keeps the value it was made from, to run the adapters on. -/
inductive TypedJson where
  | event (event : JobEvent)
  | envelope (envelope : EventEnvelope)

instance : Serde TypedJson where
  encodeEvent event := .ok (.event event)
  decodeEvent
    | .event event => .ok event
    | .envelope _ => .error "not an event"
  encodeEnvelope envelope := .ok (.envelope envelope)
  decodeEnvelope
    | .envelope envelope => .ok envelope
    | .event _ => .error "not an envelope"
  decoded_ids := by
    intro envelope json decoded encoded read
    cases encoded
    cases read
    exact ⟨rfl, rfl, rfl⟩

variable {J : Type}

/-- `sqlx::query(…)` in the transaction. -/
def query {ε : Type} (statement : Stmt J) : Tx J ε statement.Reply := .issue statement

variable [Serde J]

/-- `map_err(|e| Backend(format!("<label>: {e}")))`. -/
def labelled {α : Type} (label : String) : Except String α → Outcome EventStoreError α
  | .ok value => .ok value
  | .error message => .err (.backend (label ++ message))

omit [Serde J] in
theorem labelled_eq_ok {α : Type} {label : String} {result : Except String α} {value : α} :
    labelled label result = .ok value ↔ result = .ok value := by
  cases result <;> simp [labelled]

def envelopeFromRow (row : EventRow J) : Outcome EventStoreError EventEnvelope := do
  let event ← labelled "payload decode: " (Serde.decodeEvent row.payload)
  pure
    { eventId := row.eventId
      streamId := row.streamId
      version := row.version
      recordedAt := row.recordedAt
      correlationId := row.correlationId
      causationId := row.causationId
      traceparent := row.traceparent
      schemaVersion := row.schemaVersion
      event }

def envelopesFromRows : List (EventRow J) → Outcome EventStoreError (List EventEnvelope)
  | [] => .ok []
  | row :: rest => do
    let envelope ← envelopeFromRow row
    let envelopes ← envelopesFromRows rest
    pure (envelope :: envelopes)

def loadInTx (stream : JobId) : Tx J EventStoreError (List EventEnvelope) := do
  let rows ← query (Stmt.loadStream stream)
  .done (envelopesFromRows rows)

/-- The inserts of `append_in_tx`: each event and, right after it, its outbox row. -/
def insertEnvelopes (stream : JobId) (expectedVersion : Nat) :
    List EventEnvelope → Tx J EventStoreError Unit
  | [] => pure ()
  | envelope :: rest => do
    let payload ← .done (labelled "payload encode: " (Serde.encodeEvent envelope.event))
    if 2 ^ 63 ≤ envelope.version then .fail (.backend "version exceeds i64")
    else if 2 ^ 15 ≤ envelope.schemaVersion.toNat then .fail (.backend "schema_version exceeds i16")
    else
      let outcome ← query (Stmt.insertEvent
        { streamId := stream
          version := envelope.version
          eventId := envelope.eventId
          eventType := envelope.event.kind
          schemaVersion := envelope.schemaVersion
          payload
          correlationId := envelope.correlationId
          causationId := envelope.causationId
          traceparent := envelope.traceparent
          recordedAt := envelope.recordedAt })
      match outcome with
      | .violates .eventsStreamVersionUnique => .fail (.versionConflict stream expectedVersion)
      | .violates .eventsEventIdKey =>
        .fail (.backend ("db: error returned from database: duplicate key value violates unique " ++
          "constraint \"events_event_id_key\""))
      | .inserted =>
        let json ← .done (labelled "envelope encode: " (Serde.encodeEnvelope envelope))
        query (Stmt.insertOutbox envelope.eventId stream json)
        insertEnvelopes stream expectedVersion rest

def projectInTx (job : Job) : Tx J EventStoreError Unit :=
  match job.state with
  | .pending notBefore => do
    query (Stmt.upsertPending job.id job.queue job.priority notBefore)
    query (Stmt.notifyDispatch job.queue)
  | .leased worker lease expiresAt | .running worker lease expiresAt =>
    query (Stmt.upsertLeased job.id job.queue job.priority lease worker expiresAt)
  | .succeeded | .parked _ | .cancelled | .suspended | .awaitingApproval _ =>
    query (Stmt.deleteDispatch job.id)

section Transactions

variable [BuildProfile]

def foldStream (label : String) (envelopes : List EventEnvelope) : Outcome EventStoreError Job :=
  (Job.fromEvents envelopes).mapErr fun error => .backend (label ++ error.display)

def appendInTx (stream : JobId) (expectedVersion : Nat) (envelopes : List EventEnvelope) :
    Tx J EventStoreError Job := do
  let newest ← query (Stmt.maxVersion stream)
  let current := newest.getD 0
  if current ≠ expectedVersion then .fail (.versionConflict stream expectedVersion)
  else if continues stream current envelopes then
    insertEnvelopes stream expectedVersion envelopes
    let streamEnvelopes ← loadInTx stream
    let job ← .done (foldStream "stream does not fold: " streamEnvelopes)
    projectInTx job
    pure job
  else .fail (.backend ("malformed envelope batch for " ++ stream.display))

def append (stream : JobId) (expectedVersion : Nat) (envelopes : List EventEnvelope) :
    Tx J EventStoreError Unit := do
  let _ ← appendInTx stream expectedVersion envelopes
  query Stmt.commit

def load (stream : JobId) : Tx J EventStoreError (List EventEnvelope) := do
  let rows ← query (Stmt.loadStream stream)
  if rows.isEmpty then .fail (.streamNotFound stream) else .done (envelopesFromRows rows)

def claim (ports : Ports) (queue : QueueName) (worker : WorkerId) (ttl : Duration) :
    Tx J DispatchError (Option LeasedJob) := do
  let picked ← query (Stmt.selectEligible queue ports.now)
  match picked with
  | none => pure none
  | some jobId =>
    let stream ← (loadInTx jobId).mapErr .store
    let job ← .done ((foldStream "fold: " stream).mapErr .store)
    let event ← .done ((job.lease worker ports.leaseId ports.now ttl).mapErr fun error =>
      .store (.backend ("index/state drift: " ++ error.display)))
    let (correlationId, causationId, traceparent) := lineageOf stream
    let envelopes := wrapEvents ports jobId job.version correlationId causationId traceparent [event]
    match envelopes.head?.map EventEnvelope.event with
    | some (.leased _ _ expiresAt) =>
      let folded ← (appendInTx jobId job.version envelopes).mapErr .store
      query Stmt.commit
      pure (some
        { jobId, queue := folded.queue, payload := folded.payload, attempt := folded.attempt
          lease := ports.leaseId, expiresAt, correlationId, traceparent })
    | _ => .fail (.store (.backend "lease produced non-lease"))

def retireOne (ports : Ports) : Tx J DispatchError (Option JobId) := do
  let picked ← query (Stmt.selectExpired ports.now)
  match picked with
  | none =>
    query Stmt.commit
    pure none
  | some jobId =>
    let stream ← (loadInTx jobId).mapErr .store
    let job ← .done ((Job.fromEvents stream).mapErr .domain)
    let events ← .done ((job.expireLease ports.now ports.jitterSeed).mapErr .domain)
    let (correlationId, causationId, traceparent) := lineageOf stream
    let envelopes := wrapEvents ports jobId job.version correlationId causationId traceparent events
    let _ ← (appendInTx jobId job.version envelopes).mapErr .store
    query Stmt.commit
    pure (some jobId)

def extendLease (ports : Ports) (lease : LeaseId) (ttl : Duration) : Tx J DispatchError Bool :=
  match TimeDelta.fromStd ttl with
  | none => .fail (.backend "ttl out of range")
  | some delta => do
    let deadline ← .done (ports.now.add delta)
    let updated ← query (Stmt.updateDeadline deadline lease ports.now)
    query Stmt.commit
    pure (decide (0 < updated))

def decodeOutbox : List (Nat × J) → Outcome RelayError (List EventEnvelope)
  | [] => .ok []
  | row :: rest => do
    let envelope ← match Serde.decodeEnvelope row.2 with
      | .ok envelope => .ok envelope
      | .error message => .err (.backend ("envelope decode: " ++ message))
    let envelopes ← decodeOutbox rest
    pure (envelope :: envelopes)

def relayOnce (batch : Nat) : Tx J RelayError Nat := do
  let rows ← query (Stmt.selectOutbox batch)
  if rows.isEmpty then pure 0
  else
    let envelopes ← .done (decodeOutbox rows)
    let answer ← query (Stmt.deliver envelopes)
    match answer with
    | .error error => .fail (.sink error)
    | .ok () =>
      query (Stmt.deleteOutbox (rows.map (·.1)))
      query Stmt.commit
      pure (min envelopes.length (2 ^ 32 - 1))

instance : EventStore (World J) where
  append world stream expectedVersion envelopes := world.transact (append stream expectedVersion envelopes)
  load world stream := (world.transact (load stream)).2

instance : Dispatcher (World J) where
  leaseNext world ports queue worker ttl := world.transact (claim ports queue worker ttl)
  extendLease world ports lease ttl := world.transact (extendLease ports lease ttl)
  retireNextExpiredLease world ports := world.transact (retireOne ports)

end Transactions

end Koine.Postgres
