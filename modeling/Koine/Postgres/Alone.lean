import Koine.Postgres.Coherence

namespace Koine.Postgres

open Library Domain Application

section Storage

variable {J : Type} [Serde J]

def times : JobEvent → List DateTime
  | .enqueued _ _ _ _ notBefore => notBefore.toList
  | .leased _ _ expiresAt => [expiresAt]
  | .retryScheduled _ notBefore => [notBefore]
  | _ => []

def Precise (instants : List DateTime) : Prop := ∀ time ∈ instants, timestamptz time = time

/-- An envelope that the tables keep exactly. -/
structure Fits (J : Type) [Serde J] (envelope : EventEnvelope) : Prop where
  schema : envelope.schemaVersion = 1
  version : envelope.version < 2 ^ 63
  recorded : timestamptz envelope.recordedAt = envelope.recordedAt
  times : Precise (times envelope.event)
  payload : ∃ json : J, Serde.encodeEvent envelope.event = .ok json ∧
    Serde.decodeEvent json = .ok envelope.event
  wrapped : ∃ json : J, Serde.encodeEnvelope envelope = .ok json

def columnsFor (stream : JobId) (envelope : EventEnvelope) (payload : J) : EventColumns J where
  streamId := stream
  version := envelope.version
  eventId := envelope.eventId
  eventType := envelope.event.kind
  schemaVersion := envelope.schemaVersion
  payload
  correlationId := envelope.correlationId
  causationId := envelope.causationId
  traceparent := envelope.traceparent
  recordedAt := envelope.recordedAt

def EventColumns.inserted (columns : EventColumns J) (globalSeq : Nat) : EventRow J :=
  { columns with recordedAt := timestamptz columns.recordedAt, globalSeq }

def Encodes (stream : JobId) (envelope : EventEnvelope) (row : EventRow J) : Prop :=
  ∃ payload, Serde.encodeEvent envelope.event = .ok payload ∧
    envelope.version < 2 ^ 63 ∧ envelope.schemaVersion.toNat < 2 ^ 15 ∧
    row = (columnsFor stream envelope payload).inserted row.globalSeq

def Wraps (stream : JobId) (envelope : EventEnvelope) (out : OutboxRow J) : Prop :=
  ∃ json, Serde.encodeEnvelope envelope = .ok json ∧
    out = ⟨out.outboxSeq, envelope.eventId, stream, json⟩

omit [Serde J] in
theorem insertEvent_alone (columns : EventColumns J) (world : World J) (tx : Transaction J)
    (free : (tx.view world.tables).hasVersion columns.streamId columns.version = false) :
    (query (Stmt.insertEvent columns) : Tx J EventStoreError Inserted).run Stmt.alone (world, tx) =
      if (tx.view world.tables).hasEventId columns.eventId then
        (({ world with globalSeq := world.globalSeq + 1 }, tx), .ok (.violates .eventsEventIdKey))
      else
        (({ world with globalSeq := world.globalSeq + 1 },
          tx.write (.event (columns.inserted (world.globalSeq + 1)))), .ok .inserted) := by
  simp only [query, Program.issue, Program.run, Stmt.alone, Stmt.exec, free]
  split <;> rfl

theorem insertEnvelopes_first {stream : JobId} (expected : Nat) {envelope : EventEnvelope}
    (rest : List EventEnvelope) {world : World J} {tx : Transaction J} (fits : Fits J envelope)
    (named : envelope.streamId = stream)
    (free : (tx.view world.tables).hasVersion stream envelope.version = false) :
    ((tx.view world.tables).hasEventId envelope.eventId = true ∧ ∃ after message,
      (insertEnvelopes stream expected (envelope :: rest)).run Stmt.alone (world, tx) =
        (after, .err (.backend message)) ∧
      after.1.tables = world.tables ∧ after.1.dispatchSeq = world.dispatchSeq) ∨
    ∃ next row out, (insertEnvelopes stream expected (envelope :: rest)).run Stmt.alone (world, tx) =
        (insertEnvelopes stream expected rest).run Stmt.alone
          (next, (tx.write (.event row)).write (.outbox out)) ∧
      next.tables = world.tables ∧ next.dispatchSeq = world.dispatchSeq ∧
      envelopeFromRow row = .ok envelope := by
  obtain ⟨payload, encoded, decoded⟩ := fits.payload
  obtain ⟨json, wrapped⟩ := fits.wrapped
  have version : ¬ 2 ^ 63 ≤ envelope.version := by
    have small := fits.version
    omega
  have schema : ¬ 2 ^ 15 ≤ envelope.schemaVersion.toNat := by
    rw [fits.schema]
    decide
  have read : (.done (labelled "payload encode: " (Serde.encodeEvent envelope.event)) :
      Tx J EventStoreError J).run Stmt.alone (world, tx) = ((world, tx), .ok payload) := by
    rw [encoded]
    rfl
  have insert := insertEvent_alone (columnsFor stream envelope payload) world tx free
  rw [insertEnvelopes, Program.run_bind_ok Stmt.alone read, if_neg version, if_neg schema]
  by_cases taken : (tx.view world.tables).hasEventId (columnsFor stream envelope payload).eventId = true
  · rw [if_pos taken] at insert
    exact .inl ⟨taken, _, _, Program.run_bind_ok Stmt.alone insert _, rfl, rfl⟩
  · rw [if_neg taken] at insert
    refine .inr ⟨{ world with globalSeq := world.globalSeq + 1, outboxSeq := world.outboxSeq + 1 },
      (columnsFor stream envelope payload).inserted (world.globalSeq + 1),
      ⟨world.outboxSeq + 1, envelope.eventId, stream, json⟩,
      (Program.run_bind_ok Stmt.alone insert _).trans ?_, rfl, rfl, ?_⟩
    · simp only [wrapped]
      rfl
    · simp [envelopeFromRow, EventColumns.inserted, columnsFor, decoded, labelled, fits.recorded, ← named]

theorem envelopesFromRows_append {left right : List (EventRow J)} {old new : List EventEnvelope}
    (first : envelopesFromRows left = .ok old) (second : envelopesFromRows right = .ok new) :
    envelopesFromRows (left ++ right) = .ok (old ++ new) := by
  rw [envelopesFromRows_eq_ok] at first second ⊢
  exact List.rel_append first second

theorem insertEnvelopes_alone {stream : JobId} (expected : Nat) {batch : List EventEnvelope} {base : Nat}
    {world : World J} {tx : Transaction J} (fits : ∀ envelope ∈ batch, Fits J envelope)
    (sequential : Job.Sequential base batch) (named : ∀ envelope ∈ batch, envelope.streamId = stream)
    (below : ∀ row ∈ (tx.view world.tables).events, row.streamId = stream → row.version ≤ base) :
    (¬ ((tx.view world.tables).events.map (·.eventId) ++ batch.map (·.eventId)).Nodup ∧
      ∃ after message,
        (insertEnvelopes stream expected batch).run Stmt.alone (world, tx) = (after, .err (.backend message)) ∧
        after.1.tables = world.tables ∧ after.1.dispatchSeq = world.dispatchSeq) ∨
    ∃ after rows, (insertEnvelopes stream expected batch).run Stmt.alone (world, tx) = (after, .ok ()) ∧
      after.1.tables = world.tables ∧ after.1.dispatchSeq = world.dispatchSeq ∧
      envelopesFromRows rows = .ok batch ∧ after.2.rows = tx.rows ++ rows ∧
      ∀ id, after.2.moved id = tx.moved id := by
  induction batch generalizing base world tx with
  | nil => exact .inr ⟨(world, tx), [], rfl, rfl, rfl, rfl, (List.append_nil _).symm, fun _ => rfl⟩
  | cons envelope rest ih =>
    obtain ⟨version, later⟩ := sequential
    rw [List.forall_mem_cons] at fits named
    have free : (tx.view world.tables).hasVersion stream envelope.version = false := by
      rw [Tables.hasVersion_eq_false]
      intro row member ⟨same, taken⟩
      have bound := below row member same
      omega
    rcases insertEnvelopes_first expected rest fits.1 named.1 free with
      ⟨taken, after, message, ran, tables, seq⟩ | ⟨next, row, out, ran, tables, seq, read⟩
    · refine .inl ⟨?_, after, message, ran, tables, seq⟩
      intro distinct
      rw [Tables.hasEventId, List.any_eq_true] at taken
      obtain ⟨row, member, same⟩ := taken
      rw [List.nodup_append] at distinct
      exact distinct.2.2 _ (List.mem_map_of_mem member) _ (List.mem_map_of_mem List.mem_cons_self)
        (by simpa using same)
    · obtain ⟨eventId, streamId, number⟩ := envelopeFromRow_ids read
      have events : (((tx.write (.event row)).write (.outbox out)).view next.tables).events =
          (tx.view world.tables).events ++ [row] := by
        rw [Transaction.view_write, Transaction.view_write, tables]
        rfl
      have above : ∀ other ∈ (((tx.write (.event row)).write (.outbox out)).view next.tables).events,
          other.streamId = stream → other.version ≤ base + 1 := by
        rw [events]
        intro other member same
        rcases List.mem_append.mp member with old | new
        · have bound := below other old same
          omega
        · rw [List.mem_singleton.mp new]
          omega
      have first : envelopesFromRows [row] = .ok [envelope] := by
        rw [envelopesFromRows, read]
        rfl
      rw [ran]
      rcases ih fits.2 later named.2 above with ⟨clash, after, message, rest, same, drawn⟩ |
        ⟨after, stored, rest, same, drawn, decoded, kept, moved⟩
      · refine .inl ⟨?_, after, message, rest, same.trans tables, drawn.trans seq⟩
        rw [events, List.map_append, List.append_assoc] at clash
        rw [List.map_cons, ← eventId]
        exact clash
      · refine .inr ⟨after, row :: stored, rest, same.trans tables, drawn.trans seq,
          envelopesFromRows_append first decoded, ?_, ?_⟩
        · rw [kept, Transaction.rows_write, Transaction.rows_write, List.append_nil, List.append_assoc]
          rfl
        · intro id
          rw [moved, Transaction.moved_write, Transaction.moved_write]

/-- The dispatch row a job's state asks for, under the number it has or draws. -/
def rowOf (job : Job) (seq : Nat) : Option DispatchRow :=
  match job.state with
  | .pending notBefore =>
    some { queue := job.queue, priority := job.priority, seq, notBefore := notBefore.map timestamptz
           leaseId := none, workerId := none, leaseExpiresAt := none }
  | .leased worker lease expiresAt | .running worker lease expiresAt =>
    some { queue := job.queue, priority := job.priority, seq, notBefore := none
           leaseId := some lease, workerId := some worker, leaseExpiresAt := some (timestamptz expiresAt) }
  | _ => none

structure Projected (before after : World J × Transaction J) (job : Job) : Prop where
  tables : after.1.tables = before.1.tables
  rows : after.2.rows = before.2.rows
  self : (after.2.view after.1.tables).dispatch.lookup job.id =
    rowOf job (((before.2.view before.1.tables).dispatch.lookup job.id).elim
      (before.1.dispatchSeq + 1) (·.seq))
  other : ∀ id, id ≠ job.id → (after.2.view after.1.tables).dispatch.lookup id =
    (before.2.view before.1.tables).dispatch.lookup id
  drawn : after.1.dispatchSeq = before.1.dispatchSeq + 1 ∨
    (after.1.dispatchSeq = before.1.dispatchSeq ∧ ∀ seq, rowOf job seq = none)

omit [Serde J] in
theorem Projected.seq_le {before after : World J × Transaction J} {job : Job}
    (projected : Projected before after job) : before.1.dispatchSeq ≤ after.1.dispatchSeq := by
  rcases projected.drawn with drawn | ⟨kept, _⟩ <;> omega

omit [Serde J] in
theorem Projected.put {world : World J} {tx : Transaction J} {job : Job} {row : Nat → DispatchRow}
    (shape : ∀ seq, rowOf job seq = some (row seq)) :
    Projected (world, tx) (upsert world tx job.id row) job where
  tables := rfl
  rows := by
    rw [upsert]
    simp only [Transaction.rows_write, List.append_nil]
  self := by
    rw [shape, upsert]
    simp only [Transaction.view_write, Write.apply]
    exact AList.lookup_insert _
  other := by
    intro id different
    rw [upsert]
    simp only [Transaction.view_write, Write.apply]
    exact AList.lookup_insert_ne different
  drawn := .inl rfl

omit [Serde J] in
theorem projectInTx_alone (job : Job) (world : World J) (tx : Transaction J) :
    ∃ after, (projectInTx job : Tx J EventStoreError Unit).run Stmt.alone (world, tx) = (after, .ok ()) ∧
      Projected (world, tx) after job := by
  have deleted : job.state.dispatchable = false →
      ∃ after, (query (Stmt.deleteDispatch job.id) : Tx J EventStoreError Unit).run Stmt.alone (world, tx) =
        (after, .ok ()) ∧ Projected (world, tx) after job := by
    intro gone
    have none : ∀ seq, rowOf job seq = Option.none := by
      intro seq
      unfold rowOf
      cases state : job.state <;> simp_all [JobState.dispatchable]
    cases present : (tx.view world.tables).dispatch.lookup job.id with
    | none =>
      refine ⟨(world, tx), ?_, rfl, rfl, ?_, fun _ _ => rfl, .inr ⟨rfl, none⟩⟩
      · simp only [query, Program.issue, Program.run, Stmt.alone, Stmt.exec, present]
      · rw [none]
        exact present
    | some row =>
      refine ⟨(world, tx.write (.drop job.id)), ?_, rfl, ?_, ?_, ?_, .inr ⟨rfl, none⟩⟩
      · simp only [query, Program.issue, Program.run, Stmt.alone, Stmt.exec, present]
      · simp only [Transaction.rows_write, List.append_nil]
      · rw [none]
        simp only [Transaction.view_write, Write.apply]
        exact AList.lookup_erase _ _
      · intro id different
        simp only [Transaction.view_write, Write.apply]
        exact AList.lookup_erase_ne different
  unfold projectInTx
  cases state : job.state with
  | pending notBefore => exact ⟨_, rfl, Projected.put fun seq => by rw [rowOf, state]⟩
  | leased worker lease expiresAt => exact ⟨_, rfl, Projected.put fun seq => by rw [rowOf, state]⟩
  | running worker lease expiresAt => exact ⟨_, rfl, Projected.put fun seq => by rw [rowOf, state]⟩
  | succeeded | parked | cancelled | suspended | awaitingApproval =>
    exact deleted (by rw [state]; rfl)

theorem sequential_versions {base : Nat} {envelopes : List EventEnvelope}
    (sequential : Job.Sequential base envelopes) :
    envelopes.map (·.version) = List.range' (base + 1) envelopes.length := by
  induction envelopes generalizing base with
  | nil => rfl
  | cons envelope rest ih =>
    obtain ⟨version, later⟩ := sequential
    rw [List.map_cons, List.length_cons, List.range'_succ, version, ih later]

theorem decoded_versions {rows : List (EventRow J)} {envelopes : List EventEnvelope} {base : Nat}
    (decoded : envelopesFromRows rows = .ok envelopes) (sequential : Job.Sequential base envelopes) :
    rows.map (·.version) = List.range' (base + 1) envelopes.length := by
  rw [decoded_map (fun row envelope read => (envelopeFromRow_ids read).2.2) decoded]
  exact sequential_versions sequential

def World.rankFor (world : World J) (id : JobId) : Nat :=
  (world.tables.dispatch.lookup id).elim (world.dispatchSeq + 1) (·.seq)

/-- What a transaction that runs alone leaves to commit when its append is accepted. -/
structure Saved (world : World J) (after : World J × Transaction J) (stream : JobId)
    (batch : List EventEnvelope) (job : Job) : Prop where
  events : ∃ rows, envelopesFromRows rows = .ok batch ∧
    (after.2.view after.1.tables).events = world.tables.events ++ rows
  self : (after.2.view after.1.tables).dispatch.lookup stream = rowOf job (world.rankFor stream)
  other : ∀ id, id ≠ stream → (after.2.view after.1.tables).dispatch.lookup id =
    world.tables.dispatch.lookup id
  drawn : after.1.dispatchSeq = world.dispatchSeq + 1 ∨
    (after.1.dispatchSeq = world.dispatchSeq ∧ ∀ seq, rowOf job seq = none)

section Fold

variable [BuildProfile]

inductive Appends (world : World J) (stream : JobId) (expected : Nat) (old batch : List EventEnvelope)
    (after : World J × Transaction J) : Outcome EventStoreError Job → Prop where
  | conflict (stale : old.length ≠ expected) :
      Appends world stream expected old batch after (.err (.versionConflict stream expected))
  | malformed (message : String) (current : old.length = expected)
      (broken : continues stream expected batch = false) :
      Appends world stream expected old batch after (.err (.backend message))
  | duplicate (message : String) (current : old.length = expected)
      (accepted : continues stream expected batch = true)
      (taken : ¬ (world.tables.events.map (·.eventId) ++ batch.map (·.eventId)).Nodup) :
      Appends world stream expected old batch after (.err (.backend message))
  | refused (message : String) (error : DomainError) (current : old.length = expected)
      (accepted : continues stream expected batch = true)
      (folded : Job.fromEvents (old ++ batch) = .err error) :
      Appends world stream expected old batch after (.err (.backend message))
  | unwound (current : old.length = expected) (accepted : continues stream expected batch = true)
      (folded : Job.fromEvents (old ++ batch) = .panic) : Appends world stream expected old batch after .panic
  | saved (job : Job) (current : old.length = expected) (accepted : continues stream expected batch = true)
      (folded : Job.fromEvents (old ++ batch) = .ok job) (saved : Saved world after stream batch job) :
      Appends world stream expected old batch after (.ok job)

omit [BuildProfile] in
theorem loadInTx_alone {stream : JobId} {world : World J} {tx : Transaction J}
    {envelopes : List EventEnvelope}
    (decoded : envelopesFromRows ((tx.view world.tables).streamRows stream) = .ok envelopes)
    (numbered : Job.Sequential 0 envelopes) :
    (loadInTx stream : Tx J EventStoreError _).run Stmt.alone (world, tx) = ((world, tx), .ok envelopes) := by
  have rows : (query (Stmt.loadStream stream) : Tx J EventStoreError _).run Stmt.alone (world, tx) =
      ((world, tx), .ok (inOrder ((tx.view world.tables).streamRows stream))) := rfl
  rw [inOrder_of_versions (decoded_versions decoded numbered)] at rows
  unfold loadInTx
  rw [Program.run_bind_ok Stmt.alone rows, decoded]
  rfl

theorem foldProject_alone {stream : JobId} {state : World J × Transaction J} {envelopes : List EventEnvelope}
    (decoded : envelopesFromRows ((state.2.view state.1.tables).streamRows stream) = .ok envelopes)
    (numbered : Job.Sequential 0 envelopes) :
    ∃ after result, (do
        let streamEnvelopes ← loadInTx stream
        let job ← .done (foldStream "stream does not fold: " streamEnvelopes)
        projectInTx job
        pure job : Tx J EventStoreError Job).run Stmt.alone state = (after, result) ∧
      ((∃ error message, Job.fromEvents envelopes = .err error ∧ after = state ∧
          result = .err (.backend message)) ∨
        (Job.fromEvents envelopes = .panic ∧ after = state ∧ result = .panic) ∨
        ∃ job, Job.fromEvents envelopes = .ok job ∧ Projected state after job ∧ result = .ok job) := by
  have fold : (.done (foldStream "stream does not fold: " envelopes) : Tx J EventStoreError Job).run
      Stmt.alone state = (state, (Job.fromEvents envelopes).mapErr fun error =>
        .backend ("stream does not fold: " ++ error.display)) := rfl
  rw [Program.run_bind_ok Stmt.alone (loadInTx_alone decoded numbered)]
  cases folded : Job.fromEvents envelopes with
  | err error =>
    rw [folded] at fold
    exact ⟨state, _, Program.run_bind_err Stmt.alone fold _, .inl ⟨error, _, rfl, rfl, rfl⟩⟩
  | panic =>
    rw [folded] at fold
    exact ⟨state, _, Program.run_bind_panic Stmt.alone fold _, .inr (.inl ⟨rfl, rfl, rfl⟩)⟩
  | ok job =>
    rw [folded] at fold
    obtain ⟨after, projects, projected⟩ := projectInTx_alone job state.1 state.2
    refine ⟨after, .ok job, (Program.run_bind_ok Stmt.alone fold _).trans ?_,
      .inr (.inr ⟨job, rfl, projected, rfl⟩)⟩
    rw [Program.run_bind_ok Stmt.alone projects]
    rfl

omit [BuildProfile] in
theorem decoded_named {tables : Tables J} {stream : JobId} {envelopes : List EventEnvelope}
    (decoded : envelopesFromRows (tables.streamRows stream) = .ok envelopes) :
    ∀ envelope ∈ envelopes, envelope.streamId = stream := by
  intro envelope member
  have listed : envelope.streamId ∈ (tables.streamRows stream).map (·.streamId) := by
    rw [decoded_map (fun row envelope read => (envelopeFromRow_ids read).2.1) decoded]
    exact List.mem_map_of_mem member
  obtain ⟨row, present, same⟩ := List.mem_map.mp listed
  rw [← same]
  simpa using (List.mem_filter.mp present).2

omit [BuildProfile] in
theorem Saved.of_projected {stream : JobId} {batch : List EventEnvelope} {world : World J}
    {tx : Transaction J} {stored last : World J × Transaction J} {rows : List (EventRow J)} {job : Job}
    (clean : tx.writes = []) (tables : stored.1.tables = world.tables)
    (seq : stored.1.dispatchSeq = world.dispatchSeq) (read : envelopesFromRows rows = .ok batch)
    (added : stored.2.rows = rows) (moved : ∀ id, stored.2.moved id = tx.moved id)
    (id : job.id = stream) (projected : Projected stored last job) : Saved world last stream batch job := by
  have dispatch : ∀ other, (stored.2.view stored.1.tables).dispatch.lookup other =
      world.tables.dispatch.lookup other := by
    intro other
    have unmoved : tx.moved other = none := by
      rw [Transaction.moved, clean]
      rfl
    rw [Transaction.view_dispatch, moved, unmoved, tables]
    rfl
  refine ⟨⟨rows, read, ?_⟩, ?_, ?_, ?_⟩
  · rw [Transaction.view_events, projected.rows, projected.tables, tables, added]
  · rw [← id, projected.self, dispatch, seq]
    rfl
  · intro other different
    rw [← id] at different
    rw [projected.other other different, dispatch]
  · rw [← seq]
    exact projected.drawn

theorem appendInTx_alone {stream : JobId} (expected : Nat) {old batch : List EventEnvelope}
    {world : World J} {tx : Transaction J} (clean : tx.writes = [])
    (decoded : envelopesFromRows (world.tables.streamRows stream) = .ok old)
    (numbered : Job.Sequential 0 old) (fits : ∀ envelope ∈ batch, Fits J envelope) :
    ∃ after result, (appendInTx stream expected batch).run Stmt.alone (world, tx) = (after, result) ∧
      after.1.tables = world.tables ∧ world.dispatchSeq ≤ after.1.dispatchSeq ∧
      Appends world stream expected old batch after result := by
  have view : tx.view world.tables = world.tables := by
    rw [Transaction.view, clean]
    rfl
  have versions : (world.tables.streamRows stream).map (·.version) = List.range' 1 old.length :=
    decoded_versions decoded numbered
  have newest : (query (Stmt.maxVersion stream) : Tx J EventStoreError (Option Nat)).run Stmt.alone
      (world, tx) = ((world, tx), .ok (List.range' 1 old.length).max?) := by
    rw [← versions, ← view]
    rfl
  unfold appendInTx
  rw [Program.run_bind_ok Stmt.alone newest, max_range']
  by_cases stale : old.length ≠ expected
  · rw [if_pos stale]
    exact ⟨(world, tx), _, rfl, rfl, le_rfl, .conflict stale⟩
  rw [if_neg stale]
  rw [not_not] at stale
  subst stale
  by_cases accepted : continues stream old.length batch = true
  · rw [if_pos accepted]
    obtain ⟨sequential, named⟩ := continues_iff.mp accepted
    have below : ∀ row ∈ (tx.view world.tables).events, row.streamId = stream →
        row.version ≤ old.length := by
      intro row member same
      have listed : row.version ∈ (world.tables.streamRows stream).map (·.version) :=
        List.mem_map_of_mem (List.mem_filter.mpr ⟨view ▸ member, by simpa using same⟩)
      rw [versions, List.mem_range'_1] at listed
      omega
    rcases insertEnvelopes_alone old.length fits sequential named below with
      ⟨taken, after, message, ran, tables, seq⟩ | ⟨stored, rows, ran, tables, seq, read, added, moved⟩
    · rw [Program.run_bind_err Stmt.alone ran]
      rw [view] at taken
      exact ⟨after, _, rfl, tables, seq.ge, .duplicate message rfl accepted taken⟩
    · rw [Program.run_bind_ok Stmt.alone ran]
      have none : tx.rows = [] := by
        rw [Transaction.rows, clean]
        rfl
      rw [none, List.nil_append] at added
      have streams : rows.map (·.streamId) = batch.map (·.streamId) :=
        decoded_map (fun row envelope read => (envelopeFromRow_ids read).2.1) read
      have whole : (stored.2.view stored.1.tables).streamRows stream =
          world.tables.streamRows stream ++ rows := by
        rw [Transaction.view_streamRows, tables, added, List.filter_eq_self.mpr]
        intro row member
        have listed : row.streamId ∈ batch.map (·.streamId) := streams ▸ List.mem_map_of_mem member
        obtain ⟨envelope, present, same⟩ := List.mem_map.mp listed
        rw [decide_eq_true_eq, ← same]
        exact named envelope present
      have combined : envelopesFromRows ((stored.2.view stored.1.tables).streamRows stream) =
          .ok (old ++ batch) := by
        rw [whole]
        exact envelopesFromRows_append decoded read
      have numbers : Job.Sequential 0 (old ++ batch) :=
        Job.sequential_append.mpr ⟨numbered, by simpa using sequential⟩
      obtain ⟨last, result, folds, ⟨error, message, folded, rfl, rfl⟩ | ⟨folded, rfl, rfl⟩ |
        ⟨job, folded, projected, rfl⟩⟩ := foldProject_alone combined numbers
      · exact ⟨last, _, folds, tables, seq.ge, .refused message error rfl accepted folded⟩
      · exact ⟨last, _, folds, tables, seq.ge, .unwound rfl accepted folded⟩
      · have id : job.id = stream := by
          refine Job.fromEvents_id folded ?_
          intro envelope member
          rcases List.mem_append.mp member with old | new
          · exact decoded_named decoded envelope old
          · exact named envelope new
        exact ⟨last, _, folds, projected.tables.trans tables, seq.ge.trans projected.seq_le,
          .saved job rfl accepted folded (.of_projected clean tables seq read added moved id projected)⟩
  · rw [if_neg accepted]
    exact ⟨(world, tx), _, rfl, rfl, le_rfl, .malformed _ rfl (by simpa using accepted)⟩

end Fold

end Storage

end Koine.Postgres
