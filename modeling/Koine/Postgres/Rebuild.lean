import Mathlib.Data.List.Dedup
import Koine.Postgres.Serial

namespace Koine.Postgres

open Library Domain Application

variable {J : Type}

/-- `min(global_seq)` of a stream. -/
def Tables.firstSeq (tables : Tables J) (stream : JobId) : Nat :=
  ((tables.streamRows stream).map (·.globalSeq)).min?.getD 0

/-- `SELECT stream_id FROM event_store.events GROUP BY stream_id ORDER BY min(global_seq)`. -/
def Tables.streamsByFirst (tables : Tables J) : List JobId :=
  (tables.events.map (·.streamId)).dedup.insertionSort fun left right =>
    tables.firstSeq left ≤ tables.firstSeq right

/-- `TRUNCATE event_store.dispatch_queue`; the sequence goes on where it was. -/
def World.truncated (world : World J) : World J :=
  { world with tables := { world.tables with dispatch := ∅ } }

variable [Serde J] [BuildProfile]

/-- `if dispatchable { projected += 1 }`. -/
def countDispatchable (job : Job) (projected : UInt32) : Outcome EventStoreError UInt32 :=
  if job.state.dispatchable then
    match u32Succ projected with
    | some projected => .ok projected
    | none => .panic
  else .ok projected

def rebuildStreams : List JobId → UInt32 → Tx J EventStoreError UInt32
  | [], projected => pure projected
  | stream :: rest, projected => do
    let envelopes ← loadInTx stream
    let job ← .done (foldStream ("stream " ++ stream.display ++ ": ") envelopes)
    projectInTx job
    let projected ← .done (countDispatchable job projected)
    rebuildStreams rest projected

/-- `rebuild_dispatch`, from the streams that its first statement returns. -/
def rebuildDispatch (streams : List JobId) : Tx J EventStoreError UInt32 := do
  let projected ← rebuildStreams streams 0
  query Stmt.commit
  pure projected

def World.rebuildDispatch (world : World J) : World J × Outcome EventStoreError UInt32 :=
  world.transact (Postgres.rebuildDispatch world.tables.streamsByFirst)

def EventRow.grantedUntil (row : EventRow J) : Option DateTime :=
  match envelopeFromRow row with
  | .ok envelope => envelope.event.grantedUntil
  | _ => none

/-- The deadline that the last `Leased` event among the rows records. -/
def recordedDeadline (rows : List (EventRow J)) : Option DateTime :=
  rows.reverse.findSome? EventRow.grantedUntil

omit [BuildProfile] in
theorem recordedDeadline_eq {rows : List (EventRow J)} {envelopes : List EventEnvelope}
    (decoded : envelopesFromRows rows = .ok envelopes) :
    recordedDeadline rows = lastGrant (envelopes.map (·.event)) := by
  have grants : rows.map EventRow.grantedUntil = envelopes.map fun envelope => envelope.event.grantedUntil := by
    refine decoded_map ?_ decoded
    intro row envelope read
    rw [EventRow.grantedUntil, read]
  calc rows.reverse.findSome? EventRow.grantedUntil
    _ = (rows.map EventRow.grantedUntil).reverse.findSome? id := by
      rw [← List.map_reverse, List.findSome?_map]
      rfl
    _ = lastGrant (envelopes.map (·.event)) := by
      rw [grants, lastGrant, ← List.map_reverse, ← List.map_reverse, List.findSome?_map, List.findSome?_map]
      rfl

def Tables.dispatches (tables : Tables J) (stream : JobId) : Bool :=
  (foldRows (tables.streamRows stream)).any (·.state.dispatchable)

structure Rebuilt (tables : Tables J) (streams : List JobId) (before after : World J × Transaction J) : Prop where
  committed : after.1.tables = before.1.tables
  rows : after.2.rows = before.2.rows
  globalSeq : after.1.globalSeq = before.1.globalSeq
  drawn : before.1.dispatchSeq ≤ after.1.dispatchSeq
  self : ∀ stream ∈ streams, ∃ job seq, foldRows (tables.streamRows stream) = some job ∧
    (after.2.view after.1.tables).dispatch.lookup stream = rowOf job seq ∧
      ((before.2.view before.1.tables).dispatch.lookup stream = none → before.1.dispatchSeq < seq) ∧
      ∀ row, (before.2.view before.1.tables).dispatch.lookup stream = some row → seq = row.seq
  other : ∀ id, id ∉ streams → (after.2.view after.1.tables).dispatch.lookup id =
    (before.2.view before.1.tables).dispatch.lookup id
  bounded : ∀ stream ∈ streams, (before.2.view before.1.tables).dispatch.lookup stream = none →
    ∀ row, (after.2.view after.1.tables).dispatch.lookup stream = some row → row.seq ≤ after.1.dispatchSeq
  ordered : streams.Pairwise fun first second =>
    (before.2.view before.1.tables).dispatch.lookup first = none →
    (before.2.view before.1.tables).dispatch.lookup second = none →
    ∀ row later, (after.2.view after.1.tables).dispatch.lookup first = some row →
      (after.2.view after.1.tables).dispatch.lookup second = some later → row.seq < later.seq

omit [Serde J] [BuildProfile] in
theorem rowOf_seq {job : Job} {seq : Nat} {row : DispatchRow} (shown : rowOf job seq = some row) :
    row.seq = seq := by
  unfold rowOf at shown
  split at shown <;> cases shown <;> rfl

theorem Rebuilt.cons {tables : Tables J} {stream : JobId} {rest : List JobId} {job : Job}
    {before middle after : World J × Transaction J} (folds : foldRows (tables.streamRows stream) = some job)
    (id : job.id = stream) (fresh : stream ∉ rest) (projected : Projected before middle job)
    (still : middle.1.globalSeq = before.1.globalSeq)
    (later : Rebuilt tables rest middle after) : Rebuilt tables (stream :: rest) before after := by
  subst id
  have first := later.other job.id fresh
  rw [projected.self] at first
  have away : ∀ id ∈ rest, (middle.2.view middle.1.tables).dispatch.lookup id =
      (before.2.view before.1.tables).dispatch.lookup id := by
    intro id member
    exact projected.other id fun same => fresh (same ▸ member)
  -- a row that the table did not have draws the next number
  have drew : (before.2.view before.1.tables).dispatch.lookup job.id = none →
      ∀ row, (after.2.view after.1.tables).dispatch.lookup job.id = some row →
        row.seq = before.1.dispatchSeq + 1 ∧ middle.1.dispatchSeq = before.1.dispatchSeq + 1 := by
    intro missing row shown
    rw [first, missing, Option.elim_none] at shown
    refine ⟨rowOf_seq shown, ?_⟩
    rcases projected.drawn with drawn | ⟨_, none⟩
    · exact drawn
    · rw [none] at shown
      cases shown
  refine ⟨later.committed.trans projected.tables, later.rows.trans projected.rows, later.globalSeq.trans still,
    projected.seq_le.trans later.drawn, ?_, ?_, ?_, ?_⟩
  · rw [List.forall_mem_cons]
    constructor
    · refine ⟨job, _, folds, first, ?_, ?_⟩
      · intro missing
        rw [missing]
        exact Nat.lt_succ_self _
      · intro row present
        rw [present]
        rfl
    · intro id member
      obtain ⟨next, seq, folds, shown, draws, keeps⟩ := later.self id member
      rw [away id member] at draws keeps
      exact ⟨next, seq, folds, shown, fun missing => projected.seq_le.trans_lt (draws missing), keeps⟩
  · intro id apart
    rw [List.mem_cons, not_or] at apart
    rw [later.other id apart.2, projected.other id apart.1]
  · rw [List.forall_mem_cons]
    constructor
    · intro missing row shown
      obtain ⟨number, drawn⟩ := drew missing row shown
      have above := later.drawn
      omega
    · intro id member missing
      exact later.bounded id member ((away id member).trans missing)
  · refine List.pairwise_cons.mpr ⟨?_, ?_⟩
    · intro id member missing absent row last shown present
      obtain ⟨next, seq, _, found, draws, _⟩ := later.self id member
      obtain ⟨number, drawn⟩ := drew missing row shown
      rw [found] at present
      have above := draws ((away id member).trans absent)
      rw [rowOf_seq present]
      omega
    · refine later.ordered.imp_of_mem ?_
      intro left right member listed ordered missing absent
      exact ordered ((away left member).trans missing) ((away right listed).trans absent)

omit [Serde J] in
theorem countDispatchable_counts (job : Job) (projected : UInt32)
    (counts : BuildProfile.overflowChecks = true →
      projected.toNat + (if job.state.dispatchable then 1 else 0) < 2 ^ 32) :
    ∃ next, countDispatchable job projected = .ok next ∧
      next.toNat = (projected.toNat + if job.state.dispatchable then 1 else 0) % 2 ^ 32 := by
  unfold countDispatchable
  cases dispatchable : job.state.dispatchable with
  | true =>
    rw [dispatchable] at counts
    obtain ⟨next, counted⟩ := u32Succ_counts counts
    rw [if_pos rfl, counted]
    exact ⟨next, rfl, u32Succ_mod counted⟩
  | false => exact ⟨projected, rfl, (Nat.mod_eq_of_lt projected.toNat_lt).symm⟩

theorem rebuildStreams_alone {tables : Tables J} {streams : List JobId} (distinct : streams.Nodup)
    (folds : ∀ stream ∈ streams, ∃ job, foldRows (tables.streamRows stream) = some job)
    (state : World J × Transaction J) (events : (state.2.view state.1.tables).events = tables.events)
    (projected : UInt32)
    (counts : BuildProfile.overflowChecks = true →
      projected.toNat + streams.countP tables.dispatches < 2 ^ 32) :
    ∃ after count, (rebuildStreams streams projected).run Stmt.alone state = (after, .ok count) ∧
      count.toNat = (projected.toNat + streams.countP tables.dispatches) % 2 ^ 32 ∧
      Rebuilt tables streams state after := by
  induction streams generalizing state projected with
  | nil =>
    exact ⟨state, projected, rfl, (Nat.mod_eq_of_lt projected.toNat_lt).symm, rfl, rfl, rfl, le_rfl, by simp,
      fun _ _ => rfl, by simp, .nil⟩
  | cons stream rest ih =>
    rw [List.nodup_cons] at distinct
    rw [List.forall_mem_cons] at folds
    obtain ⟨⟨job, folded⟩, others⟩ := folds
    obtain ⟨envelopes, decoded, fold⟩ := foldRows_eq_some.mp folded
    have id : job.id = stream := foldRows_id folded fun row member => by simpa using (List.mem_filter.mp member).2
    have load : (loadInTx stream : Tx J EventStoreError _).run Stmt.alone state = (state, .ok envelopes) := by
      refine loadInTx_alone ?_ (Job.fromEvents_sequential fold)
      rw [streamRows_congr events]
      exact decoded
    have folding : (.done (foldStream ("stream " ++ stream.display ++ ": ") envelopes) :
        Tx J EventStoreError Job).run Stmt.alone state = (state, .ok job) := by
      rw [foldStream, fold]
      rfl
    obtain ⟨middle, projects, moved⟩ := projectInTx_alone job state.1 state.2
    have same : (middle.2.view middle.1.tables).events = tables.events := by
      rw [Transaction.view_events, moved.rows, moved.tables, ← Transaction.view_events]
      exact events
    have dispatches : tables.dispatches stream = job.state.dispatchable := by
      rw [Tables.dispatches, folded]
      rfl
    rw [List.countP_cons, dispatches] at counts ⊢
    obtain ⟨next, counted, number⟩ := countDispatchable_counts job projected fun checks => by
      have bound := counts checks
      omega
    have counting : (.done (countDispatchable job projected) : Tx J EventStoreError UInt32).run Stmt.alone
        middle = (middle, .ok next) := by
      rw [counted]
      rfl
    obtain ⟨after, count, ran, total, rebuilt⟩ := ih distinct.2 others middle same next fun checks => by
      have bound := counts checks
      omega
    have still := projectInTx_globalSeq job (state.1, state.2)
    rw [projects] at still
    refine ⟨after, count, ?_, by omega, rebuilt.cons folded id distinct.1 moved still⟩
    rw [rebuildStreams, Program.run_bind_ok Stmt.alone load, Program.run_bind_ok Stmt.alone folding,
      Program.run_bind_ok Stmt.alone projects, Program.run_bind_ok Stmt.alone counting, ran]

omit [Serde J] [BuildProfile] in
theorem Tables.streamsByFirst_nodup (tables : Tables J) : tables.streamsByFirst.Nodup :=
  (List.perm_insertionSort _ _).nodup_iff.mpr (List.nodup_dedup _)

omit [Serde J] [BuildProfile] in
theorem Tables.streamsByFirst_sorted (tables : Tables J) :
    tables.streamsByFirst.Pairwise fun left right => tables.firstSeq left ≤ tables.firstSeq right := by
  have : Std.Total fun left right => tables.firstSeq left ≤ tables.firstSeq right :=
    ⟨fun left right => Nat.le_total _ _⟩
  have : IsTrans JobId fun left right => tables.firstSeq left ≤ tables.firstSeq right :=
    ⟨fun _ _ _ => Nat.le_trans⟩
  exact List.pairwise_insertionSort _ _

omit [Serde J] [BuildProfile] in
theorem Tables.mem_streamsByFirst {tables : Tables J} {stream : JobId} :
    stream ∈ tables.streamsByFirst ↔ tables.streamRows stream ≠ [] := by
  rw [Tables.streamsByFirst, List.mem_insertionSort, List.mem_dedup, List.mem_map, ne_eq, Tables.streamRows,
    List.filter_eq_nil_iff]
  simp

theorem Derived.dispatches {world : World J} (derived : Derived world) (id : JobId) :
    (world.tables.dispatch.lookup id).isSome = world.tables.dispatches id := by
  rw [Tables.dispatches]
  rcases derived.shows id with ⟨none, missing⟩ | ⟨job, folds, columns⟩
  · rw [none, missing, foldRows_nil]
    rfl
  · rw [folds, ← Option.isSome_map (f := DispatchRow.columns), columns, columnsOf_isSome]
    rfl

theorem Derived.missing {world : World J} (derived : Derived world) {id : JobId}
    (unknown : world.tables.streamRows id = []) : world.tables.dispatch.lookup id = none := by
  rcases derived.shows id with ⟨_, missing⟩ | ⟨job, folds, _⟩
  · exact missing
  · rw [unknown, foldRows_nil] at folds
    cases folds

theorem Derived.count {world : World J} (derived : Derived world) :
    world.tables.streamsByFirst.countP world.tables.dispatches = world.tables.dispatch.entries.length := by
  have same : (world.tables.streamsByFirst.filter world.tables.dispatches).Perm world.tables.dispatch.keys := by
    rw [List.perm_ext_iff_of_nodup (world.tables.streamsByFirst_nodup.filter _) world.tables.dispatch.keys_nodup]
    intro id
    rw [List.mem_filter, ← derived.dispatches, Tables.mem_streamsByFirst, AList.lookup_isSome]
    constructor
    · exact And.right
    · intro listed
      refine ⟨?_, listed⟩
      intro unknown
      exact AList.lookup_eq_none.mp (derived.missing unknown) listed
  rw [List.countP_eq_length_filter, same.length_eq, AList.keys, List.keys, List.length_map]

omit [Serde J] [BuildProfile] in
theorem Tables.streamsByFirst_congr {left right : Tables J} (same : left.events = right.events) :
    left.streamsByFirst = right.streamsByFirst := by
  have firsts : left.firstSeq = right.firstSeq := by
    funext stream
    rw [Tables.firstSeq, streamRows_congr same, Tables.firstSeq]
  rw [Tables.streamsByFirst, same, firsts, Tables.streamsByFirst]

theorem Derived.rebuild {world : World J} (derived : Derived world) (start : World J)
    (events : start.tables.events = world.tables.events)
    (counts : BuildProfile.overflowChecks = true → world.tables.dispatch.entries.length < 2 ^ 32) :
    ∃ after count, start.rebuildDispatch = (committed after, .ok count) ∧
      count.toNat = world.tables.dispatch.entries.length % 2 ^ 32 ∧
      Rebuilt world.tables world.tables.streamsByFirst (start, .begin) after := by
  have folds : ∀ stream ∈ world.tables.streamsByFirst, ∃ job,
      foldRows (world.tables.streamRows stream) = some job := by
    intro stream member
    obtain ⟨job, folded, _⟩ := (derived.shows stream).projection (Tables.mem_streamsByFirst.mp member)
    exact ⟨job, folded⟩
  have zero : (0 : UInt32).toNat + world.tables.streamsByFirst.countP world.tables.dispatches =
      world.tables.dispatch.entries.length := by
    rw [UInt32.toNat_zero, Nat.zero_add, derived.count]
  obtain ⟨after, count, ran, number, rebuilt⟩ := rebuildStreams_alone world.tables.streamsByFirst_nodup folds
    (start, .begin) events 0 (by rw [zero]; exact counts)
  refine ⟨after, count, ?_, zero ▸ number, rebuilt⟩
  rw [World.rebuildDispatch, World.transact, Postgres.rebuildDispatch, Tables.streamsByFirst_congr events,
    Program.run_bind_ok Stmt.alone ran]
  rfl

omit [Serde J] [BuildProfile] in
theorem rowOf_of_columns {job : Job} {row : DispatchRow} (columns : columnsOf job = some row.columns) (seq : Nat) :
    rowOf job seq = some { row with seq, leaseExpiresAt := job.state.heldUntil.map timestamptz } := by
  obtain ⟨queue, priority, number, notBefore, leaseId, workerId, expiresAt⟩ := row
  unfold columnsOf at columns
  unfold rowOf
  cases state : job.state <;> simp_all [DispatchRow.columns, JobState.heldUntil]

theorem heldUntil_recorded {rows : List (EventRow J)} {job : Job} (folds : foldRows rows = some job)
    (precise : ∀ deadline, recordedDeadline rows = some deadline → timestamptz deadline = deadline)
    {row : DispatchRow} (columns : columnsOf job = some row.columns) :
    job.state.heldUntil.map timestamptz = row.leaseId.bind fun _ => recordedDeadline rows := by
  obtain ⟨envelopes, decoded, folded⟩ := foldRows_eq_some.mp folds
  have held : ∀ deadline, job.state.heldUntil = some deadline → recordedDeadline rows = some deadline := by
    intro deadline held
    rw [recordedDeadline_eq decoded]
    exact Job.fromEvents_heldUntil folded held
  have lease : row.leaseId = job.state.held := by
    have same := congrArg (Option.map DispatchColumns.leaseId) columns
    unfold columnsOf at same
    cases state : job.state <;> simp_all [JobState.held, DispatchRow.columns]
  rw [lease]
  cases state : job.state with
  | leased worker lease expiresAt | running worker lease expiresAt =>
    rw [state] at held
    have recorded := held expiresAt rfl
    rw [JobState.heldUntil, JobState.held, recorded, Option.map_some, precise expiresAt recorded]
    rfl
  | _ => rfl

/-- The row of a job after `rebuild_dispatch`, from the row it had. -/
def restored (tables : Tables J) (id : JobId) (row : DispatchRow) : DispatchRow :=
  { row with leaseExpiresAt := row.leaseId.bind fun _ => recordedDeadline (tables.streamRows id) }

theorem Derived.restores {world : World J} (derived : Derived world)
    (precise : ∀ id deadline, recordedDeadline (world.tables.streamRows id) = some deadline →
      timestamptz deadline = deadline)
    {start : World J} {after : World J × Transaction J} (empty : ∀ id, world.tables.streamRows id = [] →
      start.tables.dispatch.lookup id = none)
    (rebuilt : Rebuilt world.tables world.tables.streamsByFirst (start, .begin) after) (id : JobId) :
    ∃ seq, (committed after).tables.dispatch.lookup id =
        (world.tables.dispatch.lookup id).map (fun row => { restored world.tables id row with seq }) ∧
      ∀ row, start.tables.dispatch.lookup id = some row → seq = row.seq := by
  change ∃ seq, (after.2.view after.1.tables).dispatch.lookup id = _ ∧ _
  rcases derived.shows id with ⟨known, missing⟩ | ⟨job, folds, columns⟩
  · have unread : id ∉ world.tables.streamsByFirst := fun member => Tables.mem_streamsByFirst.mp member known
    refine ⟨0, ?_, ?_⟩
    · rw [rebuilt.other id unread, missing]
      exact empty id known
    · intro row present
      rw [empty id known] at present
      cases present
  · have known : world.tables.streamRows id ≠ [] := by
      intro none
      rw [none, foldRows_nil] at folds
      cases folds
    obtain ⟨other, seq, same, shown, _, kept⟩ := rebuilt.self id (Tables.mem_streamsByFirst.mpr known)
    rw [folds] at same
    cases same
    refine ⟨seq, ?_, kept⟩
    rw [shown]
    cases present : world.tables.dispatch.lookup id with
    | none =>
      rw [present, ← rowOf_columns job seq, Option.map_none, eq_comm, Option.map_eq_none_iff] at columns
      exact columns
    | some row =>
      rw [present, Option.map_some, eq_comm] at columns
      rw [rowOf_of_columns columns, heldUntil_recorded folds (precise id) columns]
      rfl

omit [BuildProfile] in
theorem recorded_precise {tables : Tables J}
    (precise : ∀ row ∈ tables.events, ∀ deadline, row.grantedUntil = some deadline → timestamptz deadline = deadline)
    (id : JobId) (deadline : DateTime) (found : recordedDeadline (tables.streamRows id) = some deadline) :
    timestamptz deadline = deadline := by
  obtain ⟨row, member, grants⟩ := List.exists_of_findSome?_eq_some found
  rw [List.mem_reverse] at member
  exact precise row (List.mem_filter.mp member).1 deadline grants

/-- Truncating the dispatch table and rebuilding it gives the rows back, with the deadlines the log
    records, and tells their number; rebuilding without truncating also keeps every sequence number.
    It is so exactly while the number fits the counter. -/
theorem rebuild_restores_dispatch {history : List (Record (World J) Operation Answer)} {world : World J}
    (run : Run Serially .empty history world)
    (precise : ∀ row ∈ world.tables.events, ∀ deadline, row.grantedUntil = some deadline →
      timestamptz deadline = deadline) :
    ((∃ rebuilt count, world.truncated.rebuildDispatch = (rebuilt, .ok count) ∧
        count.toNat = world.tables.dispatch.entries.length ∧
        ∀ id, ∃ seq, rebuilt.tables.dispatch.lookup id =
          (world.tables.dispatch.lookup id).map fun row => { restored world.tables id row with seq }) ↔
      world.tables.dispatch.entries.length < 2 ^ 32) ∧
    ((∃ rebuilt count, world.rebuildDispatch = (rebuilt, .ok count) ∧
        count.toNat = world.tables.dispatch.entries.length ∧
        ∀ id, rebuilt.tables.dispatch.lookup id =
          (world.tables.dispatch.lookup id).map (restored world.tables id)) ↔
      world.tables.dispatch.entries.length < 2 ^ 32) := by
  have derived := Run.derived run
  have recorded := recorded_precise precise
  refine ⟨⟨?_, fun few => ?_⟩, ⟨?_, fun few => ?_⟩⟩
  · rintro ⟨_, count, _, number, _⟩
    exact number ▸ count.toNat_lt
  · obtain ⟨after, count, ran, number, rebuilt⟩ := derived.rebuild world.truncated rfl fun _ => few
    refine ⟨committed after, count, ran, number.trans (Nat.mod_eq_of_lt few), ?_⟩
    intro id
    obtain ⟨seq, shown, _⟩ := derived.restores recorded (fun _ _ => rfl) rebuilt id
    exact ⟨seq, shown⟩
  · rintro ⟨_, count, _, number, _⟩
    exact number ▸ count.toNat_lt
  · obtain ⟨after, count, ran, number, rebuilt⟩ := derived.rebuild world rfl fun _ => few
    refine ⟨committed after, count, ran, number.trans (Nat.mod_eq_of_lt few), ?_⟩
    intro id
    obtain ⟨seq, shown, kept⟩ := derived.restores recorded (fun _ => derived.missing) rebuilt id
    rw [shown]
    cases present : world.tables.dispatch.lookup id with
    | none => rfl
    | some row =>
      rw [kept row present]
      rfl

def replaySerially (operations : List Operation) : List (Record (World TypedJson) Operation Answer) × World TypedJson :=
  Run.replay Operation.exec .empty operations

theorem replaySerially_run (operations : List Operation) :
    Run Serially .empty (replaySerially operations).1 (replaySerially operations).2 :=
  Run.of_replay (fun _ _ => rfl) operations

def beatenOperations : List Operation :=
  [.extendLease (Sample.ports 5 4) ⟨3⟩ (.fromSecs 100),
    .leaseNext (Sample.ports 1 3) Sample.queue Sample.worker (.fromSecs 10),
    .append ⟨2⟩ 0 (Sample.command.envelopes (Sample.ports 0 2)),
    .append ⟨1⟩ 0 (Sample.command.envelopes (Sample.ports 0 1))]

omit [BuildProfile] in
theorem rebuild_restores_dispatch_beaten :
    let _ := BuildProfile.release
    let world := (replaySerially beatenOperations).2
    (world.tables.dispatch.lookup ⟨1⟩).map (·.leaseExpiresAt) = some (some (Sample.instant 105)) ∧
    (∃ rebuilt, world.truncated.rebuildDispatch = (rebuilt, .ok 2) ∧
      (rebuilt.tables.dispatch.lookup ⟨1⟩).map (·.leaseExpiresAt) = some (some (Sample.instant 11))) ∧
    ∃ rebuilt, world.rebuildDispatch = (rebuilt, .ok 2) ∧
      ∀ id, rebuilt.tables.dispatch.lookup id =
        (world.tables.dispatch.lookup id).map (restored world.tables id) := by
  intro _
  have general (operations : List Operation) (live recorded : DateTime)
      (precise : ∀ row ∈ (replaySerially operations).2.tables.events, ∀ deadline ∈ row.grantedUntil,
        timestamptz deadline = deadline)
      (seen : let world := (replaySerially operations).2
        (world.tables.dispatch.lookup ⟨1⟩).map (·.leaseExpiresAt) = some (some live) ∧
          (world.tables.dispatch.lookup ⟨1⟩).map (fun row => (restored world.tables ⟨1⟩ row).leaseExpiresAt) =
            some (some recorded) ∧ world.tables.dispatch.entries.length = 2) :
      let world := (replaySerially operations).2
      (world.tables.dispatch.lookup ⟨1⟩).map (·.leaseExpiresAt) = some (some live) ∧
      (∃ rebuilt, world.truncated.rebuildDispatch = (rebuilt, .ok 2) ∧
        (rebuilt.tables.dispatch.lookup ⟨1⟩).map (·.leaseExpiresAt) = some (some recorded)) ∧
      ∃ rebuilt, world.rebuildDispatch = (rebuilt, .ok 2) ∧
        ∀ id, rebuilt.tables.dispatch.lookup id =
          (world.tables.dispatch.lookup id).map (restored world.tables id) := by
    obtain ⟨truncated, kept⟩ := rebuild_restores_dispatch (replaySerially_run operations) precise
    rw [seen.2.2] at truncated kept
    obtain ⟨rebuilt, count, ran, number, rows⟩ := truncated.mpr (by decide)
    obtain ⟨again, total, redone, same, lookups⟩ := kept.mpr (by decide)
    obtain rfl : count = 2 := UInt32.toNat_inj.mp number
    obtain rfl : total = 2 := UInt32.toNat_inj.mp same
    refine ⟨seen.1, ⟨rebuilt, ran, ?_⟩, again, redone, lookups⟩
    obtain ⟨seq, shown⟩ := rows ⟨1⟩
    rw [shown, Option.map_map]
    exact seen.2.1
  exact general beatenOperations _ _ (by decide +kernel) (by decide +kernel)

def nthEnqueue (n : Nat) : Operation :=
  .append ⟨BitVec.ofNat 128 n⟩ 0 (Sample.command.envelopes (Sample.ports 0 n))

/-- The database after the first `n` jobs were enqueued. -/
structure Crowded (n : Nat) (world : World TypedJson) : Prop where
  streams : ∀ row ∈ world.tables.events, row.streamId.uuid.toNat < n
  events : world.tables.events.map (·.eventId) = (List.range n).map fun k => ⟨BitVec.ofNat 128 (10 * k)⟩
  dispatch : ∀ id, id ∈ world.tables.dispatch ↔ id.uuid.toNat < n

omit [BuildProfile] in
theorem ofNat_toNat {n : Nat} (few : n < 2 ^ 36) : (BitVec.ofNat 128 n).toNat = n := by
  rw [BitVec.toNat_ofNat]
  exact Nat.mod_eq_of_lt (few.trans (by decide))

omit [BuildProfile] in
theorem eventIds_nodup {n : Nat} (few : n ≤ 2 ^ 32) :
    ((List.range n).map fun k => (⟨BitVec.ofNat 128 (10 * k)⟩ : EventId)).Nodup := by
  refine List.Nodup.map_on ?_ List.nodup_range
  intro left first right second same
  rw [List.mem_range] at first second
  have uuids : BitVec.ofNat 128 (10 * left) = BitVec.ofNat 128 (10 * right) := congrArg UuidNewtype.uuid same
  have numbers := congrArg BitVec.toNat uuids
  rw [ofNat_toNat (by omega), ofNat_toNat (by omega)] at numbers
  omega

omit [BuildProfile] in
theorem Crowded.fresh {n : Nat} {world : World TypedJson} (crowded : Crowded n world) (few : n < 2 ^ 32) :
    world.tables.streamRows ⟨BitVec.ofNat 128 n⟩ = [] := by
  rw [Tables.streamRows, List.filter_eq_nil_iff]
  intro row member same
  have below := crowded.streams row member
  rw [decide_eq_true_eq] at same
  rw [same, ofNat_toNat (by omega)] at below
  omega

omit [BuildProfile] in
theorem nthEnqueue_fits (n : Nat) :
    ∀ envelope ∈ Sample.command.envelopes (Sample.ports 0 n), Fits TypedJson envelope := by
  intro envelope member
  obtain rfl := List.mem_singleton.mp member
  refine ⟨rfl, ?_, rfl, ?_, ⟨_, rfl, rfl⟩, ⟨_, rfl⟩⟩
  · change 1 < 2 ^ 63
    decide
  · intro time listed
    cases listed

omit [BuildProfile] in
theorem nthEnqueue_continues (n : Nat) :
    continues ⟨BitVec.ofNat 128 n⟩ 0 (Sample.command.envelopes (Sample.ports 0 n)) = true :=
  continues_iff.mpr ⟨⟨rfl, trivial⟩, fun envelope member => by
    obtain rfl := List.mem_singleton.mp member
    rfl⟩

omit [BuildProfile] in
theorem Crowded.saved {n : Nat} {world : World TypedJson} (crowded : Crowded n world) (few : n < 2 ^ 32)
    {last : World TypedJson × Transaction TypedJson} {job : Job}
    (saved : Saved world last ⟨BitVec.ofNat 128 n⟩ (Sample.command.envelopes (Sample.ports 0 n)) job)
    (shown : (rowOf job (world.rankFor ⟨BitVec.ofNat 128 n⟩)).isSome = true) :
    Crowded (n + 1) (committed last) := by
  obtain ⟨rows, read, events⟩ := saved.events
  refine ⟨?_, ?_, ?_⟩
  · change ∀ row ∈ (last.2.view last.1.tables).events, _
    rw [events]
    intro row member
    rcases List.mem_append.mp member with old | new
    · exact (crowded.streams row old).trans (Nat.lt_succ_self n)
    · have listed := List.mem_map_of_mem (f := (·.streamId)) new
      rw [decoded_map (fun row envelope read => (envelopeFromRow_ids read).2.1) read] at listed
      rw [List.mem_singleton.mp listed]
      change (BitVec.ofNat 128 n).toNat < n + 1
      rw [ofNat_toNat (by omega)]
      exact Nat.lt_succ_self n
  · change (last.2.view last.1.tables).events.map _ = _
    rw [events, List.map_append, crowded.events, List.range_succ, List.map_append,
      decoded_map (fun row envelope read => (envelopeFromRow_ids read).1) read]
    rfl
  · intro id
    change id ∈ (last.2.view last.1.tables).dispatch ↔ _
    rw [← AList.lookup_isSome]
    by_cases same : id = ⟨BitVec.ofNat 128 n⟩
    · subst same
      rw [saved.self, ofNat_toNat (by omega)]
      exact iff_of_true shown (Nat.lt_succ_self n)
    · rw [saved.other id same, AList.lookup_isSome, crowded.dispatch]
      have different : id.uuid.toNat ≠ n := by
        intro equal
        refine same (UuidNewtype.number_injective ?_)
        change id.uuid.toNat = (BitVec.ofNat 128 n).toNat
        rw [ofNat_toNat (by omega), equal]
      omega

theorem Crowded.enqueue {n : Nat} {world : World TypedJson} (crowded : Crowded n world) (few : n < 2 ^ 32) :
    ∃ after, Serially world (nthEnqueue n) (.appended (.ok ())) after ∧ Crowded (n + 1) after := by
  have decoded : envelopesFromRows (world.tables.streamRows ⟨BitVec.ofNat 128 n⟩) = .ok [] := by
    rw [crowded.fresh few]
    rfl
  obtain ⟨last, result, ran, _, _, ends⟩ := appendInTx_alone 0 writes_begin decoded trivial (nthEnqueue_fits n)
  cases ends with
  | conflict stale => exact absurd rfl stale
  | malformed message current broken =>
    rw [nthEnqueue_continues] at broken
    cases broken
  | duplicate message current accepted taken =>
    refine absurd ?_ taken
    rw [crowded.events]
    have all := eventIds_nodup (Nat.succ_le_of_lt few)
    rw [List.range_succ, List.map_append] at all
    exact all
  | refused message error current accepted folded => cases folded
  | unwound current accepted folded => cases folded
  | saved job current accepted folded saved =>
    cases folded
    refine ⟨committed last, ?_, crowded.saved few saved rfl⟩
    rw [Serially, nthEnqueue, Operation.exec]
    simp only [EventStore.append, World.transact, Postgres.append]
    rw [Program.run_bind_ok Stmt.alone ran]
    rfl

theorem Crowded.exists (n : Nat) (few : n ≤ 2 ^ 32) :
    ∃ (history : List (Record (World TypedJson) Operation Answer)) (world : World TypedJson),
      Run Serially .empty history world ∧ (∀ record ∈ history, record.result = .appended (.ok ())) ∧
        Crowded n world := by
  induction n with
  | zero =>
    exact ⟨[], .empty, .refl, by simp, ⟨by rintro _ ⟨⟩, rfl, fun id => ⟨by rintro ⟨⟩, by omega⟩⟩⟩
  | succ n ih =>
    obtain ⟨history, world, run, succeeds, crowded⟩ := ih (by omega)
    obtain ⟨after, step, grown⟩ := crowded.enqueue (by omega)
    exact ⟨_, after, .step run step, List.forall_mem_cons.mpr ⟨rfl, succeeds⟩, grown⟩

omit [BuildProfile] in
theorem Crowded.rows {n : Nat} {world : World TypedJson} (crowded : Crowded n world) (few : n ≤ 2 ^ 32) :
    world.tables.dispatch.entries.length = n := by
  have same : (world.tables.dispatch.keys.map fun id => id.uuid.toNat).Perm (List.range n) := by
    rw [List.perm_ext_iff_of_nodup (world.tables.dispatch.keys_nodup.map UuidNewtype.number_injective)
      List.nodup_range]
    intro number
    rw [List.mem_map, List.mem_range]
    constructor
    · rintro ⟨id, listed, rfl⟩
      exact (crowded.dispatch id).mp listed
    · intro below
      refine ⟨⟨BitVec.ofNat 128 number⟩, (crowded.dispatch _).mpr ?_, ?_⟩ <;> rw [ofNat_toNat (by omega)]
      exact below
  have length := same.length_eq
  rw [List.length_map, List.length_range, AList.keys, List.keys, List.length_map] at length
  exact length

omit [BuildProfile] in
/-- With as many jobs as there are counts the release build tells that it projected none. -/
theorem rebuild_miscounts_full_table :
    let _ := BuildProfile.release
    ∃ (history : List (Record (World TypedJson) Operation Answer)) (world rebuilt : World TypedJson),
      Run Serially .empty history world ∧ (∀ record ∈ history, record.result = .appended (.ok ())) ∧
      world.tables.dispatch.entries.length = 2 ^ 32 ∧ world.truncated.rebuildDispatch = (rebuilt, .ok 0) := by
  intro _
  obtain ⟨history, world, run, succeeds, crowded⟩ := Crowded.exists (2 ^ 32) le_rfl
  have full := crowded.rows le_rfl
  obtain ⟨after, count, ran, number, _⟩ := (Run.derived run).rebuild world.truncated rfl (by rintro ⟨⟩)
  rw [full, Nat.mod_self] at number
  obtain rfl : count = 0 := UInt32.toNat_inj.mp number
  exact ⟨history, world, committed after, run, succeeds, full, ran⟩

end Koine.Postgres
