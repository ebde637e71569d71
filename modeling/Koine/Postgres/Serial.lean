import Koine.Postgres.Behaviour

namespace Koine.Postgres

open Library Domain Application

section Inserts

variable {J : Type} [Serde J]

structure Stored (before after : World J × Transaction J) (stream : JobId) (batch : List EventEnvelope)
    (rows : List (EventRow J)) (outs : List (OutboxRow J)) : Prop where
  tables : after.1.tables = before.1.tables
  dispatchSeq : after.1.dispatchSeq = before.1.dispatchSeq
  globalSeq : after.1.globalSeq = before.1.globalSeq + rows.length
  added : after.2.rows = before.2.rows ++ rows
  queued : after.2.outs = before.2.outs ++ outs
  moved : ∀ id, after.2.moved id = before.2.moved id
  encoded : List.Forall₂ (Encodes stream) batch rows
  wrapped : List.Forall₂ (Wraps stream) batch outs
  numbers : rows.map (·.globalSeq) = List.range' (before.1.globalSeq + 1) rows.length

theorem insertEnvelopes_cons_ok {stream : JobId} {expected : Nat} {envelope : EventEnvelope}
    {rest : List EventEnvelope} {world : World J} {tx : Transaction J} {after : World J × Transaction J}
    (ran : (insertEnvelopes stream expected (envelope :: rest)).run Stmt.alone (world, tx) = (after, .ok ())) :
    ∃ row out, Encodes stream envelope row ∧ Wraps stream envelope out ∧
      row.globalSeq = world.globalSeq + 1 ∧
      (insertEnvelopes stream expected rest).run Stmt.alone
        ({ world with globalSeq := world.globalSeq + 1, outboxSeq := world.outboxSeq + 1 },
          (tx.write (.event row)).write (.outbox out)) = (after, .ok ()) := by
  rw [insertEnvelopes, Program.run_bind_eq_ok] at ran
  obtain ⟨_, payload, encodes, ran⟩ := ran
  cases encoded : (Serde.encodeEvent envelope.event : Except String J) with
  | error message =>
    rw [encoded] at encodes
    cases encodes
  | ok json =>
    rw [encoded] at encodes
    cases encodes
    split at ran
    · cases ran
    · rename_i version
      split at ran
      · cases ran
      · rename_i schema
        rw [Program.run_bind_eq_ok] at ran
        obtain ⟨middle, outcome, insert, ran⟩ := ran
        simp only [query, Program.issue, Program.run, Stmt.alone, Stmt.exec] at insert
        split at insert
        · cases insert
          cases ran
        · split at insert
          · cases insert
            cases ran
          · cases insert
            simp only [Program.run_bind_eq_ok] at ran
            obtain ⟨_, wrapped, wraps, _, _, written, ran⟩ := ran
            cases wrapping : (Serde.encodeEnvelope envelope : Except String J) with
            | error message =>
              rw [wrapping] at wraps
              cases wraps
            | ok json =>
              rw [wrapping] at wraps
              cases wraps
              cases written
              exact ⟨_, _, ⟨_, encoded, by omega, by omega, rfl⟩, ⟨_, wrapping, rfl⟩, rfl, ran⟩

theorem insertEnvelopes_ok {stream : JobId} {expected : Nat} {batch : List EventEnvelope} {world : World J}
    {tx : Transaction J} {after : World J × Transaction J}
    (ran : (insertEnvelopes stream expected batch).run Stmt.alone (world, tx) = (after, .ok ())) :
    ∃ rows outs, Stored (world, tx) after stream batch rows outs := by
  induction batch generalizing world tx with
  | nil =>
    cases ran
    exact ⟨[], [], rfl, rfl, rfl, (List.append_nil _).symm, (List.append_nil _).symm, fun _ => rfl, .nil, .nil, rfl⟩
  | cons envelope rest ih =>
    obtain ⟨row, out, encodes, wraps, number, ran⟩ := insertEnvelopes_cons_ok ran
    obtain ⟨rows, outs, stored⟩ := ih ran
    refine ⟨row :: rows, out :: outs, stored.tables, stored.dispatchSeq, ?_, ?_, ?_, ?_,
      .cons encodes stored.encoded, .cons wraps stored.wrapped, ?_⟩
    · have drawn := stored.globalSeq
      rw [List.length_cons]
      simp only at drawn ⊢
      omega
    · rw [stored.added, Transaction.rows_write, Transaction.rows_write, List.append_nil, List.append_assoc]
      rfl
    · rw [stored.queued, Transaction.outs_write, Transaction.outs_write, List.append_nil, List.append_assoc]
      rfl
    · intro id
      rw [stored.moved, Transaction.moved_write, Transaction.moved_write]
    · rw [List.map_cons, stored.numbers, List.length_cons, List.range'_succ, number]

theorem Stored.named {before after : World J × Transaction J} {stream : JobId} {batch : List EventEnvelope}
    {rows : List (EventRow J)} {outs : List (OutboxRow J)} (stored : Stored before after stream batch rows outs) :
    ∀ row ∈ rows, row.streamId = stream := by
  intro row member
  obtain ⟨envelope, _, payload, _, _, _, same⟩ := exists_of_mem_right stored.encoded member
  rw [same]
  rfl

theorem Stored.versions {before after : World J × Transaction J} {stream : JobId} {batch : List EventEnvelope}
    {rows : List (EventRow J)} {outs : List (OutboxRow J)} (stored : Stored before after stream batch rows outs) :
    rows.map (·.version) = batch.map (·.version) := by
  refine (map_eq_of_forall₂ stored.encoded ?_).symm
  rintro envelope row ⟨payload, _, _, _, same⟩
  rw [same]
  rfl

end Inserts

section Worlds

variable {J : Type} [Serde J] [BuildProfile]

structure Grown (before after : World J) (stream : JobId) (rows : List (EventRow J)) (job : Job) : Prop where
  events : after.tables.events = before.tables.events ++ rows
  named : ∀ row ∈ rows, row.streamId = stream
  versions : rows.map (·.version) =
    List.range' (((before.tables.streamRows stream).map (·.version)).max?.getD 0 + 1) rows.length
  numbers : rows.map (·.globalSeq) = List.range' (before.globalSeq + 1) rows.length
  globalSeq : after.globalSeq = before.globalSeq + rows.length
  folds : foldRows (inOrder (after.tables.streamRows stream)) = some job
  self : after.tables.dispatch.lookup stream = rowOf job (before.rankFor stream)
  other : ∀ id, id ≠ stream → after.tables.dispatch.lookup id = before.tables.dispatch.lookup id
  drawn : after.dispatchSeq = before.dispatchSeq + 1 ∨
    (after.dispatchSeq = before.dispatchSeq ∧ ∀ seq, rowOf job seq = none)

omit [BuildProfile] in
theorem loadInTx_ok {stream : JobId} {state after : World J × Transaction J} {envelopes : List EventEnvelope}
    (ran : (loadInTx stream : Tx J EventStoreError _).run Stmt.alone state = (after, .ok envelopes)) :
    after = state ∧
      envelopesFromRows (inOrder ((state.2.view state.1.tables).streamRows stream)) = .ok envelopes := by
  rw [loadInTx, Program.run_bind_eq_ok] at ran
  obtain ⟨_, rows, select, ran⟩ := ran
  cases select
  exact ⟨(congrArg Prod.fst ran).symm, congrArg Prod.snd ran⟩

omit [Serde J] [BuildProfile] in
theorem projectInTx_globalSeq (job : Job) (state : World J × Transaction J) :
    ((projectInTx job : Tx J EventStoreError Unit).run Stmt.alone state).1.1.globalSeq = state.1.globalSeq := by
  have deleted : ((query (Stmt.deleteDispatch job.id) : Tx J EventStoreError Unit).run Stmt.alone
      state).1.1.globalSeq = state.1.globalSeq := by
    simp only [query, Program.issue, Program.run, Stmt.alone, Stmt.exec]
    split <;> rfl
  unfold projectInTx
  cases job.state with
  | pending | leased | running => rfl
  | succeeded | parked | cancelled | suspended | awaitingApproval => exact deleted

omit [Serde J] [BuildProfile] in
theorem projectInTx_outs (job : Job) (state : World J × Transaction J) :
    ((projectInTx job : Tx J EventStoreError Unit).run Stmt.alone state).1.2.outs = state.2.outs := by
  have deleted : ((query (Stmt.deleteDispatch job.id) : Tx J EventStoreError Unit).run Stmt.alone
      state).1.2.outs = state.2.outs := by
    simp only [query, Program.issue, Program.run, Stmt.alone, Stmt.exec]
    split
    · rw [Transaction.outs_write, List.append_nil]
    · rfl
  unfold projectInTx
  cases job.state with
  | pending | leased | running => exact (Transaction.outs_write _ (.put _ _)).trans (List.append_nil _)
  | succeeded | parked | cancelled | suspended | awaitingApproval => exact deleted

omit [Serde J] [BuildProfile] in
theorem OnlyAppends.appendsOnly {ε α : Type} {program : Tx J ε α} (only : OnlyAppends program) (world : World J)
    {tx : Transaction J} (start : tx.AppendsOnly) :
    (program.run Stmt.alone (world, tx)).1.2.AppendsOnly := by
  refine Program.Obeys.run Stmt.alone (fun state => state.2.AppendsOnly) ?_ only start
  intro _ statement state appends kept
  cases statement with
  | insertEvent columns =>
    simp only [Stmt.alone, Stmt.exec]
    split
    · exact kept
    · split
      · exact kept
      · exact kept.write (by simp)
  | insertOutbox | upsertPending | upsertLeased => exact kept.write (by simp)
  | deleteDispatch =>
    simp only [Stmt.alone, Stmt.exec]
    split
    · exact kept.write (by simp)
    · exact kept
  | maxVersion | loadStream | notifyDispatch => exact kept
  | _ => cases appends

theorem appendInTx_stages {stream : JobId} {expected : Nat} {batch : List EventEnvelope} {world : World J}
    {tx : Transaction J} {after : World J × Transaction J} {job : Job} (clean : tx.writes = [])
    (ran : (appendInTx stream expected batch).run Stmt.alone (world, tx) = (after, .ok job)) :
    ∃ rows outs stored envelopes,
      continues stream (((world.tables.streamRows stream).map (·.version)).max?.getD 0) batch = true ∧
      Stored (world, tx) stored stream batch rows outs ∧
      envelopesFromRows (inOrder ((stored.2.view stored.1.tables).streamRows stream)) = .ok envelopes ∧
      Job.fromEvents envelopes = .ok job ∧
      (projectInTx job : Tx J EventStoreError Unit).run Stmt.alone stored = (after, .ok ()) := by
  have view : tx.view world.tables = world.tables := by
    rw [Transaction.view, clean]
    rfl
  rw [appendInTx, Program.run_bind_eq_ok] at ran
  obtain ⟨_, newest, select, ran⟩ := ran
  cases select
  simp only [Stmt.alone, Stmt.exec, view] at ran
  split at ran
  · cases ran
  split at ran
  swap
  · cases ran
  rename_i accepted
  simp only [Program.run_bind_eq_ok] at ran
  obtain ⟨_, _, inserts, stored, envelopes, loads, _, _, folding, _, _, projects, done⟩ := ran
  obtain ⟨rows, outs, inserted⟩ := insertEnvelopes_ok inserts
  obtain ⟨rfl, decoded⟩ := loadInTx_ok loads
  cases folds : foldStream "stream does not fold: " envelopes with
  | err error =>
    rw [folds] at folding
    cases folding
  | panic =>
    rw [folds] at folding
    cases folding
  | ok job =>
    rw [folds] at folding
    cases folding
    rw [foldStream, Outcome.mapErr_eq_ok] at folds
    cases done
    exact ⟨rows, outs, stored, envelopes, accepted, inserted, decoded, folds, projects⟩

theorem appendInTx_ok {stream : JobId} {expected : Nat} {batch : List EventEnvelope} {world : World J}
    {tx : Transaction J} {after : World J × Transaction J} {job : Job} (clean : tx.writes = [])
    (ran : (appendInTx stream expected batch).run Stmt.alone (world, tx) = (after, .ok job)) :
    ∃ rows outs, Grown world (committed after) stream rows job ∧
      List.Forall₂ (Encodes stream) batch rows ∧ List.Forall₂ (Wraps stream) batch outs ∧
      (committed after).tables.outbox = world.tables.outbox ++ outs := by
  obtain ⟨rows, outs, stored, envelopes, accepted, inserted, decoded, folds, projects⟩ := appendInTx_stages clean ran
  obtain ⟨last, runs, projected⟩ := projectInTx_alone job stored.1 stored.2
  have same := projects.symm.trans runs
  cases same
  have listed : (committed after).tables.events = world.tables.events ++ rows := by
    have none : tx.rows = [] := by
      rw [Transaction.rows, clean]
      rfl
    change (after.2.view after.1.tables).events = _
    rw [Transaction.view_events, projected.rows, projected.tables, inserted.tables, inserted.added, none,
      List.nil_append]
  have whole : (committed after).tables.streamRows stream = (stored.2.view stored.1.tables).streamRows stream := by
    change List.filter _ (after.2.view after.1.tables).events = List.filter _ _
    rw [Transaction.view_events, Transaction.view_events, projected.rows, projected.tables]
  have folded : foldRows (inOrder ((committed after).tables.streamRows stream)) = some job := by
    rw [whole]
    exact foldRows_eq_some.mpr ⟨envelopes, decoded, folds⟩
  have id : job.id = stream := by
    refine foldRows_id folded ?_
    intro row member
    rw [inOrder, List.mem_insertionSort] at member
    simpa using (List.mem_filter.mp member).2
  have dispatch : ∀ other, (stored.2.view stored.1.tables).dispatch.lookup other =
      world.tables.dispatch.lookup other := by
    intro other
    have unmoved : tx.moved other = none := by
      rw [Transaction.moved, clean]
      rfl
    rw [Transaction.view_dispatch, inserted.moved, unmoved, inserted.tables]
    rfl
  have queued : (committed after).tables.outbox = world.tables.outbox ++ outs := by
    have none : tx.outs = [] := by
      rw [Transaction.outs, clean]
      rfl
    have only : after.2.AppendsOnly := by
      have start : tx.AppendsOnly := by
        intro seqs listed
        rw [clean] at listed
        cases listed
      have kept := (appendInTx_onlyAppends stream expected batch).appendsOnly world start
      rw [ran] at kept
      exact kept
    have kept := projectInTx_outs job stored
    rw [projects] at kept
    change (after.2.view after.1.tables).outbox = _
    rw [(Transaction.view_outbox only _).1, kept, projected.tables, inserted.tables, inserted.queued, none,
      List.nil_append]
  refine ⟨rows, outs, ⟨listed, inserted.named, ?_, inserted.numbers, ?_, folded, ?_, ?_, ?_⟩, inserted.encoded,
    inserted.wrapped, queued⟩
  · rw [inserted.versions, sequential_versions (continues_iff.mp accepted).1, inserted.encoded.length_eq]
  · rw [← inserted.globalSeq, ← projectInTx_globalSeq job stored, projects]
    rfl
  · rw [← id]
    change (after.2.view after.1.tables).dispatch.lookup job.id = _
    rw [projected.self, dispatch, inserted.dispatchSeq]
    rfl
  · intro other different
    rw [← id] at different
    exact (projected.other other different).trans (dispatch other)
  · rw [← inserted.dispatchSeq]
    exact projected.drawn

def DispatchRow.undated (row : DispatchRow) : DispatchRow := { row with leaseExpiresAt := none }

/-- What one operation does to the database when nothing runs beside it. -/
inductive Moves (before after : World J) : Prop where
  | still (tables : after.tables = before.tables) (globalSeq : before.globalSeq ≤ after.globalSeq)
      (dispatchSeq : before.dispatchSeq ≤ after.dispatchSeq)
  | grown (stream : JobId) (rows : List (EventRow J)) (job : Job) (grown : Grown before after stream rows job)
  | beaten (events : after.tables.events = before.tables.events) (globalSeq : after.globalSeq = before.globalSeq)
      (dispatchSeq : after.dispatchSeq = before.dispatchSeq)
      (rows : ∀ id, (after.tables.dispatch.lookup id).map DispatchRow.undated =
        (before.tables.dispatch.lookup id).map DispatchRow.undated)

omit [Serde J] [BuildProfile] in
theorem run_sequences {ε α : Type} (program : Tx J ε α) (world : World J) (tx : Transaction J) :
    world.globalSeq ≤ (program.run Stmt.alone (world, tx)).1.1.globalSeq ∧
      world.dispatchSeq ≤ (program.run Stmt.alone (world, tx)).1.1.dispatchSeq := by
  refine Program.run_keeps Stmt.alone
    (fun state => world.globalSeq ≤ state.1.globalSeq ∧ world.dispatchSeq ≤ state.1.dispatchSeq) ?_ program
    ⟨le_rfl, le_rfl⟩
  intro statement state ⟨global, dispatch⟩
  cases statement with
  | insertEvent columns =>
    simp only [Stmt.alone, Stmt.exec]
    split
    · exact ⟨global.trans (Nat.le_succ _), dispatch⟩
    · split <;> exact ⟨global.trans (Nat.le_succ _), dispatch⟩
  | upsertPending | upsertLeased => exact ⟨global, dispatch.trans (Nat.le_succ _)⟩
  | deleteDispatch =>
    simp only [Stmt.alone, Stmt.exec]
    split <;> exact ⟨global, dispatch⟩
  | selectEligible | selectExpired =>
    simp only [Stmt.alone, Stmt.exec]
    split <;> exact ⟨global, dispatch⟩
  | _ => exact ⟨global, dispatch⟩

/-- A part of a transaction that fails leaves the database as it was, so only what follows a part that
    succeeds has to be looked at. -/
theorem moves_bind {ε α β : Type} {body : Tx J ε α} (uncommitted : Uncommitted body) {rest : α → Tx J ε β}
    {world : World J} {tx : Transaction J}
    (goes : ∀ state value, body.run Stmt.alone (world, tx) = (state, .ok value) →
      Moves world ((rest value).run Stmt.alone state).1.1) :
    Moves world ((body >>= rest).run Stmt.alone (world, tx)).1.1 := by
  have tables := (uncommitted.tables world tx).1
  obtain ⟨global, dispatch⟩ := run_sequences body world tx
  rw [Program.run_bind]
  rcases ran : body.run Stmt.alone (world, tx) with ⟨state, value | error | _⟩
  · exact goes state value ran
  · rw [ran] at tables global dispatch
    exact .still tables global dispatch
  · rw [ran] at tables global dispatch
    exact .still tables global dispatch

theorem append_moves (world : World J) (stream : JobId) (expected : Nat) (batch : List EventEnvelope) :
    Moves world (EventStore.append world stream expected batch).1 := by
  refine moves_bind (appendInTx_uncommitted stream expected batch) ?_
  intro state job ran
  obtain ⟨rows, _, grown, _⟩ := appendInTx_ok rfl ran
  exact .grown stream rows job grown

omit [Serde J] [BuildProfile] in
theorem selectEligible_clean {queue : QueueName} {now : DateTime} {world : World J}
    {state : World J × Transaction J} {picked : Option JobId}
    (ran : (query (Stmt.selectEligible queue now) : Tx J DispatchError _).run Stmt.alone (world, .begin) =
      (state, .ok picked)) : ∃ tx : Transaction J, state = (world, tx) ∧ tx.writes = [] := by
  simp only [query, Program.issue, Program.run, Stmt.alone, Stmt.exec] at ran
  split at ran <;> cases ran <;> exact ⟨_, rfl, rfl⟩

omit [Serde J] [BuildProfile] in
theorem selectExpired_clean {now : DateTime} {world : World J} {state : World J × Transaction J}
    {picked : Option JobId}
    (ran : (query (Stmt.selectExpired now) : Tx J DispatchError _).run Stmt.alone (world, .begin) =
      (state, .ok picked)) : ∃ tx : Transaction J, state = (world, tx) ∧ tx.writes = [] := by
  simp only [query, Program.issue, Program.run, Stmt.alone, Stmt.exec] at ran
  split at ran <;> cases ran <;> exact ⟨_, rfl, rfl⟩

omit [Serde J] [BuildProfile] in
theorem query_uncommitted {ε : Type} {statement : Stmt J} (other : statement ≠ .commit) :
    Uncommitted (query statement : Tx J ε _) := ⟨other, fun _ => trivial⟩

omit [BuildProfile] in
theorem loadInTx_uncommitted (stream : JobId) : Uncommitted (loadInTx stream : Tx J EventStoreError _) := by
  rw [loadInTx, Uncommitted, Program.obeys_bind]
  refine ⟨by simp, ?_⟩
  intro rows
  simp only [Program.Obeys]
  cases envelopesFromRows rows <;> trivial

omit [Serde J] [BuildProfile] in
theorem done_uncommitted {ε α : Type} (result : Outcome ε α) : Uncommitted (.done result : Tx J ε α) := by
  cases result <;> trivial

theorem claim_moves (world : World J) (ports : Ports) (queue : QueueName) (worker : WorkerId) (ttl : Duration) :
    Moves world (Dispatcher.leaseNext world ports queue worker ttl).1 := by
  change Moves world ((claim ports queue worker ttl).run Stmt.alone (world, .begin)).1.1
  unfold claim
  refine moves_bind (query_uncommitted (by simp)) ?_
  intro state picked select
  obtain ⟨tx, rfl, clean⟩ := selectEligible_clean select
  cases picked with
  | none => exact .still rfl le_rfl le_rfl
  | some id =>
    refine moves_bind (Program.obeys_mapErr.mpr (loadInTx_uncommitted id)) ?_
    intro state stream load
    obtain ⟨rfl, _⟩ := loadInTx_ok ((Program.run_mapErr_eq_ok Stmt.alone).mp load)
    refine moves_bind (done_uncommitted _) ?_
    intro state job fold
    obtain ⟨rfl, _⟩ := (Program.run_done_eq_ok Stmt.alone).mp fold
    refine moves_bind (done_uncommitted _) ?_
    intro state event grant
    obtain ⟨rfl, _⟩ := (Program.run_done_eq_ok Stmt.alone).mp grant
    simp only
    split
    · refine moves_bind (Program.obeys_mapErr.mpr (appendInTx_uncommitted id _ _)) ?_
      intro state folded ran
      obtain ⟨rows, _, grown, _⟩ := appendInTx_ok clean ((Program.run_mapErr_eq_ok Stmt.alone).mp ran)
      exact .grown id rows folded grown
    · exact .still rfl le_rfl le_rfl

theorem retire_moves (world : World J) (ports : Ports) :
    Moves world (Dispatcher.retireNextExpiredLease world ports).1 := by
  change Moves world ((retireOne ports).run Stmt.alone (world, .begin)).1.1
  unfold retireOne
  refine moves_bind (query_uncommitted (by simp)) ?_
  intro state picked select
  obtain ⟨tx, rfl, clean⟩ := selectExpired_clean select
  cases picked with
  | none =>
    have view : tx.view world.tables = world.tables := by
      rw [Transaction.view, clean]
      rfl
    exact .still view le_rfl le_rfl
  | some id =>
    refine moves_bind (Program.obeys_mapErr.mpr (loadInTx_uncommitted id)) ?_
    intro state stream load
    obtain ⟨rfl, _⟩ := loadInTx_ok ((Program.run_mapErr_eq_ok Stmt.alone).mp load)
    refine moves_bind (done_uncommitted _) ?_
    intro state job fold
    obtain ⟨rfl, _⟩ := (Program.run_done_eq_ok Stmt.alone).mp fold
    refine moves_bind (done_uncommitted _) ?_
    intro state events expiry
    obtain ⟨rfl, _⟩ := (Program.run_done_eq_ok Stmt.alone).mp expiry
    refine moves_bind (Program.obeys_mapErr.mpr (appendInTx_uncommitted id _ _)) ?_
    intro state folded ran
    obtain ⟨rows, _, grown, _⟩ := appendInTx_ok clean ((Program.run_mapErr_eq_ok Stmt.alone).mp ran)
    exact .grown id rows folded grown

def DispatchRow.beaten (lease : LeaseId) (now deadline : DateTime) (row : DispatchRow) : DispatchRow :=
  if row.alive lease (timestamptz now) then { row with leaseExpiresAt := some (timestamptz deadline) }
  else row

omit [Serde J] [BuildProfile] in
theorem Transaction.moved_of_put {tx : Transaction J} {id : JobId} {row : DispatchRow}
    (written : Write.put id row ∈ tx.writes) : (tx.moved id).isSome = true := by
  unfold Transaction.moved
  generalize tx.writes = writes at written ⊢
  induction writes using List.reverseRecOn with
  | nil => cases written
  | append_singleton writes last ih =>
    rw [List.foldl_append, List.foldl_cons, List.foldl_nil]
    rcases List.mem_append.mp written with earlier | newest
    · have moved := ih earlier
      cases last with
      | put other changed =>
        simp only
        split
        · rfl
        · exact moved
      | drop other =>
        simp only
        split
        · rfl
        · exact moved
      | event | outbox | remove => exact moved
    · rw [← List.mem_singleton.mp newest]
      simp

omit [Serde J] [BuildProfile] in
theorem updateDeadline_writes (world : World J) (deadline : DateTime) (lease : LeaseId) (now : DateTime) :
    ((Stmt.updateDeadline deadline lease now : Stmt J).alone (world, .begin)).1.2.writes =
      (world.tables.dispatch.entries.filter fun entry => entry.2.alive lease (timestamptz now)).map fun entry =>
        Write.put entry.1 { entry.2 with leaseExpiresAt := some (timestamptz deadline) } := rfl

omit [Serde J] [BuildProfile] in
theorem updateDeadline_events (world : World J) (deadline : DateTime) (lease : LeaseId) (now : DateTime) :
    (committed ((Stmt.updateDeadline deadline lease now : Stmt J).alone (world, .begin)).1).tables.events =
      world.tables.events := by
  change (Transaction.view _ world.tables).events = _
  rw [Transaction.view_events, Transaction.rows, updateDeadline_writes]
  simp

omit [Serde J] [BuildProfile] in
theorem updateDeadline_lookup (world : World J) (deadline : DateTime) (lease : LeaseId) (now : DateTime)
    (id : JobId) :
    (committed ((Stmt.updateDeadline deadline lease now : Stmt J).alone (world, .begin)).1).tables.dispatch.lookup id =
      (world.tables.dispatch.lookup id).map (DispatchRow.beaten lease now deadline) := by
  have writes := updateDeadline_writes world deadline lease now
  change (Transaction.view _ world.tables).dispatch.lookup id = _
  rw [Transaction.view_dispatch]
  cases moved : ((Stmt.updateDeadline deadline lease now : Stmt J).alone (world, .begin)).1.2.moved id with
  | some row =>
    obtain ⟨entry, member, rfl, rfl⟩ := Transaction.moved_of_puts
      (fun old => { old with leaseExpiresAt := some (timestamptz deadline) }) writes moved
    have present := (List.mem_filter.mp member).1
    have alive := (List.mem_filter.mp member).2
    rw [AList.mem_lookup_iff.mpr present, Option.getD_some, Option.map_some, DispatchRow.beaten, if_pos alive]
  | none =>
    rw [Option.getD_none]
    cases present : world.tables.dispatch.lookup id with
    | none => rfl
    | some row =>
      have still : row.alive lease (timestamptz now) = false := by
        by_contra alive
        rw [Bool.not_eq_false] at alive
        have put : Write.put id { row with leaseExpiresAt := some (timestamptz deadline) } ∈
            ((Stmt.updateDeadline deadline lease now : Stmt J).alone (world, .begin)).1.2.writes := by
          rw [writes, List.mem_map]
          exact ⟨⟨id, row⟩, List.mem_filter.mpr ⟨AList.mem_lookup_iff.mp present, alive⟩, rfl⟩
        have held := Transaction.moved_of_put put
        rw [moved] at held
        cases held
      rw [Option.map_some, DispatchRow.beaten, still, if_neg Bool.false_ne_true]

theorem updateDeadline_moves (world : World J) (deadline : DateTime) (lease : LeaseId) (now : DateTime) :
    Moves world (committed ((Stmt.updateDeadline deadline lease now : Stmt J).alone (world, .begin)).1) := by
  refine .beaten (updateDeadline_events world deadline lease now) rfl rfl fun id => ?_
  rw [updateDeadline_lookup, Option.map_map]
  congr 1
  funext row
  rw [Function.comp_apply, DispatchRow.beaten]
  split <;> rfl

theorem extend_moves (world : World J) (ports : Ports) (lease : LeaseId) (ttl : Duration) :
    Moves world (Dispatcher.extendLease world ports lease ttl).1 := by
  change Moves world ((extendLease ports lease ttl).run Stmt.alone (world, .begin)).1.1
  unfold extendLease
  split
  · exact .still rfl le_rfl le_rfl
  · refine moves_bind (done_uncommitted _) ?_
    intro state deadline reading
    obtain ⟨rfl, _⟩ := (Program.run_done_eq_ok Stmt.alone).mp reading
    exact updateDeadline_moves world deadline lease ports.now

def Serially (before : World J) (operation : Operation) (answer : Answer) (after : World J) : Prop :=
  operation.exec before = (after, answer)

theorem Serially.moves {before after : World J} {operation : Operation} {answer : Answer}
    (step : Serially before operation answer after) : Moves before after := by
  have last : after = (operation.exec before).1 := (congrArg Prod.fst step).symm
  rw [last]
  cases operation with
  | append stream expected batch => exact append_moves before stream expected batch
  | load stream => exact .still rfl le_rfl le_rfl
  | leaseNext ports queue worker ttl => exact claim_moves before ports queue worker ttl
  | extendLease ports lease ttl => exact extend_moves before ports lease ttl
  | retireNextExpiredLease ports => exact retire_moves before ports

omit [Serde J] [BuildProfile] in
theorem rowOf_columns (job : Job) (seq : Nat) : (rowOf job seq).map DispatchRow.columns = columnsOf job := by
  unfold rowOf columnsOf
  cases job.state <;> rfl

/-- The log is numbered, and the dispatch table is what it folds to. -/
structure Derived (world : World J) : Prop where
  versions : ∀ id, (world.tables.streamRows id).map (·.version) =
    List.range' 1 (world.tables.streamRows id).length
  shows : ∀ id, Shows world.tables id

theorem Derived.empty : Derived (World.empty : World J) where
  versions := fun _ => rfl
  shows := fun _ => .inl ⟨rfl, rfl⟩

omit [Serde J] [BuildProfile] in
theorem streamRows_congr {before after : Tables J} (same : after.events = before.events) (id : JobId) :
    after.streamRows id = before.streamRows id := by
  rw [Tables.streamRows, same, Tables.streamRows]

section Growth

variable {before after : World J} {stream : JobId} {rows : List (EventRow J)} {job : Job}

theorem Grown.streamRows_self (grown : Grown before after stream rows job) :
    after.tables.streamRows stream = before.tables.streamRows stream ++ rows := by
  rw [Tables.streamRows, grown.events, List.filter_append, Tables.streamRows]
  congr 1
  exact List.filter_eq_self.mpr fun row member => by simpa using grown.named row member

theorem Grown.streamRows_other (grown : Grown before after stream rows job) {id : JobId} (other : id ≠ stream) :
    after.tables.streamRows id = before.tables.streamRows id := by
  have none : rows.filter (·.streamId = id) = [] := by
    rw [List.filter_eq_nil_iff]
    intro row member
    simpa [grown.named row member] using Ne.symm other
  rw [Tables.streamRows, grown.events, List.filter_append, none, List.append_nil, Tables.streamRows]

theorem Grown.versions_self (grown : Grown before after stream rows job)
    (versions : (before.tables.streamRows stream).map (·.version) =
      List.range' 1 (before.tables.streamRows stream).length) :
    (after.tables.streamRows stream).map (·.version) =
      List.range' 1 (after.tables.streamRows stream).length := by
  have added := grown.versions
  rw [versions, max_range', Nat.add_comm] at added
  rw [grown.streamRows_self, List.map_append, versions, added, List.length_append, List.range'_append_1]

theorem Grown.derived (grown : Grown before after stream rows job) (derived : Derived before) : Derived after where
  versions := by
    intro id
    by_cases here : id = stream
    · subst here
      exact grown.versions_self (derived.versions id)
    · rw [grown.streamRows_other here]
      exact derived.versions id
  shows := by
    intro id
    by_cases here : id = stream
    · subst here
      have folds := grown.folds
      rw [inOrder_of_versions (grown.versions_self (derived.versions id))] at folds
      exact .inr ⟨job, folds, by rw [grown.self, rowOf_columns]⟩
    · rw [Shows, grown.streamRows_other here, grown.other id here]
      exact derived.shows id

end Growth

omit [Serde J] [BuildProfile] in
theorem columns_of_undated {left right : Option DispatchRow}
    (same : left.map DispatchRow.undated = right.map DispatchRow.undated) :
    left.map DispatchRow.columns = right.map DispatchRow.columns := by
  have general : ∀ row : Option DispatchRow,
      row.map DispatchRow.columns = (row.map DispatchRow.undated).map DispatchRow.columns := by
    intro row
    rw [Option.map_map]
    rfl
  rw [general, same, ← general]

theorem Moves.derived {before after : World J} (moves : Moves before after) (derived : Derived before) :
    Derived after := by
  have unchanged : after.tables.events = before.tables.events →
      (∀ id, (after.tables.dispatch.lookup id).map DispatchRow.columns =
        (before.tables.dispatch.lookup id).map DispatchRow.columns) → Derived after := by
    intro events rows
    refine ⟨fun id => ?_, fun id => ?_⟩
    · rw [streamRows_congr events]
      exact derived.versions id
    · rcases derived.shows id with ⟨none, missing⟩ | ⟨job, folds, columns⟩
      · refine .inl ⟨(streamRows_congr events id).trans none, ?_⟩
        have empty := rows id
        rw [missing, Option.map_none, Option.map_eq_none_iff] at empty
        exact empty
      · refine .inr ⟨job, ?_, (rows id).trans columns⟩
        rw [streamRows_congr events]
        exact folds
  cases moves with
  | still tables => exact unchanged (by rw [tables]) fun id => by rw [tables]
  | grown stream rows job grown => exact grown.derived derived
  | beaten events _ _ rows => exact unchanged events fun id => columns_of_undated (rows id)

theorem Run.derived {history : List (Record (World J) Operation Answer)} {world : World J}
    (run : Run Serially .empty history world) : Derived world :=
  Run.invariant Derived .empty (fun _ _ _ _ derived step => (Serially.moves step).derived derived) run

end Worlds

end Koine.Postgres
