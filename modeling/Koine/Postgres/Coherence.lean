import Koine.Postgres.Log

namespace Koine.Postgres

open Library Domain Application

section Rows

variable {J : Type} [Serde J]

def EventRow.key (row : EventRow J) : EventId × JobId := (row.eventId, row.streamId)

def OutboxRow.key (row : OutboxRow J) : EventId × JobId := (row.eventId, row.streamId)

/-- Every committed event has had exactly one row in the outbox. -/
def Received (tables : Tables J) : Prop :=
  ((tables.outbox ++ tables.removed).map OutboxRow.key).Perm (tables.events.map EventRow.key)

theorem pairs_keys {rows : List (EventRow J)} {outs : List (OutboxRow J)}
    (pairs : List.Forall₂ Pairs rows outs) : outs.map OutboxRow.key = rows.map EventRow.key := by
  refine (map_eq_of_forall₂ pairs ?_).symm
  intro row out pair
  rw [OutboxRow.key, EventRow.key, pair.1, pair.2.1]

theorem Received.committed {strict : Bool} {tables : Tables J} {tx : Transaction J} {phase : Phase J}
    (received : Received tables) (wrote : Wrote tables tx phase)
    (commits : phase.permits strict .commit) : Received (tx.view tables) := by
  have added : tx.AppendsOnly → tx.outs.map OutboxRow.key = tx.rows.map EventRow.key →
      Received (tx.view tables) := by
    intro appends keys
    obtain ⟨outbox, removed⟩ := Transaction.view_outbox appends tables
    rw [Received, outbox, removed, Transaction.view_events, List.map_append, List.map_append, List.map_append,
      keys, List.append_assoc]
    rw [Received, List.map_append] at received
    exact (List.perm_append_comm.append_left _).trans
      ((List.append_assoc _ _ _ ▸ received.append_right _ :))
  cases phase with
  | reading =>
    have none : tx.writes = [] := wrote
    rw [Transaction.view, none]
    exact received
  | projected stream base count job => exact added wrote.1.appends (pairs_keys wrote.2)
  | beaten => exact added wrote.2.2 (by rw [wrote.1, wrote.2.1]; rfl)
  | dropped rows =>
    have only : tx.writes = [.remove (rows.map (·.1))] := wrote
    rw [Transaction.view, only]
    refine List.Perm.trans (List.Perm.map _ ?_) received
    simp only [List.foldl_cons, List.foldl_nil, Write.apply]
    refine (List.perm_append_comm.append_left _).trans ?_
    rw [← List.append_assoc]
    refine List.Perm.append_right _ (List.perm_append_comm.trans ?_)
    have split := List.filter_append_perm (fun row => decide (row.outboxSeq ∈ rows.map (·.1))) tables.outbox
    simpa using split
  | _ => exact commits.elim

theorem envelopeFromRow_ids {row : EventRow J} {envelope : EventEnvelope}
    (read : envelopeFromRow row = .ok envelope) :
    row.eventId = envelope.eventId ∧ row.streamId = envelope.streamId ∧ row.version = envelope.version := by
  rw [envelopeFromRow, Outcome.bind_eq_ok] at read
  obtain ⟨event, _, read⟩ := read
  cases read
  exact ⟨rfl, rfl, rfl⟩

theorem envelopesFromRows_eq_ok {rows : List (EventRow J)} {envelopes : List EventEnvelope} :
    envelopesFromRows rows = .ok envelopes ↔
      List.Forall₂ (fun row envelope => envelopeFromRow row = .ok envelope) rows envelopes := by
  induction rows generalizing envelopes with
  | nil =>
    rw [envelopesFromRows, List.forall₂_nil_left_iff, Outcome.ok.injEq, eq_comm]
  | cons row rest ih =>
    rw [envelopesFromRows, Outcome.bind_eq_ok, List.forall₂_cons_left_iff]
    constructor
    · intro ⟨envelope, read, more⟩
      rw [Outcome.bind_eq_ok] at more
      obtain ⟨later, loaded, same⟩ := more
      cases same
      exact ⟨envelope, later, read, ih.mp loaded, rfl⟩
    · intro ⟨envelope, later, read, loaded, same⟩
      subst same
      exact ⟨envelope, read, by rw [ih.mpr loaded]; rfl⟩

theorem decoded_map {α : Type} {column : EventRow J → α} {field : EventEnvelope → α}
    (same : ∀ row envelope, envelopeFromRow row = .ok envelope → column row = field envelope)
    {rows : List (EventRow J)} {envelopes : List EventEnvelope}
    (decoded : envelopesFromRows rows = .ok envelopes) : rows.map column = envelopes.map field :=
  map_eq_of_forall₂ (envelopesFromRows_eq_ok.mp decoded) same

variable [BuildProfile]

theorem foldRows_eq_some {rows : List (EventRow J)} {job : Job} :
    foldRows rows = some job ↔
      ∃ envelopes, envelopesFromRows rows = .ok envelopes ∧ Job.fromEvents envelopes = .ok job := by
  unfold foldRows
  cases envelopesFromRows rows with
  | err error => simp
  | panic => simp
  | ok envelopes =>
    cases folded : Job.fromEvents envelopes <;> simp [folded]

theorem foldRows_id {rows : List (EventRow J)} {job : Job} {stream : JobId}
    (folds : foldRows rows = some job) (named : ∀ row ∈ rows, row.streamId = stream) : job.id = stream := by
  obtain ⟨envelopes, decoded, folded⟩ := foldRows_eq_some.mp folds
  refine Job.fromEvents_id folded ?_
  intro envelope member
  have listed : envelope.streamId ∈ rows.map (·.streamId) := by
    rw [decoded_map (fun row envelope read => (envelopeFromRow_ids read).2.1) decoded]
    exact List.mem_map_of_mem member
  obtain ⟨row, here, same⟩ := List.mem_map.mp listed
  rw [← same]
  exact named row here

omit [Serde J] [BuildProfile] in
theorem inOrder_of_versions {rows : List (EventRow J)} {first count : Nat}
    (versions : rows.map (·.version) = List.range' first count) : inOrder rows = rows := by
  apply List.Pairwise.insertionSort_eq
  have ordered : (rows.map (·.version)).Pairwise (· ≤ ·) := by
    rw [versions]
    exact List.pairwise_le_range'
  rw [List.pairwise_map] at ordered
  exact ordered

def Shows (tables : Tables J) (stream : JobId) : Prop :=
  (tables.streamRows stream = [] ∧ tables.dispatch.lookup stream = none) ∨
    ∃ job, foldRows (tables.streamRows stream) = some job ∧
      (tables.dispatch.lookup stream).map DispatchRow.columns = columnsOf job

def Placed (tables : Tables J) (tx : Transaction J) : Phase J → Prop
  | .folded stream _ count job =>
    0 < count ∧ foldRows (tables.streamRows stream ++ tx.rows) = some job ∧ ∀ id, tx.moved id = none
  | .projected stream _ count job =>
    0 < count ∧ foldRows (tables.streamRows stream ++ tx.rows) = some job ∧
      (∀ id, id ≠ stream → tx.moved id = none) ∧
      ((tx.moved stream).getD (tables.dispatch.lookup stream)).map DispatchRow.columns = columnsOf job ∧
      (tx.moved stream = none → tables.dispatch.lookup stream = none)
  | .beaten => ∀ id row, tx.moved id = some row → ∃ old deadline, tables.dispatch.lookup id = some old ∧
      row = some { old with leaseExpiresAt := deadline }
  | .closed => True
  | _ => ∀ id, tx.moved id = none

/-- The dispatch table shows the log, and open transactions change disjoint rows of it. -/
structure Dispatching (cluster : Cluster J) (phases : Nat → Phase J) : Prop where
  shows : ∀ stream, Shows cluster.world.tables stream
  placed : ∀ ticket session, cluster.sessions.lookup ticket = some session →
    Placed cluster.world.tables session.tx (phases ticket)
  exclusive : ∀ ticket other session rival, other ≠ ticket →
    cluster.sessions.lookup ticket = some session → cluster.sessions.lookup other = some rival →
    ∀ id, session.tx.moved id = none ∨ rival.tx.moved id = none

theorem Dispatching.empty : Dispatching (Cluster.empty : Cluster J) fun _ => .closed where
  shows := fun _ => .inl ⟨rfl, rfl⟩
  placed := by intro ticket session found; cases found
  exclusive := by intro ticket other session rival different found; cases found

theorem Dispatching.close {cluster : Cluster J} {phases : Nat → Phase J}
    (dispatching : Dispatching cluster phases) (ticket : Nat) : Dispatching (cluster.close ticket) phases where
  shows := dispatching.shows
  placed := by
    intro other session present
    exact dispatching.placed other session (lookup_close present).2
  exclusive := by
    intro first second session rival different found ongoing
    exact dispatching.exclusive first second session rival different (lookup_close found).2
      (lookup_close ongoing).2

theorem Dispatching.resume {cluster : Cluster J} {phases : Nat → Phase J}
    (dispatching : Dispatching cluster phases) {ticket : Nat} {world : World J} {session : Session J}
    {phase : Phase J} (tables : world.tables = cluster.world.tables)
    (placed : Placed cluster.world.tables session.tx phase)
    (exclusive : ∀ other rival, other ≠ ticket → cluster.sessions.lookup other = some rival →
      ∀ id, session.tx.moved id = none ∨ rival.tx.moved id = none) :
    Dispatching (cluster.resume ticket world session) (Function.update phases ticket phase) := by
  have same : (cluster.resume ticket world session).world.tables = cluster.world.tables := tables
  constructor
  · rw [same]
    exact dispatching.shows
  · rw [same]
    exact each_resume phases phase (fun phase session => Placed cluster.world.tables session.tx phase) placed
      fun other rival _ ongoing => dispatching.placed other rival ongoing
  · exact between_resume phases phase
      (fun _ session _ rival => ∀ id, session.tx.moved id = none ∨ rival.tx.moved id = none)
      (fun _ _ _ _ apart id => (apart id).symm) exclusive dispatching.exclusive

omit [BuildProfile] [Serde J] in
theorem Transaction.moved_of_writes {tx moved : Transaction J} (same : moved.writes = tx.writes)
    (id : JobId) : moved.moved id = tx.moved id := by
  rw [Transaction.moved, same, Transaction.moved]

omit [BuildProfile] [Serde J] in
theorem Transaction.moved_of_puts {tx : Transaction J} {entries : List ((_ : JobId) × DispatchRow)}
    (change : DispatchRow → DispatchRow)
    (writes : tx.writes = entries.map fun entry => Write.put entry.1 (change entry.2)) {id : JobId}
    {row : Option DispatchRow} (moved : tx.moved id = some row) :
    ∃ entry ∈ entries, entry.1 = id ∧ row = some (change entry.2) := by
  rw [Transaction.moved, writes, List.foldl_map] at moved
  -- the fold remembers the last write to the row
  have general : ∀ last : Option (Option DispatchRow),
      entries.foldl (fun last entry => if entry.1 = id then some (some (change entry.2)) else last) last =
        some row → last = some row ∨ ∃ entry ∈ entries, entry.1 = id ∧ row = some (change entry.2) := by
    clear moved writes
    induction entries with
    | nil => exact fun last same => .inl same
    | cons entry rest ih =>
      intro last folded
      rw [List.foldl_cons] at folded
      rcases ih _ folded with same | ⟨later, member, named, value⟩
      · split at same
        · rename_i here
          cases same
          exact .inr ⟨entry, List.mem_cons_self, here, rfl⟩
        · exact .inl same
      · exact .inr ⟨later, List.mem_cons_of_mem _ member, named, value⟩
  rcases general none moved with impossible | found
  · cases impossible
  · exact found

theorem Placed.of_writes {tables : Tables J} {tx moved : Transaction J} {phase : Phase J}
    (placed : Placed tables tx phase) (same : moved.writes = tx.writes) : Placed tables moved phase := by
  have rows : moved.rows = tx.rows := by rw [Transaction.rows, same, Transaction.rows]
  have moves := Transaction.moved_of_writes same
  cases phase with
  | closed => trivial
  | folded | projected | beaten =>
    simp only [Placed, rows, moves] at placed ⊢
    exact placed
  | _ =>
    intro id
    rw [moves]
    exact placed id

theorem Placed.commits {strict : Bool} {tables : Tables J} {tx : Transaction J} {phase : Phase J}
    (placed : Placed tables tx phase) (commits : phase.permits strict .commit) (id : JobId) :
    tx.moved id = none ∨
      (∃ old deadline, tables.dispatch.lookup id = some old ∧
        tx.moved id = some (some { old with leaseExpiresAt := deadline })) ∨
      ∃ base count job, 0 < count ∧ phase = .projected id base count job := by
  cases phase with
  | reading | dropped rows => exact .inl (placed id)
  | projected stream base count job =>
    by_cases here : id = stream
    · subst here
      exact .inr (.inr ⟨base, count, job, placed.1, rfl⟩)
    · exact .inl (placed.2.2.1 id here)
  | beaten =>
    cases moved : tx.moved id with
    | none => exact .inl rfl
    | some row =>
      obtain ⟨old, deadline, present, value⟩ := placed id row moved
      exact .inr (.inl ⟨old, deadline, present, by rw [value]⟩)
  | _ => exact commits.elim

omit [BuildProfile] in
theorem Phase.projected_of_batch {strict : Bool} {phase : Phase J} {stream : JobId} {base count : Nat}
    (commits : phase.permits strict .commit) (batch : phase.batch = some (stream, base, count)) :
    ∃ job, phase = .projected stream base count job := by
  cases phase with
  | projected target start size job =>
    cases batch
    exact ⟨job, rfl⟩
  | writing | unpaired | folded => exact commits.elim
  | _ => cases batch

omit [BuildProfile] in
theorem Log.stream_unchanged {cluster : Cluster J} {phases : Nat → Phase J} {strict : Bool}
    (log : Log cluster phases) {ticket : Nat} {session : Session J}
    (found : cluster.sessions.lookup ticket = some session)
    (commits : (phases ticket).permits strict .commit) {stream : JobId}
    (away : ∀ base count, 0 < count → (phases ticket).batch ≠ some (stream, base, count)) :
    (session.tx.view cluster.world.tables).streamRows stream = cluster.world.tables.streamRows stream := by
  rcases log.committed_streamRows found commits with ⟨same, _⟩ | ⟨target, base, count, some, batch, _, grown⟩
  · exact same stream
  · have different : stream ≠ target := by
      intro same
      subst same
      exact away base count some batch
    rw [grown, if_neg different, List.append_nil]

theorem Dispatching.shows_committed {cluster : Cluster J} {phases : Nat → Phase J} {strict : Bool}
    (dispatching : Dispatching cluster phases) (log : Log cluster phases) {ticket : Nat}
    {session : Session J} (found : cluster.sessions.lookup ticket = some session)
    (commits : (phases ticket).permits strict .commit) (stream : JobId) :
    Shows (session.tx.view cluster.world.tables) stream := by
  have placed := dispatching.placed ticket session found
  have shows := dispatching.shows stream
  by_cases projecting : ∃ base count job, 0 < count ∧ phases ticket = .projected stream base count job
  · obtain ⟨base, count, job, _, phase⟩ := projecting
    have wrote := log.wrote ticket session found
    rw [phase] at placed wrote
    obtain ⟨_, folds, _, columns, _⟩ := placed
    refine .inr ⟨job, ?_, ?_⟩
    · rw [Transaction.view_streamRows, wrote.1.filter, if_pos rfl]
      exact folds
    · rw [Transaction.view_dispatch]
      exact columns
  · have rows : (session.tx.view cluster.world.tables).streamRows stream =
        cluster.world.tables.streamRows stream := by
      refine log.stream_unchanged found commits ?_
      intro base count some batch
      obtain ⟨job, phase⟩ := Phase.projected_of_batch commits batch
      exact projecting ⟨base, count, job, some, phase⟩
    unfold Shows
    rw [rows, Transaction.view_dispatch]
    rcases placed.commits commits stream with none | ⟨old, deadline, present, moved⟩ | projected
    · rw [none]
      exact shows
    · rw [moved]
      rcases shows with ⟨_, missing⟩ | ⟨job, folds, columns⟩
      · rw [missing] at present
        cases present
      · refine .inr ⟨job, folds, ?_⟩
        rw [present] at columns
        exact columns
    · exact absurd projected projecting

theorem Dispatching.placed_committed {cluster : Cluster J} {phases : Nat → Phase J} {strict : Bool}
    (dispatching : Dispatching cluster phases) (log : Log cluster phases) {ticket other : Nat}
    {session rival : Session J} (different : other ≠ ticket)
    (found : cluster.sessions.lookup ticket = some session)
    (ongoing : cluster.sessions.lookup other = some rival)
    (commits : (phases ticket).permits strict .commit) :
    Placed (session.tx.view cluster.world.tables) rival.tx (phases other) := by
  have placed := dispatching.placed ticket session found
  have theirs := dispatching.placed other rival ongoing
  -- a stream the rival extends is not the one that is being committed
  have away : ∀ stream base count, 0 < count → (phases other).batch = some (stream, base, count) →
      ∀ start size, 0 < size → (phases ticket).batch ≠ some (stream, start, size) := by
    intro stream base count some batch start size more same
    exact log.streams_differ different found ongoing ((log.wrote ticket session found).appending same) more
      batch some rfl
  cases phase : phases other with
  | folded stream base count job =>
    rw [phase] at theirs away
    obtain ⟨some, folds, none⟩ := theirs
    refine ⟨some, ?_, none⟩
    rw [log.stream_unchanged found commits (away stream base count some rfl)]
    exact folds
  | projected stream base count job =>
    rw [phase] at theirs away
    obtain ⟨some, folds, only, columns, missing⟩ := theirs
    have kept : rival.tx.moved stream = none →
        (session.tx.view cluster.world.tables).dispatch.lookup stream = none := by
      intro untouched
      have absent := missing untouched
      rw [Transaction.view_dispatch]
      rcases placed.commits commits stream with none | ⟨old, deadline, present, _⟩ |
        ⟨start, size, folded, more, projected⟩
      · rw [none]
        exact absent
      · rw [absent] at present
        cases present
      · exact absurd (by rw [projected]; rfl) (away stream base count some rfl start size more)
    refine ⟨some, ?_, only, ?_, kept⟩
    · rw [log.stream_unchanged found commits (away stream base count some rfl)]
      exact folds
    · cases moved : rival.tx.moved stream with
      | none =>
        rw [moved, missing moved] at columns
        rw [kept moved]
        exact columns
      | some row =>
        rw [moved] at columns
        exact columns
  | beaten =>
    rw [phase] at theirs
    intro id row moved
    obtain ⟨old, deadline, present, value⟩ := theirs id row moved
    refine ⟨old, deadline, ?_, value⟩
    rcases dispatching.exclusive ticket other session rival different found ongoing id with mine | rivals
    · rw [Transaction.view_dispatch, mine]
      exact present
    · rw [rivals] at moved
      cases moved
  | closed => trivial
  | reading | writing | unpaired | draining | selected | handed | dropped =>
    rw [phase] at theirs
    exact theirs

omit [BuildProfile] [Serde J] in
theorem Transaction.moved_begin (id : JobId) : (Transaction.begin : Transaction J).moved id = none := rfl

theorem Dispatching.committed {cluster : Cluster J} {phases : Nat → Phase J} {strict : Bool}
    (dispatching : Dispatching cluster phases) (log : Log cluster phases) {ticket : Nat}
    {session : Session J} (found : cluster.sessions.lookup ticket = some session) {world : World J}
    {program : Tx J Unit Unit} (tables : world.tables = session.tx.view cluster.world.tables)
    (commits : (phases ticket).permits strict .commit) :
    Dispatching (cluster.resume ticket world ⟨session.work, program, .begin⟩)
      (Function.update phases ticket .closed) := by
  have after : (cluster.resume ticket world ⟨session.work, program, .begin⟩).world.tables =
      session.tx.view cluster.world.tables := tables
  constructor
  · rw [after]
    exact dispatching.shows_committed log found commits
  · rw [after]
    exact each_resume phases .closed
      (fun phase ongoing => Placed (session.tx.view cluster.world.tables) ongoing.tx phase) trivial
      fun other rival different ongoing => dispatching.placed_committed log different found ongoing commits
  · exact between_resume phases .closed
      (fun _ session _ rival => ∀ id, session.tx.moved id = none ∨ rival.tx.moved id = none)
      (fun _ _ _ _ apart id => (apart id).symm) (fun _ _ _ _ id => .inl (Transaction.moved_begin id))
      dispatching.exclusive

theorem Dispatching.resume_moved {cluster : Cluster J} {phases : Nat → Phase J}
    (dispatching : Dispatching cluster phases) {ticket : Nat} {old session : Session J}
    (found : cluster.sessions.lookup ticket = some old) {world : World J} {phase : Phase J}
    (tables : world.tables = cluster.world.tables) (moved : ∀ id, session.tx.moved id = old.tx.moved id)
    (placed : Placed cluster.world.tables session.tx phase) :
    Dispatching (cluster.resume ticket world session) (Function.update phases ticket phase) := by
  refine dispatching.resume tables placed ?_
  intro other rival different ongoing id
  rw [moved]
  exact dispatching.exclusive ticket other old rival different found ongoing id

theorem Dispatching.start {cluster : Cluster J} {phases : Nat → Phase J}
    (dispatching : Dispatching cluster phases) (ticket : Nat) {work : Work} {program : Tx J Unit Unit} :
    Dispatching (cluster.resume ticket cluster.world ⟨work, program, .begin⟩)
      (Function.update phases ticket work.phase) := by
  refine dispatching.resume rfl ?_ fun _ _ _ _ id => .inl (Transaction.moved_begin id)
  unfold Work.phase
  split <;> exact Transaction.moved_begin

theorem Dispatching.folded {cluster : Cluster J} {phases : Nat → Phase J}
    (dispatching : Dispatching cluster phases) (log : Log cluster phases) {ticket : Nat}
    {session : Session J} (found : cluster.sessions.lookup ticket = some session) {stream : JobId}
    {base count : Nat} {job : Job} (phase : phases ticket = .writing stream base count) (some : 0 < count)
    (folds : foldRows (inOrder ((session.tx.view cluster.world.tables).streamRows stream)) = .some job) :
    Placed cluster.world.tables session.tx (.folded stream base count job) := by
  have placed := dispatching.placed ticket session found
  have wrote := log.wrote ticket session found
  rw [phase] at placed wrote
  have appending := wrote.1
  have versions : (cluster.world.tables.streamRows stream ++ session.tx.rows).map (·.version) =
      List.range' 1 (base + count) := by
    rw [List.map_append, log.versions, appending.versions, appending.based some, ← List.range'_append_1,
      Nat.add_comm base 1]
  rw [Transaction.view_streamRows, appending.filter, if_pos rfl, inOrder_of_versions versions] at folds
  exact ⟨some, folds, placed⟩

theorem Dispatching.projected {cluster : Cluster J} {phases : Nat → Phase J}
    (dispatching : Dispatching cluster phases) (log : Log cluster phases) {ticket : Nat}
    {session : Session J} (found : cluster.sessions.lookup ticket = some session) {stream : JobId}
    {base count : Nat} {job : Job} (phase : phases ticket = .folded stream base count job)
    {world : World J} {program : Tx J Unit Unit} {tx : Transaction J}
    (tables : world.tables = cluster.world.tables)
    (row : (∃ row, tx = session.tx.write (.put job.id row) ∧ columnsOf job = some row.columns ∧
        ∀ other ∈ cluster.others ticket, other.moved job.id = none) ∨
      (tx = session.tx.write (.drop job.id) ∧ columnsOf job = none ∧
        ∀ other ∈ cluster.others ticket, other.moved job.id = none) ∨
      (tx = session.tx ∧ columnsOf job = none ∧
        (session.tx.view cluster.world.tables).dispatch.lookup job.id = none)) :
    Dispatching (cluster.resume ticket world ⟨session.work, program, tx⟩)
      (Function.update phases ticket (.projected stream base count job)) := by
  have placed := dispatching.placed ticket session found
  have wrote := log.wrote ticket session found
  rw [phase] at placed wrote
  obtain ⟨some, folds, none⟩ := placed
  have named : job.id = stream := by
    refine foldRows_id folds ?_
    intro event member
    rcases List.mem_append.mp member with old | new
    · simpa [Tables.streamRows] using (List.mem_filter.mp old).2
    · exact wrote.1.streams event new
  rw [named] at row
  -- the two statements that write leave one row changed, and nobody else has changed it
  have written : ∀ (write : Write J) (value : Option DispatchRow), (∀ event, write ≠ .event event) →
      (∀ id, (session.tx.write write).moved id = if stream = id then .some value else .none) →
      value.map DispatchRow.columns = columnsOf job →
      (∀ other ∈ cluster.others ticket, other.moved stream = .none) →
      Dispatching (cluster.resume ticket world ⟨session.work, program, session.tx.write write⟩)
        (Function.update phases ticket (.projected stream base count job)) := by
    intro write value notEvent moves columns free
    have rows : (session.tx.write write).rows = session.tx.rows := by
      rw [Transaction.rows_write]
      cases write <;> simp_all
    refine dispatching.resume tables ⟨some, ?_, ?_, ?_, ?_⟩ ?_
    · rw [rows]
      exact folds
    · intro id different
      rw [moves, if_neg (Ne.symm different)]
    · rw [moves, if_pos rfl]
      exact columns
    · rw [moves, if_pos rfl]
      intro contradiction
      cases contradiction
    · intro other rival different ongoing id
      rw [moves]
      split
      · rename_i here
        subst here
        exact .inr (free rival.tx (mem_others.mpr ⟨other, rival, different, ongoing, rfl⟩))
      · exact .inl rfl
  rcases row with ⟨value, rfl, columns, free⟩ | ⟨rfl, columns, free⟩ | ⟨rfl, columns, missing⟩
  · refine written (.put stream value) (.some value) (by simp) ?_ columns.symm free
    intro id
    simp only [Transaction.moved_write, none]
  · refine written (.drop stream) .none (by simp) ?_ columns.symm free
    intro id
    simp only [Transaction.moved_write, none]
  · rw [Transaction.view_dispatch, none] at missing
    refine dispatching.resume_moved found tables (fun _ => rfl) ⟨some, folds, fun id _ => none id, ?_,
      fun _ => missing⟩
    rw [none, columns]
    change Option.map _ (cluster.world.tables.dispatch.lookup stream) = _
    rw [show cluster.world.tables.dispatch.lookup stream = .none from missing]
    rfl

theorem Dispatching.beaten {cluster : Cluster J} {phases : Nat → Phase J}
    (dispatching : Dispatching cluster phases) (log : Log cluster phases) {ticket : Nat}
    {session : Session J} (found : cluster.sessions.lookup ticket = some session)
    (phase : phases ticket = .reading) {program : Tx J Unit Unit} {tx : Transaction J}
    {alive : List ((_ : JobId) × DispatchRow)} {deadline : DateTime}
    (present : ∀ entry ∈ alive,
      (session.tx.view cluster.world.tables).dispatch.lookup entry.1 = some entry.2 ∧
        ∀ other ∈ cluster.others ticket, other.moved entry.1 = none)
    (writes : tx.writes = session.tx.writes ++ alive.map fun entry =>
      Write.put entry.1 { entry.2 with leaseExpiresAt := some deadline }) :
    Dispatching (cluster.resume ticket cluster.world ⟨session.work, program, tx⟩)
      (Function.update phases ticket .beaten) := by
  have wrote := log.wrote ticket session found
  rw [phase] at wrote
  have nothing : session.tx.writes = [] := wrote
  rw [nothing, List.nil_append] at writes
  have view : session.tx.view cluster.world.tables = cluster.world.tables := by
    rw [Transaction.view, nothing]
    rfl
  rw [view] at present
  have touched : ∀ id row, tx.moved id = some row → ∃ old, cluster.world.tables.dispatch.lookup id = some old ∧
      row = some { old with leaseExpiresAt := some deadline } ∧
      ∀ other ∈ cluster.others ticket, other.moved id = none := by
    intro id row moved
    obtain ⟨entry, listed, rfl, value⟩ :=
      Transaction.moved_of_puts (fun old => { old with leaseExpiresAt := some deadline }) writes moved
    obtain ⟨lookup, free⟩ := present entry listed
    exact ⟨entry.2, lookup, value, free⟩
  refine dispatching.resume rfl ?_ ?_
  · intro id row moved
    obtain ⟨old, lookup, value, _⟩ := touched id row moved
    exact ⟨old, some deadline, lookup, value⟩
  · intro other rival different ongoing id
    cases moved : tx.moved id with
    | none => exact .inl rfl
    | some row =>
      obtain ⟨_, _, _, free⟩ := touched id row moved
      exact .inr (free rival.tx (mem_others.mpr ⟨other, rival, different, ongoing, rfl⟩))

/-- Every advance of a transaction that folds only what it extended keeps the dispatch table in step. -/
theorem Dispatching.advance {cluster : Cluster J} {phases : Nat → Phase J}
    (dispatching : Dispatching cluster phases) (log : Log cluster phases) {ticket : Nat}
    {session : Session J} (found : cluster.sessions.lookup ticket = some session) {world : World J}
    {tx : Transaction J} {phase : Phase J} (program : Tx J Unit Unit)
    (advance : Advance true (cluster.others ticket) cluster.world session.tx (phases ticket) world tx phase) :
    Dispatching (cluster.resume ticket world ⟨session.work, program, tx⟩)
      (Function.update phases ticket phase) := by
  have placed := dispatching.placed ticket session found
  generalize here : phases ticket = before at advance placed
  cases advance with
  | still tables seq sink writes claimed stays =>
    have moved := Transaction.moved_of_writes writes
    rcases stays with rfl | rfl
    · exact dispatching.resume_moved found tables moved (placed.of_writes writes)
    · exact dispatching.resume_moved found tables moved trivial
  | checked stream => exact dispatching.resume_moved found rfl (fun _ => rfl) placed
  | inserted tables =>
    exact dispatching.resume_moved found tables (session.tx.moved_write (.event _)) fun id =>
      (session.tx.moved_write (.event _) id).trans (placed id)
  | paired tables =>
    exact dispatching.resume_moved found tables (session.tx.moved_write (.outbox _)) fun id =>
      (session.tx.moved_write (.outbox _) id).trans (placed id)
  | folded added folds =>
    exact dispatching.resume_moved found rfl (fun _ => rfl)
      (dispatching.folded log found here (added rfl) folds)
  | projected tables seq sink row => exact dispatching.projected log found here tables row
  | beaten present writes claimed => exact dispatching.beaten log found here present writes
  | committed tables seq sink commits =>
    rw [← here] at commits
    exact dispatching.committed log found tables commits
  | selected chosen batch rows writes =>
    have moved := Transaction.moved_of_writes writes
    exact dispatching.resume_moved found rfl moved fun id => (moved id).trans (placed id)
  | delivered received tables seq decoded sink answer =>
    rcases answer with ⟨_, rfl⟩ | rfl
    · exact dispatching.resume_moved found tables (fun _ => rfl) placed
    · exact dispatching.resume_moved found tables (fun _ => rfl) trivial
  | dropped =>
    exact dispatching.resume_moved found rfl (session.tx.moved_write (.remove _)) fun id =>
      (session.tx.moved_write (.remove _) id).trans (placed id)

theorem Received.advance {strict : Bool} {others : List (Transaction J)} {before after : World J}
    {tx moved : Transaction J} {phase next : Phase J} (received : Received before.tables)
    (wrote : Wrote before.tables tx phase) (advance : Advance strict others before tx phase after moved next) :
    Received after.tables := by
  cases advance with
  | committed tables seq sink commits =>
    rw [tables]
    exact received.committed wrote commits
  | still tables | inserted tables | paired tables | projected tables =>
    rw [tables]
    exact received
  | delivered _ tables =>
    rw [tables]
    exact received
  | _ => exact received

/-- What the committed tables owe to the log. -/
structure Coherent (tables : Tables J) : Prop where
  versions : ∀ stream, (tables.streamRows stream).map (·.version) =
    List.range' 1 (tables.streamRows stream).length
  ids : (tables.events.map (·.eventId)).Nodup
  projection : ∀ stream, tables.streamRows stream ≠ [] → ∃ job,
    foldRows (tables.streamRows stream) = some job ∧
      ((tables.dispatch.lookup stream).isSome ↔ job.state.dispatchable = true) ∧
      ∀ row, tables.dispatch.lookup stream = some row → columnsOf job = some row.columns
  rows : ∀ stream, tables.streamRows stream = [] → tables.dispatch.lookup stream = none
  received : Received tables

omit [BuildProfile] in
theorem columnsOf_isSome (job : Job) : (columnsOf job).isSome = job.state.dispatchable := by
  unfold columnsOf
  cases state : job.state <;> rfl

theorem Shows.projection {tables : Tables J} {stream : JobId} (shows : Shows tables stream)
    (some : tables.streamRows stream ≠ []) :
    ∃ job, foldRows (tables.streamRows stream) = .some job ∧
      ((tables.dispatch.lookup stream).isSome ↔ job.state.dispatchable = true) ∧
      ∀ row, tables.dispatch.lookup stream = .some row → columnsOf job = .some row.columns := by
  rcases shows with ⟨none, _⟩ | ⟨job, folds, columns⟩
  · exact absurd none some
  · refine ⟨job, folds, ?_, ?_⟩
    · rw [← columnsOf_isSome, ← columns, Option.isSome_map]
    · intro row present
      rw [← columns, present]
      rfl

theorem foldRows_nil : foldRows ([] : List (EventRow J)) = none := rfl

/-- The log, the outbox and the dispatch table of every state that transactions which append
    something lead to. -/
theorem dispatch_follows_log {history : List (Record (Cluster J) Label Unit)} {cluster : Cluster J}
    (run : Run Cluster.Step .empty history cluster)
    (nonempty : ∀ record ∈ history, ∀ ticket stream expectedVersion envelopes,
      record.label = .start ticket (.operation (.append stream expectedVersion envelopes)) →
      envelopes ≠ []) :
    Coherent cluster.world.tables := by
  have strict : ∀ record ∈ history, ∀ ticket work, record.label = .start ticket work →
      work.strict = true := by
    intro record member ticket work label
    cases work with
    | relay batch => rfl
    | operation operation =>
      cases operation with
      | append stream expected envelopes =>
        have added := nonempty record member ticket stream expected envelopes label
        cases envelopes with
        | nil => exact absurd rfl added
        | cons => rfl
      | _ => rfl
  obtain ⟨phases, log, dispatching, received⟩ := Run.phases true (fun _ work => work.strict = true)
    (fun cluster phases => Log cluster phases ∧ Dispatching cluster phases ∧ Received cluster.world.tables)
    (fun _ _ allowed _ => allowed) ⟨Log.empty, Dispatching.empty, List.Perm.nil⟩
    (fun cluster phases ticket work ⟨log, dispatching, received⟩ _ _ =>
      ⟨log.start ticket, dispatching.start ticket, received⟩)
    (fun cluster phases ticket ⟨log, dispatching, received⟩ =>
      ⟨log.close ticket, dispatching.close ticket, received⟩)
    (fun cluster phases ticket session world tx phase program ⟨log, dispatching, received⟩ found advance =>
      ⟨log.advance found program advance, dispatching.advance log found program advance,
        received.advance (log.wrote ticket session found) advance⟩)
    run strict
  refine ⟨log.versions, log.ids, fun stream => (dispatching.shows stream).projection, ?_, received⟩
  intro stream none
  rcases dispatching.shows stream with ⟨_, missing⟩ | ⟨job, folds, _⟩
  · exact missing
  · rw [none, foldRows_nil] at folds
    cases folds

end Rows

/-- While a job is leased by connection 2, connection 1 has folded the stream before the lease and
    projects it after: it appended nothing, so no unique key stops it. -/
def overwriteLabels : List Label :=
  Label.advances 1 3 ++ Label.advances 2 8 ++
    [.start 2 (.operation (.leaseNext (Sample.ports 1 2) Sample.queue Sample.worker (.fromSecs 10)))] ++
    Label.advances 1 2 ++ [.start 1 (.operation (.append ⟨1⟩ 1 []))] ++ Label.advances 0 8 ++
    [.start 0 (.operation (.append ⟨1⟩ 0 (Sample.command.envelopes (Sample.ports 0 1))))]

theorem empty_append_overwrites_lease :
    let _ := BuildProfile.release
    ∃ (history : List (Record (Cluster TypedJson) Label Unit)) (cluster : Cluster TypedJson),
      Run Cluster.Step .empty history cluster ∧ history.map (·.label) = overwriteLabels ∧
      (∃ job row, foldRows (cluster.world.tables.streamRows ⟨1⟩) = some job ∧
        job.state = .leased Sample.worker ⟨2⟩ (Sample.instant 11) ∧
        cluster.world.tables.dispatch.lookup ⟨1⟩ = some row ∧ row.leaseId = none) ∧
      ¬ Coherent cluster.world.tables := by
  intro _
  have seen : (Label.attempt overwriteLabels : Option (_ × Cluster TypedJson)).map (fun ran =>
      ((foldRows (ran.2.world.tables.streamRows ⟨1⟩)).map (·.state),
        (ran.2.world.tables.dispatch.lookup ⟨1⟩).map (·.leaseId))) =
      some (some (.leased Sample.worker ⟨2⟩ (Sample.instant 11)), some none) := by decide +kernel
  rw [Option.map_eq_some_iff] at seen
  obtain ⟨⟨history, cluster⟩, ran, seen⟩ := seen
  rw [Prod.mk.injEq, Option.map_eq_some_iff, Option.map_eq_some_iff] at seen
  obtain ⟨⟨job, folds, state⟩, row, present, unleased⟩ := seen
  obtain ⟨run, labels⟩ := Label.of_attempt ran
  refine ⟨history, cluster, run, labels, ⟨job, row, folds, state, present, unleased⟩, ?_⟩
  intro coherent
  have some : cluster.world.tables.streamRows ⟨1⟩ ≠ [] := by
    intro none
    rw [none, foldRows_nil] at folds
    cases folds
  obtain ⟨other, same, _, projects⟩ := coherent.projection ⟨1⟩ some
  rw [folds] at same
  cases same
  have columns := projects row present
  rw [columnsOf, state, Option.some.injEq] at columns
  have lease := congrArg DispatchColumns.leaseId columns
  rw [DispatchRow.columns, unleased] at lease
  cases lease

/-- A cancellation and a claim of one job: the claim waits for the other's event, and is rolled back
    when the cancellation wants the row it has locked. -/
def racingLabels : List Label :=
  Label.advances 1 4 ++ [.abort 2] ++ Label.advances 1 1 ++ Label.advances 2 3 ++
    [.start 2 (.operation (.leaseNext (Sample.ports 1 2) Sample.queue Sample.worker (.fromSecs 10)))] ++
    Label.advances 1 1 ++
    [.start 1 (.operation (.append ⟨1⟩ 1
      (wrapEvents (Sample.ports 1 3) ⟨1⟩ 1 ⟨1⟩ none none [.cancelled none])))] ++
    Label.advances 0 8 ++
    [.start 0 (.operation (.append ⟨1⟩ 0 (Sample.command.envelopes (Sample.ports 0 1))))]

theorem dispatch_follows_log_race :
    let _ := BuildProfile.release
    ∃ (history : List (Record (Cluster TypedJson) Label Unit)) (cluster : Cluster TypedJson),
      Run Cluster.Step .empty history cluster ∧ history.map (·.label) = racingLabels ∧
      (cluster.world.tables.streamRows ⟨1⟩).length = 2 ∧ Coherent cluster.world.tables := by
  intro _
  have seen : (Label.attempt racingLabels : Option (_ × Cluster TypedJson)).map (fun ran =>
      (ran.2.world.tables.streamRows ⟨1⟩).length) = some 2 := by decide +kernel
  rw [Option.map_eq_some_iff] at seen
  obtain ⟨⟨history, cluster⟩, ran, seen⟩ := seen
  obtain ⟨run, labels⟩ := Label.of_attempt ran
  refine ⟨history, cluster, run, labels, seen, dispatch_follows_log run ?_⟩
  intro record member ticket stream expectedVersion envelopes label
  have listed : record.label ∈ racingLabels := by
    rw [← labels]
    exact List.mem_map_of_mem member
  have appending : ∀ label ∈ racingLabels, (match label with
      | .start _ work => work.strict
      | _ => true) = true := by decide
  have strict := appending _ listed
  rw [label] at strict
  intro empty
  rw [empty] at strict
  cases strict

end Koine.Postgres
