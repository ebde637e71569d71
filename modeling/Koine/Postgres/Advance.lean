import Koine.Postgres.Protocol

namespace Koine.Postgres

open Library Domain Application

section View

variable {J : Type}

def Transaction.AppendsOnly (tx : Transaction J) : Prop := ∀ seqs, Write.remove seqs ∉ tx.writes

theorem Transaction.view_events (tx : Transaction J) (tables : Tables J) :
    (tx.view tables).events = tables.events ++ tx.rows := by
  unfold Transaction.view Transaction.rows
  induction tx.writes generalizing tables with
  | nil => simp
  | cons write rest ih =>
    rw [List.foldl_cons, ih]
    cases write <;> simp [Write.apply]

theorem Transaction.view_streamRows (tx : Transaction J) (tables : Tables J) (stream : JobId) :
    (tx.view tables).streamRows stream =
      tables.streamRows stream ++ tx.rows.filter (·.streamId = stream) := by
  rw [Tables.streamRows, tx.view_events, List.filter_append, Tables.streamRows]

theorem Transaction.view_outbox {tx : Transaction J} (appends : tx.AppendsOnly) (tables : Tables J) :
    (tx.view tables).outbox = tables.outbox ++ tx.outs ∧ (tx.view tables).removed = tables.removed := by
  obtain ⟨writes, locks, claimed⟩ := tx
  unfold Transaction.AppendsOnly at appends
  unfold Transaction.view Transaction.outs
  simp only at appends ⊢
  induction writes generalizing tables with
  | nil => simp
  | cons write rest ih =>
    have later : ∀ seqs, Write.remove seqs ∉ rest := fun seqs listed =>
      appends seqs (List.mem_cons_of_mem _ listed)
    rw [List.foldl_cons, (ih _ later).1, (ih _ later).2]
    cases write with
    | remove seqs => exact absurd List.mem_cons_self (appends seqs)
    | _ => simp [Write.apply]

theorem Transaction.view_dispatch (tx : Transaction J) (tables : Tables J) (jobId : JobId) :
    (tx.view tables).dispatch.lookup jobId = (tx.moved jobId).getD (tables.dispatch.lookup jobId) := by
  rw [Transaction.view, Transaction.moved]
  generalize stored : tables.dispatch.lookup jobId = row
  have same : tables.dispatch.lookup jobId = (none : Option (Option DispatchRow)).getD row := stored
  clear stored
  -- the fold is in some state, and the tables are those of the writes so far
  generalize (none : Option (Option DispatchRow)) = last at same ⊢
  induction tx.writes generalizing tables last with
  | nil => exact same
  | cons write rest ih =>
    rw [List.foldl_cons, List.foldl_cons]
    apply ih
    cases write with
    | put id row =>
      by_cases here : id = jobId
      · subst here
        simp [Write.apply, AList.lookup_insert]
      · simp only [Write.apply, if_neg here]
        rw [AList.lookup_insert_ne (Ne.symm here)]
        exact same
    | drop id =>
      by_cases here : id = jobId
      · subst here
        simp [Write.apply, AList.lookup_erase]
      · simp only [Write.apply, if_neg here]
        rw [AList.lookup_erase_ne (Ne.symm here)]
        exact same
    | event row => exact same
    | outbox row => exact same
    | remove seqs => exact same

theorem Transaction.rows_write (tx : Transaction J) (write : Write J) :
    (tx.write write).rows = tx.rows ++ match write with
      | .event row => [row]
      | _ => [] := by
  cases write <;> simp [Transaction.rows, Transaction.write]

theorem Transaction.outs_write (tx : Transaction J) (write : Write J) :
    (tx.write write).outs = tx.outs ++ match write with
      | .outbox row => [row]
      | _ => [] := by
  cases write <;> simp [Transaction.outs, Transaction.write]

theorem Transaction.moved_write (tx : Transaction J) (write : Write J) (jobId : JobId) :
    (tx.write write).moved jobId = match write with
      | .put id row => if id = jobId then some (some row) else tx.moved jobId
      | .drop id => if id = jobId then some none else tx.moved jobId
      | _ => tx.moved jobId := by
  rw [Transaction.moved, Transaction.write, List.foldl_append]
  cases write <;> rfl

theorem Tables.hasEventId_eq_false {tables : Tables J} {eventId : EventId} :
    tables.hasEventId eventId = false ↔ ∀ row ∈ tables.events, row.eventId ≠ eventId := by
  simp [Tables.hasEventId]

theorem Tables.hasVersion_eq_false {tables : Tables J} {stream : JobId} {version : Nat} :
    tables.hasVersion stream version = false ↔
      ∀ row ∈ tables.events, ¬ (row.streamId = stream ∧ row.version = version) := by
  simp [Tables.hasVersion]

end View

/-- The columns of a dispatch row that are a projection of the stream; the deadline also moves with
    heartbeats, and the sequence number orders the queue. -/
structure DispatchColumns where
  queue : QueueName
  priority : Priority
  notBefore : Option DateTime
  leaseId : Option LeaseId
  workerId : Option WorkerId
deriving DecidableEq

def DispatchRow.columns (row : DispatchRow) : DispatchColumns :=
  ⟨row.queue, row.priority, row.notBefore, row.leaseId, row.workerId⟩

def columnsOf (job : Job) : Option DispatchColumns :=
  match job.state with
  | .pending notBefore => some ⟨job.queue, job.priority, notBefore.map timestamptz, none, none⟩
  | .leased worker lease _ | .running worker lease _ =>
    some ⟨job.queue, job.priority, none, some lease, some worker⟩
  | _ => none

variable {J : Type} [Serde J] [BuildProfile]

/-- What the last statement did: the database, the transaction and its phase before and after. -/
inductive Advance (strict : Bool) (others : List (Transaction J)) (world : World J) (tx : Transaction J) :
    Phase J → World J → Transaction J → Phase J → Prop where
  | still {phase next : Phase J} {after : World J} {moved : Transaction J} (tables : after.tables = world.tables)
      (seq : after.outboxSeq = world.outboxSeq) (sink : after.delivered = world.delivered)
      (writes : moved.writes = tx.writes) (claimed : moved.claimed = tx.claimed)
      (stays : next = phase ∨ next = .closed) : Advance strict others world tx phase after moved next
  | checked (stream : JobId) :
      Advance strict others world tx .reading world tx
        (.writing stream ((((tx.view world.tables).streamRows stream).map (·.version)).max?.getD 0) 0)
  | inserted {stream : JobId} {base count : Nat} {columns : EventColumns J} {row : EventRow J}
      {after : World J} (tables : after.tables = world.tables) (seq : after.outboxSeq = world.outboxSeq)
      (sink : after.delivered = world.delivered) (eventId : row.eventId = columns.eventId)
      (streamId : row.streamId = stream) (version : row.version = base + count + 1)
      (number : columns.version = base + count + 1)
      (freshId : (tx.view world.tables).hasEventId columns.eventId = false)
      (freshVersion : (tx.view world.tables).hasVersion stream (base + count + 1) = false)
      (free : ∀ other ∈ others, ∀ rival ∈ other.rows, rival.eventId ≠ columns.eventId ∧
        ¬ (rival.streamId = stream ∧ rival.version = base + count + 1)) :
      Advance strict others world tx (.writing stream base count) after (tx.write (.event row))
        (.unpaired stream base count columns)
  | paired {stream : JobId} {base count : Nat} {columns : EventColumns J} {out : OutboxRow J}
      {after : World J} (tables : after.tables = world.tables) (seq : after.outboxSeq = world.outboxSeq + 1)
      (sink : after.delivered = world.delivered) (number : out.outboxSeq = world.outboxSeq + 1)
      (eventId : out.eventId = columns.eventId) (streamId : out.streamId = stream)
      (carries : Carries out.envelope columns.eventId stream columns.version) :
      Advance strict others world tx (.unpaired stream base count columns) after (tx.write (.outbox out))
        (.writing stream base (count + 1))
  | folded {stream : JobId} {base count : Nat} {job : Job} (added : strict = true → 0 < count)
      (folds : foldRows (inOrder ((tx.view world.tables).streamRows stream)) = some job) :
      Advance strict others world tx (.writing stream base count) world tx (.folded stream base count job)
  | projected {stream : JobId} {base count : Nat} {job : Job} {after : World J} {moved : Transaction J}
      (tables : after.tables = world.tables) (seq : after.outboxSeq = world.outboxSeq)
      (sink : after.delivered = world.delivered)
      (row : (∃ row, moved = tx.write (.put job.id row) ∧ columnsOf job = some row.columns ∧
          ∀ other ∈ others, other.moved job.id = none) ∨
        (moved = tx.write (.drop job.id) ∧ columnsOf job = none ∧
          ∀ other ∈ others, other.moved job.id = none) ∨
        (moved = tx ∧ columnsOf job = none ∧ (tx.view world.tables).dispatch.lookup job.id = none)) :
      Advance strict others world tx (.folded stream base count job) after moved
        (.projected stream base count job)
  | beaten {moved : Transaction J} {alive : List ((_ : JobId) × DispatchRow)} {deadline : DateTime}
      (present : ∀ entry ∈ alive, (tx.view world.tables).dispatch.lookup entry.1 = some entry.2 ∧
        ∀ other ∈ others, other.moved entry.1 = none)
      (writes : moved.writes = tx.writes ++ alive.map fun entry =>
        Write.put entry.1 { entry.2 with leaseExpiresAt := some deadline })
      (claimed : moved.claimed = tx.claimed) :
      Advance strict others world tx .reading world moved .beaten
  | committed {phase : Phase J} {after : World J} (tables : after.tables = tx.view world.tables)
      (seq : after.outboxSeq = world.outboxSeq) (sink : after.delivered = world.delivered)
      (commits : phase.permits strict .commit) :
      Advance strict others world tx phase after .begin .closed
  | selected {moved : Transaction J} (chosen : List (OutboxRow J)) (batch : Nat)
      (rows : chosen = (((tx.view world.tables).outbox.filter fun row =>
        !others.any fun other => row.outboxSeq ∈ other.claimed).insertionSort fun left right =>
          left.outboxSeq ≤ right.outboxSeq).take batch)
      (writes : moved.writes = tx.writes) :
      Advance strict others world tx .draining world moved
        (.selected (chosen.map fun row => (row.outboxSeq, row.envelope)))
  | delivered {rows : List (Nat × J)} {envelopes : List EventEnvelope} {after : World J} {next : Phase J}
      (received : Nat) (tables : after.tables = world.tables) (seq : after.outboxSeq = world.outboxSeq)
      (decoded : decodeOutbox rows = .ok envelopes)
      (sink : after.delivered = world.delivered ++ envelopes.take received)
      (answer : (envelopes.length ≤ received ∧ next = .handed rows) ∨ next = .closed) :
      Advance strict others world tx (.selected rows) after tx next
  | dropped {rows : List (Nat × J)} :
      Advance strict others world tx (.handed rows) world (tx.write (.remove (rows.map (·.1))))
        (.dropped rows)

omit [Serde J] [BuildProfile] in
theorem moved_eq_none_of_free {others : List (Transaction J)} {jobId : JobId}
    (free : others.any (·.holdsRow jobId) = false) : ∀ other ∈ others, other.moved jobId = none := by
  intro other listed
  rw [List.any_eq_false] at free
  have untouched := free other listed
  rw [Transaction.holdsRow, Bool.or_eq_true, not_or, Option.isSome_iff_ne_none, not_not] at untouched
  exact untouched.2

theorem insertEvent_advance {strict : Bool} {others : List (Transaction J)} {verdict : Verdict}
    {world : World J} {tx : Transaction J} {stream : JobId} {base count : Nat} {columns : EventColumns J}
    (permitted : columns.streamId = stream ∧ columns.version = base + count + 1)
    (ready : (Stmt.insertEvent columns).waits (tx.view world.tables) others = false) :
    let ran := (Stmt.insertEvent columns).exec others verdict world tx
    Advance strict others world tx (.writing stream base count) ran.1.1 ran.1.2
      (Phase.after (.writing stream base count) (.insertEvent columns) ran.2) := by
  obtain ⟨named, number⟩ := permitted
  simp only [Stmt.exec]
  split
  · exact .still rfl rfl rfl rfl rfl (.inr rfl)
  · rename_i freshId
    rw [Bool.not_eq_true] at freshId
    split
    · exact .still rfl rfl rfl rfl rfl (.inr rfl)
    · rename_i freshVersion
      rw [Bool.not_eq_true] at freshVersion
      simp only [Stmt.waits, freshId, freshVersion, Bool.not_false, Bool.true_and, Bool.or_eq_false_iff,
        List.any_eq_false] at ready
      rw [named, number] at freshVersion
      refine .inserted rfl rfl rfl rfl named number number freshId freshVersion ?_
      intro other listed rival member
      have first := ready.1 other listed
      have second := ready.2 other listed
      rw [List.any_eq_true] at first second
      refine ⟨?_, ?_⟩
      · intro same
        exact first ⟨rival, member, by simpa using same⟩
      · intro same
        exact second ⟨rival, member, by simpa [named, number] using same⟩

theorem project_advance {strict : Bool} {others : List (Transaction J)} {world : World J}
    {tx : Transaction J} {stream : JobId} {base count : Nat} {job : Job} {row : Nat → DispatchRow}
    (free : others.any (·.holdsRow job.id) = false) (shape : ∀ seq, columnsOf job = some (row seq).columns) :
    Advance strict others world tx (.folded stream base count job) (upsert world tx job.id row).1
      (upsert world tx job.id row).2 (.projected stream base count job) :=
  .projected rfl rfl rfl (.inl ⟨_, rfl, shape _, moved_eq_none_of_free free⟩)

theorem deleteDispatch_advance {strict : Bool} {others : List (Transaction J)} {verdict : Verdict}
    {world : World J} {tx : Transaction J} {stream : JobId} {base count : Nat} {job : Job}
    (none : job.state.dispatchable = false)
    (ready : (Stmt.deleteDispatch job.id).waits (tx.view world.tables) others = false) :
    let ran := (Stmt.deleteDispatch job.id).exec others verdict world tx
    Advance strict others world tx (.folded stream base count job) ran.1.1 ran.1.2
      (.projected stream base count job) := by
  have columns : columnsOf job = Option.none := by
    unfold columnsOf
    cases state : job.state <;> simp_all [JobState.dispatchable]
  simp only [Stmt.exec]
  split
  · rename_i row present
    simp only [Stmt.waits, present, Option.isSome_some, Bool.true_and] at ready
    exact .projected rfl rfl rfl (.inr (.inl ⟨rfl, columns, moved_eq_none_of_free ready⟩))
  · rename_i missing
    exact .projected rfl rfl rfl (.inr (.inr ⟨rfl, columns, missing⟩))

theorem updateDeadline_advance {strict : Bool} {others : List (Transaction J)} {verdict : Verdict}
    {world : World J} {tx : Transaction J} {deadline now : DateTime} {lease : LeaseId}
    (ready : (Stmt.updateDeadline deadline lease now).waits (tx.view world.tables) others = false) :
    let ran := (Stmt.updateDeadline deadline lease now).exec others verdict world tx
    Advance strict others world tx .reading ran.1.1 ran.1.2 .beaten := by
  simp only [Stmt.exec]
  refine .beaten ?_ rfl rfl
  intro entry listed
  rw [List.mem_filter] at listed
  refine ⟨AList.mem_lookup_iff.mpr listed.1, moved_eq_none_of_free ?_⟩
  rw [Stmt.waits, List.any_eq_false] at ready
  have free := ready entry listed.1
  simpa [listed.2] using free

theorem deliver_advance {strict : Bool} {others : List (Transaction J)} {verdict : Verdict}
    {world : World J} {tx : Transaction J} {rows : List (Nat × J)} {envelopes : List EventEnvelope}
    (decoded : decodeOutbox rows = .ok envelopes) :
    let ran := (Stmt.deliver envelopes : Stmt J).exec others verdict world tx
    Advance strict others world tx (.selected rows) ran.1.1 ran.1.2
      (Phase.after (.selected rows) (.deliver envelopes) ran.2) := by
  cases verdict with
  | accepts =>
    refine .delivered envelopes.length rfl rfl decoded ?_ (.inl ⟨le_rfl, rfl⟩)
    simp [Stmt.exec]
  | fails received error => exact .delivered received rfl rfl decoded rfl (.inr rfl)

theorem Advance.of_exec {strict : Bool} {others : List (Transaction J)} {verdict : Verdict}
    {world : World J} {tx : Transaction J} {phase : Phase J} (statement : Stmt J)
    (permitted : phase.permits strict statement)
    (ready : statement.waits (tx.view world.tables) others = false) :
    let ran := statement.exec others verdict world tx
    Advance strict others world tx phase ran.1.1 ran.1.2 (phase.after statement ran.2) := by
  cases statement with
  | maxVersion stream =>
    cases phase with
    | reading => exact .checked stream
    | _ => exact permitted.elim
  | insertEvent columns =>
    cases phase with
    | writing stream base count => exact insertEvent_advance permitted ready
    | _ => exact permitted.elim
  | insertOutbox eventId streamId envelope =>
    cases phase with
    | unpaired stream base count columns =>
      obtain ⟨id, name, carries⟩ := permitted
      exact .paired rfl rfl rfl rfl id name carries
    | _ => exact permitted.elim
  | loadStream stream =>
    cases phase with
    | reading => exact .still rfl rfl rfl rfl rfl (.inl rfl)
    | writing target base count =>
      obtain ⟨rfl, added⟩ := permitted
      simp only [Stmt.exec, Phase.after]
      split
      · rename_i job folds
        exact .folded added folds
      · exact .still rfl rfl rfl rfl rfl (.inr rfl)
    | _ => exact permitted.elim
  | upsertPending jobId queue priority notBefore =>
    cases phase with
    | folded stream base count job =>
      obtain ⟨rfl, rfl, rfl, state⟩ := permitted
      refine project_advance ready ?_
      intro seq
      rw [columnsOf, state]
      rfl
    | _ => exact permitted.elim
  | notifyDispatch queue =>
    cases phase with
    | projected stream base count job => exact .still rfl rfl rfl rfl rfl (.inl rfl)
    | _ => exact permitted.elim
  | upsertLeased jobId queue priority lease worker expiresAt =>
    cases phase with
    | folded stream base count job =>
      obtain ⟨rfl, rfl, rfl, state⟩ := permitted
      refine project_advance ready ?_
      intro seq
      rcases state with state | state
      · rw [columnsOf, state]
        rfl
      · rw [columnsOf, state]
        rfl
    | _ => exact permitted.elim
  | deleteDispatch jobId =>
    cases phase with
    | folded stream base count job =>
      obtain ⟨rfl, none⟩ := permitted
      exact deleteDispatch_advance none ready
    | _ => exact permitted.elim
  | selectEligible queue now =>
    cases phase with
    | reading =>
      simp only [Stmt.exec]
      split
      · exact .still rfl rfl rfl rfl rfl (.inl rfl)
      · exact .still rfl rfl rfl rfl rfl (.inl rfl)
    | _ => exact permitted.elim
  | selectExpired now =>
    cases phase with
    | reading =>
      simp only [Stmt.exec]
      split
      · exact .still rfl rfl rfl rfl rfl (.inl rfl)
      · exact .still rfl rfl rfl rfl rfl (.inl rfl)
    | _ => exact permitted.elim
  | updateDeadline deadline lease now =>
    cases phase with
    | reading => exact updateDeadline_advance ready
    | _ => exact permitted.elim
  | selectOutbox batch =>
    cases phase with
    | draining => exact .selected _ batch rfl rfl
    | _ => exact permitted.elim
  | deliver envelopes =>
    cases phase with
    | selected rows => exact deliver_advance permitted
    | _ => exact permitted.elim
  | deleteOutbox seqs =>
    cases phase with
    | handed rows =>
      obtain rfl := permitted
      exact .dropped
    | _ => exact permitted.elim
  | commit =>
    cases phase with
    | reading | projected | beaten | dropped => exact .committed rfl rfl rfl trivial
    | _ => exact permitted.elim

/-- The invariant rule of the cluster: a property of the database and the phases of its transactions
    that survives starts, rollbacks and every advance holds in every state of every run. -/
theorem Run.phases (strict : Bool) (allowed : Cluster J → Work → Prop)
    (holds : Cluster J → (Nat → Phase J) → Prop)
    (strictly : ∀ cluster work, allowed cluster work → strict = true → work.strict = true)
    (initial : holds .empty fun _ => .closed)
    (start : ∀ cluster phases ticket work, holds cluster phases →
      cluster.sessions.lookup ticket = none → allowed cluster work →
      holds (cluster.resume ticket cluster.world ⟨work, work.program, .begin⟩)
        (Function.update phases ticket work.phase))
    (close : ∀ cluster phases ticket, holds cluster phases → holds (cluster.close ticket) phases)
    (advance : ∀ cluster phases ticket session world tx phase program, holds cluster phases →
      cluster.sessions.lookup ticket = some session →
      Advance strict (cluster.others ticket) cluster.world session.tx (phases ticket) world tx phase →
      holds (cluster.resume ticket world ⟨session.work, program, tx⟩) (Function.update phases ticket phase))
    {history : List (Record (Cluster J) Label Unit)} {cluster : Cluster J}
    (run : Run Cluster.Step .empty history cluster)
    (kinds : ∀ record ∈ history, ∀ ticket work, record.label = .start ticket work →
      allowed record.before work) :
    ∃ phases, holds cluster phases := by
  obtain ⟨phases, _, kept⟩ : ∃ phases, Following (Phase.permits strict) Phase.after (fun _ _ => True) history
      cluster phases ∧ holds cluster phases := by
    refine Run.following Work.phase
      (fun record => ∀ ticket work, record.label = .start ticket work → allowed record.before work)
      (fun _ cluster phases => holds cluster phases) ?_ (fun _ => rfl) (fun _ => .closed) initial ?_ ?_ ?_ run kinds
    · intro cluster _ ticket work permitted
      have keeps : Keeps strict (work.program : Tx J Unit Unit) (fun _ _ => True) work.phase :=
        work.program_keeps strict (strictly cluster work (permitted ticket work rfl))
      exact keeps.of_shape work.answering_shape.symm
    · intro _ cluster phases ticket work kept free _ permitted
      exact start cluster phases ticket work kept free (permitted ticket work rfl)
    · intro _ cluster phases ticket _ kept _
      exact close cluster phases ticket kept
    · intro _ cluster phases ticket verdict work statement rest tx kept found permitted ready
      exact fun _ => advance _ _ ticket _ _ _ _ _ kept found (Advance.of_exec statement permitted ready)
  exact ⟨phases, kept⟩

end Koine.Postgres
