import Koine.Postgres.Ranks

namespace Koine.Postgres

open Library Domain Application

theorem timestamptz_mono {a b : DateTime} (le : a ≤ b) : timestamptz a ≤ timestamptz b := by
  rw [DateTime.le_iff] at le ⊢
  simp only [timestamptz]
  split <;> split <;> omega

def drift (message : String) : EventStoreError := .backend ("index/state drift: " ++ message)

def Plain (error : EventStoreError) : Prop := ∀ message, error ≠ drift message

theorem plain_of_label {label : String} (opens : label.toList.head?.any (· != 'i') = true) (rest : String) :
    Plain (.backend (label ++ rest)) := by
  intro message same
  rw [drift, EventStoreError.backend.injEq] at same
  have texts := congrArg String.toList same
  rw [String.toList_append, String.toList_append] at texts
  cases letters : label.toList with
  | nil =>
    rw [letters] at opens
    cases opens
  | cons letter others =>
    rw [letters] at opens texts
    have first := (List.cons.inj texts).1
    subst first
    cases opens

theorem plain_of_text {text : String} (opens : text.toList.head?.any (· != 'i') = true) :
    Plain (.backend text) := by
  have plain := plain_of_label opens ""
  rwa [String.append_empty] at plain

section Errors

variable {J : Type}

theorem query_errs {ε : Type} {allowed : ε → Prop} (statement : Stmt J) :
    (query statement : Tx J ε statement.Reply).Errs allowed := fun _ => trivial

theorem labelled_plain {α : Type} {label : String} (opens : label.toList.head?.any (· != 'i') = true)
    (result : Except String α) : (.done (labelled label result) : Tx J EventStoreError α).Errs Plain := by
  cases result with
  | ok value => trivial
  | error message => exact plain_of_label opens message

variable [Serde J]

theorem envelopesFromRows_plain (rows : List (EventRow J)) :
    (.done (envelopesFromRows rows) : Tx J EventStoreError _).Errs Plain := by
  induction rows with
  | nil => trivial
  | cons row rest ih =>
    rw [envelopesFromRows, envelopeFromRow]
    cases Serde.decodeEvent row.payload with
    | error message => exact plain_of_label (by decide) message
    | ok event =>
      cases decoded : envelopesFromRows rest with
      | ok envelopes => trivial
      | err error =>
        rw [decoded] at ih
        exact ih
      | panic => trivial

theorem loadInTx_plain (stream : JobId) : (loadInTx stream : Tx J EventStoreError _).Errs Plain :=
  Program.Errs.bind (query_errs _) envelopesFromRows_plain

theorem insertEnvelopes_plain (stream : JobId) (expected : Nat) (envelopes : List EventEnvelope) :
    (insertEnvelopes stream expected envelopes : Tx J EventStoreError _).Errs Plain := by
  induction envelopes with
  | nil => trivial
  | cons envelope rest ih =>
    rw [insertEnvelopes]
    apply Program.Errs.bind (labelled_plain (by decide) _)
    intro payload
    split
    · exact plain_of_text (by decide)
    · split
      · exact plain_of_text (by decide)
      · apply Program.Errs.bind (query_errs _)
        intro outcome
        cases outcome with
        | violates constraint =>
          cases constraint with
          | eventsStreamVersionUnique =>
            intro message contradiction
            cases contradiction
          | eventsEventIdKey => exact plain_of_label (by decide) _
        | inserted =>
          apply Program.Errs.bind (labelled_plain (by decide) _)
          intro json
          exact Program.Errs.bind (query_errs _) fun _ => ih

omit [Serde J] in
theorem projectInTx_plain (job : Job) : (projectInTx job : Tx J EventStoreError Unit).Errs Plain := by
  unfold projectInTx
  cases job.state with
  | pending notBefore => exact fun _ _ => trivial
  | _ => exact fun _ => trivial

variable [BuildProfile]

theorem appendInTx_plain (stream : JobId) (expected : Nat) (envelopes : List EventEnvelope) :
    (appendInTx stream expected envelopes : Tx J EventStoreError Job).Errs Plain := by
  unfold appendInTx
  apply Program.Errs.bind (query_errs _)
  intro newest
  simp only
  split
  · nofun
  · split
    · apply Program.Errs.bind (insertEnvelopes_plain stream expected envelopes)
      intro _
      apply Program.Errs.bind (loadInTx_plain stream)
      intro stored
      apply Program.Errs.bind
      · unfold foldStream
        cases Job.fromEvents stored with
        | ok job => trivial
        | err error => exact plain_of_label (by decide) error.display
        | panic => trivial
      · intro job
        exact Program.Errs.bind (projectInTx_plain job) fun _ => trivial
    · exact plain_of_label (by decide) stream.display

end Errors

section Claims

variable {J : Type} [Serde J] [BuildProfile]

theorem Derived.row {world : World J} (derived : Derived world) {id : JobId} {row : DispatchRow}
    (present : world.tables.dispatch.lookup id = some row) :
    ∃ envelopes job, envelopesFromRows (world.tables.streamRows id) = .ok envelopes ∧
      Job.fromEvents envelopes = .ok job ∧ some row.columns = columnsOf job := by
  rcases derived.shows id with ⟨_, missing⟩ | ⟨job, folds, columns⟩
  · rw [missing] at present
    cases present
  · obtain ⟨envelopes, decoded, folded⟩ := foldRows_eq_some.mp folds
    rw [present] at columns
    exact ⟨envelopes, job, decoded, folded, columns⟩

/-- The first of the rows that may be claimed is not that of a job which waits for an instant that the clock has
    not reached but the column cannot tell from it. -/
def Sharp (world : World J) (queue : QueueName) (now : DateTime) : Prop :=
  ∀ id row job notBefore, world.tables.Foremost queue (timestamptz now) id row →
    foldRows (world.tables.streamRows id) = some job → job.state = .pending (some notBefore) → now < notBefore →
      timestamptz now ≠ timestamptz notBefore

theorem Derived.selected {world : World J} (derived : Derived world) {queue : QueueName} {now : DateTime} {id : JobId}
    {row : DispatchRow} (foremost : world.tables.Foremost queue (timestamptz now) id row) :
    ∃ envelopes job notBefore, envelopesFromRows (world.tables.streamRows id) = .ok envelopes ∧
      Job.fromEvents envelopes = .ok job ∧ job.state = .pending notBefore ∧
      ∀ time, notBefore = some time → timestamptz time ≤ timestamptz now := by
  obtain ⟨envelopes, job, decoded, folded, columns⟩ := derived.row foremost.present
  have eligible := foremost.eligible
  simp only [DispatchRow.eligible, Bool.and_eq_true, decide_eq_true_eq] at eligible
  obtain ⟨⟨_, unheld⟩, due⟩ := eligible
  have free : row.leaseId = none := Option.isNone_iff_eq_none.mp unheld
  cases state : job.state with
  | pending notBefore =>
    refine ⟨envelopes, job, notBefore, decoded, folded, state, ?_⟩
    rintro time rfl
    simp only [columnsOf, state, Option.some.injEq] at columns
    have column : row.notBefore = some (timestamptz time) := congrArg DispatchColumns.notBefore columns
    rw [column] at due
    simpa using due
  | leased worker lease expiresAt | running worker lease expiresAt =>
    simp only [columnsOf, state, Option.some.injEq] at columns
    have held : row.leaseId = some lease := congrArg DispatchColumns.leaseId columns
    rw [free] at held
    cases held
  | _ => simp [columnsOf, state] at columns

theorem Derived.due {world : World J} (derived : Derived world) {queue : QueueName} {now : DateTime}
    (sharp : Sharp world queue now) {id : JobId}
    (picked : ((Stmt.selectEligible queue now : Stmt J).alone (world, .begin)).2 = some id) :
    ∃ envelopes job notBefore, envelopesFromRows (world.tables.streamRows id) = .ok envelopes ∧
      Job.fromEvents envelopes = .ok job ∧ job.state = .pending notBefore ∧
      ∀ time, notBefore = some time → time ≤ now := by
  rw [selectEligible_pick] at picked
  obtain ⟨row, foremost⟩ := pick_eq_some picked
  obtain ⟨envelopes, job, notBefore, decoded, folded, state, reached⟩ := derived.selected foremost
  refine ⟨envelopes, job, notBefore, decoded, folded, state, ?_⟩
  rintro time rfl
  by_contra early
  rw [not_le] at early
  have equal := le_antisymm (timestamptz_mono early.le) (reached time rfl)
  exact sharp id row job time foremost (foldRows_eq_some.mpr ⟨envelopes, decoded, folded⟩) state early equal

theorem grant_plain (ports : Ports) (id : JobId) (version : Nat) (worker : WorkerId) (expiresAt : DateTime)
    (correlationId : CorrelationId) (causationId : Option EventId) (traceparent : Option String) :
    (do
      let folded ← (appendInTx id version (wrapEvents ports id version correlationId causationId traceparent
        [.leased worker ports.leaseId expiresAt])).mapErr .store
      query Stmt.commit
      pure (some
        { jobId := id, queue := folded.queue, payload := folded.payload, attempt := folded.attempt
          lease := ports.leaseId, expiresAt, correlationId, traceparent }) :
        Tx J DispatchError (Option LeasedJob)).Errs fun error => ∀ message, error ≠ .store (drift message) := by
  apply Program.Errs.bind
  · apply (appendInTx_plain id version _).mapErr
    intro error plain message same
    exact plain message (DispatchError.store.inj same)
  · exact fun _ => Program.Errs.bind (query_errs _) fun _ => trivial

theorem claim_no_drift {world : World J} (derived : Derived world) {ports : Ports} {ttl : Duration} {queue : QueueName}
    (room : ports.now.nanos + ttl.nanos ≤ maxUtcNanos) (sharp : Sharp world queue ports.now) (worker : WorkerId)
    (message : String) : (Dispatcher.leaseNext world ports queue worker ttl).2 ≠ .err (.store (drift message)) := by
  change ((claim ports queue worker ttl).run Stmt.alone (world, .begin)).2 ≠ _
  unfold claim
  rcases selected : (query (Stmt.selectEligible queue ports.now) : Tx J DispatchError _).run Stmt.alone
    (world, .begin) with ⟨state, picked | error | _⟩
  · rw [Program.run_bind_ok Stmt.alone selected]
    obtain ⟨tx, rfl, clean⟩ := selectEligible_clean selected
    cases picked with
    | none => nofun
    | some id =>
      have chosen : ((Stmt.selectEligible queue ports.now : Stmt J).alone (world, .begin)).2 = some id :=
        Outcome.ok.inj (congrArg Prod.snd selected)
      obtain ⟨envelopes, job, notBefore, decoded, folded, pending, due⟩ := derived.due sharp chosen
      obtain ⟨expiresAt, granted⟩ := Job.lease_total pending due room worker ports.leaseId
      have view : tx.view world.tables = world.tables := by
        rw [Transaction.view, clean]
        rfl
      have loads := loadInTx_alone (view.symm ▸ decoded) (Job.fromEvents_sequential folded)
      have read : ((loadInTx id).mapErr DispatchError.store : Tx J DispatchError _).run Stmt.alone (world, tx) =
          ((world, tx), .ok envelopes) := (Program.run_mapErr_eq_ok Stmt.alone).mpr loads
      have fold : (.done ((foldStream "fold: " envelopes).mapErr .store) : Tx J DispatchError Job).run
          Stmt.alone (world, tx) = ((world, tx), .ok job) := by
        rw [foldStream, folded]
        rfl
      have grant : (.done ((job.lease worker ports.leaseId ports.now ttl).mapErr fun error =>
          .store (.backend ("index/state drift: " ++ error.display))) : Tx J DispatchError JobEvent).run
          Stmt.alone (world, tx) = ((world, tx), .ok (.leased worker ports.leaseId expiresAt)) := by
        rw [granted]
        rfl
      simp only
      rw [Program.run_bind_ok Stmt.alone read, Program.run_bind_ok Stmt.alone fold,
        Program.run_bind_ok Stmt.alone grant]
      intro failed
      exact (grant_plain ports id job.version worker expiresAt _ _ _).run Stmt.alone failed message rfl
  · cases selected
  · cases selected

/-- The job that the query selects can be leased, and `claim` reports no drift, exactly where the query does not
    take its `not_before` for the clock's reading. -/
theorem claim_query_agrees {history : List (Record (World J) Operation Answer)} {world : World J}
    (run : Run Serially .empty history world) {ports : Ports} {ttl : Duration}
    (room : ports.now.nanos + ttl.nanos ≤ maxUtcNanos) (queue : QueueName) (worker : WorkerId) :
    ((∀ id, ((Stmt.selectEligible queue ports.now : Stmt J).alone (world, .begin)).2 = some id →
      ∃ job event, foldRows (world.tables.streamRows id) = some job ∧
        job.lease worker ports.leaseId ports.now ttl = .ok event) ∧
      ∀ message, (Dispatcher.leaseNext world ports queue worker ttl).2 ≠ .err (.store (drift message))) ↔
      Sharp world queue ports.now := by
  have derived := Run.derived run
  constructor
  · rintro ⟨leases, _⟩ id row job notBefore foremost folds state early _
    have picked := (Run.ranked run).pick_eq_some_iff.mpr ⟨row, foremost⟩
    rw [← selectEligible_pick] at picked
    obtain ⟨other, event, same, granted⟩ := leases id picked
    rw [folds] at same
    cases same
    simp only [Job.lease, state, Option.all_some, decide_eq_true_eq, not_le.mpr early, if_false] at granted
    cases granted
  · intro sharp
    refine ⟨fun id picked => ?_, claim_no_drift derived room sharp worker⟩
    obtain ⟨envelopes, job, notBefore, decoded, folded, state, due⟩ := derived.due sharp picked
    obtain ⟨expiresAt, granted⟩ := Job.lease_total state due room worker ports.leaseId
    exact ⟨job, _, foldRows_eq_some.mpr ⟨envelopes, decoded, folded⟩, granted⟩

end Claims

section Samples

def deferred (notBefore : DateTime) : Operation :=
  .append ⟨1⟩ 0 ({ Sample.command with notBefore := some notBefore }.envelopes (Sample.ports 0 1))

theorem claim_query_agrees_next_microsecond :
    let _ := BuildProfile.release
    ∀ message, (Dispatcher.leaseNext (Run.replay Operation.exec (World.empty : World TypedJson)
      [deferred (Sample.finely 0 1500)]).2 { Sample.ports 0 2 with now := Sample.finely 0 2200 } Sample.queue
        Sample.worker (.fromSecs 60)).2 ≠ .err (.store (drift message)) := by
  intro _
  have run : Run Serially (World.empty : World TypedJson) _ _ :=
    Run.of_replay (fun _ _ => rfl) [deferred (Sample.finely 0 1500)]
  refine ((claim_query_agrees run ?_ Sample.queue Sample.worker).mpr ?_).2
  · decide
  · intro id row job notBefore foremost folds pending early
    have picked := (Run.ranked run).pick_eq_some_iff.mpr ⟨row, foremost⟩
    cases picked
    cases folds
    cases pending
    exact absurd early (by decide)

/-- A clock reading 300 ns before `not_before`, in the same microsecond: the query selects the job and
    `Job::lease` rejects it. -/
theorem truncated_clock_drifts :
    let _ := BuildProfile.release
    ∃ history world, Run Serially (World.empty : World TypedJson) history world ∧
      (Dispatcher.leaseNext world { Sample.ports 0 2 with now := Sample.finely 0 1200 } Sample.queue Sample.worker
        (.fromSecs 60)).2 =
          .err (.store (drift (DomainError.illegalTransition "pending" "leased").display)) := by
  intro _
  exact ⟨_, _, Run.of_replay (fun _ _ => rfl) [deferred (Sample.finely 0 1500)], rfl⟩

end Samples

end Koine.Postgres
