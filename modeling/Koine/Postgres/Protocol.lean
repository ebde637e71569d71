import Koine.Postgres.Following

namespace Koine.Postgres

open Library Domain Application

/-- Where a transaction stands: how far an append of `stream` on top of version `base` has come, what
    a heartbeat or the relay has done. In `writing` every one of the `count` events inserted so far has
    its outbox row, in `unpaired` the last one still lacks it. -/
inductive Phase (J : Type) where
  | reading
  | writing (stream : JobId) (base count : Nat)
  | unpaired (stream : JobId) (base count : Nat) (columns : EventColumns J)
  | folded (stream : JobId) (base count : Nat) (job : Job)
  | projected (stream : JobId) (base count : Nat) (job : Job)
  | beaten
  | draining
  | selected (rows : List (Nat × J))
  | handed (rows : List (Nat × J))
  | dropped (rows : List (Nat × J))
  | closed

variable {J : Type} [Serde J]

/-- The outbox JSON of an event is that of an envelope with the event's ids and version. -/
def Carries (json : J) (eventId : EventId) (stream : JobId) (version : Nat) : Prop :=
  ∃ envelope, Serde.encodeEnvelope envelope = .ok json ∧ envelope.eventId = eventId ∧
    envelope.streamId = stream ∧ envelope.version = version

/-- The statements a transaction may issue next. A `strict` one never folds a stream it added
    nothing to. -/
def Phase.permits (strict : Bool) : Phase J → Stmt J → Prop
  | .reading, .maxVersion _ | .reading, .loadStream _ | .reading, .selectEligible ..
  | .reading, .selectExpired _ | .reading, .updateDeadline .. | .reading, .commit => True
  | .writing stream base count, .insertEvent columns =>
    columns.streamId = stream ∧ columns.version = base + count + 1
  | .writing stream _ count, .loadStream id => id = stream ∧ (strict = true → 0 < count)
  | .unpaired stream _ _ columns, .insertOutbox eventId streamId json =>
    eventId = columns.eventId ∧ streamId = stream ∧ Carries json columns.eventId stream columns.version
  | .folded _ _ _ job, .upsertPending id queue priority notBefore =>
    id = job.id ∧ queue = job.queue ∧ priority = job.priority ∧ job.state = .pending notBefore
  | .folded _ _ _ job, .upsertLeased id queue priority lease worker expiresAt =>
    id = job.id ∧ queue = job.queue ∧ priority = job.priority ∧
      (job.state = .leased worker lease expiresAt ∨ job.state = .running worker lease expiresAt)
  | .folded _ _ _ job, .deleteDispatch id => id = job.id ∧ job.state.dispatchable = false
  | .projected .., .notifyDispatch _ | .projected .., .commit | .beaten, .commit
  | .draining, .selectOutbox _ | .dropped _, .commit => True
  | .selected rows, .deliver envelopes => decodeOutbox rows = .ok envelopes
  | .handed rows, .deleteOutbox seqs => seqs = rows.map (·.1)
  | _, _ => False

variable [BuildProfile]

def foldRows (rows : List (EventRow J)) : Option Job :=
  match envelopesFromRows rows with
  | .ok envelopes =>
    match Job.fromEvents envelopes with
    | .ok job => some job
    | _ => none
  | _ => none

def Phase.after : Phase J → (statement : Stmt J) → statement.Reply → Phase J
  | .reading, .maxVersion stream, newest => .writing stream (newest.getD 0) 0
  | .reading, .updateDeadline .., _ => .beaten
  | .reading, .commit, _ => .closed
  | .reading, _, _ => .reading
  | .writing stream base count, .insertEvent columns, .inserted => .unpaired stream base count columns
  | .writing stream base count, .loadStream _, rows =>
    match foldRows rows with
    | some job => .folded stream base count job
    | none => .closed
  | .unpaired stream base count _, .insertOutbox .., _ => .writing stream base (count + 1)
  | .folded stream base count job, _, _ => .projected stream base count job
  | .projected stream base count job, .notifyDispatch _, _ => .projected stream base count job
  | .draining, .selectOutbox _, rows => .selected rows
  | .selected rows, .deliver _, .ok () => .handed rows
  | .handed rows, .deleteOutbox _, _ => .dropped rows
  | _, _, _ => .closed

abbrev Keeps {ε α : Type} (strict : Bool) (program : Tx J ε α) (post : Phase J → α → Prop)
    (phase : Phase J) : Prop :=
  program.Obeys (Phase.permits strict) Phase.after post phase

theorem insertEnvelopes_keeps (strict : Bool) (stream : JobId) (expected base : Nat)
    (envelopes : List EventEnvelope) (count : Nat) (sequential : Job.Sequential (base + count) envelopes)
    (named : ∀ envelope ∈ envelopes, envelope.streamId = stream) :
    Keeps strict (insertEnvelopes stream expected envelopes : Tx J EventStoreError Unit)
      (fun phase _ => phase = .writing stream base (count + envelopes.length))
      (.writing stream base count) := by
  induction envelopes generalizing count with
  | nil => rfl
  | cons envelope rest ih =>
    obtain ⟨version, later⟩ := sequential
    rw [List.forall_mem_cons] at named
    unfold insertEnvelopes
    rw [Keeps, Program.obeys_bind, Program.obeys_done]
    intro payload _
    split
    · trivial
    · split
      · trivial
      · rw [Program.obeys_bind]
        refine ⟨⟨rfl, version⟩, ?_⟩
        intro outcome
        cases outcome with
        | violates constraint => cases constraint <;> trivial
        | inserted =>
          change Program.Obeys _ _ _ (_ >>= _) _
          rw [Program.obeys_bind, Program.obeys_done]
          intro json wrapped
          rw [labelled_eq_ok] at wrapped
          rw [Program.obeys_bind]
          refine ⟨⟨rfl, rfl, envelope, wrapped, rfl, named.1, rfl⟩, ?_⟩
          intro _
          have more := ih (count + 1) (by simpa [Nat.add_assoc] using later) named.2
          have total : count + (envelope :: rest).length = count + 1 + rest.length := by
            rw [List.length_cons]
            omega
          rw [total]
          exact more

theorem projectInTx_keeps (strict : Bool) (stream : JobId) (base count : Nat) (job : Job) :
    Keeps strict (projectInTx job : Tx J EventStoreError Unit)
      (fun phase _ => phase = .projected stream base count job) (.folded stream base count job) := by
  unfold projectInTx
  cases state : job.state with
  | pending notBefore =>
    rw [Keeps, Program.obeys_bind]
    exact ⟨⟨rfl, rfl, rfl, state⟩, fun _ => ⟨trivial, fun _ => rfl⟩⟩
  | leased worker lease expiresAt => exact ⟨⟨rfl, rfl, rfl, .inl state⟩, fun _ => rfl⟩
  | running worker lease expiresAt => exact ⟨⟨rfl, rfl, rfl, .inr state⟩, fun _ => rfl⟩
  | succeeded | parked | cancelled | suspended | awaitingApproval =>
    exact ⟨⟨rfl, by rw [state]; rfl⟩, fun _ => rfl⟩

theorem appendInTx_keeps (strict : Bool) (stream : JobId) (expected : Nat) (envelopes : List EventEnvelope)
    (nonempty : strict = true → envelopes ≠ []) :
    Keeps strict (appendInTx stream expected envelopes : Tx J EventStoreError Job)
      (fun phase job => ∃ base count, phase = .projected stream base count job) .reading := by
  unfold appendInTx
  rw [Keeps, Program.obeys_bind]
  refine ⟨trivial, ?_⟩
  intro newest
  simp only [Program.Obeys]
  split
  · trivial
  · split
    · rename_i accepted
      obtain ⟨sequential, named⟩ := continues_iff.mp accepted
      rw [Program.obeys_bind]
      have inserts := insertEnvelopes_keeps (J := J) strict stream expected (newest.getD 0) envelopes 0
        sequential named
      refine inserts.mono ?_
      intro phase _ reached
      subst reached
      rw [Program.obeys_bind, loadInTx, Program.obeys_bind]
      refine ⟨⟨rfl, ?_⟩, ?_⟩
      · intro firm
        have some := List.length_pos_iff.mpr (nonempty firm)
        omega
      · intro rows
        simp only [Program.obeys_done, Program.obeys_bind]
        rintro _ ⟨⟩ loaded decoded job folded
        rw [foldStream, Outcome.mapErr_eq_ok] at folded
        simp only [Phase.after, foldRows, decoded, folded]
        refine (projectInTx_keeps strict stream _ _ job).mono ?_
        intro phase _ done
        exact ⟨_, _, done⟩
    · trivial

theorem append_keeps (strict : Bool) (stream : JobId) (expected : Nat) (envelopes : List EventEnvelope)
    (nonempty : strict = true → envelopes ≠ []) :
    Keeps strict (append stream expected envelopes : Tx J EventStoreError Unit) (fun _ _ => True)
      .reading := by
  unfold append
  rw [Keeps, Program.obeys_bind]
  refine (appendInTx_keeps strict stream expected envelopes nonempty).mono ?_
  intro phase job ⟨base, count, reached⟩
  subst reached
  exact ⟨trivial, fun _ => trivial⟩

theorem loadInTx_keeps (strict : Bool) (stream : JobId) :
    Keeps strict (loadInTx stream : Tx J EventStoreError (List EventEnvelope))
      (fun phase _ => phase = .reading) .reading := by
  unfold loadInTx
  rw [Keeps, Program.obeys_bind]
  refine ⟨trivial, ?_⟩
  intro rows
  simp only [Program.obeys_done]
  exact fun _ _ _ _ => rfl

theorem claim_keeps (strict : Bool) (ports : Ports) (queue : QueueName) (worker : WorkerId)
    (ttl : Duration) :
    Keeps strict (claim ports queue worker ttl : Tx J DispatchError (Option LeasedJob)) (fun _ _ => True)
      .reading := by
  unfold claim
  rw [Keeps, Program.obeys_bind]
  refine ⟨trivial, ?_⟩
  intro picked
  simp only [Program.Obeys]
  cases picked with
  | none => trivial
  | some jobId =>
    simp only
    rw [Program.obeys_bind, Program.obeys_mapErr]
    refine (loadInTx_keeps strict jobId).mono ?_
    intro phase stream reached
    subst reached
    simp only [Program.obeys_bind, Program.obeys_done]
    intro job _ event _
    split
    · rw [Program.obeys_bind, Program.obeys_mapErr]
      refine (appendInTx_keeps strict jobId job.version _ (fun _ => by simp [wrapEvents])).mono ?_
      rintro phase final ⟨base, count, reached⟩
      subst reached
      rw [Program.obeys_bind]
      exact ⟨trivial, fun _ => trivial⟩
    · trivial

theorem retireOne_keeps (strict : Bool) (ports : Ports) :
    Keeps strict (retireOne ports : Tx J DispatchError (Option JobId)) (fun _ _ => True) .reading := by
  unfold retireOne
  rw [Keeps, Program.obeys_bind]
  refine ⟨trivial, ?_⟩
  intro picked
  simp only [Program.Obeys]
  cases picked with
  | none =>
    simp only
    rw [Program.obeys_bind]
    exact ⟨trivial, fun _ => trivial⟩
  | some jobId =>
    simp only
    rw [Program.obeys_bind, Program.obeys_mapErr]
    refine (loadInTx_keeps strict jobId).mono ?_
    intro phase stream reached
    subst reached
    simp only [Program.obeys_bind, Program.obeys_done]
    intro job _ events retired
    rw [Outcome.mapErr_eq_ok] at retired
    obtain ⟨lease, attempt, decision, _, _, _, rfl⟩ := Job.expireLease_ok retired
    rw [Program.obeys_mapErr]
    refine (appendInTx_keeps strict jobId job.version _ (fun _ => by simp [wrapEvents])).mono ?_
    rintro phase final ⟨base, count, reached⟩
    subst reached
    exact ⟨trivial, fun _ => trivial⟩

theorem extendLease_keeps (strict : Bool) (ports : Ports) (lease : LeaseId) (ttl : Duration) :
    Keeps strict (extendLease ports lease ttl : Tx J DispatchError Bool) (fun _ _ => True) .reading := by
  unfold extendLease
  split
  · trivial
  · rename_i delta converted
    rw [Keeps, Program.obeys_bind, Program.obeys_done]
    intro deadline _
    rw [Program.obeys_bind]
    refine ⟨trivial, ?_⟩
    intro updated
    simp only [Program.Obeys]
    rw [Program.obeys_bind]
    exact ⟨trivial, fun _ => trivial⟩

theorem relayOnce_keeps (strict : Bool) (batch : Nat) :
    Keeps strict (relayOnce batch : Tx J RelayError Nat) (fun _ _ => True) .draining := by
  unfold relayOnce
  rw [Keeps, Program.obeys_bind]
  refine ⟨trivial, ?_⟩
  intro rows
  simp only [Program.Obeys]
  split
  · trivial
  · rw [Program.obeys_bind, Program.obeys_done]
    intro envelopes decoded
    rw [Program.obeys_bind]
    refine ⟨decoded, ?_⟩
    intro answer
    simp only [Program.Obeys]
    cases answer with
    | error error => trivial
    | ok value =>
      simp only
      rw [Program.obeys_bind]
      refine ⟨rfl, ?_⟩
      intro _
      simp only [Program.Obeys]
      rw [Program.obeys_bind]
      exact ⟨trivial, fun _ => trivial⟩

theorem load_keeps (strict : Bool) (stream : JobId) :
    Keeps strict (load stream : Tx J EventStoreError (List EventEnvelope)) (fun _ _ => True) .reading := by
  unfold load
  rw [Keeps, Program.obeys_bind]
  refine ⟨trivial, ?_⟩
  intro rows
  simp only [Program.Obeys]
  split
  · trivial
  · cases envelopesFromRows rows <;> trivial

def Work.phase (work : Work) : Phase J :=
  if work.isRelay then .draining else .reading

/-- Appends of an empty batch are the one kind of work that is not strict. -/
def Work.strict : Work → Bool
  | .operation (.append _ _ envelopes) => !envelopes.isEmpty
  | _ => true

theorem Work.program_keeps (work : Work) (strict : Bool) (kind : strict = true → work.strict = true) :
    Keeps strict (work.program : Tx J Unit Unit) (fun _ _ => True) work.phase := by
  cases work with
  | relay batch => exact (relayOnce_keeps strict batch).erase
  | operation operation =>
    cases operation with
    | append stream expected envelopes =>
      refine (append_keeps strict stream expected envelopes ?_).erase
      intro firm empty
      have refused := kind firm
      rw [empty] at refused
      cases refused
    | load stream => exact (load_keeps strict stream).erase
    | leaseNext ports queue worker ttl => exact (claim_keeps strict ports queue worker ttl).erase
    | extendLease ports lease ttl => exact (extendLease_keeps strict ports lease ttl).erase
    | retireNextExpiredLease ports => exact (retireOne_keeps strict ports).erase

end Koine.Postgres
