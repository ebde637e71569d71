import Koine.Postgres.Alone

namespace Koine.Postgres

open Library Domain Application

/-- What a connection is after: it has no job yet, has locked the row of one, is to append a batch to
    the stream of one and has inserted some of it, or has committed; a heartbeat has moved some rows. -/
inductive Aim where
  | fresh
  | picked (job : JobId)
  | planned (job : JobId) (batch : List EventEnvelope) (stored : Nat)
  | settled (job : JobId) (batch : List EventEnvelope)
  | beat (rows : Nat)
  | beaten (rows : Nat)
  | ended

section Protocol

variable {J : Type} [Serde J] [BuildProfile]

def Work.plan (work : Work) (id : JobId) (rows : List (EventRow J)) : Option (List EventEnvelope) :=
  match envelopesFromRows rows with
  | .ok stream =>
    match Job.fromEvents stream with
    | .ok job =>
      let (correlationId, causationId, traceparent) := lineageOf stream
      match work with
      | .operation (.leaseNext ports _ worker ttl) =>
        match job.lease worker ports.leaseId ports.now ttl with
        | .ok event => some (wrapEvents ports id job.version correlationId causationId traceparent [event])
        | _ => none
      | .operation (.retireNextExpiredLease ports) =>
        match job.expireLease ports.now ports.jitterSeed with
        | .ok events => some (wrapEvents ports id job.version correlationId causationId traceparent events)
        | _ => none
      | _ => none
    | _ => none
  | _ => none

def Aim.permits (work : Work) : Aim → Stmt J → Prop
  | .fresh, .selectEligible queue now => ∃ ports worker ttl,
    work = .operation (.leaseNext ports queue worker ttl) ∧ now = ports.now
  | .fresh, .selectExpired now => ∃ ports, work = .operation (.retireNextExpiredLease ports) ∧ now = ports.now
  | .fresh, .updateDeadline deadline lease now => ∃ ports ttl delta,
    work = .operation (.extendLease ports lease ttl) ∧ now = ports.now ∧ TimeDelta.fromStd ttl = some delta ∧
      (ports.now.add delta : Outcome DispatchError DateTime) = .ok deadline
  | .fresh, .loadStream stream => work = .operation (.load stream)
  | .fresh, .selectOutbox _ | .ended, .deliver _ | .ended, .deleteOutbox _ => work.isRelay = true
  | .picked job, .loadStream stream => stream = job
  | .planned job _ stored, .maxVersion stream => stream = job ∧ stored = 0
  | .planned job batch stored, .insertEvent columns => ∃ envelope payload, batch[stored]? = some envelope ∧
    Serde.encodeEvent envelope.event = .ok payload ∧ columns = columnsFor job envelope payload
  | .planned job batch stored, .loadStream stream => stream = job ∧ stored = batch.length
  | .planned _ batch stored, .upsertPending .. | .planned _ batch stored, .upsertLeased ..
  | .planned _ batch stored, .deleteDispatch _ | .planned _ batch stored, .commit => stored = batch.length
  | .planned .., .insertOutbox .. | .planned .., .notifyDispatch _ | .beat _, .commit | .ended, .commit => True
  | _, _ => False

def Aim.after (work : Work) : Aim → (statement : Stmt J) → statement.Reply → Aim
  | .fresh, .selectEligible .., some job | .fresh, .selectExpired _, some job => .picked job
  | .fresh, .updateDeadline .., rows => .beat rows
  | .picked job, .loadStream _, rows =>
    match work.plan job rows with
    | some batch => .planned job batch 0
    | none => .ended
  | .planned job batch stored, .insertEvent _, .inserted => .planned job batch (stored + 1)
  | .planned _ _ _, .insertEvent _, .violates _ => .ended
  | .planned job batch _, .commit, _ => .settled job batch
  | .planned job batch stored, _, _ => .planned job batch stored
  | .beat rows, .commit, _ => .beaten rows
  | _, _, _ => .ended

def Aim.answers : Aim → Option Answer → Prop
  | aim, some (.leased (.ok (some job))) => ∃ batch, aim = .settled job.jobId batch
  | aim, some (.extended (.ok alive)) => ∃ rows, aim = .beaten rows ∧ alive = decide (0 < rows)
  | aim, some (.retired (.ok (some job))) => ∃ batch, aim = .settled job batch
  | _, _ => True

def Work.aim : Work → Aim
  | .operation (.append stream _ envelopes) => .planned stream envelopes 0
  | _ => .fresh

abbrev Aims {ε α : Type} (work : Work) (program : Tx J ε α) (post : Aim → α → Prop) (aim : Aim) : Prop :=
  program.Obeys (Aim.permits work) (Aim.after work) post aim

section Appends

variable {work : Work} {id : JobId}

theorem insertEnvelopes_aims (expected : Nat) {batch before rest : List EventEnvelope}
    (split : batch = before ++ rest) :
    Aims work (insertEnvelopes id expected rest : Tx J EventStoreError Unit)
      (fun aim _ => aim = .planned id batch batch.length) (.planned id batch before.length) := by
  induction rest generalizing before with
  | nil =>
    rw [List.append_nil] at split
    subst split
    rfl
  | cons envelope rest ih =>
    have here : batch[before.length]? = some envelope := by
      rw [split, List.getElem?_append_right le_rfl, Nat.sub_self]
      rfl
    unfold insertEnvelopes
    rw [Aims, Program.obeys_bind, Program.obeys_done]
    intro payload encoded
    rw [labelled_eq_ok] at encoded
    split
    · trivial
    · split
      · trivial
      · rw [Program.obeys_bind]
        refine ⟨⟨envelope, payload, here, encoded, rfl⟩, ?_⟩
        intro outcome
        cases outcome with
        | violates constraint => cases constraint <;> trivial
        | inserted =>
          change Program.Obeys _ _ _ (_ >>= _) _
          rw [Program.obeys_bind, Program.obeys_done]
          intro json _
          rw [Program.obeys_bind]
          refine ⟨trivial, fun _ => ?_⟩
          have more := @ih (before ++ [envelope]) (by rw [split, List.append_assoc]; rfl)
          rw [List.length_append] at more
          exact more

theorem projectInTx_aims (job : Job) {batch : List EventEnvelope} :
    Aims work (projectInTx job : Tx J EventStoreError Unit) (fun aim _ => aim = .planned id batch batch.length)
      (.planned id batch batch.length) := by
  unfold projectInTx
  cases job.state with
  | pending notBefore => exact ⟨rfl, fun _ => ⟨trivial, fun _ => rfl⟩⟩
  | _ => exact ⟨rfl, fun _ => rfl⟩

theorem appendInTx_aims (expected : Nat) (batch : List EventEnvelope) :
    Aims work (appendInTx id expected batch : Tx J EventStoreError Job)
      (fun aim _ => aim = .planned id batch batch.length) (.planned id batch 0) := by
  unfold appendInTx
  rw [Aims, Program.obeys_bind]
  refine ⟨⟨rfl, rfl⟩, ?_⟩
  intro newest
  simp only [Program.Obeys]
  split
  · trivial
  · split
    · rw [Program.obeys_bind]
      refine (insertEnvelopes_aims expected (List.nil_append batch).symm).mono ?_
      intro aim _ reached
      subst reached
      rw [loadInTx, Program.obeys_bind, Program.obeys_bind]
      refine ⟨⟨rfl, rfl⟩, ?_⟩
      intro rows
      simp only [Program.obeys_done, Program.obeys_bind]
      intro _ _ loaded _ job _
      exact (projectInTx_aims job).mono fun _ _ done => done
    · trivial

end Appends

theorem append_aims (stream : JobId) (expected : Nat) (batch : List EventEnvelope) :
    Aims (.operation (.append stream expected batch)) (append stream expected batch : Tx J EventStoreError Unit)
      (fun _ _ => True) (.planned stream batch 0) := by
  unfold append
  rw [Aims, Program.obeys_bind]
  refine (appendInTx_aims expected batch).mono ?_
  intro aim _ reached
  subst reached
  exact ⟨rfl, fun _ => trivial⟩

theorem claim_aims (ports : Ports) (queue : QueueName) (worker : WorkerId) (ttl : Duration) :
    Aims (.operation (.leaseNext ports queue worker ttl)) (claim ports queue worker ttl : Tx J DispatchError _)
      (fun aim answer => ∀ job, answer = some job → ∃ batch, aim = .settled job.jobId batch) .fresh := by
  unfold claim
  rw [Aims, Program.obeys_bind]
  refine ⟨⟨ports, worker, ttl, rfl, rfl⟩, ?_⟩
  intro picked
  simp only [Program.Obeys]
  cases picked with
  | none =>
    intro _ none
    cases none
  | some id =>
    rw [Program.obeys_bind, Program.obeys_mapErr, loadInTx, Program.obeys_bind]
    refine ⟨rfl, ?_⟩
    intro rows
    simp only [Program.obeys_done, Program.obeys_bind, Aim.after, foldStream, Outcome.mapErr_eq_ok]
    rintro _ ⟨⟩ stream decoded job folded event granted
    split
    · simp only [Work.plan, decoded, folded, granted]
      rw [Program.obeys_bind, Program.obeys_mapErr]
      refine (appendInTx_aims _ _).mono ?_
      intro aim final reached
      subst reached
      rw [Program.obeys_bind]
      refine ⟨rfl, fun _ job answer => ?_⟩
      cases answer
      exact ⟨_, rfl⟩
    · trivial

theorem retireOne_aims (ports : Ports) :
    Aims (.operation (.retireNextExpiredLease ports)) (retireOne ports : Tx J DispatchError _)
      (fun aim answer => ∀ job, answer = some job → ∃ batch, aim = .settled job batch) .fresh := by
  unfold retireOne
  rw [Aims, Program.obeys_bind]
  refine ⟨⟨ports, rfl, rfl⟩, ?_⟩
  intro picked
  simp only [Program.Obeys]
  cases picked with
  | none =>
    simp only
    rw [Program.obeys_bind]
    refine ⟨trivial, fun _ _ none => ?_⟩
    cases none
  | some id =>
    rw [Program.obeys_bind, Program.obeys_mapErr, loadInTx, Program.obeys_bind]
    refine ⟨rfl, ?_⟩
    intro rows
    simp only [Program.obeys_done, Program.obeys_bind, Aim.after, Outcome.mapErr_eq_ok]
    rintro _ ⟨⟩ stream decoded job folded events expired
    simp only [Work.plan, decoded, folded, expired]
    rw [Program.obeys_mapErr]
    refine (appendInTx_aims _ _).mono ?_
    intro aim final reached
    subst reached
    refine ⟨rfl, fun _ job answer => ?_⟩
    cases answer
    exact ⟨_, rfl⟩

theorem extendLease_aims (ports : Ports) (lease : LeaseId) (ttl : Duration) :
    Aims (.operation (.extendLease ports lease ttl)) (extendLease ports lease ttl : Tx J DispatchError Bool)
      (fun aim alive => ∃ rows, aim = .beaten rows ∧ alive = decide (0 < rows)) .fresh := by
  unfold extendLease
  cases converted : TimeDelta.fromStd ttl with
  | none => trivial
  | some delta =>
    rw [Aims, Program.obeys_bind, Program.obeys_done]
    intro deadline added
    rw [Program.obeys_bind]
    refine ⟨⟨ports, ttl, delta, rfl, rfl, converted, added⟩, ?_⟩
    intro rows
    simp only [Program.Obeys]
    rw [Program.obeys_bind]
    exact ⟨trivial, fun _ => ⟨rows, rfl, rfl⟩⟩

theorem load_aims (stream : JobId) :
    Aims (.operation (.load stream)) (load stream : Tx J EventStoreError _) (fun _ _ => True) .fresh := by
  unfold load
  rw [Aims, Program.obeys_bind]
  refine ⟨rfl, ?_⟩
  intro rows
  simp only [Program.Obeys]
  split
  · trivial
  · cases envelopesFromRows rows <;> trivial

theorem relayOnce_aims (batch : Nat) :
    Aims (.relay batch) (relayOnce batch : Tx J RelayError Nat) (fun _ _ => True) .fresh := by
  unfold relayOnce
  rw [Aims, Program.obeys_bind]
  refine ⟨rfl, ?_⟩
  intro rows
  simp only [Program.Obeys]
  split
  · trivial
  · rw [Program.obeys_bind, Program.obeys_done]
    intro envelopes _
    rw [Program.obeys_bind]
    refine ⟨rfl, ?_⟩
    intro answer
    simp only [Program.Obeys]
    cases answer with
    | error error => trivial
    | ok value =>
      simp only
      rw [Program.obeys_bind]
      refine ⟨rfl, fun _ => ?_⟩
      simp only [Program.Obeys]
      rw [Program.obeys_bind]
      exact ⟨trivial, fun _ => trivial⟩

theorem Work.answering_aims (work : Work) : Aims work (work.answering : Tx J Unit _) Aim.answers work.aim := by
  cases work with
  | relay batch =>
    refine ((relayOnce_aims batch).capture _).mono ?_
    rintro aim _ ⟨result, rfl, _⟩
    trivial
  | operation operation =>
    cases operation with
    | append stream expected batch =>
      refine ((append_aims stream expected batch).capture _).mono ?_
      rintro aim _ ⟨result, rfl, _⟩
      trivial
    | load stream =>
      refine ((load_aims stream).capture _).mono ?_
      rintro aim _ ⟨result, rfl, _⟩
      trivial
    | leaseNext ports queue worker ttl =>
      refine ((claim_aims ports queue worker ttl).capture _).mono ?_
      rintro aim _ ⟨result, rfl, answers⟩
      cases result with
      | err error => trivial
      | panic => trivial
      | ok claimed =>
        cases claimed with
        | none => trivial
        | some job => exact answers _ rfl job rfl
    | extendLease ports lease ttl =>
      refine ((extendLease_aims ports lease ttl).capture _).mono ?_
      rintro aim _ ⟨result, rfl, answers⟩
      cases result with
      | err error => trivial
      | panic => trivial
      | ok alive => exact answers alive rfl
    | retireNextExpiredLease ports =>
      refine ((retireOne_aims ports).capture _).mono ?_
      rintro aim _ ⟨result, rfl, answers⟩
      cases result with
      | err error => trivial
      | panic => trivial
      | ok retired =>
        cases retired with
        | none => trivial
        | some job => exact answers _ rfl job rfl

def Work.replies : Work → Answer → Bool
  | .operation (.append ..), .appended _ | .operation (.load _), .loaded _
  | .operation (.leaseNext ..), .leased _ | .operation (.extendLease ..), .extended _
  | .operation (.retireNextExpiredLease _), .retired _ => true
  | _, _ => false

theorem Work.answering_replies (work : Work) : (work.answering : Tx J Unit _).Obeys (fun _ _ => True)
    (fun _ _ _ => ()) (fun _ answer => ∀ given, answer = some given → work.replies given = true) () := by
  cases work with
  | relay batch =>
    refine ((Program.obeys_nothing _).capture _).mono ?_
    rintro _ _ ⟨result, rfl, _⟩ given ⟨⟩
  | operation operation =>
    cases operation <;>
      · refine ((Program.obeys_nothing _).capture _).mono ?_
        rintro _ _ ⟨result, rfl, _⟩ given ⟨⟩
        rfl

end Protocol

end Koine.Postgres
