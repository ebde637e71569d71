import Koine.Memory.Operations

namespace Koine.Memory

open Library Domain Application

variable [BuildProfile]

theorem Inner.Consistent.picked {inner : Inner} {queue : QueueName} {now : DateTime} {id : JobId}
    (consistent : inner.Consistent) (picked : inner.pickEligible queue now = some id) :
    ∃ entry stream job, inner.index.lookup id = some entry ∧ entry.eligible queue now = true ∧
      inner.streams.lookup id = some stream ∧ Job.fromEvents stream = .ok job ∧
      job.state = .pending entry.notBefore ∧ ∀ time, entry.notBefore = some time → time ≤ now := by
  obtain ⟨entry, present, eligible, _⟩ := pickEligible_some picked
  obtain ⟨_, free, due⟩ := eligible_iff.mp eligible
  obtain ⟨stream, job, stored, folded, mirrors⟩ := consistent.entry present
  exact ⟨entry, stream, job, present, eligible, stored, folded, mirrors.pending free, due⟩

theorem Inner.Consistent.expired {inner : Inner} {now : DateTime} {id : JobId}
    (consistent : inner.Consistent) (picked : inner.pickExpired now = some id) :
    ∃ entry state stream job, inner.index.lookup id = some entry ∧ entry.lease = some state ∧
      state.expiresAt ≤ now ∧ inner.streams.lookup id = some stream ∧
      Job.fromEvents stream = .ok job ∧ job.state.held = some state.lease := by
  obtain ⟨entry, present, overdue⟩ := pickExpired_some picked
  obtain ⟨state, live, expired⟩ := overdue_iff.mp overdue
  obtain ⟨stream, job, stored, folded, mirrors⟩ := consistent.entry present
  exact ⟨entry, state, stream, job, present, live, expired, stored, folded, mirrors.held live⟩

theorem claim_granted {inner : Inner} {ports : Ports} {queue : QueueName} {worker : WorkerId}
    {ttl : Duration} {id : JobId} {stream : List EventEnvelope} {job : Job} {expiresAt : DateTime}
    (picked : inner.pickEligible queue ports.now = some id) (stored : inner.streams.lookup id = some stream)
    (folded : Job.fromEvents stream = .ok job)
    (granted : job.lease worker ports.leaseId ports.now ttl = .ok (.leased worker ports.leaseId expiresAt)) :
    ∃ after, inner.appendLocked id job.version
        (follow ports id stream [.leased worker ports.leaseId expiresAt]) = (after, .ok ()) ∧
      inner.claim ports queue worker ttl = (after, .ok (some
        { jobId := id, queue := job.queue, payload := job.payload, attempt := job.attempt
          lease := ports.leaseId, expiresAt, correlationId := (lineageOf stream).1
          traceparent := (lineageOf stream).2.2 })) := by
  obtain ⟨notBefore, _, _, pending, _, _, _, _⟩ := Job.lease_ok granted
  have effect := Job.Effect.leased worker ports.leaseId expiresAt pending
  obtain ⟨written, appended, _⟩ := appendLocked_follow ports stored folded effect.applies
  refine ⟨written, appended, ?_⟩
  have version := Job.fromEvents_version folded
  simp only [follow, wrapEvents, lineageOf, List.mapIdx_cons, List.mapIdx_nil, ← version] at appended
  simp only [Inner.claim, picked, stored, folded, granted, wrapEvents, lineageOf, List.mapIdx_cons,
    List.mapIdx_nil, List.head?_cons, Option.map_some, appended]

theorem claim_picked {inner after : Inner} {ports : Ports} {queue : QueueName} {worker : WorkerId}
    {ttl : Duration} {id : JobId} {stream : List EventEnvelope} {job : Job}
    {result : Outcome EventStoreError (Option LeasedJob)}
    (picked : inner.pickEligible queue ports.now = some id) (stored : inner.streams.lookup id = some stream)
    (folded : Job.fromEvents stream = .ok job)
    (called : inner.claim ports queue worker ttl = (after, result)) :
    (∃ event leased, job.lease worker ports.leaseId ports.now ttl = .ok event ∧ leased.jobId = id ∧
        result = .ok (some leased)) ∨
      (∃ error, job.lease worker ports.leaseId ports.now ttl = .err error ∧
        result = .err (.backend ("index/state drift: " ++ error.display))) ∨
      (job.lease worker ports.leaseId ports.now ttl = .panic ∧ result = .panic) := by
  cases granted : job.lease worker ports.leaseId ports.now ttl with
  | ok event =>
    obtain ⟨_, _, expiresAt, _, _, _, _, rfl⟩ := Job.lease_ok granted
    obtain ⟨written, _, claimed⟩ := claim_granted picked stored folded granted
    rw [claimed] at called
    cases called
    exact .inl ⟨_, _, rfl, rfl, rfl⟩
  | err error =>
    simp only [Inner.claim, picked, stored, folded, granted] at called
    cases called
    exact .inr (.inl ⟨error, rfl, rfl⟩)
  | panic =>
    simp only [Inner.claim, picked, stored, folded, granted] at called
    cases called
    exact .inr (.inr ⟨rfl, rfl⟩)

theorem retireOne_expired {inner : Inner} {ports : Ports} {id : JobId} {stream : List EventEnvelope}
    {job : Job} {events : List JobEvent} (picked : inner.pickExpired ports.now = some id)
    (stored : inner.streams.lookup id = some stream) (folded : Job.fromEvents stream = .ok job)
    (retired : job.expireLease ports.now ports.jitterSeed = .ok events) :
    ∃ written, inner.appendLocked id job.version (follow ports id stream events) = (written, .ok ()) ∧
      inner.retireOne ports = (written, .ok (.ok (some id))) := by
  obtain ⟨next, effect⟩ := Job.expireLease_effect retired
  obtain ⟨written, appended, _⟩ := appendLocked_follow ports stored folded effect.applies
  have version := Job.fromEvents_version folded
  refine ⟨written, appended, ?_⟩
  simp only [follow, lineageOf, ← version] at appended
  simp only [Inner.retireOne, picked, stored, folded, retired, lineageOf, appended]

theorem retireOne_picked {inner after : Inner} {ports : Ports} {id : JobId}
    {stream : List EventEnvelope} {job : Job}
    {result : Outcome EventStoreError (Except DomainError (Option JobId))}
    (picked : inner.pickExpired ports.now = some id) (stored : inner.streams.lookup id = some stream)
    (folded : Job.fromEvents stream = .ok job) (called : inner.retireOne ports = (after, result)) :
    (∃ events, job.expireLease ports.now ports.jitterSeed = .ok events ∧ result = .ok (.ok (some id))) ∨
      (∃ error, job.expireLease ports.now ports.jitterSeed = .err error ∧ result = .ok (.error error)) ∨
      (job.expireLease ports.now ports.jitterSeed = .panic ∧ result = .panic) := by
  cases retired : job.expireLease ports.now ports.jitterSeed with
  | ok events =>
    obtain ⟨written, _, expired⟩ := retireOne_expired picked stored folded retired
    rw [expired] at called
    cases called
    exact .inl ⟨events, rfl, rfl⟩
  | err error =>
    simp only [Inner.retireOne, picked, stored, folded, retired] at called
    cases called
    exact .inr (.inl ⟨error, rfl, rfl⟩)
  | panic =>
    simp only [Inner.retireOne, picked, stored, folded, retired] at called
    cases called
    exact .inr (.inr ⟨rfl, rfl⟩)

theorem claim_err {inner after : Inner} {ports : Ports} {queue : QueueName} {worker : WorkerId}
    {ttl : Duration} {error : EventStoreError} (consistent : inner.Consistent)
    (called : inner.claim ports queue worker ttl = (after, .err error)) :
    error = .backend "index/state drift: ttl out of range" := by
  cases picked : inner.pickEligible queue ports.now with
  | none =>
    simp only [Inner.claim, picked] at called
    cases called
  | some id =>
    obtain ⟨entry, stream, job, _, _, stored, folded, pending, due⟩ := consistent.picked picked
    rcases claim_picked picked stored folded called with ⟨_, _, _, _, granted⟩ | ⟨cause, refused, failed⟩ |
      ⟨_, unwound⟩
    · cases granted
    · cases failed
      rw [Job.lease_err pending due refused]
      rfl
    · cases unwound

theorem retireOne_err {inner after : Inner} {ports : Ports}
    {result : Outcome EventStoreError (Except DomainError (Option JobId))} (consistent : inner.Consistent)
    (called : inner.retireOne ports = (after, result)) :
    (∀ error, result ≠ .err error) ∧ ∀ error, result = .ok (.error error) → error = .invalidTtl := by
  cases picked : inner.pickExpired ports.now with
  | none =>
    simp only [Inner.retireOne, picked] at called
    cases called
    simp
  | some id =>
    obtain ⟨entry, state, stream, job, _, _, _, stored, folded, held⟩ := consistent.expired picked
    rcases retireOne_picked picked stored folded called with ⟨_, _, rfl⟩ | ⟨cause, refused, rfl⟩ | ⟨_, rfl⟩
    · simp
    · simpa using Job.expireLease_err held refused
    · simp

theorem run_consistent {history : List (Record InMemoryEventStore Operation Answer)}
    {store : InMemoryEventStore} (run : Run StoreStep .new history store) : store.inner.Consistent :=
  run.invariant (fun store => store.inner.Consistent) Inner.Consistent.empty
    fun _ _ _ _ consistent taken => storeStep_consistent consistent taken

theorem run_fenced {history : List (Record InMemoryEventStore Operation Answer)}
    {store : InMemoryEventStore} (run : Run StoreStep .new history store)
    (distinct : (Granted history).Nodup) : store.inner.Fenced (Granted history) := by
  induction run with
  | refl =>
    refine ⟨?_, ?_⟩
    · intro id lease ⟨entry, state, present, _⟩
      cases present
    · intro left right lease ⟨entry, state, present, _⟩
      cases present
  | step run taken ih =>
    have older := ih (List.Nodup.of_append_right distinct)
    exact storeStep_fenced (run_consistent run) older distinct taken

/-- The dispatch index is the projection of the event log. -/
structure IndexIsProjection (inner : Inner) : Prop where
  folds : ∀ id stream, inner.streams.lookup id = some stream →
    stream ≠ [] ∧ ∃ job, Job.fromEvents stream = .ok job ∧ job.id = id ∧ job.version = stream.length
  present : ∀ id, (∃ entry, inner.index.lookup id = some entry) ↔
    ∃ stream job, inner.streams.lookup id = some stream ∧ Job.fromEvents stream = .ok job ∧
      job.state.dispatchable = true
  content : ∀ id entry stream job, inner.index.lookup id = some entry →
    inner.streams.lookup id = some stream → Job.fromEvents stream = .ok job →
    entry.queue = job.queue ∧ entry.priority = job.priority ∧
      (∀ notBefore, job.state = .pending notBefore → entry.lease = none ∧ entry.notBefore = notBefore) ∧
      ∀ worker lease expiresAt,
        job.state = .leased worker lease expiresAt ∨ job.state = .running worker lease expiresAt →
        entry.notBefore = none ∧ ∃ deadline, entry.lease = some ⟨lease, worker, deadline⟩
  seq_distinct : ∀ left right first second, inner.index.lookup left = some first →
    inner.index.lookup right = some second → first.seq = second.seq → left = right
  seq_bound : ∀ id entry, inner.index.lookup id = some entry → entry.seq ≤ inner.seq
  lease_distinct : ∀ left right first second held other, inner.index.lookup left = some first →
    inner.index.lookup right = some second → first.lease = some held → second.lease = some other →
    held.lease = other.lease → left = right

omit [BuildProfile] in
theorem Mirrors.content {job : Job} {entry : DispatchEntry} (mirrors : Mirrors job (some entry)) :
    entry.queue = job.queue ∧ entry.priority = job.priority ∧
      (∀ notBefore, job.state = .pending notBefore → entry.lease = none ∧ entry.notBefore = notBefore) ∧
      ∀ worker lease expiresAt,
        job.state = .leased worker lease expiresAt ∨ job.state = .running worker lease expiresAt →
        entry.notBefore = none ∧ ∃ deadline, entry.lease = some ⟨lease, worker, deadline⟩ := by
  obtain ⟨queue, priority, content⟩ := mirrors
  refine ⟨queue, priority, ?_, ?_⟩
  · intro notBefore state
    rw [state] at content
    exact content
  · intro worker lease expiresAt state
    have shape : entry.notBefore = none ∧
        ∃ state, entry.lease = some state ∧ state.lease = lease ∧ state.worker = worker := by
      rcases state with state | state <;> simpa only [state] using content
    obtain ⟨notBefore, ⟨held, holder, deadline⟩, live, rfl, rfl⟩ := shape
    exact ⟨notBefore, deadline, live⟩

theorem Inner.Consistent.projection {inner : Inner} {granted : List LeaseId}
    (consistent : inner.Consistent) (fenced : inner.Fenced granted) : IndexIsProjection inner where
  folds := by
    intro id stream stored
    obtain ⟨job, folded, _⟩ := consistent.folds id stream stored
    exact ⟨Job.fromEvents_ne_nil folded, job, folded, Job.fromEvents_id folded (inner.keyed id stream stored),
      Job.fromEvents_version folded⟩
  present := by
    intro id
    constructor
    · rintro ⟨entry, present⟩
      obtain ⟨stream, job, stored, folded, mirrors⟩ := consistent.entry present
      refine ⟨stream, job, stored, folded, ?_⟩
      have content := mirrors.2.2
      cases state : job.state <;> simp_all [JobState.dispatchable]
    · rintro ⟨stream, job, stored, folded, live⟩
      obtain ⟨other, refolded, mirrors⟩ := consistent.folds id stream stored
      rw [folded] at refolded
      cases refolded
      cases present : inner.index.lookup id with
      | none =>
        rw [present] at mirrors
        rw [Mirrors, live] at mirrors
        cases mirrors
      | some entry => exact ⟨entry, rfl⟩
  content := by
    intro id entry stream job present stored folded
    obtain ⟨other, refolded, mirrors⟩ := consistent.folds id stream stored
    rw [folded] at refolded
    cases refolded
    rw [present] at mirrors
    exact mirrors.content
  seq_distinct := consistent.seq_injective
  seq_bound := consistent.seq_le
  lease_distinct := by
    intro left right first second held other presentLeft presentRight liveLeft liveRight same
    exact fenced.unique left right other.lease ⟨first, held, presentLeft, liveLeft, same⟩
      ⟨second, other, presentRight, liveRight, rfl⟩

theorem leaseNext_step_err {store after : InMemoryEventStore} {ports : Ports} {queue : QueueName}
    {worker : WorkerId} {ttl : Duration} {error : DispatchError} (consistent : store.inner.Consistent)
    (taken : StoreStep store (.leaseNext ports queue worker ttl) (.leased (.err error)) after) :
    error = .store (.backend "index/state drift: ttl out of range") ∨
      error = .store (.backend "store mutex poisoned") := by
  obtain ⟨shuffled, order, ran⟩ := taken
  simp only [Operation.exec, Dispatcher.leaseNext, leaseNext_eq, Prod.mk.injEq, Answer.leased.injEq] at ran
  rcases outcome : InMemoryEventStore.locked ⟨shuffled, store.poisoned⟩
    fun inner => inner.claim ports queue worker ttl with ⟨written, result⟩
  rw [outcome] at ran
  obtain ⟨failure, rfl, rfl⟩ := Outcome.mapErr_eq_err.mp ran.2
  rcases locked_cases outcome with ⟨_, _, poisoned⟩ | ⟨_, called, _⟩
  · cases poisoned
    exact .inr rfl
  · rw [claim_err (consistent.reorder order) called]
    exact .inl rfl

theorem retire_step_err {store after : InMemoryEventStore} {ports : Ports} {error : DispatchError}
    (consistent : store.inner.Consistent)
    (taken : StoreStep store (.retireNextExpiredLease ports) (.retired (.err error)) after) :
    error = .domain .invalidTtl ∨ error = .store (.backend "store mutex poisoned") := by
  obtain ⟨shuffled, order, ran⟩ := taken
  simp only [Operation.exec, Dispatcher.retireNextExpiredLease, retireNextExpiredLease_eq, Prod.mk.injEq,
    Answer.retired.injEq] at ran
  rcases outcome : InMemoryEventStore.locked ⟨shuffled, store.poisoned⟩ fun inner => inner.retireOne ports
    with ⟨written, result⟩
  rw [outcome] at ran
  rcases locked_cases outcome with ⟨_, _, rfl⟩ | ⟨_, called, _⟩
  · cases ran.2
    exact .inr rfl
  · obtain ⟨noStore, onlyTtl⟩ := retireOne_err (consistent.reorder order) called
    rcases result with (rejection | value) | failure | _
    · cases ran.2
      rw [onlyTtl rejection rfl]
      exact .inl rfl
    · cases ran.2
    · exact absurd rfl (noStore failure)
    · cases ran.2

theorem index_is_projection {history : List (Record InMemoryEventStore Operation Answer)}
    {store : InMemoryEventStore} (run : Run StoreStep .new history store)
    (distinct : (Granted history).Nodup) :
    IndexIsProjection store.inner ∧
      (∀ ports queue worker ttl error after,
        StoreStep store (.leaseNext ports queue worker ttl) (.leased (.err error)) after →
        error = .store (.backend "index/state drift: ttl out of range") ∨
          error = .store (.backend "store mutex poisoned")) ∧
      ∀ ports error after,
        StoreStep store (.retireNextExpiredLease ports) (.retired (.err error)) after →
        error = .domain .invalidTtl ∨ error = .store (.backend "store mutex poisoned") := by
  have consistent := run_consistent run
  refine ⟨consistent.projection (run_fenced run distinct), ?_, ?_⟩
  · intro ports queue worker ttl error after taken
    exact leaseNext_step_err consistent taken
  · intro ports error after taken
    exact retire_step_err consistent taken

def sampleOperations : List Operation :=
  [.retireNextExpiredLease (Sample.ports 200 4), .extendLease (Sample.ports 5 3) ⟨2⟩ (.fromSecs 100),
    .leaseNext (Sample.ports 1 2) Sample.queue Sample.worker (.fromSecs 10),
    .append ⟨1⟩ 0 (Sample.command.envelopes (Sample.ports 0 1))]

omit [BuildProfile] in
theorem index_is_projection_sample :
    let _ := BuildProfile.release
    IndexIsProjection (Run.replay Operation.exec InMemoryEventStore.new sampleOperations).2.inner := by
  intro _
  exact (index_is_projection (Run.of_replay StoreStep.of_exec sampleOperations) (by decide)).1

end Koine.Memory
