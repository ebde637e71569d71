import Koine.Application.UseCases
import Koine.Memory.Steps

namespace Koine.Memory

open Library Domain Application

theorem sequential_iff_getElem {base : Nat} {envelopes : List EventEnvelope} :
    Job.Sequential base envelopes ↔
      ∀ k envelope, envelopes[k]? = some envelope → envelope.version = base + (k + 1) := by
  induction envelopes generalizing base with
  | nil => simp [Job.Sequential]
  | cons first rest ih =>
    simp only [Job.Sequential, ih]
    constructor
    · rintro ⟨head, tail⟩ k envelope found
      cases k with
      | zero => cases found; exact head
      | succ k =>
        have version := tail k envelope found
        omega
    · intro all
      refine ⟨all 0 first rfl, ?_⟩
      intro k envelope found
      have version := all (k + 1) envelope found
      omega

theorem continues_iff_getElem {stream : JobId} {current : Nat} {envelopes : List EventEnvelope} :
    continues stream current envelopes = true ↔
      ∀ k envelope, envelopes[k]? = some envelope →
        envelope.streamId = stream ∧ envelope.version = current + (k + 1) := by
  rw [continues_iff, sequential_iff_getElem]
  constructor
  · rintro ⟨versions, streams⟩ k envelope found
    exact ⟨streams envelope (List.mem_of_getElem? found), versions k envelope found⟩
  · intro all
    refine ⟨fun k envelope found => (all k envelope found).2, ?_⟩
    intro envelope member
    obtain ⟨k, found⟩ := List.mem_iff_getElem?.mp member
    exact (all k envelope found).1

theorem locked_err {α : Type} {store : InMemoryEventStore}
    {body : Inner → Inner × Outcome EventStoreError α} {error : EventStoreError}
    (unchanged : ∀ after failure, body store.inner = (after, .err failure) → after = store.inner)
    (failed : (store.locked body).2 = .err error) : (store.locked body).1 = store := by
  unfold InMemoryEventStore.locked at failed ⊢
  split at failed
  · rename_i poisoned
    simp [poisoned]
  · rename_i healthy
    rw [if_neg healthy]
    rcases ran : body store.inner with ⟨after, _ | failure | _⟩
    · simp [ran] at failed
    · have same := unchanged after failure ran
      subst same
      simp only
      cases store
      simp_all
    · simp [ran] at failed

theorem locked_ok {α : Type} {store after : InMemoryEventStore}
    {body : Inner → Inner × Outcome EventStoreError α} {value : α}
    (ran : store.locked body = (after, .ok value)) :
    store.poisoned = false ∧ body store.inner = (after.inner, .ok value) ∧ after.poisoned = false := by
  unfold InMemoryEventStore.locked at ran
  split at ran
  · cases ran
  · rename_i healthy
    split at ran
    · cases ran
    · rename_i inner result notPanic body
      cases ran
      exact ⟨by simpa using healthy, body, rfl⟩

theorem locked_healthy {α : Type} {store : InMemoryEventStore}
    {body : Inner → Inner × Outcome EventStoreError α} {value : α} (healthy : store.poisoned = false)
    (ran : (body store.inner).2 = .ok value) :
    store.locked body = (⟨(body store.inner).1, false⟩, .ok value) := by
  unfold InMemoryEventStore.locked
  rw [if_neg (by simp [healthy])]
  rcases called : body store.inner with ⟨inner, result⟩
  rw [called] at ran
  cases ran
  rfl

variable [BuildProfile]

theorem append_ok_iff (store : InMemoryEventStore) (stream : JobId) (expected : Nat)
    (envelopes : List EventEnvelope) :
    (store.append stream expected envelopes).2 = .ok () ↔
      store.poisoned = false ∧ expected = (store.inner.stream stream).length ∧
      (∀ k envelope, envelopes[k]? = some envelope →
        envelope.streamId = stream ∧ envelope.version = expected + (k + 1)) ∧
      ∃ job, Job.fromEvents (store.inner.stream stream ++ envelopes) = .ok job := by
  rw [← continues_iff_getElem]
  constructor
  · intro accepted
    rcases ran : store.append stream expected envelopes with ⟨after, outcome⟩
    rw [ran] at accepted
    simp only at accepted
    subst accepted
    obtain ⟨healthy, appended, _⟩ := locked_ok ran
    obtain ⟨version, batch, job, effects⟩ := appendLocked_accepted appended
    exact ⟨healthy, version.symm, batch, job, effects.folded⟩
  · rintro ⟨healthy, rfl, batch, job, folded⟩
    have accepted := appendLocked_accepts batch folded
    unfold InMemoryEventStore.append
    rw [locked_healthy healthy accepted]

theorem append_ok_frame {store : InMemoryEventStore} {stream : JobId} {expected : Nat}
    {envelopes : List EventEnvelope} (accepted : (store.append stream expected envelopes).2 = .ok ()) :
    (store.append stream expected envelopes).1.inner.streams.lookup stream =
        some (store.inner.stream stream ++ envelopes) ∧
      ∀ other, other ≠ stream →
        (store.append stream expected envelopes).1.inner.streams.lookup other =
            store.inner.streams.lookup other ∧
          (store.append stream expected envelopes).1.inner.index.lookup other =
            store.inner.index.lookup other := by
  rcases ran : store.append stream expected envelopes with ⟨after, outcome⟩
  rw [ran] at accepted
  simp only at accepted
  subst accepted
  obtain ⟨_, appended, _⟩ := locked_ok ran
  obtain ⟨_, _, job, effects⟩ := appendLocked_accepted appended
  exact ⟨effects.stream_self, fun other different =>
    ⟨effects.stream_other other different, effects.index_other other different⟩⟩

theorem append_err {store : InMemoryEventStore} {stream : JobId} {expected : Nat}
    {envelopes : List EventEnvelope} {error : EventStoreError}
    (failed : (store.append stream expected envelopes).2 = .err error) :
    (store.append stream expected envelopes).1 = store := by
  apply locked_err _ failed
  intro after failure rejected
  exact appendLocked_rejected rejected (by simp)

theorem leaseNext_eq (store : InMemoryEventStore) (ports : Ports) (queue : QueueName)
    (worker : WorkerId) (ttl : Duration) :
    store.leaseNext ports queue worker ttl =
      ((store.locked fun inner => inner.claim ports queue worker ttl).1,
        (store.locked fun inner => inner.claim ports queue worker ttl).2.mapErr .store) := rfl

omit [BuildProfile] in
theorem extendLease_eq (store : InMemoryEventStore) (ports : Ports) (lease : LeaseId) (ttl : Duration) :
    store.extendLease ports lease ttl =
      ((store.locked fun inner => inner.extendLease ports lease ttl).1,
        flatten id (store.locked fun inner => inner.extendLease ports lease ttl).2) := rfl

theorem retireNextExpiredLease_eq (store : InMemoryEventStore) (ports : Ports) :
    store.retireNextExpiredLease ports =
      ((store.locked fun inner => inner.retireOne ports).1,
        flatten .domain (store.locked fun inner => inner.retireOne ports).2) := rfl

theorem leaseNext_err {store : InMemoryEventStore} {ports : Ports} {queue : QueueName}
    {worker : WorkerId} {ttl : Duration} {error : DispatchError}
    (failed : (store.leaseNext ports queue worker ttl).2 = .err error) :
    (store.leaseNext ports queue worker ttl).1 = store := by
  rw [leaseNext_eq] at failed ⊢
  obtain ⟨failure, refused, _⟩ := Outcome.mapErr_eq_err.mp failed
  apply locked_err _ refused
  intro after failure rejected
  rcases claim_cases rejected with ⟨same, _⟩ | ⟨_, _, _, _, _, _, _, _, _, _, _, _, granted, _⟩
  · exact same
  · cases granted

omit [BuildProfile] in
theorem locked_flatten_err {ε α : Type} {inject : ε → DispatchError} {store : InMemoryEventStore}
    {body : Inner → Inner × Outcome EventStoreError (Except ε α)} {error : DispatchError}
    (unchanged : ∀ after result, body store.inner = (after, result) →
      (∀ value, result ≠ .ok (.ok value)) → after = store.inner)
    (failed : flatten inject (store.locked body).2 = .err error) : (store.locked body).1 = store := by
  rcases outcome : (store.locked body).2 with (value | rejection) | failure | _
  · rcases ran : store.locked body with ⟨after, result⟩
    rw [ran] at outcome
    simp only at outcome
    subst outcome
    obtain ⟨healthy, body, clean⟩ := locked_ok ran
    have same := unchanged _ _ body (by simp)
    cases after
    cases store
    simp_all
  · rw [outcome] at failed
    cases failed
  · apply locked_err _ outcome
    intro after failure body
    exact unchanged _ _ body (by simp)
  · rw [outcome] at failed
    cases failed

omit [BuildProfile] in
theorem extendLease_err {store : InMemoryEventStore} {ports : Ports} {lease : LeaseId} {ttl : Duration}
    {error : DispatchError} (failed : (store.extendLease ports lease ttl).2 = .err error) :
    (store.extendLease ports lease ttl).1 = store := by
  rw [extendLease_eq] at failed ⊢
  apply locked_flatten_err _ failed
  intro after result ran refused
  rcases extendLease_cases ran with ⟨same, _⟩ | ⟨_, _, _, _, _, _, _, _, _, _, accepted⟩
  · exact same
  · exact absurd accepted (refused true)

theorem retire_err {store : InMemoryEventStore} {ports : Ports} {error : DispatchError}
    (failed : (store.retireNextExpiredLease ports).2 = .err error) :
    (store.retireNextExpiredLease ports).1 = store := by
  rw [retireNextExpiredLease_eq] at failed ⊢
  apply locked_flatten_err _ failed
  intro after result ran refused
  rcases retireOne_cases ran with ⟨same, _⟩ | ⟨id, _, _, _, _, _, _, _, _, _, _, retired⟩
  · exact same
  · exact absurd retired (refused (some id))

/-- Store operations take effect as a whole or not at all. -/
theorem operations_all_or_nothing (store : InMemoryEventStore) :
    (∀ stream expected envelopes,
      ((store.append stream expected envelopes).2 = .ok () ↔
        store.poisoned = false ∧ expected = (store.inner.stream stream).length ∧
        (∀ k envelope, envelopes[k]? = some envelope →
          envelope.streamId = stream ∧ envelope.version = expected + (k + 1)) ∧
        ∃ job, Job.fromEvents (store.inner.stream stream ++ envelopes) = .ok job) ∧
      ((store.append stream expected envelopes).2 = .ok () →
        (store.append stream expected envelopes).1.inner.streams.lookup stream =
            some (store.inner.stream stream ++ envelopes) ∧
          ∀ other, other ≠ stream →
            (store.append stream expected envelopes).1.inner.streams.lookup other =
                store.inner.streams.lookup other ∧
              (store.append stream expected envelopes).1.inner.index.lookup other =
                store.inner.index.lookup other) ∧
      ∀ error, (store.append stream expected envelopes).2 = .err error →
        (store.append stream expected envelopes).1 = store) ∧
    (∀ ports queue worker ttl error, (store.leaseNext ports queue worker ttl).2 = .err error →
      (store.leaseNext ports queue worker ttl).1 = store) ∧
    (∀ ports lease ttl error, (store.extendLease ports lease ttl).2 = .err error →
      (store.extendLease ports lease ttl).1 = store) ∧
    ∀ ports error, (store.retireNextExpiredLease ports).2 = .err error →
      (store.retireNextExpiredLease ports).1 = store := by
  refine ⟨?_, ?_, ?_, ?_⟩
  · intro stream expected envelopes
    exact ⟨append_ok_iff store stream expected envelopes, append_ok_frame, fun _ => append_err⟩
  · intro ports queue worker ttl error failed
    exact leaseNext_err failed
  · intro ports lease ttl error failed
    exact extendLease_err failed
  · intro ports error failed
    exact retire_err failed

/-- A claim whose deadline is past the last representable instant has panicked inside the lock. -/
def poisonedStore : InMemoryEventStore :=
  ((InMemoryEventStore.new.append ⟨1⟩ 0 (Sample.command.envelopes (Sample.ports 0 1))).1.leaseNext
    (Sample.ports 1 2) Sample.queue Sample.worker (.fromSecs 9000000000000)).1

omit [BuildProfile] in
theorem append_refused_by_poisoned_mutex :
    letI := BuildProfile.release
    let batch := Sample.command.envelopes (Sample.ports 2 3)
    (poisonedStore.append ⟨3⟩ 0 batch).2 = .err (.backend "store mutex poisoned") ∧
      0 = (poisonedStore.inner.stream ⟨3⟩).length ∧
      (∀ k envelope, batch[k]? = some envelope →
        envelope.streamId = ⟨3⟩ ∧ envelope.version = 0 + (k + 1)) ∧
      ∃ job, Job.fromEvents (poisonedStore.inner.stream ⟨3⟩ ++ batch) = .ok job := by
  refine ⟨rfl, rfl, ?_, _, rfl⟩
  rw [← continues_iff_getElem]
  rfl

end Koine.Memory
