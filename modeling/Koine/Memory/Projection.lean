import Koine.Memory.Dispatcher

namespace Koine.Memory

open Library Domain Application

/-- The entry a job's state asks for; terminal and parked jobs have none. -/
def entryOf (job : Job) (seq : Nat) : Option DispatchEntry :=
  match job.state with
  | .pending notBefore =>
    some { queue := job.queue, priority := job.priority, seq, notBefore, lease := none }
  | .leased worker lease expiresAt | .running worker lease expiresAt =>
    some { queue := job.queue, priority := job.priority, seq, notBefore := none
           lease := some { lease, worker, expiresAt } }
  | _ => none

def Inner.seqFor (inner : Inner) (id : JobId) : Nat :=
  match inner.index.lookup id with
  | none => inner.seq + 1
  | some entry => entry.seq

def Inner.seqAfter (inner : Inner) (id : JobId) : Nat :=
  match inner.index.lookup id with
  | none => inner.seq + 1
  | some _ => inner.seq

theorem projectLocked_streams (inner : Inner) (job : Job) :
    (inner.projectLocked job).streams = inner.streams := by
  unfold Inner.projectLocked
  cases inner.index.lookup job.id <;> cases job.state <;> rfl

theorem projectLocked_seq (inner : Inner) (job : Job) :
    (inner.projectLocked job).seq = inner.seqAfter job.id := by
  unfold Inner.projectLocked Inner.seqAfter
  cases inner.index.lookup job.id <;> cases job.state <;> rfl

theorem projectLocked_index_self (inner : Inner) (job : Job) :
    (inner.projectLocked job).index.lookup job.id = entryOf job (inner.seqFor job.id) := by
  unfold Inner.projectLocked Inner.seqFor entryOf
  cases inner.index.lookup job.id <;> cases job.state <;>
    first
    | exact AList.lookup_insert _
    | exact AList.lookup_erase _ _

theorem projectLocked_index_other (inner : Inner) (job : Job) {id : JobId} (other : id ≠ job.id) :
    (inner.projectLocked job).index.lookup id = inner.index.lookup id := by
  unfold Inner.projectLocked
  cases inner.index.lookup job.id <;> cases job.state <;>
    first
    | exact AList.lookup_insert_ne other
    | exact AList.lookup_erase_ne other

structure Appended [BuildProfile] (inner after : Inner) (stream : JobId)
    (batch : List EventEnvelope) (job : Job) : Prop where
  folded : Job.fromEvents (inner.stream stream ++ batch) = .ok job
  id : job.id = stream
  stream_self : after.streams.lookup stream = some (inner.stream stream ++ batch)
  stream_other : ∀ id, id ≠ stream → after.streams.lookup id = inner.streams.lookup id
  index_self : after.index.lookup stream = entryOf job (inner.seqFor stream)
  index_other : ∀ id, id ≠ stream → after.index.lookup id = inner.index.lookup id
  seq : after.seq = inner.seqAfter stream

structure Extended (inner after : Inner) (id : JobId) (entry : DispatchEntry) (state : LeaseState)
    (deadline : DateTime) : Prop where
  present : inner.index.lookup id = some entry
  live : entry.lease = some state
  streams : ∀ job, after.streams.lookup job = inner.streams.lookup job
  index_self : after.index.lookup id =
    some { entry with lease := some { state with expiresAt := deadline } }
  index_other : ∀ other, other ≠ id → after.index.lookup other = inner.index.lookup other
  seq : after.seq = inner.seq

variable [BuildProfile]

theorem appendLocked_accepted {inner after : Inner} {stream : JobId} {expected : Nat}
    {envelopes : List EventEnvelope}
    (accepted : inner.appendLocked stream expected envelopes = (after, .ok ())) :
    (inner.stream stream).length = expected ∧ continues stream expected envelopes = true ∧
      ∃ job, Appended inner after stream envelopes job := by
  unfold Inner.appendLocked at accepted
  simp only at accepted
  split at accepted
  · cases accepted
  · rename_i version
    rw [not_not] at version
    subst version
    split at accepted
    · rename_i batch
      split at accepted
      · cases accepted
      · cases accepted
      · rename_i job folded
        have keyed := inner.combined_keyed batch
        have id : job.id = stream := Job.fromEvents_id folded keyed
        cases accepted
        refine ⟨rfl, batch, job, folded, id, ?_, ?_, ?_, ?_, ?_⟩
        · rw [projectLocked_streams]
          exact AList.lookup_insert _
        · intro other different
          rw [projectLocked_streams]
          exact AList.lookup_insert_ne different
        · subst id
          exact projectLocked_index_self _ job
        · intro other different
          rw [← id] at different
          exact projectLocked_index_other _ job different
        · rw [projectLocked_seq, id]
          rfl
    · cases accepted

theorem appendLocked_accepts {inner : Inner} {stream : JobId} {envelopes : List EventEnvelope}
    {job : Job} (batch : continues stream (inner.stream stream).length envelopes = true)
    (folded : Job.fromEvents (inner.stream stream ++ envelopes) = .ok job) :
    (inner.appendLocked stream (inner.stream stream).length envelopes).2 = .ok () := by
  unfold Inner.appendLocked
  simp only [ne_eq, not_true_eq_false, if_false, batch, dif_pos, folded]

theorem appendLocked_rejected {inner after : Inner} {stream : JobId} {expected : Nat}
    {envelopes : List EventEnvelope} {result : Outcome EventStoreError Unit}
    (appended : inner.appendLocked stream expected envelopes = (after, result))
    (rejected : result ≠ .ok ()) : after = inner := by
  unfold Inner.appendLocked at appended
  simp only at appended
  split at appended
  · cases appended
    rfl
  · split at appended
    · split at appended
      · cases appended
        rfl
      · cases appended
        rfl
      · cases appended
        exact absurd rfl rejected
    · cases appended
      rfl

theorem appendLocked_panic {inner after : Inner} {stream : JobId} {expected : Nat}
    {envelopes : List EventEnvelope}
    (appended : inner.appendLocked stream expected envelopes = (after, .panic)) :
    (inner.stream stream).length = expected ∧
      Job.fromEvents (inner.stream stream ++ envelopes) = .panic := by
  unfold Inner.appendLocked at appended
  simp only at appended
  split at appended
  · cases appended
  · rename_i version
    split at appended
    · split at appended
      · cases appended
      · rename_i unwound
        exact ⟨not_not.mp version, unwound⟩
      · cases appended
    · cases appended

end Koine.Memory
