import Koine.Memory.Consistency

namespace Koine.Memory

open Library Domain Application

def leasesOf (batch : List EventEnvelope) : List LeaseId :=
  batch.filterMap fun envelope =>
    match envelope.event with
    | .leased _ lease _ => some lease
    | _ => none

theorem mem_leasesOf {batch : List EventEnvelope} {lease : LeaseId} :
    lease ∈ leasesOf batch ↔
      ∃ envelope ∈ batch, ∃ worker expiresAt, envelope.event = .leased worker lease expiresAt := by
  unfold leasesOf
  rw [List.mem_filterMap]
  constructor
  · rintro ⟨envelope, member, granted⟩
    split at granted
    · rename_i worker held expiresAt event
      cases granted
      exact ⟨envelope, member, worker, expiresAt, event⟩
    · cases granted
  · rintro ⟨envelope, member, worker, expiresAt, event⟩
    exact ⟨envelope, member, by rw [event]⟩

theorem mem_leasesOf_follow {ports : Ports} {id : JobId} {stream : List EventEnvelope}
    {events : List JobEvent} {lease : LeaseId} :
    lease ∈ leasesOf (follow ports id stream events) ↔
      ∃ worker expiresAt, JobEvent.leased worker lease expiresAt ∈ events := by
  have listed : ∀ event, event ∈ events ↔
      ∃ envelope ∈ follow ports id stream events, envelope.event = event := by
    intro event
    rw [← List.mem_map, follow_events]
  simp only [mem_leasesOf, listed]
  constructor
  · intro ⟨envelope, member, worker, expiresAt, event⟩
    exact ⟨worker, expiresAt, envelope, member, event⟩
  · intro ⟨worker, expiresAt, envelope, member, event⟩
    exact ⟨envelope, member, worker, expiresAt, event⟩

theorem locked_cases {α : Type} {store after : InMemoryEventStore}
    {body : Inner → Inner × Outcome EventStoreError α} {result : Outcome EventStoreError α}
    (ran : store.locked body = (after, result)) :
    (store.poisoned = true ∧ after = store ∧ result = .err (.backend "store mutex poisoned")) ∨
      (store.poisoned = false ∧ body store.inner = (after.inner, result) ∧
        (after.poisoned = true ↔ result = .panic)) := by
  unfold InMemoryEventStore.locked at ran
  split at ran
  · rename_i poisoned
    cases ran
    exact .inl ⟨poisoned, rfl, rfl⟩
  · rename_i healthy
    split at ran
    · rename_i called
      cases ran
      exact .inr ⟨by simpa using healthy, called, by simp⟩
    · rename_i running called
      cases ran
      exact .inr ⟨by simpa using healthy, called, by simpa using running⟩

variable [BuildProfile]

theorem Appended.of_reordered {inner shuffled after : Inner} {stream : JobId}
    {batch : List EventEnvelope} {job : Job} (order : inner.Reordered shuffled)
    (effects : Appended shuffled after stream batch job) : Appended inner after stream batch job where
  folded := by rw [← order.stream]; exact effects.folded
  id := effects.id
  stream_self := by rw [← order.stream]; exact effects.stream_self
  stream_other := by
    intro id different
    rw [effects.stream_other id different, order.streams]
  index_self := by
    rw [effects.index_self, Inner.seqFor, Inner.seqFor, order.index, order.2.2]
  index_other := by
    intro id different
    rw [effects.index_other id different, order.index]
  seq := by rw [effects.seq, Inner.seqAfter, Inner.seqAfter, order.index, order.2.2]

omit [BuildProfile] in
theorem Extended.of_reordered {inner shuffled after : Inner} {id : JobId} {entry : DispatchEntry}
    {state : LeaseState} {deadline : DateTime} (order : inner.Reordered shuffled)
    (effects : Extended shuffled after id entry state deadline) :
    Extended inner after id entry state deadline where
  present := by rw [← order.index]; exact effects.present
  live := effects.live
  streams := by intro job; rw [effects.streams, order.streams]
  index_self := effects.index_self
  index_other := by
    intro other different
    rw [effects.index_other other different, order.index]
  seq := by rw [effects.seq, order.2.2]

/-- A step of the store: the maps may first be iterated in another order. -/
def StoreStep (before : InMemoryEventStore) (operation : Operation) (answer : Answer)
    (after : InMemoryEventStore) : Prop :=
  ∃ shuffled, before.inner.Reordered shuffled ∧
    operation.exec (⟨shuffled, before.poisoned⟩ : InMemoryEventStore) = (after, answer)

theorem StoreStep.of_exec (operation : Operation) (before : InMemoryEventStore) :
    StoreStep before operation (operation.exec before).2 (operation.exec before).1 :=
  ⟨before.inner, .refl _, rfl⟩

def grants : Operation → Answer → List LeaseId
  | .append _ _ envelopes, .appended (.ok ()) => leasesOf envelopes
  | .leaseNext .., .leased (.ok (some leased)) => [leased.lease]
  | _, _ => []

def Granted (history : List (Record InMemoryEventStore Operation Answer)) : List LeaseId :=
  history.flatMap fun record => grants record.label record.result

theorem append_cases {store after : InMemoryEventStore} {stream : JobId} {expected : Nat}
    {envelopes : List EventEnvelope} {result : Outcome EventStoreError Unit}
    (ran : store.append stream expected envelopes = (after, result)) :
    (after.inner = store.inner ∧ result ≠ .ok ()) ∨
      (result = .ok () ∧ (store.inner.stream stream).length = expected ∧
        ∃ job, Appended store.inner after.inner stream envelopes job) := by
  rcases locked_cases ran with ⟨_, same, failed⟩ | ⟨_, called, _⟩
  · exact .inl ⟨by rw [same], by simp [failed]⟩
  · by_cases accepted : result = .ok ()
    · subst accepted
      obtain ⟨version, _, job, effects⟩ := appendLocked_accepted called
      exact .inr ⟨rfl, version, job, effects⟩
    · exact .inl ⟨appendLocked_rejected called accepted, accepted⟩

theorem append_healthy {store after : InMemoryEventStore} {stream : JobId} {expected : Nat}
    {envelopes : List EventEnvelope} (ran : store.append stream expected envelopes = (after, .ok ())) :
    store.poisoned = false := by
  rcases locked_cases ran with ⟨_, _, failed⟩ | ⟨healthy, _⟩
  · cases failed
  · exact healthy

theorem append_panic {store after : InMemoryEventStore} {stream : JobId} {expected : Nat}
    {envelopes : List EventEnvelope} (ran : store.append stream expected envelopes = (after, .panic)) :
    (store.inner.stream stream).length = expected ∧
      Job.fromEvents (store.inner.stream stream ++ envelopes) = .panic := by
  rcases locked_cases ran with ⟨_, _, failed⟩ | ⟨_, called, _⟩
  · cases failed
  · exact appendLocked_panic called

theorem leaseNext_cases {store after : InMemoryEventStore} {ports : Ports} {queue : QueueName}
    {worker : WorkerId} {ttl : Duration} {result : Outcome DispatchError (Option LeasedJob)}
    (ran : store.leaseNext ports queue worker ttl = (after, result)) :
    (after.inner = store.inner ∧ ∀ leased, result ≠ .ok (some leased)) ∨
      ∃ id stream job expiresAt next leased,
        store.inner.pickEligible queue ports.now = some id ∧ store.inner.streams.lookup id = some stream ∧
        Job.fromEvents stream = .ok job ∧
        job.lease worker ports.leaseId ports.now ttl = .ok (.leased worker ports.leaseId expiresAt) ∧
        Job.Effect job [.leased worker ports.leaseId expiresAt] next ∧
        Appended store.inner after.inner id
          (follow ports id stream [.leased worker ports.leaseId expiresAt]) next ∧
        result = .ok (some leased) ∧ leased.jobId = id ∧ leased.lease = ports.leaseId ∧
        leased.expiresAt = expiresAt := by
  rw [leaseNext_eq] at ran
  rcases called : store.locked fun inner => inner.claim ports queue worker ttl with ⟨written, outcome⟩
  rw [called] at ran
  cases ran
  rcases locked_cases called with ⟨_, same, failed⟩ | ⟨_, body, _⟩
  · exact .inl ⟨by rw [same], by simp [failed]⟩
  · rcases claim_cases body with ⟨same, refused⟩ | ⟨id, stream, job, expiresAt, next, leased, picked,
      present, folded, granted, effect, effects, rfl, found, lease, deadline⟩
    · exact .inl ⟨same, fun leased => by simpa using refused leased⟩
    · exact .inr ⟨id, stream, job, expiresAt, next, leased, picked, present, folded, granted, effect,
        effects, rfl, found, lease, deadline⟩

omit [BuildProfile] in
theorem extendLease_step_cases {store after : InMemoryEventStore} {ports : Ports} {lease : LeaseId}
    {ttl : Duration} {result : Outcome DispatchError Bool}
    (ran : store.extendLease ports lease ttl = (after, result)) :
    (after.inner = store.inner ∧ result ≠ .ok true) ∨
      ∃ id entry state delta deadline,
        Extended store.inner after.inner id entry state deadline ∧ state.lease = lease ∧
        ports.now < state.expiresAt ∧ TimeDelta.fromStd ttl = some delta ∧
        ports.now.checkedAddSigned delta = some deadline ∧ result = .ok true := by
  rw [extendLease_eq] at ran
  rcases called : store.locked fun inner => inner.extendLease ports lease ttl with ⟨written, outcome⟩
  rw [called] at ran
  cases ran
  rcases locked_cases called with ⟨_, same, failed⟩ | ⟨_, body, _⟩
  · exact .inl ⟨by rw [same], by simp [failed, flatten]⟩
  · rcases extendLease_cases body with ⟨same, refused⟩ | ⟨id, entry, state, delta, deadline, effects,
      held, live, converted, added, rfl⟩
    · exact .inl ⟨same, by simpa using refused⟩
    · exact .inr ⟨id, entry, state, delta, deadline, effects, held, live, converted, added, rfl⟩

theorem retire_cases {store after : InMemoryEventStore} {ports : Ports}
    {result : Outcome DispatchError (Option JobId)}
    (ran : store.retireNextExpiredLease ports = (after, result)) :
    (after.inner = store.inner ∧ ∀ id, result ≠ .ok (some id)) ∨
      ∃ id stream job events next,
        store.inner.pickExpired ports.now = some id ∧ store.inner.streams.lookup id = some stream ∧
        Job.fromEvents stream = .ok job ∧ job.expireLease ports.now ports.jitterSeed = .ok events ∧
        Job.Effect job events next ∧
        Appended store.inner after.inner id (follow ports id stream events) next ∧
        result = .ok (some id) := by
  rw [retireNextExpiredLease_eq] at ran
  rcases called : store.locked fun inner => inner.retireOne ports with ⟨written, outcome⟩
  rw [called] at ran
  cases ran
  rcases locked_cases called with ⟨_, same, failed⟩ | ⟨_, body, _⟩
  · exact .inl ⟨by rw [same], by simp [failed, flatten]⟩
  · rcases retireOne_cases body with ⟨same, refused⟩ | ⟨id, stream, job, events, next, picked,
      present, folded, retired, effect, effects, rfl⟩
    · exact .inl ⟨same, fun id => by simpa using refused id⟩
    · exact .inr ⟨id, stream, job, events, next, picked, present, folded, retired, effect, effects, rfl⟩

/-- Every step reorders the maps, appends one foldable batch, or moves one deadline. -/
theorem storeStep_cases {before after : InMemoryEventStore} {operation : Operation} {answer : Answer}
    (taken : StoreStep before operation answer after) :
    before.inner.Reordered after.inner ∨
      (∃ stream batch job, Appended before.inner after.inner stream batch job ∧
        ∀ lease ∈ leasesOf batch, lease ∈ grants operation answer) ∨
      ∃ id entry state deadline, Extended before.inner after.inner id entry state deadline := by
  obtain ⟨shuffled, order, ran⟩ := taken
  cases operation with
  | append stream expected envelopes =>
    simp only [Operation.exec, EventStore.append] at ran
    rcases called : InMemoryEventStore.append ⟨shuffled, before.poisoned⟩ stream expected envelopes with
      ⟨written, result⟩
    rw [called] at ran
    cases ran
    rcases append_cases called with ⟨same, _⟩ | ⟨rfl, _, job, effects⟩
    · exact .inl (same ▸ order)
    · exact .inr (.inl ⟨stream, envelopes, job, effects.of_reordered order, fun _ member => member⟩)
  | load stream =>
    cases ran
    exact .inl order
  | leaseNext ports queue worker ttl =>
    simp only [Operation.exec, Dispatcher.leaseNext] at ran
    rcases called : InMemoryEventStore.leaseNext ⟨shuffled, before.poisoned⟩ ports queue worker ttl with
      ⟨written, result⟩
    rw [called] at ran
    cases ran
    rcases leaseNext_cases called with ⟨same, _⟩ | ⟨id, stream, job, expiresAt, next, leased, _, _, _, _,
      _, effects, rfl, _, lease, _⟩
    · exact .inl (same ▸ order)
    · refine .inr (.inl ⟨id, _, next, effects.of_reordered order, ?_⟩)
      intro granted member
      obtain ⟨holder, deadline, listed⟩ := mem_leasesOf_follow.mp member
      simp only [List.mem_singleton, JobEvent.leased.injEq] at listed
      simp [grants, lease, listed.2.1]
  | extendLease ports lease ttl =>
    simp only [Operation.exec, Dispatcher.extendLease] at ran
    rcases called : InMemoryEventStore.extendLease ⟨shuffled, before.poisoned⟩ ports lease ttl with
      ⟨written, result⟩
    rw [called] at ran
    cases ran
    rcases extendLease_step_cases called with ⟨same, _⟩ | ⟨id, entry, state, _, deadline, effects, _⟩
    · exact .inl (same ▸ order)
    · exact .inr (.inr ⟨id, entry, state, deadline, effects.of_reordered order⟩)
  | retireNextExpiredLease ports =>
    simp only [Operation.exec, Dispatcher.retireNextExpiredLease] at ran
    rcases called : InMemoryEventStore.retireNextExpiredLease ⟨shuffled, before.poisoned⟩ ports with
      ⟨written, result⟩
    rw [called] at ran
    cases ran
    rcases retire_cases called with ⟨same, _⟩ | ⟨id, stream, job, events, next, _, _, _, retired, _,
      effects, rfl⟩
    · exact .inl (same ▸ order)
    · refine .inr (.inl ⟨id, _, next, effects.of_reordered order, ?_⟩)
      intro granted member
      obtain ⟨holder, deadline, listed⟩ := mem_leasesOf_follow.mp member
      obtain ⟨expired, attempt, decision, _, _, decided, rfl⟩ := Job.expireLease_ok retired
      rcases Job.retryDecisionEvent_ok decided with ⟨_, _, _, _, _, _, _, rfl⟩ | ⟨_, rfl⟩ <;>
        simp at listed

theorem foldRest_held {job result : Job} {batch : List EventEnvelope} {lease : LeaseId}
    (folded : job.foldRest batch = .ok result) (held : result.state.held = some lease) :
    lease ∈ leasesOf batch ∨ job.state.held = some lease := by
  induction batch generalizing job with
  | nil =>
    cases folded
    exact .inr held
  | cons envelope batch ih =>
    obtain ⟨_, next, accepted, rest⟩ := Job.foldRest_cons_ok.mp folded
    rw [mem_leasesOf]
    rcases ih rest with granted | before
    · obtain ⟨later, member, event⟩ := mem_leasesOf.mp granted
      exact .inl ⟨later, List.mem_cons_of_mem _ member, event⟩
    · rcases Job.apply_held accepted lease before with event | ⟨old, _⟩
      · exact .inl ⟨envelope, by simp, event⟩
      · exact .inr old

theorem Appended.holds {inner after : Inner} {stream id : JobId} {batch : List EventEnvelope} {job : Job}
    {lease : LeaseId} (effects : Appended inner after stream batch job) (consistent : inner.Consistent)
    (held : after.Holds id lease) : (id = stream ∧ lease ∈ leasesOf batch) ∨ inner.Holds id lease := by
  by_cases same : id = stream
  · subst same
    obtain ⟨entry, state, present, live, rfl⟩ := held
    rw [effects.index_self] at present
    have mirrors := mirrors_entryOf job (inner.seqFor id)
    rw [present] at mirrors
    have holder := mirrors.held live
    have folded := effects.folded
    cases stored : inner.streams.lookup id with
    | none =>
      rw [Inner.stream, stored, Option.getD_none, List.nil_append] at folded
      cases batch with
      | nil => cases folded
      | cons first rest =>
        obtain ⟨_, _, _, _, _, _, _, later⟩ := Job.fromEvents_cons_ok.mp folded
        rcases foldRest_held later holder with granted | opened
        · obtain ⟨envelope, member, event⟩ := mem_leasesOf.mp granted
          exact .inl ⟨rfl, mem_leasesOf.mpr ⟨envelope, List.mem_cons_of_mem _ member, event⟩⟩
        · cases opened
    | some old =>
      obtain ⟨before, fold, _⟩ := consistent.folds id old stored
      rw [Inner.stream, stored, Option.getD_some, Job.fromEvents_extend fold] at folded
      rcases foldRest_held folded holder with granted | live
      · exact .inl ⟨rfl, granted⟩
      · exact .inr (consistent.holds_iff.mpr ⟨old, before, stored, fold, live⟩)
  · obtain ⟨entry, state, present, live, lease⟩ := held
    rw [effects.index_other id same] at present
    exact .inr ⟨entry, state, present, live, lease⟩

omit [BuildProfile] in
theorem Extended.holds {inner after : Inner} {id job : JobId} {entry : DispatchEntry}
    {state : LeaseState} {deadline : DateTime} {lease : LeaseId}
    (effects : Extended inner after id entry state deadline) :
    after.Holds job lease ↔ inner.Holds job lease := by
  unfold Inner.Holds
  by_cases same : job = id
  · subst same
    rw [effects.index_self, effects.present]
    constructor
    · intro ⟨moved, held, found, live, lease⟩
      cases found
      cases live
      exact ⟨entry, state, rfl, effects.live, lease⟩
    · intro ⟨old, held, found, live, lease⟩
      cases found
      rw [effects.live] at live
      cases live
      exact ⟨_, _, rfl, rfl, lease⟩
  · rw [effects.index_other job same]

theorem storeStep_consistent {before after : InMemoryEventStore} {operation : Operation} {answer : Answer}
    (consistent : before.inner.Consistent) (taken : StoreStep before operation answer after) :
    after.inner.Consistent := by
  rcases storeStep_cases taken with order | ⟨_, _, _, effects, _⟩ | ⟨_, _, _, _, effects⟩
  · exact consistent.reorder order
  · exact consistent.appended effects
  · exact consistent.extended effects

structure Inner.Fenced (inner : Inner) (granted : List LeaseId) : Prop where
  known : ∀ id lease, inner.Holds id lease → lease ∈ granted
  unique : ∀ left right lease, inner.Holds left lease → inner.Holds right lease → left = right

theorem storeStep_fenced {before after : InMemoryEventStore} {operation : Operation} {answer : Answer}
    {granted : List LeaseId} (consistent : before.inner.Consistent) (fenced : before.inner.Fenced granted)
    (fresh : (grants operation answer ++ granted).Nodup)
    (taken : StoreStep before operation answer after) :
    after.inner.Fenced (grants operation answer ++ granted) := by
  rcases storeStep_cases taken with order | ⟨stream, batch, job, effects, listed⟩ | ⟨_, _, _, _, effects⟩
  · refine ⟨?_, ?_⟩
    · intro id lease held
      exact List.mem_append_right _ (fenced.known id lease (order.holds.mp held))
    · intro left right lease first second
      exact fenced.unique left right lease (order.holds.mp first) (order.holds.mp second)
  · have disjoint := List.disjoint_of_nodup_append fresh
    refine ⟨?_, ?_⟩
    · intro id lease held
      rcases effects.holds consistent held with ⟨_, new⟩ | old
      · exact List.mem_append_left _ (listed lease new)
      · exact List.mem_append_right _ (fenced.known id lease old)
    · intro left right lease first second
      rcases effects.holds consistent first with ⟨rfl, new⟩ | old
      · rcases effects.holds consistent second with ⟨rfl, _⟩ | other
        · rfl
        · exact absurd (fenced.known right lease other) (disjoint (listed lease new))
      · rcases effects.holds consistent second with ⟨rfl, new⟩ | other
        · exact absurd (fenced.known left lease old) (disjoint (listed lease new))
        · exact fenced.unique left right lease old other
  · refine ⟨?_, ?_⟩
    · intro id lease held
      exact List.mem_append_right _ (fenced.known id lease (effects.holds.mp held))
    · intro left right lease first second
      exact fenced.unique left right lease (effects.holds.mp first) (effects.holds.mp second)

end Koine.Memory
