import Koine.Memory.Projection

namespace Koine.Memory

open Library Domain Application

theorem mem_entries {inner : Inner} {entry : (_ : JobId) × DispatchEntry} :
    entry ∈ inner.index.entries ↔ inner.index.lookup entry.1 = some entry.2 :=
  AList.mem_lookup_iff.symm

theorem keyLe_iff {left right : DispatchEntry} :
    left.keyLe right = true ↔
      left.priority.value.toInt < right.priority.value.toInt ∨
        (left.priority.value.toInt = right.priority.value.toInt ∧ right.seq ≤ left.seq) := by
  simp [DispatchEntry.keyLe]

theorem keyLe_total (left right : DispatchEntry) : left.keyLe right = true ∨ right.keyLe left = true := by
  rw [keyLe_iff, keyLe_iff]
  omega

theorem keyLe_trans (first second third : DispatchEntry) (left : first.keyLe second = true)
    (right : second.keyLe third = true) : first.keyLe third = true := by
  rw [keyLe_iff] at left right ⊢
  omega

theorem pickEligible_some {inner : Inner} {queue : QueueName} {now : DateTime} {id : JobId}
    (picked : inner.pickEligible queue now = some id) :
    ∃ entry, inner.index.lookup id = some entry ∧ entry.eligible queue now = true ∧
      ∀ other rival, inner.index.lookup other = some rival → rival.eligible queue now = true →
        rival.keyLe entry = true := by
  unfold Inner.pickEligible at picked
  rw [Option.map_eq_some_iff] at picked
  obtain ⟨⟨found, entry⟩, greatest, rfl⟩ := picked
  have total : ∀ left right : (_ : JobId) × DispatchEntry,
      left.2.keyLe right.2 = true ∨ right.2.keyLe left.2 = true :=
    fun left right => keyLe_total left.2 right.2
  have transitive : ∀ first second third : (_ : JobId) × DispatchEntry,
      first.2.keyLe second.2 = true → second.2.keyLe third.2 = true → first.2.keyLe third.2 = true :=
    fun first second third => keyLe_trans first.2 second.2 third.2
  obtain ⟨member, best⟩ :=
    @maxBy_some ((_ : JobId) × DispatchEntry) (fun left right => left.2.keyLe right.2) total transitive _ _
      greatest
  rw [List.mem_filter] at member
  refine ⟨entry, mem_entries.mp member.1, member.2, ?_⟩
  intro other rival present eligible
  exact best ⟨other, rival⟩ (List.mem_filter.mpr ⟨mem_entries.mpr present, eligible⟩)

theorem pickEligible_none {inner : Inner} {queue : QueueName} {now : DateTime} :
    inner.pickEligible queue now = none ↔
      ∀ id entry, inner.index.lookup id = some entry → entry.eligible queue now = false := by
  unfold Inner.pickEligible
  rw [Option.map_eq_none_iff, maxBy_eq_none, List.filter_eq_nil_iff]
  constructor
  · intro none id entry present
    have refused := none ⟨id, entry⟩ (mem_entries.mpr present)
    simpa using refused
  · intro none entry member
    rw [none entry.1 entry.2 (mem_entries.mp member)]
    simp

theorem pickExpired_some {inner : Inner} {now : DateTime} {id : JobId}
    (picked : inner.pickExpired now = some id) :
    ∃ entry, inner.index.lookup id = some entry ∧ entry.overdue now = true := by
  unfold Inner.pickExpired at picked
  have member := List.min?_mem picked
  obtain ⟨⟨found, entry⟩, overdue, rfl⟩ := List.mem_map.mp member
  rw [List.mem_filter] at overdue
  exact ⟨entry, mem_entries.mp overdue.1, overdue.2⟩

theorem pickExpired_none {inner : Inner} {now : DateTime} :
    inner.pickExpired now = none ↔
      ∀ id entry, inner.index.lookup id = some entry → entry.overdue now = false := by
  unfold Inner.pickExpired
  rw [List.min?_eq_none_iff, List.map_eq_nil_iff, List.filter_eq_nil_iff]
  constructor
  · intro none id entry present
    have refused := none ⟨id, entry⟩ (mem_entries.mpr present)
    simpa using refused
  · intro none entry member
    rw [none entry.1 entry.2 (mem_entries.mp member)]
    simp

theorem overdue_iff {entry : DispatchEntry} {now : DateTime} :
    entry.overdue now = true ↔ ∃ state, entry.lease = some state ∧ state.expiresAt ≤ now := by
  unfold DispatchEntry.overdue
  cases entry.lease <;> simp

theorem eligible_iff {entry : DispatchEntry} {queue : QueueName} {now : DateTime} :
    entry.eligible queue now = true ↔
      entry.queue = queue ∧ entry.lease = none ∧ ∀ time, entry.notBefore = some time → time ≤ now := by
  unfold DispatchEntry.eligible
  cases entry.lease <;> cases entry.notBefore <;> simp

theorem findLease_some {inner : Inner} {lease : LeaseId} {id : JobId} {entry : DispatchEntry}
    {state : LeaseState} (found : inner.findLease lease = some (id, entry, state)) :
    inner.index.lookup id = some entry ∧ entry.lease = some state ∧ state.lease = lease := by
  unfold Inner.findLease at found
  obtain ⟨⟨other, candidate⟩, member, matched⟩ := List.exists_of_findSome?_eq_some found
  have present := mem_entries.mp member
  simp only at matched present
  split at matched
  · rename_i live held
    split at matched
    · rename_i same
      cases matched
      exact ⟨present, held, same⟩
    · cases matched
  · cases matched

theorem findLease_none {inner : Inner} {lease : LeaseId} (missing : inner.findLease lease = none)
    {id : JobId} {entry : DispatchEntry} {state : LeaseState}
    (present : inner.index.lookup id = some entry) (held : entry.lease = some state) :
    state.lease ≠ lease := by
  unfold Inner.findLease at missing
  rw [List.findSome?_eq_none_iff] at missing
  have skipped := missing ⟨id, entry⟩ (mem_entries.mpr present)
  intro same
  simp [held, same] at skipped

def follow (ports : Ports) (id : JobId) (stream : List EventEnvelope) (events : List JobEvent) :
    List EventEnvelope :=
  wrapEvents ports id stream.length (lineageOf stream).1 (lineageOf stream).2.1
    (lineageOf stream).2.2 events

theorem follow_sequential (ports : Ports) (id : JobId) (stream : List EventEnvelope)
    (events : List JobEvent) : Job.Sequential stream.length (follow ports id stream events) :=
  wrapEvents_sequential ..

theorem follow_events (ports : Ports) (id : JobId) (stream : List EventEnvelope)
    (events : List JobEvent) : (follow ports id stream events).map (·.event) = events :=
  wrapEvents_events ..

theorem follow_continues (ports : Ports) (id : JobId) (stream : List EventEnvelope)
    (events : List JobEvent) : continues id stream.length (follow ports id stream events) = true :=
  wrapEvents_continues ..

theorem follow_length (ports : Ports) (id : JobId) (stream : List EventEnvelope)
    (events : List JobEvent) : (follow ports id stream events).length = events.length := by
  rw [← List.length_map (f := EventEnvelope.event), follow_events]

variable [BuildProfile]

theorem follow_folds {stream : List EventEnvelope} {job next : Job} {events : List JobEvent}
    (ports : Ports) (id : JobId) (folded : Job.fromEvents stream = .ok job)
    (applied : job.applyEvents events = .ok next) :
    Job.fromEvents (stream ++ follow ports id stream events) = .ok next := by
  have sequential := follow_sequential ports id stream events
  rw [← Job.fromEvents_version folded] at sequential
  rw [Job.fromEvents_extend folded, Job.foldRest_eq_applyEvents sequential, follow_events]
  exact applied

theorem appendLocked_continues {inner : Inner} {id : JobId} {stream batch : List EventEnvelope}
    {job next : Job} (present : inner.streams.lookup id = some stream)
    (folded : Job.fromEvents stream = .ok job) (continued : continues id job.version batch = true)
    (applied : job.applyEvents (batch.map (·.event)) = .ok next) :
    ∃ after, inner.appendLocked id job.version batch = (after, .ok ()) ∧
      Appended inner after id batch next := by
  have stored : inner.stream id = stream := by simp [Inner.stream, present]
  have version : job.version = (inner.stream id).length := by rw [stored, Job.fromEvents_version folded]
  have result : Job.fromEvents (inner.stream id ++ batch) = .ok next := by
    rw [stored, Job.fromEvents_extend folded,
      Job.foldRest_eq_applyEvents (continues_iff.mp continued).1, applied]
  have accepted : (inner.appendLocked id job.version batch).2 = .ok () := by
    rw [version] at continued ⊢
    exact appendLocked_accepts continued result
  rcases appended : inner.appendLocked id job.version batch with ⟨after, outcome⟩
  rw [appended] at accepted
  simp only at accepted
  subst accepted
  obtain ⟨_, _, final, effects⟩ := appendLocked_accepted appended
  have same : final = next := Outcome.ok.inj (effects.folded.symm.trans result)
  subst same
  exact ⟨after, rfl, effects⟩

theorem appendLocked_follow {inner : Inner} {id : JobId} {stream : List EventEnvelope} {job next : Job}
    {events : List JobEvent} (ports : Ports) (present : inner.streams.lookup id = some stream)
    (folded : Job.fromEvents stream = .ok job) (applied : job.applyEvents events = .ok next) :
    ∃ after, inner.appendLocked id job.version (follow ports id stream events) = (after, .ok ()) ∧
      Appended inner after id (follow ports id stream events) next := by
  refine appendLocked_continues present folded ?_ ?_
  · rw [Job.fromEvents_version folded]
    exact follow_continues ports id stream events
  · rw [follow_events]
    exact applied

theorem claim_cases {inner after : Inner} {ports : Ports} {queue : QueueName} {worker : WorkerId}
    {ttl : Duration} {result : Outcome EventStoreError (Option LeasedJob)}
    (called : inner.claim ports queue worker ttl = (after, result)) :
    (after = inner ∧ ∀ leased, result ≠ .ok (some leased)) ∨
      ∃ id stream job expiresAt next leased,
        inner.pickEligible queue ports.now = some id ∧ inner.streams.lookup id = some stream ∧
        Job.fromEvents stream = .ok job ∧
        job.lease worker ports.leaseId ports.now ttl = .ok (.leased worker ports.leaseId expiresAt) ∧
        Job.Effect job [.leased worker ports.leaseId expiresAt] next ∧
        Appended inner after id
          (follow ports id stream [.leased worker ports.leaseId expiresAt]) next ∧
        result = .ok (some leased) ∧ leased.jobId = id ∧ leased.lease = ports.leaseId ∧
        leased.expiresAt = expiresAt := by
  unfold Inner.claim at called
  split at called
  · cases called
    exact .inl ⟨rfl, by simp⟩
  · rename_i id picked
    split at called
    · cases called
      exact .inl ⟨rfl, by simp⟩
    · rename_i stream present
      split at called
      · cases called
        exact .inl ⟨rfl, by simp⟩
      · cases called
        exact .inl ⟨rfl, by simp⟩
      · rename_i job folded
        split at called
        · cases called
          exact .inl ⟨rfl, by simp⟩
        · cases called
          exact .inl ⟨rfl, by simp⟩
        · rename_i event granted
          obtain ⟨notBefore, delta, expiresAt, state, _, _, _, rfl⟩ := Job.lease_ok granted
          have effect := Job.Effect.leased worker ports.leaseId expiresAt state
          have version := Job.fromEvents_version folded
          obtain ⟨written, appended, effects⟩ :=
            appendLocked_follow ports present folded effect.applies
          have wrapped : wrapEvents ports id job.version (lineageOf stream).1 (lineageOf stream).2.1
              (lineageOf stream).2.2 [.leased worker ports.leaseId expiresAt] =
              follow ports id stream [.leased worker ports.leaseId expiresAt] := by
            rw [version]
            rfl
          simp only [lineageOf] at wrapped called
          rw [wrapped] at called
          simp only [follow, wrapEvents, List.mapIdx_cons, List.mapIdx_nil, List.head?_cons,
            Option.map_some] at called appended
          rw [appended] at called
          cases called
          exact .inr ⟨id, stream, job, expiresAt, _, _, picked, present, folded, granted, effect,
            effects, rfl, rfl, rfl, rfl⟩

theorem retireOne_cases {inner after : Inner} {ports : Ports}
    {result : Outcome EventStoreError (Except DomainError (Option JobId))}
    (called : inner.retireOne ports = (after, result)) :
    (after = inner ∧ ∀ id, result ≠ .ok (.ok (some id))) ∨
      ∃ id stream job events next,
        inner.pickExpired ports.now = some id ∧ inner.streams.lookup id = some stream ∧
        Job.fromEvents stream = .ok job ∧ job.expireLease ports.now ports.jitterSeed = .ok events ∧
        Job.Effect job events next ∧ Appended inner after id (follow ports id stream events) next ∧
        result = .ok (.ok (some id)) := by
  unfold Inner.retireOne at called
  split at called
  · cases called
    exact .inl ⟨rfl, by simp⟩
  · rename_i id picked
    split at called
    · cases called
      exact .inl ⟨rfl, by simp⟩
    · rename_i stream present
      split at called
      · cases called
        exact .inl ⟨rfl, by simp⟩
      · cases called
        exact .inl ⟨rfl, by simp⟩
      · rename_i job folded
        split at called
        · cases called
          exact .inl ⟨rfl, by simp⟩
        · cases called
          exact .inl ⟨rfl, by simp⟩
        · rename_i events retired
          obtain ⟨next, effect⟩ := Job.expireLease_effect retired
          obtain ⟨written, appended, effects⟩ :=
            appendLocked_follow ports present folded effect.applies
          have version := Job.fromEvents_version folded
          simp only [lineageOf] at called
          simp only [follow, lineageOf, ← version] at appended
          rw [appended] at called
          cases called
          exact .inr ⟨id, stream, job, events, next, picked, present, folded, retired, effect,
            effects, rfl⟩

omit [BuildProfile] in
theorem Extended.of_insert {inner : Inner} {id : JobId} {entry : DispatchEntry} {state : LeaseState}
    (deadline : DateTime) (present : inner.index.lookup id = some entry) (held : entry.lease = some state) :
    Extended inner
      { inner with
        index := inner.index.insert id { entry with lease := some { state with expiresAt := deadline } } }
      id entry state deadline :=
  ⟨present, held, fun _ => rfl, AList.lookup_insert _, fun _ different => AList.lookup_insert_ne different, rfl⟩

omit [BuildProfile] in
theorem extendLease_cases {inner after : Inner} {ports : Ports} {lease : LeaseId} {ttl : Duration}
    {result : Outcome EventStoreError (Except DispatchError Bool)}
    (called : inner.extendLease ports lease ttl = (after, result)) :
    (after = inner ∧ result ≠ .ok (.ok true)) ∨
      ∃ id entry state delta deadline,
        Extended inner after id entry state deadline ∧ state.lease = lease ∧
        ports.now < state.expiresAt ∧ TimeDelta.fromStd ttl = some delta ∧
        ports.now.checkedAddSigned delta = some deadline ∧ result = .ok (.ok true) := by
  unfold Inner.extendLease at called
  split at called
  · cases called
    exact .inl ⟨rfl, by simp⟩
  · rename_i delta converted
    split at called
    · cases called
      exact .inl ⟨rfl, by simp⟩
    · rename_i deadline added
      split at called
      · cases called
        exact .inl ⟨rfl, by simp⟩
      · rename_i id entry state found
        split at called
        · cases called
          exact .inl ⟨rfl, by simp⟩
        · rename_i live
          cases called
          obtain ⟨present, held, same⟩ := findLease_some found
          exact .inr ⟨id, entry, state, delta, deadline, .of_insert deadline present held, same,
            not_le.mp live, converted, added, rfl⟩

end Koine.Memory
