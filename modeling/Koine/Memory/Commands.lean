import Koine.Application.Decisions
import Koine.Memory.Operations

namespace Koine.Memory

open Library Domain Application

variable [BuildProfile]

/-- What a command emits, wrapped after the stream it was decided on, the store accepts; the stream
    then folds to the job the command leads to. -/
theorem command_events_accepted {inner : Inner} {id : JobId} {stream : List EventEnvelope} {job : Job}
    {command : Command} {events : List JobEvent} (stored : inner.streams.lookup id = some stream)
    (folded : Job.fromEvents stream = .ok job) (room : job.attempt.toNat < 2 ^ 32 - 1)
    (emitted : command.run job = .ok events) (ports : Ports) (correlationId : CorrelationId)
    (causationId : Option EventId) (traceparent : Option String) :
    let batch := wrapEvents ports id job.version correlationId causationId traceparent events
    ∃ after next, inner.appendLocked id job.version batch = (after, .ok ()) ∧
      after.streams.lookup id = some (stream ++ batch) ∧
      Job.fromEvents (stream ++ batch) = .ok next ∧
      command.Leads job next ∧ next.version = job.version + events.length ∧
      Job.SameIdentity job next ∧ next.payload = job.payload := by
  intro batch
  obtain ⟨next, applied, leads, payload⟩ := command.applies room emitted
  have unwrapped : batch.map (·.event) = events := wrapEvents_events ..
  obtain ⟨after, accepted, effects⟩ :=
    appendLocked_continues stored folded (wrapEvents_continues ..) (unwrapped.symm ▸ applied)
  have current : inner.stream id = stream := by simp [Inner.stream, stored]
  have refolded := effects.folded
  rw [current, Job.fromEvents_extend folded] at refolded
  obtain ⟨version, identity⟩ := Job.foldRest_version refolded
  have size := congrArg List.length unwrapped
  rw [List.length_map] at size
  exact ⟨after, next, accepted, current ▸ effects.stream_self, current ▸ effects.folded, leads,
    version.trans (congrArg (job.version + ·) size), identity, payload⟩

section Samples

omit [BuildProfile]

def leasedStore : InMemoryEventStore :=
  let _ := BuildProfile.release
  let (store, _) := EnqueueJob.execute InMemoryEventStore.new (Sample.ports 0 1) Sample.command
  (store.leaseNext (Sample.ports 0 2) Sample.queue Sample.worker (.fromSecs 60)).1

def startedStore : InMemoryEventStore :=
  let _ := BuildProfile.release
  (WorkerAck.start leasedStore (Sample.ports 1 3) ⟨1⟩ Sample.worker).1

def lastInstant : DateTime := ⟨maxUtcNanos, by decide, by decide⟩

end Samples

omit [BuildProfile] in
theorem command_events_accepted_start :
    let _ := BuildProfile.release
    ∃ stream job after next, leasedStore.inner.streams.lookup ⟨1⟩ = some stream ∧
      Job.fromEvents stream = .ok job ∧
      leasedStore.inner.appendLocked ⟨1⟩ job.version
        (wrapEvents (Sample.ports 1 3) ⟨1⟩ job.version ⟨1⟩ none none [.started Sample.worker]) =
          (after, .ok ()) ∧
      (Command.start Sample.worker).Leads job next := by
  intro _
  obtain ⟨after, next, accepted, _, _, leads, _⟩ := @command_events_accepted _ leasedStore.inner ⟨1⟩ _ _
    (.start Sample.worker) _ rfl rfl (by decide) rfl (Sample.ports 1 3) ⟨1⟩ none none
  exact ⟨_, _, after, next, rfl, rfl, accepted, leads⟩

theorem execute_stores {store : InMemoryEventStore} {id : JobId} {stream : List EventEnvelope} {job : Job}
    {call : Call} {ports : Ports} {reply : Reply} {events : List JobEvent} (healthy : store.poisoned = false)
    (stored : store.inner.streams.lookup id = some stream) (folded : Job.fromEvents stream = .ok job)
    (yielded : call.command ports job = .ok (reply, events)) :
    (call.execute store ports id).2 = .ok reply ∧
      (call.execute store ports id).1.inner.streams.lookup id =
        some (stream ++ follow ports id stream events) := by
  have current : store.inner.stream id = stream := by simp [Inner.stream, stored]
  have named : job.id = id := Job.fromEvents_id folded (store.inner.keyed id stream stored)
  have version := Job.fromEvents_version folded
  have loaded : Call.load store id = .ok ⟨job, stream⟩ := by
    simp only [Call.load, EventStore.load, InMemoryEventStore.load, InMemoryEventStore.locked, healthy, stored]
    simp only [Bool.false_eq_true, if_false, folded]
  obtain ⟨next, effect⟩ := Call.command_effect yielded
  obtain ⟨after, accepted, effects⟩ := appendLocked_follow ports stored folded effect.applies
  have appended : EventStore.append store job.id job.version
      (Loaded.envelopes ⟨job, stream⟩ ports events) = (⟨after, false⟩, .ok ()) := by
    rw [Loaded.envelopes, named, version]
    rw [version, follow] at accepted
    simp only [EventStore.append, InMemoryEventStore.append, InMemoryEventStore.locked, healthy, accepted]
    rfl
  simp only [Call.execute, loaded, Call.finish, yielded, appended]
  exact ⟨trivial, current ▸ effects.stream_self⟩

/-- What `Conflict` says to a worker: the ack is recorded as a conflict iff its lease is not the one
    held, and under the held lease the intended events are stored or nothing is. -/
structure ConflictMeansLost (job : Job) (lease : LeaseId) (id : JobId) (stream : List EventEnvelope)
    (ports : Ports) (late : JobEvent) (intended : List JobEvent → Prop) (before : InMemoryEventStore)
    (outcome : InMemoryEventStore × Outcome AckError Reply) : Prop where
  lost : outcome.2 = .ok (.ack .conflict) ∧
      outcome.1.inner.streams.lookup id = some (stream ++ follow ports id stream [late]) ↔
    job.state.held ≠ some lease
  held : job.state.held = some lease →
    (outcome.2 = .ok (.ack .recorded) ∧ ∃ events, intended events ∧
        outcome.1.inner.streams.lookup id = some (stream ++ follow ports id stream events)) ∨
      ∃ error, outcome.2 = .err (.domain error) ∧ outcome.1 = before

section Acks

variable {store : InMemoryEventStore} {id : JobId} {stream : List EventEnvelope} {job : Job} {lease : LeaseId}
  {ports : Ports}

section Outcomes

variable {late : JobEvent} {intended : List JobEvent → Prop} {outcome : InMemoryEventStore × Outcome AckError Reply}

omit [BuildProfile] in
theorem conflictMeansLost_of_conflict (stored : outcome.2 = .ok (.ack .conflict) ∧
      outcome.1.inner.streams.lookup id = some (stream ++ follow ports id stream [late])) :
    ConflictMeansLost job lease id stream ports late intended store outcome ↔ job.state.held ≠ some lease := by
  constructor
  · exact fun means => means.lost.mp stored
  · exact fun lost => ⟨⟨fun _ => lost, fun _ => stored⟩, fun held => absurd held lost⟩

omit [BuildProfile] in
theorem conflictMeansLost_of_recorded {events : List JobEvent} (meant : intended events)
    (stored : outcome.2 = .ok (.ack .recorded) ∧
      outcome.1.inner.streams.lookup id = some (stream ++ follow ports id stream events)) :
    ConflictMeansLost job lease id stream ports late intended store outcome ↔ job.state.held = some lease := by
  have other : outcome.2 ≠ .ok (.ack .conflict) := by
    rw [stored.1]
    decide
  constructor
  · intro means
    by_contra lost
    exact other (means.lost.mpr lost).1
  · intro held
    refine ⟨⟨fun conflict => absurd conflict.1 other, fun lost => absurd held lost⟩, fun _ => .inl ?_⟩
    exact ⟨stored.1, events, meant, stored.2⟩

omit [BuildProfile] in
theorem not_conflictMeansLost (unacked : ∀ ack, outcome.2 ≠ .ok (.ack ack))
    (untyped : ∀ error, outcome.2 ≠ .err (.domain error)) :
    ¬ ConflictMeansLost job lease id stream ports late intended store outcome := by
  intro means
  by_cases held : job.state.held = some lease
  · rcases means.held held with ⟨recorded, _⟩ | ⟨error, failed, _⟩
    · exact unacked _ recorded
    · exact untyped error failed
  · exact unacked _ (means.lost.mpr held).1

end Outcomes

theorem execute_poisoned (poisoned : store.poisoned = true) (call : Call) (ports : Ports) (id : JobId) :
    (call.execute store ports id).2 = .err (.store (.backend "store mutex poisoned")) := by
  simp only [Call.execute, Call.load, EventStore.load, InMemoryEventStore.load, InMemoryEventStore.locked, poisoned]
  rfl

theorem execute_unwound {call : Call} (healthy : store.poisoned = false)
    (stored : store.inner.streams.lookup id = some stream) (folded : Job.fromEvents stream = .ok job)
    (unwound : call.command ports job = .panic) : (call.execute store ports id).2 = .panic := by
  simp only [Call.execute, Call.load, EventStore.load, InMemoryEventStore.load, InMemoryEventStore.locked, healthy,
    stored]
  simp only [Bool.false_eq_true, if_false, folded, Call.finish, unwound]

/-- What an ack makes of the domain's verdict: every rejection is a conflict. -/
def ackOf (late : JobEvent) : Outcome DomainError (List JobEvent) → Outcome AckError (Reply × List JobEvent)
  | .ok events => .ok (.ack .recorded, events)
  | .err _ => .ok (.ack .conflict, [late])
  | .panic => .panic

theorem ack_tells {call : Call} {late : JobEvent} {intended : List JobEvent → Prop}
    {verdict : Outcome DomainError (List JobEvent)} (answers : call.command ports job = ackOf late verdict)
    (meant : ∀ events, verdict = .ok events → intended events)
    (stored : store.inner.streams.lookup id = some stream) (folded : Job.fromEvents stream = .ok job) :
    ConflictMeansLost job lease id stream ports late intended store (call.execute store ports id) ↔
      store.poisoned = false ∧ verdict ≠ .panic ∧
        (job.state.held = some lease ↔ ∃ events, verdict = .ok events) := by
  by_cases healthy : store.poisoned = false
  · rw [and_iff_right healthy]
    cases verdict with
    | ok events =>
      rw [conflictMeansLost_of_recorded (meant events rfl) (execute_stores healthy stored folded answers)]
      simp
    | err rejection =>
      rw [conflictMeansLost_of_conflict (execute_stores healthy stored folded answers)]
      simp
    | panic =>
      have unwound := execute_unwound healthy stored folded answers
      refine iff_of_false (not_conflictMeansLost ?_ ?_) (by simp) <;> rw [unwound] <;> simp
  · have failed := execute_poisoned (eq_true_of_ne_false healthy) call ports id
    refine iff_of_false (not_conflictMeansLost ?_ ?_) (fun told => healthy told.1) <;> rw [failed] <;> simp

omit [BuildProfile] in
theorem running_of_held (begun : ∀ worker expiresAt, job.state ≠ .leased worker lease expiresAt)
    (held : job.state.held = some lease) : ∃ worker expiresAt, job.state = .running worker lease expiresAt := by
  obtain ⟨worker, expiresAt, state | state⟩ := JobState.held_eq_some.mp held
  · exact absurd state (begun worker expiresAt)
  · exact ⟨worker, expiresAt, state⟩

omit [BuildProfile] in
theorem held_of_running {worker : WorkerId} {expiresAt : DateTime}
    (state : job.state = .running worker lease expiresAt) :
    job.state.held = some lease ∧ ∀ holder expiresAt, job.state ≠ .leased holder lease expiresAt := by
  rw [state]
  exact ⟨rfl, by simp⟩

theorem succeed_agrees {result : Option Value} :
    (Command.succeed lease result).run job ≠ .panic ∧
        (job.state.held = some lease ↔ ∃ events, (Command.succeed lease result).run job = .ok events) ↔
      ∀ holder expiresAt, job.state ≠ .leased holder lease expiresAt := by
  constructor
  · rintro ⟨_, agrees⟩ holder expiresAt state
    obtain ⟨events, acked⟩ := agrees.mp (by rw [state]; rfl)
    obtain ⟨event, acked, _⟩ := Outcome.bind_eq_ok.mp acked
    obtain ⟨_, _, started, _⟩ := Job.succeed_ok acked
    rw [state] at started
    cases started
  · intro begun
    refine ⟨?_, fun held => ?_, ?_⟩
    · intro unwound
      rw [Command.run, Outcome.bind_pure_eq_panic] at unwound
      unfold Job.succeed at unwound
      split at unwound
      · split at unwound <;> cases unwound
      · cases unwound
    · obtain ⟨holder, expiresAt, state⟩ := running_of_held begun held
      exact ⟨[.succeeded result], by simp [Command.run, Job.succeed, state]⟩
    · rintro ⟨events, acked⟩
      obtain ⟨event, acked, _⟩ := Outcome.bind_eq_ok.mp acked
      obtain ⟨_, _, state, _⟩ := Job.succeed_ok acked
      exact (held_of_running state).1

theorem fail_agrees {error : JobError} {now : DateTime} {seed : UInt64} :
    job.fail lease error now seed ≠ .panic ∧
        (job.state.held = some lease ↔ ∃ events, job.fail lease error now seed = .ok events) ↔
      (∀ holder expiresAt, job.state ≠ .leased holder lease expiresAt) ∧
        (job.state.held = some lease → job.Reschedulable error now seed) := by
  constructor
  · rintro ⟨_, agrees⟩
    have running : job.state.held = some lease → ∃ holder expiresAt, job.state = .running holder lease expiresAt := by
      intro held
      obtain ⟨events, acked⟩ := agrees.mp held
      obtain ⟨holder, expiresAt, _, _, state, _⟩ := Job.fail_ok acked
      exact ⟨holder, expiresAt, state⟩
    refine ⟨fun holder expiresAt state => ?_, fun held => ?_⟩
    · obtain ⟨_, _, started⟩ := running (by rw [state]; rfl)
      rw [state] at started
      cases started
    · obtain ⟨_, _, state⟩ := running held
      exact (Job.fail_running state).mp (agrees.mp held)
  · rintro ⟨begun, room⟩
    refine ⟨fun unwound => ?_, fun held => ?_, ?_⟩
    · obtain ⟨full, held⟩ := Job.fail_panic unwound
      obtain ⟨attempt, next, _⟩ := room held
      rw [full] at next
      cases next
    · obtain ⟨_, _, state⟩ := running_of_held begun held
      exact (Job.fail_running state).mpr (room held)
    · rintro ⟨events, acked⟩
      obtain ⟨_, _, _, _, state, _⟩ := Job.fail_ok acked
      exact (held_of_running state).1

/-- An ack of success is answered as `Conflict` is meant exactly where the job is not waiting for its start under
    the presented lease, and one of failure where besides, under a held lease, there is a retry to record. -/
theorem conflict_means_lease_lost (stored : store.inner.streams.lookup id = some stream)
    (folded : Job.fromEvents stream = .ok job) (lease : LeaseId) (worker : WorkerId) (ports : Ports) :
    (∀ result, ConflictMeansLost job lease id stream ports (Job.lateAck worker lease .succeeded)
        (· = [.succeeded result]) store (WorkerAck.succeed store ports id worker lease result) ↔
      store.poisoned = false ∧ ∀ holder expiresAt, job.state ≠ .leased holder lease expiresAt) ∧
    ∀ error, ConflictMeansLost job lease id stream ports (Job.lateAck worker lease .failed)
        (fun events => job.fail lease error ports.now ports.jitterSeed = .ok events) store
        (WorkerAck.fail store ports id worker lease error) ↔
      store.poisoned = false ∧ (∀ holder expiresAt, job.state ≠ .leased holder lease expiresAt) ∧
        (job.state.held = some lease → job.Reschedulable error ports.now ports.jitterSeed) := by
  refine ⟨fun result => ?_, fun error => ?_⟩
  · rw [← succeed_agrees]
    refine ack_tells ?_ ?_ stored folded
    · rw [Call.command, Command.run]
      cases job.succeed lease result <;> rfl
    · intro events acked
      obtain ⟨event, acked, same⟩ := Outcome.bind_eq_ok.mp acked
      obtain ⟨_, _, _, rfl⟩ := Job.succeed_ok acked
      exact (Outcome.ok.inj same).symm
  · rw [← fail_agrees]
    refine ack_tells ?_ (fun events acked => acked) stored folded
    rw [Call.command]
    cases job.fail lease error ports.now ports.jitterSeed <;> rfl

end Acks

omit [BuildProfile] in
theorem conflict_means_lease_lost_started :
    let _ := BuildProfile.release
    ∃ stream job, startedStore.inner.streams.lookup ⟨1⟩ = some stream ∧ Job.fromEvents stream = .ok job ∧
      job.state.held = some ⟨2⟩ ∧
      ConflictMeansLost job ⟨2⟩ ⟨1⟩ stream (Sample.ports 2 4) (Job.lateAck Sample.worker ⟨2⟩ .succeeded)
        (· = [.succeeded none]) startedStore
        (WorkerAck.succeed startedStore (Sample.ports 2 4) ⟨1⟩ Sample.worker ⟨2⟩ none) := by
  intro _
  refine ⟨_, _, rfl, rfl, rfl,
    ((conflict_means_lease_lost rfl rfl ⟨2⟩ Sample.worker (Sample.ports 2 4)).1 none).mpr ⟨rfl, ?_⟩⟩
  intro worker expiresAt unstarted
  have other : "running" = "leased" := congrArg JobState.name unstarted
  exact absurd other (by decide)

omit [BuildProfile] in
/-- The lease is held, and yet: an ack before the start is a conflict, and so is a retryable failure
    whose retry time lies beyond the last instant. -/
theorem held_lease_conflicts :
    let _ := BuildProfile.release
    (∃ stream job, leasedStore.inner.streams.lookup ⟨1⟩ = some stream ∧ Job.fromEvents stream = .ok job ∧
      job.state.held = some ⟨2⟩ ∧
      (WorkerAck.succeed leasedStore (Sample.ports 1 3) ⟨1⟩ Sample.worker ⟨2⟩ none).2 =
        .ok (.ack .conflict)) ∧
    ∃ stream job, startedStore.inner.streams.lookup ⟨1⟩ = some stream ∧ Job.fromEvents stream = .ok job ∧
      job.state.held = some ⟨2⟩ ∧
      (WorkerAck.fail startedStore { Sample.ports 2 4 with now := lastInstant } ⟨1⟩ Sample.worker ⟨2⟩
        ⟨"boom", "", none, true⟩).2 = .ok (.ack .conflict) := by
  intro _
  exact ⟨⟨_, _, rfl, rfl, rfl, by decide⟩, ⟨_, _, rfl, rfl, rfl, by decide⟩⟩

end Koine.Memory
