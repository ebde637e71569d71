import Koine.Application.Ports

namespace Koine.Application

open Library Domain

inductive EnqueueError where
  | invalidPolicy (reason : String)
  | store (error : EventStoreError)
deriving DecidableEq

inductive AckError where
  | store (error : EventStoreError)
  | domain (error : DomainError)
deriving DecidableEq

inductive AckOutcome where
  | recorded
  | conflict
deriving DecidableEq

def maxSaneDelay : Duration := .fromSecs (60 * 60 * 24 * 30)

def maxSaneAttempts : UInt32 := 10000

def validatePolicy (policy : RetryPolicy) : Except EnqueueError Unit :=
  if policy.maxAttempts = 0 then .error (.invalidPolicy "max_attempts must be >= 1")
  else if maxSaneAttempts < policy.maxAttempts then
    .error (.invalidPolicy "max_attempts above sane ceiling")
  else if policy.maxDelay < policy.baseDelay then
    .error (.invalidPolicy "base_delay exceeds max_delay")
  else if maxSaneDelay < policy.maxDelay then
    .error (.invalidPolicy "max_delay above 30-day ceiling")
  else .ok ()

theorem validatePolicy_ok {policy : RetryPolicy} (valid : validatePolicy policy = .ok ()) :
    0 < policy.maxAttempts.toNat ∧ policy.maxAttempts.toNat ≤ 10000 ∧
      policy.maxDelay.nanos ≤ maxSaneDelay.nanos := by
  unfold validatePolicy at valid
  split at valid
  · cases valid
  · rename_i positive
    split at valid
    · cases valid
    · rename_i attempts
      split at valid
      · cases valid
      · split at valid
        · cases valid
        · rename_i delay
          refine ⟨?_, ?_, Duration.le_iff.mp (not_lt.mp delay)⟩
          · apply Nat.pos_of_ne_zero
            intro zero
            exact positive (UInt32.toNat_inj.mp zero)
          · exact UInt32.le_iff_toNat_le.mp (UInt32.not_lt.mp attempts)

structure EnqueueCommand where
  queue : QueueName
  payload : Value
  priority : Priority
  retryPolicy : RetryPolicy
  notBefore : Option DateTime
  lineage : Lineage

def EnqueueCommand.event (cmd : EnqueueCommand) : JobEvent :=
  Job.initialEvent cmd.queue cmd.payload cmd.priority cmd.retryPolicy cmd.notBefore

def EnqueueCommand.envelopes (cmd : EnqueueCommand) (ports : Ports) : List EventEnvelope :=
  wrapEvents ports ports.jobId 0 (cmd.lineage.correlationId.getD ports.correlationId)
    cmd.lineage.causationId cmd.lineage.traceparent [cmd.event]

structure Loaded where
  job : Job
  stream : List EventEnvelope

/-- A two-step client call on one job: it loads the stream, then appends what its command yields. -/
inductive Call where
  | start (worker : WorkerId)
  | succeed (worker : WorkerId) (lease : LeaseId) (result : Option Value)
  | fail (worker : WorkerId) (lease : LeaseId) (error : JobError)
  | cancel (reason : Option String)

/-- What a call answers: `()` for `start` and `cancel`, an outcome for `succeed` and `fail`. -/
inductive Reply where
  | unit
  | ack (outcome : AckOutcome)
deriving DecidableEq

def Call.command [BuildProfile] (call : Call) (ports : Ports) (job : Job) :
    Outcome AckError (Reply × List JobEvent) :=
  match call with
  | .start worker =>
    match job.start worker with
    | .ok event => .ok (.unit, [event])
    | .err error => .err (.domain error)
    | .panic => .panic
  | .succeed worker lease result =>
    match job.succeed lease result with
    | .ok event => .ok (.ack .recorded, [event])
    | .err _ => .ok (.ack .conflict, [Job.lateAck worker lease .succeeded])
    | .panic => .panic
  | .fail worker lease error =>
    match job.fail lease error ports.now ports.jitterSeed with
    | .ok events => .ok (.ack .recorded, events)
    | .err _ => .ok (.ack .conflict, [Job.lateAck worker lease .failed])
    | .panic => .panic
  | .cancel reason =>
    match job.cancel reason with
    | .ok event => .ok (.unit, [event])
    | .err error => .err (.domain error)
    | .panic => .panic

def Loaded.envelopes (loaded : Loaded) (ports : Ports) (events : List JobEvent) : List EventEnvelope :=
  let (correlationId, causationId, traceparent) := lineageOf loaded.stream
  wrapEvents ports loaded.job.id loaded.job.version correlationId causationId traceparent events

variable {S : Type} [EventStore S] [BuildProfile]

def EnqueueJob.execute (store : S) (ports : Ports) (cmd : EnqueueCommand) :
    S × Outcome EnqueueError JobId :=
  match validatePolicy cmd.retryPolicy with
  | .error error => (store, .err error)
  | .ok () =>
    match EventStore.append store ports.jobId 0 (cmd.envelopes ports) with
    | (store, .ok ()) => (store, .ok ports.jobId)
    | (store, .err error) => (store, .err (.store error))
    | (store, .panic) => (store, .panic)

/-- The first step of `WorkerAck` and of `CancelJob`. -/
def Call.load (store : S) (jobId : JobId) : Outcome AckError Loaded :=
  match EventStore.load store jobId with
  | .err error => .err (.store error)
  | .panic => .panic
  | .ok stream =>
    match Job.fromEvents stream with
    | .err error => .err (.domain error)
    | .panic => .panic
    | .ok job => .ok ⟨job, stream⟩

/-- The second step: the command, the envelopes and the append. -/
def Call.finish (call : Call) (store : S) (ports : Ports) (loaded : Loaded) :
    S × Outcome AckError Reply :=
  match call.command ports loaded.job with
  | .err error => (store, .err error)
  | .panic => (store, .panic)
  | .ok (reply, events) =>
    match EventStore.append store loaded.job.id loaded.job.version (loaded.envelopes ports events) with
    | (store, .ok ()) => (store, .ok reply)
    | (store, .err error) => (store, .err (.store error))
    | (store, .panic) => (store, .panic)

/-- `WorkerAck::start`, `succeed`, `fail` and `CancelJob::execute` with no step in between. -/
def Call.execute (call : Call) (store : S) (ports : Ports) (jobId : JobId) :
    S × Outcome AckError Reply :=
  match Call.load store jobId with
  | .err error => (store, .err error)
  | .panic => (store, .panic)
  | .ok loaded => call.finish store ports loaded

def WorkerAck.start (store : S) (ports : Ports) (jobId : JobId) (worker : WorkerId) :
    S × Outcome AckError Reply :=
  (Call.start worker).execute store ports jobId

def WorkerAck.succeed (store : S) (ports : Ports) (jobId : JobId) (worker : WorkerId) (lease : LeaseId)
    (result : Option Value) : S × Outcome AckError Reply :=
  (Call.succeed worker lease result).execute store ports jobId

def WorkerAck.fail (store : S) (ports : Ports) (jobId : JobId) (worker : WorkerId) (lease : LeaseId)
    (error : JobError) : S × Outcome AckError Reply :=
  (Call.fail worker lease error).execute store ports jobId

def CancelJob.execute (store : S) (ports : Ports) (jobId : JobId) (reason : Option String) :
    S × Outcome AckError Reply :=
  (Call.cancel reason).execute store ports jobId

inductive SweepError where
  | dispatch (error : DispatchError)
deriving DecidableEq

/-- The loop of `SweepExpiredLeases::execute`; `none` where `fuel` calls were not enough. -/
def SweepExpiredLeases.loop {D : Type} [Dispatcher D] :
    Nat → D → (Nat → Ports) → UInt32 → D × Option (Outcome SweepError UInt32)
  | 0, dispatcher, _, _ => (dispatcher, none)
  | fuel + 1, dispatcher, ports, swept =>
    match Dispatcher.retireNextExpiredLease dispatcher (ports 0) with
    | (dispatcher, .ok (some _)) =>
      match u32Succ swept with
      | some swept => loop fuel dispatcher (fun call => ports (call + 1)) swept
      | none => (dispatcher, some .panic)
    | (dispatcher, .ok none) => (dispatcher, some (.ok swept))
    | (dispatcher, .err error) => (dispatcher, some (.err (.dispatch error)))
    | (dispatcher, .panic) => (dispatcher, some .panic)

def SweepExpiredLeases.execute {D : Type} [Dispatcher D] (fuel : Nat) (dispatcher : D)
    (ports : Nat → Ports) : D × Option (Outcome SweepError UInt32) :=
  SweepExpiredLeases.loop fuel dispatcher ports 0

def Call.lease : Call → Option LeaseId
  | .succeed _ lease _ | .fail _ lease _ => some lease
  | .start _ | .cancel _ => none

inductive Call.Yields (ports : Ports) (job : Job) : Call → Reply → List JobEvent → Prop where
  | started {worker : WorkerId} {lease : LeaseId} {expiresAt : DateTime}
      (state : job.state = .leased worker lease expiresAt) :
      Yields ports job (.start worker) .unit [.started worker]
  | succeeded {worker holder : WorkerId} {lease : LeaseId} {expiresAt : DateTime} {result : Option Value}
      (state : job.state = .running holder lease expiresAt) :
      Yields ports job (.succeed worker lease result) (.ack .recorded) [.succeeded result]
  | failed {worker : WorkerId} {lease : LeaseId} {error : JobError} {events : List JobEvent}
      (acked : job.fail lease error ports.now ports.jitterSeed = .ok events) :
      Yields ports job (.fail worker lease error) (.ack .recorded) events
  | conflict {call : Call} {worker : WorkerId} {lease : LeaseId} {reported : ReportedOutcome}
      (acks : call.lease = some lease) :
      Yields ports job call (.ack .conflict) [.lateAckConflict worker lease reported]
  | cancelled {reason : Option String} (live : job.state ≠ .succeeded ∧ job.state ≠ .cancelled) :
      Yields ports job (.cancel reason) .unit [.cancelled reason]

theorem Call.command_yields {call : Call} {ports : Ports} {job : Job} {reply : Reply}
    {events : List JobEvent} (yielded : call.command ports job = .ok (reply, events)) :
    call.Yields ports job reply events := by
  cases call with
  | start worker =>
    simp only [Call.command] at yielded
    split at yielded
    · rename_i event begun
      cases yielded
      obtain ⟨lease, expiresAt, state, rfl⟩ := Job.start_ok begun
      exact .started state
    · cases yielded
    · cases yielded
  | succeed worker lease result =>
    simp only [Call.command] at yielded
    split at yielded
    · rename_i event acked
      cases yielded
      obtain ⟨holder, expiresAt, state, rfl⟩ := Job.succeed_ok acked
      exact .succeeded state
    · cases yielded
      exact .conflict rfl
    · cases yielded
  | fail worker lease error =>
    simp only [Call.command] at yielded
    split at yielded
    · rename_i acked
      cases yielded
      exact .failed acked
    · cases yielded
      exact .conflict rfl
    · cases yielded
  | cancel reason =>
    simp only [Call.command] at yielded
    split at yielded
    · rename_i event accepted
      cases yielded
      obtain ⟨rfl, live⟩ := Job.cancel_ok accepted
      exact .cancelled live
    · cases yielded
    · cases yielded

theorem Call.command_effect {call : Call} {ports : Ports} {job : Job} {reply : Reply}
    {events : List JobEvent} (yielded : call.command ports job = .ok (reply, events)) :
    ∃ next, Job.Effect job events next := by
  cases call.command_yields yielded with
  | started state => exact ⟨_, .started state⟩
  | succeeded state => exact ⟨_, .succeeded _ state⟩
  | failed acked => exact Job.fail_effect acked
  | conflict => exact ⟨_, .lateAck _ _ _⟩
  | cancelled live => exact ⟨_, .cancelled _ live⟩

theorem Call.command_reply {call : Call} {ports : Ports} {job : Job} {reply : Reply}
    {events : List JobEvent} (yielded : call.command ports job = .ok (reply, events)) :
    (reply = .ack .recorded ∧ ∃ lease worker expiresAt, call.lease = some lease ∧
        job.state = .running worker lease expiresAt ∧
        ((∃ result, events = [.succeeded result]) ∨
          (∃ error attempt notBefore, events = [.failed error attempt, .retryScheduled attempt notBefore]) ∨
          ∃ error attempt reason, events = [.failed error attempt, .parked reason])) ∨
      (reply = .ack .conflict ∧ ∃ worker lease reported, call.lease = some lease ∧
        events = [.lateAckConflict worker lease reported]) ∨
      (reply = .unit ∧ call.lease = none ∧
        ((∃ worker, events = [.started worker]) ∨ ∃ reason, events = [.cancelled reason])) := by
  cases call.command_yields yielded with
  | started => exact .inr (.inr ⟨rfl, rfl, .inl ⟨_, rfl⟩⟩)
  | succeeded state => exact .inl ⟨rfl, _, _, _, rfl, state, .inl ⟨_, rfl⟩⟩
  | failed acked =>
    obtain ⟨holder, expiresAt, attempt, decision, state, _, rfl, decided⟩ := Job.fail_ok acked
    refine .inl ⟨rfl, _, holder, expiresAt, rfl, state, .inr ?_⟩
    rcases decided with ⟨_, decided⟩ | ⟨_, rfl⟩
    · rcases Job.retryDecisionEvent_ok decided with ⟨notBefore, _, _, _, _, _, _, rfl⟩ | ⟨_, rfl⟩
      · exact .inl ⟨_, attempt, notBefore, rfl⟩
      · exact .inr ⟨_, attempt, _, rfl⟩
    · exact .inr ⟨_, attempt, _, rfl⟩
  | conflict acks => exact .inr (.inl ⟨rfl, _, _, _, acks, rfl⟩)
  | cancelled => exact .inr (.inr ⟨rfl, rfl, .inr ⟨_, rfl⟩⟩)

theorem Call.command_panic {call : Call} {ports : Ports} {job : Job}
    (unwound : call.command ports job = .panic) : u32Succ job.attempt = none := by
  cases call with
  | start worker =>
    simp only [Call.command] at unwound
    unfold Job.start at unwound
    split at unwound
    · cases unwound
    · cases unwound
    · rename_i failed
      split at failed
      · split at failed <;> cases failed
      · cases failed
  | succeed worker lease result =>
    simp only [Call.command] at unwound
    unfold Job.succeed at unwound
    split at unwound
    · cases unwound
    · cases unwound
    · rename_i failed
      split at failed
      · split at failed <;> cases failed
      · cases failed
  | fail worker lease error =>
    simp only [Call.command] at unwound
    split at unwound
    · cases unwound
    · cases unwound
    · rename_i failed
      exact (Job.fail_panic failed).1
  | cancel reason =>
    simp only [Call.command] at unwound
    unfold Job.cancel at unwound
    split at unwound
    · cases unwound
    · cases unwound
    · rename_i failed
      split at failed <;> cases failed

namespace Sample

def queue : QueueName := ⟨"default", by decide⟩

def worker : WorkerId := ⟨"worker-1", by decide⟩

instance instNeZeroThousand : NeZero 1000 := ⟨by decide⟩

def instant (seconds : Fin 1000) : DateTime where
  nanos := seconds.val * 1000000000
  lower := by unfold minUtcNanos; omega
  upper := by unfold maxUtcNanos; omega

def finely (seconds : Fin 1000) (n : Fin 10000) : DateTime where
  nanos := (1800000000 + seconds.val) * 1000000000 + n.val
  lower := by unfold minUtcNanos; omega
  upper := by unfold maxUtcNanos; omega

def ports (seconds : Fin 1000) (n : Nat) : Ports where
  now := instant seconds
  recordedAt := instant seconds
  jobId := ⟨BitVec.ofNat 128 n⟩
  eventId k := ⟨BitVec.ofNat 128 (10 * n + k)⟩
  leaseId := ⟨BitVec.ofNat 128 n⟩
  correlationId := ⟨BitVec.ofNat 128 n⟩
  jitterSeed := 0

def command : EnqueueCommand where
  queue
  payload := .null
  priority := ⟨0⟩
  retryPolicy := ⟨3, .fromSecs 1, .fromSecs 60⟩
  notBefore := none
  lineage := ⟨none, none, none⟩

end Sample

end Koine.Application
