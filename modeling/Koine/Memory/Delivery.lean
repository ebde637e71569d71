import Koine.Memory.System

namespace Koine.Memory

open Library Domain Application

def spends : JobEvent → Bool
  | .failed .. | .leaseExpired .. => true
  | _ => false

def grantsLease : JobEvent → Bool
  | .leased .. => true
  | _ => false

def eventCount (kind : JobEvent → Bool) (stream : List EventEnvelope) : Nat :=
  stream.countP fun envelope => kind envelope.event

theorem eventCount_follow (kind : JobEvent → Bool) (ports : Ports) (id : JobId)
    (stream : List EventEnvelope) (events : List JobEvent) :
    eventCount kind (stream ++ follow ports id stream events) =
      eventCount kind stream + events.countP kind := by
  have wrapped : eventCount kind (follow ports id stream events) = events.countP kind := by
    conv_rhs => rw [← follow_events ports id stream events]
    rw [List.countP_map]
    rfl
  rw [← wrapped, eventCount, List.countP_append]
  rfl

/-- Attempts and grants of a job agree with its stream and stay within its policy. -/
structure Accounted (stream : List EventEnvelope) (job : Job) : Prop where
  policy : validatePolicy job.retryPolicy = .ok ()
  spent : job.attempt.toNat = eventCount spends stream
  bounded : job.attempt.toNat ≤ job.retryPolicy.maxAttempts.toNat
  ongoing : job.state.dispatchable = true → job.attempt.toNat < job.retryPolicy.maxAttempts.toNat
  exhausted : job.state = .parked .retriesExhausted →
    job.attempt.toNat = job.retryPolicy.maxAttempts.toNat
  granted : eventCount grantsLease stream ≤ job.retryPolicy.maxAttempts.toNat
  idle : ∀ notBefore, job.state = .pending notBefore →
    eventCount grantsLease stream = job.attempt.toNat
  busy : ∀ lease, job.state.held = some lease →
    eventCount grantsLease stream = job.attempt.toNat + 1

theorem Accounted.room {stream : List EventEnvelope} {job : Job} (accounted : Accounted stream job) :
    job.attempt.toNat + 1 < 2 ^ 32 := by
  have policy := validatePolicy_ok accounted.policy
  have bounded := accounted.bounded
  omega

theorem held_dispatchable {state : JobState} {lease : LeaseId} (held : state.held = some lease) :
    state.dispatchable = true := by
  obtain ⟨worker, expiresAt, shape | shape⟩ := JobState.held_eq_some.mp held
  · rw [shape]
    rfl
  · rw [shape]
    rfl

theorem Effect.live [BuildProfile] {job next : Job} {events : List JobEvent} (effect : Job.Effect job events next)
    (live : next.state.dispatchable = true) : job.state.dispatchable = true := by
  cases effect with
  | leased _ _ _ state | started state | failedRetry _ _ _ state =>
    rw [state]
    rfl
  | expiredRetry _ _ held => exact held_dispatchable held
  | lateAck => exact live
  | succeeded | failedParked | expiredParked | cancelled => cases live

theorem Accounted.opened (ports : Ports) (cmd : EnqueueCommand)
    (valid : validatePolicy cmd.retryPolicy = .ok ()) :
    Accounted (cmd.envelopes ports)
      (Job.opened ports.jobId cmd.queue cmd.payload cmd.priority cmd.retryPolicy cmd.notBefore) := by
  have policy := validatePolicy_ok valid
  refine ⟨valid, rfl, Nat.zero_le _, fun _ => policy.1, ?_, Nat.zero_le _, fun _ _ => rfl, ?_⟩
  · intro parked
    cases parked
  · intro lease held
    cases held

variable [BuildProfile]

theorem Accounted.settled {stream : List EventEnvelope} {job : Job} {lease : LeaseId} {attempt : UInt32}
    (accounted : Accounted stream job) (held : job.state.held = some lease)
    (next : u32Succ job.attempt = some attempt) :
    attempt.toNat = job.attempt.toNat + 1 ∧ eventCount grantsLease stream = attempt.toNat ∧
      attempt.toNat ≤ job.retryPolicy.maxAttempts.toNat := by
  have succ := u32Succ_toNat accounted.room next
  have grants := accounted.busy lease held
  have below := accounted.ongoing (held_dispatchable held)
  omega

theorem Accounted.settle {stream : List EventEnvelope} {job : Job} {lease : LeaseId} {attempt : UInt32}
    {first second : JobEvent} {state : JobState} {version : Nat} (ports : Ports) (id : JobId)
    (accounted : Accounted stream job) (held : job.state.held = some lease)
    (next : u32Succ job.attempt = some attempt) (spending : spends first = true ∧ spends second = false)
    (grantless : grantsLease first = false ∧ grantsLease second = false)
    (shape : (∃ notBefore, state = .pending notBefore ∧ attempt < job.retryPolicy.maxAttempts) ∨
      ∃ reason, state = .parked reason ∧ (reason = .retriesExhausted → job.retryPolicy.maxAttempts ≤ attempt)) :
    Accounted (stream ++ follow ports id stream [first, second]) { job with attempt, state, version } := by
  obtain ⟨step, equal, within⟩ := accounted.settled held next
  have spent := eventCount_follow spends ports id stream [first, second]
  have granted := eventCount_follow grantsLease ports id stream [first, second]
  have attempts := accounted.spent
  have grants := accounted.granted
  simp only [List.countP_cons, List.countP_nil, spending, grantless] at spent granted
  have counted : attempt.toNat = eventCount spends (stream ++ follow ports id stream [first, second]) := by
    simp [spent, step, attempts]
  rcases shape with ⟨notBefore, rfl, below⟩ | ⟨reason, rfl, spentAll⟩
  · refine ⟨accounted.policy, counted, within, fun _ => UInt32.lt_iff_toNat_lt.mp below, by simp,
      by simpa [granted] using grants, ?_, by simp [JobState.held]⟩
    intro time _
    simpa [granted] using equal
  · refine ⟨accounted.policy, counted, within, by simp [JobState.dispatchable], ?_,
      by simpa [granted] using grants, by simp, by simp [JobState.held]⟩
    intro parked
    cases parked
    exact Nat.le_antisymm within (UInt32.le_iff_toNat_le.mp (spentAll rfl))

theorem Accounted.effect {stream : List EventEnvelope} {job next : Job} {events : List JobEvent}
    (ports : Ports) (id : JobId) (accounted : Accounted stream job) (effect : Job.Effect job events next) :
    Accounted (stream ++ follow ports id stream events) next := by
  have spent := eventCount_follow spends ports id stream events
  have granted := eventCount_follow grantsLease ports id stream events
  have policy := accounted.policy
  have attempts := accounted.spent
  have bounded := accounted.bounded
  have grants := accounted.granted
  cases effect with
  | leased worker lease expiresAt state =>
    have idle := accounted.idle _ state
    have below := accounted.ongoing (by rw [state]; rfl)
    simp only [List.countP_cons, List.countP_nil, spends, grantsLease] at spent granted
    refine ⟨policy, by simpa [spent] using attempts, bounded, fun _ => below, by simp, ?_, by simp, ?_⟩
    · rw [granted]
      simp only [if_true]
      omega
    · intro held _
      rw [granted]
      simp only [if_true]
      omega
  | started state =>
    have held := accounted.busy _ (show job.state.held = some _ by rw [state]; rfl)
    have below := accounted.ongoing (by rw [state]; rfl)
    simp only [List.countP_cons, List.countP_nil, spends, grantsLease] at spent granted
    refine ⟨policy, by simpa [spent] using attempts, bounded, fun _ => below, by simp,
      by simpa [granted] using grants, by simp, ?_⟩
    intro lease _
    simpa [granted] using held
  | succeeded result state =>
    simp only [List.countP_cons, List.countP_nil, spends, grantsLease] at spent granted
    exact ⟨policy, by simpa [spent] using attempts, bounded, by simp [JobState.dispatchable], by simp,
      by simpa [granted] using grants, by simp, by simp [JobState.held]⟩
  | failedRetry error attempt notBefore state succ below =>
    exact accounted.settle ports id (congrArg JobState.held state) succ ⟨rfl, rfl⟩ ⟨rfl, rfl⟩ (.inl ⟨_, rfl, below⟩)
  | failedParked error attempt reason state succ cause =>
    refine accounted.settle ports id (congrArg JobState.held state) succ ⟨rfl, rfl⟩ ⟨rfl, rfl⟩ (.inr ⟨reason, rfl, ?_⟩)
    rintro rfl
    rcases cause with ⟨_, most⟩ | other
    · exact most
    · cases other
  | expiredRetry attempt notBefore held succ below =>
    exact accounted.settle ports id held succ ⟨rfl, rfl⟩ ⟨rfl, rfl⟩ (.inl ⟨_, rfl, below⟩)
  | expiredParked attempt held succ most =>
    exact accounted.settle ports id held succ ⟨rfl, rfl⟩ ⟨rfl, rfl⟩ (.inr ⟨_, rfl, fun _ => most⟩)
  | cancelled reason live =>
    simp only [List.countP_cons, List.countP_nil, spends, grantsLease] at spent granted
    exact ⟨policy, by simpa [spent] using attempts, bounded, by simp [JobState.dispatchable], by simp,
      by simpa [granted] using grants, by simp, by simp [JobState.held]⟩
  | lateAck worker lease reported =>
    simp only [List.countP_cons, List.countP_nil, spends, grantsLease] at spent granted
    refine ⟨policy, by simpa [spent] using attempts, bounded, accounted.ongoing, accounted.exhausted,
      by simpa [granted] using grants, ?_, ?_⟩
    · intro notBefore state
      simpa [granted] using accounted.idle notBefore state
    · intro held state
      simpa [granted] using accounted.busy held state

theorem Run.accounted {history : Trace} {system : System} (run : Run System.Step .new history system) :
    system.Streams Accounted :=
  Run.streams Accounted Accounted.opened
    (fun ports id _ _ _ _ _ accounted effect => accounted.effect ports id effect) run

theorem delivery_bounded {history : Trace} {system : System} {id : JobId} {stream : List EventEnvelope}
    {job : Job} (run : Run System.Step .new history system)
    (stored : system.store.inner.streams.lookup id = some stream) (folded : Job.fromEvents stream = .ok job) :
    job.attempt.toNat = eventCount spends stream ∧ job.attempt ≤ job.retryPolicy.maxAttempts ∧
      (job.state.dispatchable = true → job.attempt < job.retryPolicy.maxAttempts) ∧
      (job.state = .parked .retriesExhausted → job.attempt = job.retryPolicy.maxAttempts) ∧
      eventCount grantsLease stream ≤ job.retryPolicy.maxAttempts.toNat := by
  have accounted := (Run.accounted run).stored id stream job stored folded
  refine ⟨accounted.spent, UInt32.le_iff_toNat_le.mpr accounted.bounded, ?_, ?_, accounted.granted⟩
  · intro live
    exact UInt32.lt_iff_toNat_lt.mpr (accounted.ongoing live)
  · intro parked
    exact UInt32.toNat_inj.mp (accounted.exhausted parked)

def expiryActions : List Action :=
  [.retireNextExpiredLease (Sample.ports 20 3),
    .leaseNext (Sample.ports 1 2) Sample.queue Sample.worker (.fromSecs 10),
    .enqueue (Sample.ports 0 1) Sample.command]

omit [BuildProfile] in
theorem delivery_bounded_expiry :
    let _ := BuildProfile.release
    ∃ stream job,
      (Run.replay Action.exec System.new expiryActions).2.store.inner.streams.lookup ⟨1⟩ = some stream ∧
        Job.fromEvents stream = .ok job ∧ job.attempt = 1 ∧ eventCount spends stream = 1 ∧
        eventCount grantsLease stream ≤ job.retryPolicy.maxAttempts.toNat := by
  intro _
  have stored : (Run.replay Action.exec System.new expiryActions).2.store.inner.streams.lookup ⟨1⟩ =
      some _ := rfl
  obtain ⟨spent, _, _, _, granted⟩ :=
    delivery_bounded (Run.of_replay System.Step.of_exec expiryActions) stored rfl
  exact ⟨_, _, rfl, rfl, rfl, spent.symm, granted⟩

end Koine.Memory
