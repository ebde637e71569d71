import Koine.Domain.Fold

namespace Koine.Domain

open Library

namespace Job

variable [BuildProfile]

/-- Everything a command can record about a job and the job it leaves behind: `lease`, `start`,
    `succeed`, `fail`, `expire_lease`, `cancel` and `late_ack`, each with the state it demands. -/
inductive Effect (job : Job) : List JobEvent → Job → Prop where
  | leased {notBefore : Option DateTime} (worker : WorkerId) (lease : LeaseId) (expiresAt : DateTime)
      (state : job.state = .pending notBefore) :
      Effect job [.leased worker lease expiresAt]
        { job with state := .leased worker lease expiresAt, version := job.version + 1 }
  | started {worker : WorkerId} {lease : LeaseId} {expiresAt : DateTime}
      (state : job.state = .leased worker lease expiresAt) :
      Effect job [.started worker]
        { job with state := .running worker lease expiresAt, version := job.version + 1 }
  | succeeded {worker : WorkerId} {lease : LeaseId} {expiresAt : DateTime} (result : Option Value)
      (state : job.state = .running worker lease expiresAt) :
      Effect job [.succeeded result] { job with state := .succeeded, version := job.version + 1 }
  | failedRetry {worker : WorkerId} {lease : LeaseId} {expiresAt : DateTime} (error : JobError)
      (attempt : UInt32) (notBefore : DateTime) (state : job.state = .running worker lease expiresAt)
      (next : u32Succ job.attempt = some attempt) (below : attempt < job.retryPolicy.maxAttempts) :
      Effect job [.failed error attempt, .retryScheduled attempt notBefore]
        { job with attempt, state := .pending (some notBefore), version := job.version + 2 }
  | failedParked {worker : WorkerId} {lease : LeaseId} {expiresAt : DateTime} (error : JobError)
      (attempt : UInt32) (reason : ParkReason) (state : job.state = .running worker lease expiresAt)
      (next : u32Succ job.attempt = some attempt)
      (cause : reason = .retriesExhausted ∧ job.retryPolicy.maxAttempts ≤ attempt ∨
        reason = .nonRetryableError) :
      Effect job [.failed error attempt, .parked reason]
        { job with attempt, state := .parked reason, version := job.version + 2 }
  | expiredRetry {lease : LeaseId} (attempt : UInt32) (notBefore : DateTime)
      (held : job.state.held = some lease) (next : u32Succ job.attempt = some attempt)
      (below : attempt < job.retryPolicy.maxAttempts) :
      Effect job [.leaseExpired lease, .retryScheduled attempt notBefore]
        { job with attempt, state := .pending (some notBefore), version := job.version + 2 }
  | expiredParked {lease : LeaseId} (attempt : UInt32)
      (held : job.state.held = some lease) (next : u32Succ job.attempt = some attempt)
      (spent : job.retryPolicy.maxAttempts ≤ attempt) :
      Effect job [.leaseExpired lease, .parked .retriesExhausted]
        { job with attempt, state := .parked .retriesExhausted, version := job.version + 2 }
  | cancelled (reason : Option String) (ongoing : job.state ≠ .succeeded ∧ job.state ≠ .cancelled) :
      Effect job [.cancelled reason] { job with state := .cancelled, version := job.version + 1 }
  | lateAck (worker : WorkerId) (lease : LeaseId) (reported : ReportedOutcome) :
      Effect job [.lateAckConflict worker lease reported] { job with version := job.version + 1 }

theorem apply_leaseExpired {job : Job} {lease other : LeaseId} {attempt : UInt32}
    (held : job.state.held = some lease) (next : u32Succ job.attempt = some attempt) :
    job.apply (.leaseExpired other) =
      ({ job with attempt, state := .pending none, version := job.version + 1 }, .ok ()) := by
  obtain ⟨worker, expiresAt, state | state⟩ := JobState.held_eq_some.mp held
  · simp only [apply, state, next, advance]
  · simp only [apply, state, next, advance]

theorem apply_failed {job : Job} {worker : WorkerId} {lease : LeaseId} {expiresAt : DateTime}
    (state : job.state = .running worker lease expiresAt) (error : JobError) (attempt : UInt32) :
    job.apply (.failed error attempt) =
      ({ job with attempt, state := .pending none, version := job.version + 1 }, .ok ()) := by
  simp only [apply, state, advance]

theorem apply_cancelled {job : Job} (reason : Option String)
    (live : job.state ≠ .succeeded ∧ job.state ≠ .cancelled) :
    job.apply (.cancelled reason) = job.advance .cancelled := by
  cases state : job.state <;> simp_all [apply]

theorem apply_lateAck (job : Job) (worker : WorkerId) (lease : LeaseId) (reported : ReportedOutcome) :
    job.apply (.lateAckConflict worker lease reported) =
      ({ job with version := job.version + 1 }, .ok ()) := by
  cases state : job.state <;> simp [apply, state, advance]

theorem Effect.applies {job next : Job} {events : List JobEvent} (effect : Effect job events next) :
    job.applyEvents events = .ok next := by
  cases effect with
  | leased worker lease expiresAt state => simp [applyEvents, apply, state, advance]
  | started state => simp [applyEvents, apply, state, advance]
  | succeeded result state => simp [applyEvents, apply, state, advance]
  | failedRetry error attempt notBefore state next below => simp [applyEvents, apply, state, advance]
  | failedParked error attempt reason state next cause => simp [applyEvents, apply, state, advance]
  | expiredRetry attempt notBefore held next below =>
    rw [applyEvents, apply_leaseExpired held next]
    rfl
  | expiredParked attempt held next spent =>
    rw [applyEvents, apply_leaseExpired held next]
    rfl
  | cancelled reason live => simp [applyEvents, apply_cancelled reason live, advance]
  | lateAck worker lease reported => simp [applyEvents, apply_lateAck]

omit [BuildProfile] in
theorem lease_ok {job : Job} {worker : WorkerId} {lease : LeaseId} {now : DateTime} {ttl : Duration}
    {event : JobEvent} (granted : job.lease worker lease now ttl = .ok event) :
    ∃ notBefore delta expiresAt, job.state = .pending notBefore ∧ notBefore.all (· ≤ now) ∧
      TimeDelta.fromStd ttl = some delta ∧ now.checkedAddSigned delta = some expiresAt ∧
      event = .leased worker lease expiresAt := by
  unfold Job.lease at granted
  split at granted
  · rename_i notBefore state
    split at granted
    · rename_i eligible
      split at granted
      · cases granted
      · rename_i delta converted
        unfold DateTime.add at granted
        split at granted
        · rename_i expiresAt added
          cases granted
          exact ⟨notBefore, delta, expiresAt, state, eligible, converted, added, rfl⟩
        · cases granted
    · cases granted
  · cases granted

theorem lease_effect {job : Job} {worker : WorkerId} {lease : LeaseId} {now : DateTime}
    {ttl : Duration} {event : JobEvent} (granted : job.lease worker lease now ttl = .ok event) :
    ∃ next, Effect job [event] next := by
  obtain ⟨notBefore, delta, expiresAt, state, _, _, _, rfl⟩ := lease_ok granted
  exact ⟨_, .leased worker lease expiresAt state⟩

omit [BuildProfile] in
theorem start_ok {job : Job} {worker : WorkerId} {event : JobEvent}
    (begun : job.start worker = .ok event) :
    ∃ lease expiresAt, job.state = .leased worker lease expiresAt ∧ event = .started worker := by
  unfold start at begun
  split at begun
  · rename_i holder lease expiresAt state
    split at begun
    · rename_i same
      subst same
      cases begun
      exact ⟨lease, expiresAt, state, rfl⟩
    · cases begun
  · cases begun

omit [BuildProfile] in
theorem succeed_ok {job : Job} {lease : LeaseId} {result : Option Value} {event : JobEvent}
    (acked : job.succeed lease result = .ok event) :
    ∃ worker expiresAt, job.state = .running worker lease expiresAt ∧ event = .succeeded result := by
  unfold succeed at acked
  split at acked
  · rename_i worker held expiresAt state
    split at acked
    · rename_i same
      subst same
      cases acked
      exact ⟨worker, expiresAt, state, rfl⟩
    · cases acked
  · cases acked

omit [BuildProfile] in
theorem retryDecisionEvent_ok {job : Job} {attempt : UInt32} {now : DateTime} {seed : UInt64}
    {event : JobEvent} (decided : job.retryDecisionEvent attempt now seed = .ok event) :
    (∃ notBefore delay delta, job.retryPolicy.decide attempt seed = .retryAfter delay ∧
        TimeDelta.fromStd delay = some delta ∧ now.checkedAddSigned delta = some notBefore ∧
        attempt < job.retryPolicy.maxAttempts ∧ event = .retryScheduled attempt notBefore) ∨
      (job.retryPolicy.maxAttempts ≤ attempt ∧ event = .parked .retriesExhausted) := by
  unfold retryDecisionEvent at decided
  split at decided
  · rename_i delay chosen
    split at decided
    · cases decided
    · rename_i delta converted
      split at decided
      · cases decided
      · rename_i notBefore added
        cases decided
        have below : ¬ job.retryPolicy.maxAttempts ≤ attempt := by
          intro spent
          rw [RetryPolicy.decide_park.mpr spent] at chosen
          cases chosen
        exact .inl ⟨notBefore, delay, delta, chosen, converted, added, UInt32.not_le.mp below, rfl⟩
  · rename_i parked
    cases decided
    exact .inr ⟨RetryPolicy.decide_park.mp parked, rfl⟩

omit [BuildProfile] in
theorem retryDecisionEvent_err {job : Job} {attempt : UInt32} {now : DateTime} {seed : UInt64}
    {error : DomainError} (refused : job.retryDecisionEvent attempt now seed = .err error) :
    error = .invalidTtl := by
  unfold retryDecisionEvent at refused
  split at refused
  · split at refused
    · cases refused
      rfl
    · split at refused
      · cases refused
        rfl
      · cases refused
  · cases refused

omit [BuildProfile] in
theorem retryDecisionEvent_representable {job : Job} {attempt : UInt32} {now : DateTime} {seed : UInt64} :
    (∃ event, job.retryDecisionEvent attempt now seed = .ok event) ↔
      ∀ delay, job.retryPolicy.decide attempt seed = .retryAfter delay → now.nanos + delay.nanos ≤ maxUtcNanos := by
  constructor
  · rintro ⟨event, decided⟩ delay chosen
    rcases retryDecisionEvent_ok decided with ⟨notBefore, other, delta, same, converted, added, _⟩ | ⟨spent, _⟩
    · cases same.symm.trans chosen
      rw [← DateTime.deadline_nanos converted added]
      exact notBefore.upper
    · rw [RetryPolicy.decide_park.mpr spent] at chosen
      cases chosen
  · intro room
    unfold retryDecisionEvent
    cases decided : job.retryPolicy.decide attempt seed with
    | park => exact ⟨_, rfl⟩
    | retryAfter delay =>
      obtain ⟨delta, notBefore, converted, added⟩ := DateTime.addable (room delay decided)
      exact ⟨.retryScheduled attempt notBefore, by simp only [converted, added]⟩

omit [BuildProfile] in
theorem retryDecisionEvent_total {job : Job} {now : DateTime}
    (room : now.nanos + job.retryPolicy.maxDelay.nanos ≤ maxUtcNanos) (attempt : UInt32) (seed : UInt64) :
    ∃ event, job.retryDecisionEvent attempt now seed = .ok event := by
  refine retryDecisionEvent_representable.mpr fun delay decided => ?_
  have capped := Duration.le_iff.mp (RetryPolicy.decide_delay decided)
  omega

theorem fail_ok {job : Job} {lease : LeaseId} {error : JobError} {now : DateTime} {seed : UInt64}
    {events : List JobEvent} (acked : job.fail lease error now seed = .ok events) :
    ∃ worker expiresAt attempt decision, job.state = .running worker lease expiresAt ∧
      u32Succ job.attempt = some attempt ∧ events = [.failed error attempt, decision] ∧
      (error.retryable = true ∧ job.retryDecisionEvent attempt now seed = .ok decision ∨
        error.retryable = false ∧ decision = .parked .nonRetryableError) := by
  unfold fail at acked
  split at acked
  · rename_i worker held expiresAt state
    split at acked
    · rename_i same
      subst same
      split at acked
      · cases acked
      · rename_i attempt next
        rw [Outcome.bind_eq_ok] at acked
        obtain ⟨decision, decided, rest⟩ := acked
        cases rest
        refine ⟨worker, expiresAt, attempt, decision, state, next, rfl, ?_⟩
        split at decided
        · rename_i retryable
          exact .inl ⟨retryable, decided⟩
        · rename_i final
          cases decided
          exact .inr ⟨Bool.eq_false_iff.mpr final, rfl⟩
    · cases acked
  · cases acked

omit [BuildProfile] in
theorem retryDecisionEvent_ne_panic (job : Job) (attempt : UInt32) (now : DateTime) (seed : UInt64) :
    job.retryDecisionEvent attempt now seed ≠ .panic := by
  unfold retryDecisionEvent
  split
  · split
    · simp
    · split <;> simp
  · simp

theorem fail_panic {job : Job} {lease : LeaseId} {error : JobError} {now : DateTime} {seed : UInt64}
    (unwound : job.fail lease error now seed = .panic) :
    u32Succ job.attempt = none ∧ job.state.held = some lease := by
  unfold fail at unwound
  split at unwound
  · rename_i state
    split at unwound
    · rename_i same
      subst same
      split at unwound
      · exact ⟨by assumption, by rw [state]; rfl⟩
      · rename_i attempt _
        rw [Outcome.bind_pure_eq_panic] at unwound
        split at unwound
        · exact absurd unwound (job.retryDecisionEvent_ne_panic attempt now seed)
        · cases unwound
    · cases unwound
  · cases unwound

theorem fail_invalidTtl {job : Job} {lease : LeaseId} {error : JobError} {now : DateTime} {seed : UInt64}
    (refused : job.fail lease error now seed = .err .invalidTtl) :
    ∃ attempt, u32Succ job.attempt = some attempt ∧
      job.retryDecisionEvent attempt now seed = .err .invalidTtl := by
  unfold fail at refused
  split at refused
  · split at refused
    · split at refused
      · cases refused
      · rename_i attempt next
        rw [Outcome.bind_pure_eq_err] at refused
        split at refused
        · exact ⟨attempt, next, refused⟩
        · cases refused
    · cases refused
  · cases refused

theorem fail_effect {job : Job} {lease : LeaseId} {error : JobError} {now : DateTime} {seed : UInt64}
    {events : List JobEvent} (acked : job.fail lease error now seed = .ok events) :
    ∃ next, Effect job events next := by
  obtain ⟨worker, expiresAt, attempt, decision, state, next, rfl, ⟨_, decided⟩ | ⟨_, rfl⟩⟩ := fail_ok acked
  · rcases retryDecisionEvent_ok decided with ⟨notBefore, _, _, _, _, _, below, rfl⟩ | ⟨spent, rfl⟩
    · exact ⟨_, .failedRetry error attempt notBefore state next below⟩
    · exact ⟨_, .failedParked error attempt _ state next (.inl ⟨rfl, spent⟩)⟩
  · exact ⟨_, .failedParked error attempt _ state next (.inr rfl)⟩

def Reschedulable (job : Job) (error : JobError) (now : DateTime) (seed : UInt64) : Prop :=
  ∃ attempt, u32Succ job.attempt = some attempt ∧
    (error.retryable = true → ∀ delay, job.retryPolicy.decide attempt seed = .retryAfter delay →
      now.nanos + delay.nanos ≤ maxUtcNanos)

theorem fail_running {job : Job} {worker : WorkerId} {lease : LeaseId} {expiresAt : DateTime}
    {error : JobError} {now : DateTime} {seed : UInt64} (state : job.state = .running worker lease expiresAt) :
    (∃ events, job.fail lease error now seed = .ok events) ↔ job.Reschedulable error now seed := by
  constructor
  · rintro ⟨events, acked⟩
    obtain ⟨_, _, attempt, decision, _, next, _, ⟨_, decided⟩ | ⟨final, _⟩⟩ := fail_ok acked
    · exact ⟨attempt, next, fun _ => retryDecisionEvent_representable.mp ⟨decision, decided⟩⟩
    · refine ⟨attempt, next, fun retryable => ?_⟩
      rw [final] at retryable
      cases retryable
  · rintro ⟨attempt, next, room⟩
    simp only [fail, state, if_true, next]
    split
    · rename_i retryable
      obtain ⟨decision, decided⟩ := retryDecisionEvent_representable.mpr (room retryable)
      exact ⟨_, by rw [decided]; rfl⟩
    · exact ⟨_, rfl⟩

theorem expireLease_held {job : Job} {lease : LeaseId} (held : job.state.held = some lease) (now : DateTime)
    (seed : UInt64) :
    job.expireLease now seed = match u32Succ job.attempt with
      | none => .panic
      | some attempt => job.retryDecisionEvent attempt now seed >>= fun decision =>
        pure [.leaseExpired lease, decision] := by
  obtain ⟨worker, expiresAt, state | state⟩ := JobState.held_eq_some.mp held
  all_goals
    cases job
    cases state
    rfl

theorem expireLease_free {job : Job} (free : job.state.held = none) (now : DateTime) (seed : UInt64) :
    job.expireLease now seed = .err (.illegalTransition job.state.name "lease_expired") := by
  unfold expireLease
  split
  case h_1 | h_2 =>
    rename_i state
    rw [state] at free
    cases free
  · rfl

theorem expireLease_ok {job : Job} {now : DateTime} {seed : UInt64} {events : List JobEvent}
    (retired : job.expireLease now seed = .ok events) :
    ∃ lease attempt decision, job.state.held = some lease ∧ u32Succ job.attempt = some attempt ∧
      job.retryDecisionEvent attempt now seed = .ok decision ∧
      events = [.leaseExpired lease, decision] := by
  cases held : job.state.held with
  | none =>
    rw [expireLease_free held] at retired
    cases retired
  | some lease =>
    rw [expireLease_held held] at retired
    split at retired
    · cases retired
    · rename_i attempt next
      obtain ⟨decision, decided, rest⟩ := Outcome.bind_eq_ok.mp retired
      cases rest
      exact ⟨lease, attempt, decision, rfl, next, decided, rfl⟩

theorem expireLease_err {job : Job} {now : DateTime} {seed : UInt64} {lease : LeaseId}
    {error : DomainError} (held : job.state.held = some lease)
    (refused : job.expireLease now seed = .err error) : error = .invalidTtl := by
  rw [expireLease_held held] at refused
  split at refused
  · cases refused
  · rw [Outcome.bind_pure_eq_err] at refused
    exact retryDecisionEvent_err refused

theorem expireLease_invalidTtl {job : Job} {now : DateTime} {seed : UInt64}
    (refused : job.expireLease now seed = .err .invalidTtl) :
    ∃ attempt, u32Succ job.attempt = some attempt ∧
      job.retryDecisionEvent attempt now seed = .err .invalidTtl := by
  cases held : job.state.held with
  | none =>
    rw [expireLease_free held] at refused
    cases refused
  | some lease =>
    rw [expireLease_held held] at refused
    split at refused
    · cases refused
    · rename_i attempt next
      exact ⟨attempt, next, Outcome.bind_pure_eq_err.mp refused⟩

omit [BuildProfile] in
theorem lease_err {job : Job} {worker : WorkerId} {lease : LeaseId} {now : DateTime} {ttl : Duration}
    {notBefore : Option DateTime} {error : DomainError} (state : job.state = .pending notBefore)
    (due : ∀ time, notBefore = some time → time ≤ now)
    (refused : job.lease worker lease now ttl = .err error) : error = .invalidTtl := by
  have eligible : notBefore.all (· ≤ now) = true := by
    cases notBefore with
    | none => rfl
    | some time => simpa using due time rfl
  simp only [Job.lease, state, eligible, if_true] at refused
  split at refused
  · cases refused
    rfl
  · unfold DateTime.add at refused
    split at refused
    · cases refused
    · cases refused

omit [BuildProfile] in
theorem lease_panic {job : Job} {worker : WorkerId} {lease : LeaseId} {now : DateTime} {ttl : Duration}
    (unwound : job.lease worker lease now ttl = .panic) :
    ∃ delta, TimeDelta.fromStd ttl = some delta ∧ now.checkedAddSigned delta = none := by
  unfold Job.lease at unwound
  split at unwound
  · split at unwound
    · split at unwound
      · cases unwound
      · rename_i delta converted
        unfold DateTime.add at unwound
        split at unwound
        · cases unwound
        · rename_i overflow
          exact ⟨delta, converted, overflow⟩
    · cases unwound
  · cases unwound

theorem expireLease_panic {job : Job} {now : DateTime} {seed : UInt64} :
    job.expireLease now seed = .panic ↔ u32Succ job.attempt = none ∧ job.state.held.isSome = true := by
  cases held : job.state.held with
  | none =>
    rw [expireLease_free held]
    simp
  | some lease =>
    rw [expireLease_held held]
    cases next : u32Succ job.attempt with
    | none => simp
    | some attempt =>
      rw [Outcome.bind_pure_eq_panic]
      simp [job.retryDecisionEvent_ne_panic attempt now seed]

theorem expireLease_total {job : Job} {lease : LeaseId} {now : DateTime}
    (held : job.state.held = some lease) (counted : u32Succ job.attempt ≠ none)
    (room : now.nanos + job.retryPolicy.maxDelay.nanos ≤ maxUtcNanos) (seed : UInt64) :
    ∃ events, job.expireLease now seed = .ok events := by
  obtain ⟨attempt, next⟩ := Option.ne_none_iff_exists'.mp counted
  obtain ⟨decision, decided⟩ := retryDecisionEvent_total room attempt seed
  refine ⟨[.leaseExpired lease, decision], ?_⟩
  rw [expireLease_held held, next]
  simp only [decided]
  rfl

omit [BuildProfile] in
theorem lease_total {job : Job} {notBefore : Option DateTime} {now : DateTime} {ttl : Duration}
    (state : job.state = .pending notBefore) (due : ∀ time, notBefore = some time → time ≤ now)
    (room : now.nanos + ttl.nanos ≤ maxUtcNanos) (worker : WorkerId) (lease : LeaseId) :
    ∃ expiresAt, job.lease worker lease now ttl = .ok (.leased worker lease expiresAt) := by
  have eligible : notBefore.all (· ≤ now) = true := by
    cases notBefore with
    | none => rfl
    | some time => simpa using due time rfl
  obtain ⟨delta, expiresAt, converted, added⟩ := DateTime.addable room
  refine ⟨expiresAt, ?_⟩
  simp only [Job.lease, state, eligible, if_true, converted, DateTime.add, added]
  rfl

theorem expireLease_effect {job : Job} {now : DateTime} {seed : UInt64} {events : List JobEvent}
    (retired : job.expireLease now seed = .ok events) : ∃ next, Effect job events next := by
  obtain ⟨lease, attempt, decision, held, next, decided, rfl⟩ := expireLease_ok retired
  rcases retryDecisionEvent_ok decided with ⟨notBefore, _, _, _, _, _, below, rfl⟩ | ⟨spent, rfl⟩
  · exact ⟨_, .expiredRetry attempt notBefore held next below⟩
  · exact ⟨_, .expiredParked attempt held next spent⟩

omit [BuildProfile] in
theorem cancel_ok {job : Job} {reason : Option String} {event : JobEvent}
    (accepted : job.cancel reason = .ok event) :
    event = .cancelled reason ∧ job.state ≠ .succeeded ∧ job.state ≠ .cancelled := by
  unfold cancel at accepted
  split at accepted
  · cases accepted
  · cases accepted
  · cases accepted
    exact ⟨rfl, by assumption, by assumption⟩

end Job

end Koine.Domain
