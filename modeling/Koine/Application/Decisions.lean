import Koine.Application.UseCases
import Koine.Domain.Jitter

namespace Koine.Application

open Library Domain

variable [BuildProfile]

omit [BuildProfile] in
theorem validPolicy_retries {job : Job} {now : DateTime} (valid : validatePolicy job.retryPolicy = .ok ())
    (early : now.nanos + maxSaneDelay.nanos ≤ maxUtcNanos) (attempt : UInt32) (seed : UInt64) :
    ∃ event, job.retryDecisionEvent attempt now seed = .ok event := by
  obtain ⟨_, _, delay⟩ := validatePolicy_ok valid
  exact Job.retryDecisionEvent_total (by omega) attempt seed

/-- Retry decisions are bounded in exact arithmetic, and a policy that passed validation always has a
    representable retry time. -/
theorem retry_decisions_bounded :
    (∀ (policy : RetryPolicy) (attempts : UInt32) (seed : UInt64),
      policy.decideChecked attempts seed =
          (.ok (policy.decide attempts seed) : Outcome DomainError RetryDecision) ∧
        (policy.decide attempts seed = .park ↔ policy.maxAttempts ≤ attempts) ∧
        ∀ delay, policy.decide attempts seed = .retryAfter delay →
          (∃ millis, delay = .fromMillis millis) ∧ delay ≤ policy.maxDelay ∧
            delay.nanos ≤ policy.baseDelay.nanos * 2 ^ (max attempts.toNat 1 - 1)) ∧
      ∀ (job : Job) (now : DateTime) (seed : UInt64), validatePolicy job.retryPolicy = .ok () →
        now.nanos + maxSaneDelay.nanos ≤ maxUtcNanos →
        (∀ lease error, job.fail lease error now seed ≠ .err .invalidTtl) ∧
          job.expireLease now seed ≠ .err .invalidTtl := by
  refine ⟨fun policy attempts seed => ⟨policy.decideChecked_eq attempts seed, RetryPolicy.decide_park, ?_⟩,
    fun job now seed valid early => ⟨fun lease error failed => ?_, fun failed => ?_⟩⟩
  · intro delay decided
    obtain ⟨millis, whole, capped⟩ := RetryPolicy.decide_capped decided
    have bounds := policy.cap_le attempts
    exact ⟨⟨millis, whole⟩, capped.trans bounds.1, (Duration.le_iff.mp capped).trans bounds.2⟩
  · obtain ⟨attempt, _, refused⟩ := Job.fail_invalidTtl failed
    obtain ⟨event, decided⟩ := validPolicy_retries valid early attempt seed
    rw [decided] at refused
    cases refused
  · obtain ⟨attempt, _, refused⟩ := Job.expireLease_invalidTtl failed
    obtain ⟨event, decided⟩ := validPolicy_retries valid early attempt seed
    rw [decided] at refused
    cases refused

def Sample.running : Job :=
  { Job.opened ⟨0⟩ Sample.queue .null ⟨0⟩ Sample.command.retryPolicy none with
    state := .running Sample.worker ⟨1⟩ (Sample.instant 60) }

omit [BuildProfile] in
theorem retry_decisions_bounded_running :
    @Job.fail .release Sample.running ⟨1⟩ ⟨"boom", "", none, true⟩ (Sample.instant 30) 7 ≠ .err .invalidTtl :=
  letI := BuildProfile.release
  (retry_decisions_bounded.2 Sample.running (Sample.instant 30) 7 rfl (by decide)).1 ⟨1⟩ ⟨"boom", "", none, true⟩

/-- A command of the aggregate with its arguments. -/
inductive Command where
  | lease (worker : WorkerId) (lease : LeaseId) (now : DateTime) (ttl : Duration)
  | start (worker : WorkerId)
  | succeed (lease : LeaseId) (result : Option Value)
  | fail (lease : LeaseId) (error : JobError) (now : DateTime) (seed : UInt64)
  | expireLease (now : DateTime) (seed : UInt64)
  | cancel (reason : Option String)
  | lateAck (worker : WorkerId) (lease : LeaseId) (reported : ReportedOutcome)

def Command.run (command : Command) (job : Job) : Outcome DomainError (List JobEvent) :=
  match command with
  | .lease worker granted now ttl => do pure [← job.lease worker granted now ttl]
  | .start worker => do pure [← job.start worker]
  | .succeed held result => do pure [← job.succeed held result]
  | .fail held error now seed => job.fail held error now seed
  | .expireLease now seed => job.expireLease now seed
  | .cancel reason => do pure [← job.cancel reason]
  | .lateAck worker claimed reported => .ok [Job.lateAck worker claimed reported]

def Spent (job next : Job) (retryable : Bool) (now : DateTime) (seed : UInt64) : Prop :=
  next.attempt.toNat = job.attempt.toNat + 1 ∧
    if retryable then
      match job.retryPolicy.decide next.attempt seed with
      | .retryAfter delay => ∃ notBefore : DateTime, notBefore.nanos = now.nanos + delay.nanos ∧
          next.state = .pending (some notBefore)
      | .park => next.state = .parked .retriesExhausted
    else next.state = .parked .nonRetryableError

/-- What a command is for: the state and the attempt it leads to. -/
def Command.Leads (job next : Job) : Command → Prop
  | .lease worker granted now ttl => next.attempt = job.attempt ∧
      ∃ expiresAt : DateTime, expiresAt.nanos = now.nanos + ttl.nanos ∧
        next.state = .leased worker granted expiresAt
  | .start worker => next.attempt = job.attempt ∧
      ∃ held expiresAt, job.state = .leased worker held expiresAt ∧
        next.state = .running worker held expiresAt
  | .succeed .. => next.attempt = job.attempt ∧ next.state = .succeeded
  | .fail _ error now seed => Spent job next error.retryable now seed
  | .expireLease now seed => Spent job next true now seed
  | .cancel _ => next.attempt = job.attempt ∧ next.state = .cancelled
  | .lateAck .. => next.attempt = job.attempt ∧ next.state = job.state

theorem decision_applies {job : Job} {attempt : UInt32} {now : DateTime} {seed : UInt64}
    {decision : JobEvent} (decided : job.retryDecisionEvent attempt now seed = .ok decision) :
    ∃ state, ({ job with attempt, state := .pending none, version := job.version + 1 } : Job).apply decision =
        ({ job with attempt, state, version := job.version + 2 }, .ok ()) ∧
      match job.retryPolicy.decide attempt seed with
      | .retryAfter delay => ∃ notBefore : DateTime, notBefore.nanos = now.nanos + delay.nanos ∧
          state = .pending (some notBefore)
      | .park => state = .parked .retriesExhausted := by
  rcases Job.retryDecisionEvent_ok decided with ⟨notBefore, delay, delta, chosen, converted, added, _, rfl⟩ |
    ⟨spent, rfl⟩
  · refine ⟨_, rfl, ?_⟩
    rw [chosen]
    exact ⟨notBefore, DateTime.deadline_nanos converted added, rfl⟩
  · refine ⟨_, rfl, ?_⟩
    rw [RetryPolicy.decide_park.mpr spent]

theorem Command.applies {command : Command} {job : Job} {events : List JobEvent}
    (room : job.attempt.toNat < 2 ^ 32 - 1) (emitted : command.run job = .ok events) :
    ∃ next, job.applyEvents events = .ok next ∧ command.Leads job next ∧ next.payload = job.payload := by
  have counted : job.attempt.toNat + 1 < 2 ^ 32 := by omega
  cases command with
  | lease worker lease now ttl =>
    obtain ⟨event, granted, rest⟩ := Outcome.bind_eq_ok.mp emitted
    cases rest
    obtain ⟨notBefore, delta, expiresAt, state, _, converted, added, rfl⟩ := Job.lease_ok granted
    exact ⟨_, (Job.Effect.leased worker lease expiresAt state).applies,
      ⟨rfl, expiresAt, DateTime.deadline_nanos converted added, rfl⟩, rfl⟩
  | start worker =>
    obtain ⟨event, begun, rest⟩ := Outcome.bind_eq_ok.mp emitted
    cases rest
    obtain ⟨lease, expiresAt, state, rfl⟩ := Job.start_ok begun
    exact ⟨_, (Job.Effect.started state).applies, ⟨rfl, lease, expiresAt, state, rfl⟩, rfl⟩
  | succeed lease result =>
    obtain ⟨event, acked, rest⟩ := Outcome.bind_eq_ok.mp emitted
    cases rest
    obtain ⟨worker, expiresAt, state, rfl⟩ := Job.succeed_ok acked
    exact ⟨_, (Job.Effect.succeeded result state).applies, ⟨rfl, rfl⟩, rfl⟩
  | fail lease error now seed =>
    obtain ⟨worker, expiresAt, attempt, decision, state, next, rfl, ⟨retryable, decided⟩ | ⟨final, rfl⟩⟩ :=
      Job.fail_ok emitted
    · obtain ⟨settled, applied, reason⟩ := decision_applies decided
      refine ⟨{ job with attempt, state := settled, version := job.version + 2 }, ?_,
        ⟨u32Succ_toNat counted next, ?_⟩, rfl⟩
      · rw [Job.applyEvents, Job.apply_failed state]
        simp only [Job.applyEvents, applied]
      · rw [retryable, if_pos rfl]
        exact reason
    · refine ⟨_, (Job.Effect.failedParked error attempt _ state next (.inr rfl)).applies,
        ⟨u32Succ_toNat counted next, ?_⟩, rfl⟩
      rw [final]
      rfl
  | expireLease now seed =>
    obtain ⟨lease, attempt, decision, held, next, decided, rfl⟩ := Job.expireLease_ok emitted
    obtain ⟨settled, applied, reason⟩ := decision_applies decided
    refine ⟨{ job with attempt, state := settled, version := job.version + 2 }, ?_,
      ⟨u32Succ_toNat counted next, reason⟩, rfl⟩
    rw [Job.applyEvents, Job.apply_leaseExpired held next]
    simp only [Job.applyEvents, applied]
  | cancel reason =>
    obtain ⟨event, accepted, rest⟩ := Outcome.bind_eq_ok.mp emitted
    cases rest
    obtain ⟨rfl, live⟩ := Job.cancel_ok accepted
    exact ⟨_, (Job.Effect.cancelled reason live).applies, ⟨rfl, rfl⟩, rfl⟩
  | lateAck worker lease reported =>
    cases emitted
    exact ⟨_, (Job.Effect.lateAck worker lease reported).applies, ⟨rfl, rfl⟩, rfl⟩

end Koine.Application
