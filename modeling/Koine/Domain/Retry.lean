import Koine.Domain.Time

namespace Koine.Domain

inductive RetryDecision where
  | retryAfter (delay : Duration)
  | park
deriving DecidableEq

structure RetryPolicy where
  maxAttempts : UInt32
  baseDelay : Duration
  maxDelay : Duration
deriving DecidableEq

def splitmix64 (x : UInt64) : UInt64 :=
  let z := x + 0x9E3779B97F4A7C15
  let z := (z ^^^ (z >>> 30)) * 0xBF58476D1CE4E5B9
  let z := (z ^^^ (z >>> 27)) * 0x94D049BB133111EB
  z ^^^ (z >>> 31)

/-- `2_u32.saturating_pow(exp)`. -/
def saturatingPowTwo (exp : Nat) : Nat := min (2 ^ exp) (2 ^ 32 - 1)

def RetryPolicy.cap (policy : RetryPolicy) (attemptsCompleted : UInt32) : Duration :=
  let exp := min (attemptsCompleted.toNat - 1) 31
  min (policy.baseDelay.saturatingMul (saturatingPowTwo exp)) policy.maxDelay

/-- `u64::try_from(capped.as_millis()).unwrap_or(u64::MAX).min(u64::MAX - 1)`. -/
def clampMillis (capped : Duration) : UInt64 :=
  UInt64.ofNat (min (min capped.asMillis (2 ^ 64 - 1)) (2 ^ 64 - 2))

def RetryPolicy.decide (policy : RetryPolicy) (attemptsCompleted : UInt32) (seed : UInt64) :
    RetryDecision :=
  if policy.maxAttempts ≤ attemptsCompleted then .park
  else
    let millis := clampMillis (policy.cap attemptsCompleted)
    let jittered :=
      if millis = 0 then 0
      else splitmix64 (seed ^^^ attemptsCompleted.toUInt64) % (millis + 1)
    .retryAfter (.fromMillis jittered)

theorem clampMillis_toNat (capped : Duration) :
    (clampMillis capped).toNat = min capped.asMillis (2 ^ 64 - 2) := by
  unfold clampMillis
  rw [UInt64.toNat_ofNat', Nat.mod_eq_of_lt (by omega)]
  omega

theorem clampMillis_succ (capped : Duration) :
    (clampMillis capped + 1).toNat = (clampMillis capped).toNat + 1 := by
  have clamped := clampMillis_toNat capped
  rw [UInt64.toNat_add]
  exact Nat.mod_eq_of_lt (by have : (1 : UInt64).toNat = 1 := rfl; omega)

theorem RetryPolicy.decide_retry {policy : RetryPolicy} {attempts : UInt32}
    (below : attempts < policy.maxAttempts) (seed : UInt64) :
    policy.decide attempts seed = .retryAfter (.fromMillis
      (splitmix64 (seed ^^^ attempts.toUInt64) % (clampMillis (policy.cap attempts) + 1))) := by
  simp only [RetryPolicy.decide, if_neg (UInt32.not_le.mpr below)]
  split
  · rename_i zero
    have whole : splitmix64 (seed ^^^ attempts.toUInt64) % (0 + 1) = 0 := UInt64.mod_one
    rw [zero, whole]
  · rfl

theorem jitter_toNat (draw : UInt64) (capped : Duration) :
    (draw % (clampMillis capped + 1)).toNat = draw.toNat % ((clampMillis capped).toNat + 1) := by
  rw [UInt64.toNat_mod, clampMillis_succ]

theorem RetryPolicy.decide_park {policy : RetryPolicy} {attempts : UInt32} {seed : UInt64} :
    policy.decide attempts seed = .park ↔ policy.maxAttempts ≤ attempts := by
  unfold RetryPolicy.decide
  split <;> simp_all

theorem RetryPolicy.decide_capped {policy : RetryPolicy} {attempts : UInt32} {seed : UInt64}
    {delay : Duration} (decided : policy.decide attempts seed = .retryAfter delay) :
    ∃ millis, delay = .fromMillis millis ∧ delay ≤ policy.cap attempts := by
  have below : attempts < policy.maxAttempts := by
    rw [← UInt32.not_le, ← RetryPolicy.decide_park, decided]
    nofun
  rw [RetryPolicy.decide_retry below] at decided
  cases decided
  refine ⟨_, rfl, Duration.le_iff.mpr ?_⟩
  have drawn := Nat.mod_lt (splitmix64 (seed ^^^ attempts.toUInt64)).toNat
    (show 0 < (clampMillis (policy.cap attempts)).toNat + 1 by omega)
  rw [← jitter_toNat, clampMillis_toNat, Duration.asMillis] at drawn
  simp only [Duration.fromMillis]
  omega

theorem RetryPolicy.decide_delay {policy : RetryPolicy} {attempts : UInt32} {seed : UInt64}
    {delay : Duration} (decided : policy.decide attempts seed = .retryAfter delay) :
    delay ≤ policy.maxDelay := by
  obtain ⟨_, _, capped⟩ := RetryPolicy.decide_capped decided
  exact capped.trans (min_le_right _ _)

end Koine.Domain
