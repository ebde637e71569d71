import Koine.Library.Mixing
import Koine.Domain.Retry

namespace Koine.Domain

open Library

/-- The longest delay after `attempts` failures, in whole milliseconds: `min(base * 2^(n-1), cap)`
    without the saturations of the code. -/
def RetryPolicy.ceiling (policy : RetryPolicy) (attempts : UInt32) : Nat :=
  min (min (policy.baseDelay.nanos * 2 ^ min (max attempts.toNat 1 - 1) 31) policy.maxDelay.nanos / 1000000)
    (2 ^ 64 - 2)

theorem saturatingPowTwo_of_le {exp : Nat} (small : exp ≤ 31) : saturatingPowTwo exp = 2 ^ exp := by
  have := Nat.pow_le_pow_right (show 0 < 2 by omega) small
  unfold saturatingPowTwo
  omega

theorem RetryPolicy.cap_nanos (policy : RetryPolicy) (attempts : UInt32) :
    (policy.cap attempts).nanos =
      min (policy.baseDelay.nanos * 2 ^ min (max attempts.toNat 1 - 1) 31) policy.maxDelay.nanos := by
  have bound := policy.maxDelay.bound
  have exponent : min (attempts.toNat - 1) 31 = min (max attempts.toNat 1 - 1) 31 := by omega
  have minNanos : ∀ a b : Duration, (min a b).nanos = min a.nanos b.nanos := by
    intro a b
    rcases le_total a b with le | le
    · rw [min_eq_left le, min_eq_left (Duration.le_iff.mp le)]
    · rw [min_eq_right le, min_eq_right (Duration.le_iff.mp le)]
  simp only [RetryPolicy.cap, minNanos, saturatingPowTwo_of_le (min_le_right _ _), exponent]
  unfold Duration.saturatingMul
  split
  · rfl
  · -- the product saturates, and `max_delay` is below both values
    simp only [Duration.max]
    omega

theorem RetryPolicy.clamped (policy : RetryPolicy) (attempts : UInt32) :
    (clampMillis (policy.cap attempts)).toNat = policy.ceiling attempts := by
  unfold RetryPolicy.ceiling
  rw [← policy.cap_nanos, clampMillis_toNat, Duration.asMillis]

def checkedAdd {ε : Type} (a b : UInt64) : Outcome ε UInt64 :=
  if a.toNat + b.toNat < 2 ^ 64 then .ok (a + b) else .panic

/-- `u64` remainder, which panics on a zero modulus. -/
def checkedRem {ε : Type} (a b : UInt64) : Outcome ε UInt64 :=
  if b = 0 then .panic else .ok (a % b)

/-- `RetryPolicy::decide` with its operators checked, as a debug build runs it. What saturates, wraps
    or converts by name in the code can do so here too. -/
def RetryPolicy.decideChecked {ε : Type} (policy : RetryPolicy) (attemptsCompleted : UInt32)
    (seed : UInt64) : Outcome ε RetryDecision :=
  if policy.maxAttempts ≤ attemptsCompleted then .ok .park
  else
    let millis := clampMillis (policy.cap attemptsCompleted)
    if millis = 0 then .ok (.retryAfter (.fromMillis 0))
    else do
      let modulus ← checkedAdd millis 1
      let jittered ← checkedRem (splitmix64 (seed ^^^ attemptsCompleted.toUInt64)) modulus
      pure (.retryAfter (.fromMillis jittered))

theorem RetryPolicy.decideChecked_eq {ε : Type} (policy : RetryPolicy) (attempts : UInt32) (seed : UInt64) :
    policy.decideChecked attempts seed = (.ok (policy.decide attempts seed) : Outcome ε RetryDecision) := by
  have clamped := clampMillis_toNat (policy.cap attempts)
  have next := clampMillis_succ (policy.cap attempts)
  simp only [RetryPolicy.decideChecked, RetryPolicy.decide]
  split
  · rfl
  · split
    · rfl
    · have fits : (clampMillis (policy.cap attempts)).toNat + (1 : UInt64).toNat < 2 ^ 64 := by
        have : (1 : UInt64).toNat = 1 := rfl
        omega
      have nonzero : clampMillis (policy.cap attempts) + 1 ≠ 0 := by
        intro zero
        rw [zero] at next
        have : (0 : UInt64).toNat = 0 := rfl
        omega
      rw [checkedAdd, if_pos fits, Outcome.ok_bind, checkedRem, if_neg nonzero]
      rfl

theorem RetryPolicy.cap_le (policy : RetryPolicy) (attempts : UInt32) :
    policy.cap attempts ≤ policy.maxDelay ∧
      (policy.cap attempts).nanos ≤ policy.baseDelay.nanos * 2 ^ (max attempts.toNat 1 - 1) := by
  refine ⟨min_le_right _ _, ?_⟩
  rw [policy.cap_nanos]
  have doublings := Nat.pow_le_pow_right (show 0 < 2 by omega) (min_le_left (max attempts.toNat 1 - 1) 31)
  exact (min_le_left _ _).trans (Nat.mul_le_mul_left _ doublings)

theorem mixRound_injective (shift factor inverse : UInt64) (positive : 0 < shift.toNat % 64)
    (unit : factor * inverse = 1) : Function.Injective fun z : UInt64 => (z ^^^ (z >>> shift)) * factor := by
  intro x y same
  have words := congrArg UInt64.toBitVec same
  have invertible : factor.toBitVec * inverse.toBitVec = BitVec.ofNat 64 1 := congrArg UInt64.toBitVec unit
  have shifted := xorShift_injective positive (mul_injective_of_inverse invertible words)
  exact UInt64.toBitVec_inj.mp shifted

theorem splitmix64_injective : Function.Injective splitmix64 := by
  intro x y same
  apply (UInt64.add_left_inj 0x9E3779B97F4A7C15).mp
  apply mixRound_injective 30 0xBF58476D1CE4E5B9 0x96DE1B173F119089 (by decide) (by decide)
  apply mixRound_injective 27 0x94D049BB133111EB 0x319642B2D24D8EC3 (by decide) (by decide)
  -- the last round has no multiplication
  apply mixRound_injective 31 1 1 (by decide) (by decide)
  simp only [UInt64.mul_one]
  exact same

def words : UInt64 ≃ Fin (2 ^ 64) where
  toFun := UInt64.toFin
  invFun := UInt64.ofFin
  left_inv := UInt64.ofFin_toFin
  right_inv := UInt64.toFin_ofFin

theorem splitmix64_bijective : Function.Bijective splitmix64 := by
  have : Finite UInt64 := .of_equiv _ words.symm
  exact Finite.injective_iff_bijective.mp splitmix64_injective

noncomputable def RetryPolicy.seeds (policy : RetryPolicy) (attempts : UInt32) (delay : Duration) : Nat :=
  Nat.card {seed : UInt64 // policy.decide attempts seed = .retryAfter delay}

theorem Duration.fromMillis_injective : Function.Injective Duration.fromMillis := by
  intro a b same
  have nanos := congrArg Duration.nanos same
  simp only [Duration.fromMillis] at nanos
  exact UInt64.toNat_inj.mp (by omega)

/-- The word drawn for a seed: every word is drawn for exactly one. -/
noncomputable def draws (attempts : UInt32) : UInt64 ≃ Fin (2 ^ 64) :=
  (Equiv.ofBijective (fun seed => splitmix64 (seed ^^^ attempts.toUInt64)) (by
    have : Finite UInt64 := .of_equiv _ words.symm
    refine Finite.injective_iff_bijective.mp fun a b same => ?_
    exact (UInt64.xor_left_inj _).mp (splitmix64_injective same))).trans words

theorem RetryPolicy.decide_millis {policy : RetryPolicy} {attempts : UInt32} {seed : UInt64} {millis : Nat}
    (below : attempts < policy.maxAttempts) (small : millis ≤ policy.ceiling attempts) :
    policy.decide attempts seed = .retryAfter (.fromMillis (.ofNat millis)) ↔
      (draws attempts seed).val % (policy.ceiling attempts + 1) = millis := by
  have fits : millis < 2 ^ 64 := by
    unfold RetryPolicy.ceiling at small
    omega
  rw [RetryPolicy.decide_retry below, RetryDecision.retryAfter.injEq, Duration.fromMillis_injective.eq_iff,
    ← UInt64.toNat_inj, jitter_toNat, policy.clamped, UInt64.toNat_ofNat_of_lt' fits]
  rfl

theorem RetryPolicy.seeds_eq {policy : RetryPolicy} {attempts : UInt32} {millis : Nat}
    (below : attempts < policy.maxAttempts) (small : millis ≤ policy.ceiling attempts) :
    policy.seeds attempts (.fromMillis (.ofNat millis)) =
      2 ^ 64 / (policy.ceiling attempts + 1) +
        if millis < 2 ^ 64 % (policy.ceiling attempts + 1) then 1 else 0 := by
  unfold RetryPolicy.seeds
  simp only [RetryPolicy.decide_millis below small]
  exact card_residue (draws attempts) (by omega) (by omega)

/-- Full jitter is as uniform as 2^64 seeds allow. -/
theorem full_jitter_equidistributed :
    Function.Bijective splitmix64 ∧
      ∀ (policy : RetryPolicy) (attempts : UInt32), attempts < policy.maxAttempts →
        (∀ millis ≤ policy.ceiling attempts, ∃ seed,
          policy.decide attempts seed = .retryAfter (.fromMillis (.ofNat millis))) ∧
        ∀ left ≤ policy.ceiling attempts, ∀ right ≤ policy.ceiling attempts,
          policy.seeds attempts (.fromMillis (.ofNat left)) ≤
            policy.seeds attempts (.fromMillis (.ofNat right)) + 1 := by
  refine ⟨splitmix64_bijective, fun policy attempts below => ⟨fun millis small => ?_, ?_⟩⟩
  · have fits : millis < 2 ^ 64 := by
      unfold RetryPolicy.ceiling at small
      omega
    refine ⟨(draws attempts).symm ⟨millis, fits⟩, (RetryPolicy.decide_millis below small).mpr ?_⟩
    rw [Equiv.apply_symm_apply]
    exact Nat.mod_eq_of_lt (Nat.lt_succ_of_le small)
  · intro left leftSmall right rightSmall
    rw [RetryPolicy.seeds_eq below leftSmall, RetryPolicy.seeds_eq below rightSmall]
    split <;> split <;> omega

theorem full_jitter_equidistributed_second :
    ∃ seed, RetryPolicy.decide ⟨3, .fromSecs 1, .fromSecs 10⟩ 2 seed = .retryAfter (.fromMillis (.ofNat 2000)) :=
  (full_jitter_equidistributed.2 ⟨3, .fromSecs 1, .fromSecs 10⟩ 2 (by decide)).1 2000 (by decide)

end Koine.Domain
