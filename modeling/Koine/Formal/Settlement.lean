import Koine.Formal.LeaseProtocol
import Koine.Library.Temporal
import Mathlib.Data.Prod.Lex

namespace Koine.Formal

open Library

/-- The actions that `Spec` is weakly fair to. -/
inductive Fair where
  | lease
  | heartbeat
  | tick
  | expire

def Fair.act : Fair → Act
  | .lease => .lease
  | .heartbeat => .heartbeat
  | .tick => .tick
  | .expire => .expire

def Takes (constants : Constants) (fair : Fair) (before after : Vars) : Prop :=
  fair.act.exec constants before = some after

structure Spec (constants : Constants) (behaviour : Nat → Vars) : Prop where
  init : behaviour 0 = .init
  next : Behaves (Next constants) behaviour
  fair : ∀ fair, WeaklyFair (Takes constants fair) behaviour

def EventuallySettled (behaviour : Nat → Vars) : Prop :=
  ∃ start, ∀ time, start ≤ time → (behaviour time).state.settled = true

/-- The fair action that moves an open job on: a claim, the clock, or the sweep. -/
def Vars.helpful (vars : Vars) : Fair :=
  if vars.state = .pending then .lease
  else if vars.now < vars.deadline then .tick
  else .expire

def Phase.ahead : Phase → Nat
  | .pending => 2
  | .leased => 1
  | _ => 0

/-- Attempts left, states ahead in this attempt, heartbeats left, time left. -/
def Vars.rank (constants : Constants) (vars : Vars) : ℕ ×ₗ ℕ ×ₗ ℕ ×ₗ ℕ :=
  toLex (constants.maxAttempts - vars.attempt, toLex (vars.state.ahead,
    toLex (constants.maxHeartbeats - vars.heartbeats, vars.deadline - vars.now)))

section Progress

variable {constants : Constants} {before after : Vars}

theorem Vars.rank_lt :
    after.rank constants < before.rank constants ↔
      constants.maxAttempts - after.attempt < constants.maxAttempts - before.attempt ∨
      constants.maxAttempts - after.attempt = constants.maxAttempts - before.attempt ∧
        (after.state.ahead < before.state.ahead ∨ after.state.ahead = before.state.ahead ∧
          (constants.maxHeartbeats - after.heartbeats < constants.maxHeartbeats - before.heartbeats ∨
            constants.maxHeartbeats - after.heartbeats = constants.maxHeartbeats - before.heartbeats ∧
              after.deadline - after.now < before.deadline - before.now)) := by
  simp only [Vars.rank, Prod.Lex.toLex_lt_toLex]

theorem Vars.rank_attempt (counted : before.Counted constants) (ongoing : before.state.settled = false)
    (spent : after.attempt = before.attempt + 1) : after.rank constants < before.rank constants := by
  have below := counted.ongoing ongoing
  exact Vars.rank_lt.mpr (.inl (by omega))

/-- Every action settles an open job or brings it closer, but for a late ack, which does neither. -/
theorem Act.closer {act : Act} (counted : before.Counted constants) (ongoing : before.state.settled = false)
    (taken : act.exec constants before = some after) :
    after.state.settled = true ∨ after.rank constants < before.rank constants ∨
      ∃ conflicts, after = { before with conflicts } := by
  cases act with
  | lease =>
    simp only [Act.exec, Option.ite_none_right_eq_some, Option.some.injEq] at taken
    obtain ⟨⟨state, _⟩, rfl⟩ := taken
    exact .inr (.inl (Vars.rank_lt.mpr (.inr ⟨rfl, .inl (by simp [state, Phase.ahead])⟩)))
  | start =>
    simp only [Act.exec, Option.ite_none_right_eq_some, Option.some.injEq] at taken
    obtain ⟨state, rfl⟩ := taken
    exact .inr (.inl (Vars.rank_lt.mpr (.inr ⟨rfl, .inl (by simp [state, Phase.ahead])⟩)))
  | ackSucceed grant =>
    simp only [Act.exec, Option.ite_none_right_eq_some, Option.some.injEq] at taken
    obtain ⟨_, rfl⟩ := taken
    exact .inl rfl
  | ackFail grant retryable =>
    simp only [Act.exec, Option.ite_none_right_eq_some, Option.some.injEq] at taken
    obtain ⟨_, rfl⟩ := taken
    exact .inr (.inl (Vars.rank_attempt counted ongoing rfl))
  | tick =>
    simp only [Act.exec, Option.ite_none_right_eq_some, Option.some.injEq] at taken
    obtain ⟨⟨_, early⟩, rfl⟩ := taken
    refine .inr (.inl (Vars.rank_lt.mpr (.inr ⟨rfl, .inr ⟨rfl, .inr ⟨rfl, ?_⟩⟩⟩)))
    simp only
    omega
  | heartbeat =>
    simp only [Act.exec, Option.ite_none_right_eq_some, Option.some.injEq] at taken
    obtain ⟨⟨_, _, room⟩, rfl⟩ := taken
    refine .inr (.inl (Vars.rank_lt.mpr (.inr ⟨rfl, .inr ⟨rfl, .inl ?_⟩⟩)))
    simp only
    omega
  | expire =>
    simp only [Act.exec, Option.ite_none_right_eq_some, Option.some.injEq] at taken
    obtain ⟨_, rfl⟩ := taken
    exact .inr (.inl (Vars.rank_attempt counted ongoing rfl))
  | lateAck grant =>
    simp only [Act.exec, Option.ite_none_right_eq_some, Option.some.injEq] at taken
    obtain ⟨_, rfl⟩ := taken
    exact .inr (.inr ⟨_, rfl⟩)
  | cancel =>
    simp only [Act.exec, Option.ite_none_right_eq_some, Option.some.injEq] at taken
    obtain ⟨_, rfl⟩ := taken
    exact .inl rfl

theorem Vars.Counted.helpful_enabled (leases : constants.maxAttempts ≤ constants.maxLeases)
    (counted : before.Counted constants) (ongoing : before.state.settled = false) :
    Enabled (Takes constants before.helpful) before := by
  have below := counted.ongoing ongoing
  have spent := counted.spent ongoing
  unfold Vars.helpful
  split
  · rename_i state
    rw [state] at spent
    have room : before.issued < constants.maxLeases := by
      simp only [Phase.live, Bool.false_eq_true, if_false] at spent
      omega
    refine ⟨_, if_pos ⟨state, room⟩, ?_⟩
    intro same
    have moved := congrArg Vars.state same
    rw [state] at moved
    cases moved
  · rename_i claimed
    have live : before.state.live = true := by
      cases state : before.state <;> simp_all [Phase.live, Phase.settled]
    split
    · rename_i early
      refine ⟨_, if_pos ⟨live, early⟩, ?_⟩
      intro same
      exact Nat.succ_ne_self _ (congrArg Vars.now same)
    · rename_i late
      refine ⟨_, if_pos ⟨live, Nat.le_of_not_lt late⟩, ?_⟩
      intro same
      exact Nat.succ_ne_self _ (congrArg Vars.attempt same)

theorem Takes.attentive {fair : Fair} (taken : Takes constants fair before after) (conflicts : Nat) :
    after ≠ { before with conflicts } := by
  intro late
  cases fair with
  | lease =>
    simp only [Takes, Fair.act, Act.exec, Option.ite_none_right_eq_some, Option.some.injEq] at taken
    obtain ⟨⟨state, _⟩, rfl⟩ := taken
    have same := congrArg Vars.state late
    rw [state] at same
    cases same
  | heartbeat =>
    simp only [Takes, Fair.act, Act.exec, Option.ite_none_right_eq_some, Option.some.injEq] at taken
    obtain ⟨_, rfl⟩ := taken
    exact Nat.succ_ne_self _ (congrArg Vars.heartbeats late)
  | tick =>
    simp only [Takes, Fair.act, Act.exec, Option.ite_none_right_eq_some, Option.some.injEq] at taken
    obtain ⟨_, rfl⟩ := taken
    exact Nat.succ_ne_self _ (congrArg Vars.now late)
  | expire =>
    simp only [Takes, Fair.act, Act.exec, Option.ite_none_right_eq_some, Option.some.injEq] at taken
    obtain ⟨_, rfl⟩ := taken
    exact Nat.succ_ne_self _ (congrArg Vars.attempt late)

theorem approaches (leases : constants.maxAttempts ≤ constants.maxLeases) :
    Approaches (Next constants) (Takes constants) (Vars.Counted constants) (fun vars => vars.state.settled = true)
      Vars.helpful (Vars.rank constants) where
  enabled := by
    intro vars counted ongoing
    exact counted.helpful_enabled leases (Bool.eq_false_iff.mpr ongoing)
  helps := by
    intro before after counted ongoing taken
    rcases Act.closer counted (Bool.eq_false_iff.mpr ongoing) taken.1 with settled | closer | ⟨conflicts, same⟩
    · exact .inl settled
    · exact .inr closer
    · exact absurd same (Takes.attentive taken.1 conflicts)
  kept := by
    rintro before after counted ongoing ⟨act, taken⟩
    rcases Act.closer counted (Bool.eq_false_iff.mpr ongoing) taken with settled | closer | ⟨conflicts, rfl⟩
    · exact .inl settled
    · exact .inr (.inl closer)
    · exact .inr (.inr ⟨rfl, rfl⟩)

theorem Act.settled {act : Act} (settled : before.state.settled = true)
    (taken : act.exec constants before = some after) : after.state.settled = true := by
  cases act with
  | lateAck grant =>
    simp only [Act.exec, Option.ite_none_right_eq_some, Option.some.injEq] at taken
    obtain ⟨_, rfl⟩ := taken
    exact settled
  | cancel =>
    simp only [Act.exec, Option.ite_none_right_eq_some, Option.some.injEq] at taken
    obtain ⟨_, rfl⟩ := taken
    rfl
  | lease =>
    simp only [Act.exec, Option.ite_none_right_eq_some] at taken
    simp [taken.1.1, Phase.settled] at settled
  | start =>
    simp only [Act.exec, Option.ite_none_right_eq_some] at taken
    simp [taken.1, Phase.settled] at settled
  | ackSucceed | ackFail =>
    simp only [Act.exec, Option.ite_none_right_eq_some] at taken
    simp [taken.1.2.1, Phase.settled] at settled
  | tick | heartbeat | expire =>
    simp only [Act.exec, Option.ite_none_right_eq_some] at taken
    rw [Phase.open_of_live taken.1.1] at settled
    cases settled

end Progress

theorem eventually_settled {constants : Constants} {behaviour : Nat → Vars} (attempts : 1 ≤ constants.maxAttempts)
    (leases : constants.maxAttempts ≤ constants.maxLeases) (spec : Spec constants behaviour) :
    EventuallySettled behaviour := by
  have counted : ∀ time, (behaviour time).Counted constants := by
    refine spec.next.invariant (Vars.Counted constants) ?_ ?_
    · rw [spec.init]
      exact .init attempts
    · rintro before after counted ⟨act, taken⟩
      exact counted.step taken
  obtain ⟨start, _, settled⟩ := (approaches leases).reached spec.next spec.fair counted 0
  refine ⟨start, ?_⟩
  intro time later
  exact spec.next.stays (fun vars => vars.state.settled = true) settled
    (by rintro before after reached ⟨act, taken⟩; exact Act.settled reached taken) later

namespace Sample

def single : Constants := ⟨1, 1, 0, 1⟩

def granted : Vars := { Vars.init with state := .leased, issued := 1, activeLease := 1, deadline := 1 }

def parked : Vars :=
  { Vars.init with state := .parked, attempt := 1, issued := 1, now := 1, lastExpiredLease := 1, lastExpiryNow := 1 }

def abandoned : Nat → Vars
  | 0 => .init
  | 1 => granted
  | 2 => { granted with now := 1 }
  | _ => parked

theorem parked_unfair (fair : Fair) : ¬ Enabled (Takes single fair) parked := by
  rintro ⟨after, taken, _⟩
  cases fair <;> cases taken

end Sample

theorem eventually_settled_abandoned : EventuallySettled Sample.abandoned := by
  refine @eventually_settled Sample.single _ (by decide) (by decide) ⟨rfl, ?_, ?_⟩
  · intro time
    rcases time with _ | _ | _ | time
    · exact .inl ⟨.lease, rfl⟩
    · exact .inl ⟨.tick, rfl⟩
    · exact .inl ⟨.expire, rfl⟩
    · exact .inr rfl
  · intro fair start enabled
    exact absurd (enabled (start + 3) (Nat.le_add_right ..)) (Sample.parked_unfair fair)

end Koine.Formal
