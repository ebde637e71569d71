import Koine.Library.History
import Mathlib.Tactic.Ring

namespace Koine.Formal

open Library

/-- The constants that actions and invariants of `lease_protocol.tla` read. -/
structure Constants where
  maxAttempts : Nat
  maxLeases : Nat
  maxHeartbeats : Nat
  leaseTtl : Nat

inductive Phase where
  | pending
  | leased
  | running
  | succeeded
  | parked
  | cancelled
deriving DecidableEq

def Phase.live : Phase → Bool
  | .leased | .running => true
  | _ => false

/-- `Terminal \cup {"parked"}`. -/
def Phase.settled : Phase → Bool
  | .succeeded | .cancelled | .parked => true
  | _ => false

def noLease : Nat := 0

/-- The variables of the module; those called `last…` are ghosts that no action reads. -/
structure Vars where
  state : Phase
  attempt : Nat
  activeLease : Nat
  issued : Nat
  conflicts : Nat
  now : Nat
  deadline : Nat
  heartbeats : Nat
  lastAckLease : Nat
  lastAckActiveLease : Nat
  lastFailRetryable : Bool
  lastFailParked : Bool
  lastHeartbeatLease : Nat
  lastHeartbeatDeadline : Nat
  lastExpiredLease : Nat
  lastExpiryNow : Nat
deriving DecidableEq

def Vars.init : Vars where
  state := .pending
  attempt := 0
  activeLease := noLease
  issued := 0
  conflicts := 0
  now := 0
  deadline := 0
  heartbeats := 0
  lastAckLease := noLease
  lastAckActiveLease := noLease
  lastFailRetryable := true
  lastFailParked := true
  lastHeartbeatLease := noLease
  lastHeartbeatDeadline := 0
  lastExpiredLease := noLease
  lastExpiryNow := 0

inductive Act where
  | lease
  | start
  | ackSucceed (grant : Nat)
  | ackFail (grant : Nat) (retryable : Bool)
  | tick
  | heartbeat
  | expire
  | lateAck (grant : Nat)
  | cancel

def retryOrPark (constants : Constants) (vars : Vars) : Phase :=
  if constants.maxAttempts ≤ vars.attempt + 1 then .parked else .pending

/-- One action of the module, or none where its guard fails; a lease that an action names ranges over
    `1..MaxLeases`. -/
def Act.exec (constants : Constants) (vars : Vars) : Act → Option Vars
  | .lease =>
    if vars.state = .pending ∧ vars.issued < constants.maxLeases then
      some { vars with
        issued := vars.issued + 1
        activeLease := vars.issued + 1
        deadline := vars.now + constants.leaseTtl
        state := .leased }
    else none
  | .start => if vars.state = .leased then some { vars with state := .running } else none
  | .ackSucceed grant =>
    if (1 ≤ grant ∧ grant ≤ constants.maxLeases) ∧ vars.state = .running ∧ grant = vars.activeLease then
      some { vars with
        state := .succeeded
        activeLease := noLease
        deadline := 0
        lastAckLease := grant
        lastAckActiveLease := vars.activeLease }
    else none
  | .ackFail grant retryable =>
    let nextState := if retryable then retryOrPark constants vars else .parked
    if (1 ≤ grant ∧ grant ≤ constants.maxLeases) ∧ vars.state = .running ∧ grant = vars.activeLease then
      some { vars with
        attempt := vars.attempt + 1
        activeLease := noLease
        deadline := 0
        state := nextState
        lastAckLease := grant
        lastAckActiveLease := vars.activeLease
        lastFailRetryable := retryable
        lastFailParked := nextState = .parked }
    else none
  | .tick =>
    if vars.state.live ∧ vars.now < vars.deadline then some { vars with now := vars.now + 1 } else none
  | .heartbeat =>
    if vars.state.live ∧ vars.now < vars.deadline ∧ vars.heartbeats < constants.maxHeartbeats then
      some { vars with
        deadline := vars.now + constants.leaseTtl
        heartbeats := vars.heartbeats + 1
        lastHeartbeatLease := vars.activeLease
        lastHeartbeatDeadline := vars.now + constants.leaseTtl }
    else none
  | .expire =>
    if vars.state.live ∧ vars.deadline ≤ vars.now then
      some { vars with
        attempt := vars.attempt + 1
        activeLease := noLease
        deadline := 0
        state := retryOrPark constants vars
        lastExpiredLease := vars.activeLease
        lastExpiryNow := vars.now }
    else none
  | .lateAck grant =>
    if (1 ≤ grant ∧ grant ≤ constants.maxLeases) ∧ grant ≠ vars.activeLease ∧ grant ≤ vars.issued then
      some { vars with conflicts := vars.conflicts + 1 }
    else none
  | .cancel =>
    if vars.state ≠ .succeeded ∧ vars.state ≠ .cancelled then
      some { vars with
        state := .cancelled
        activeLease := noLease
        deadline := 0 }
    else none

def Vars.Step (constants : Constants) (before : Vars) (act : Act) (_ : Unit) (after : Vars) : Prop :=
  act.exec constants before = some after

def Next (constants : Constants) (before after : Vars) : Prop :=
  ∃ act : Act, act.exec constants before = some after

section Invariants

variable (constants : Constants) (vars : Vars)

/-- `TypeOK` without the memberships that the types of the fields say already. -/
def TypeOK : Prop :=
  vars.attempt ≤ constants.maxAttempts ∧ vars.activeLease ≤ constants.maxLeases ∧
    vars.issued ≤ constants.maxLeases ∧ vars.heartbeats ≤ constants.maxHeartbeats ∧
    vars.now ≤ (vars.issued + vars.heartbeats) * constants.leaseTtl ∧
    vars.deadline ≤ (vars.issued + vars.heartbeats) * constants.leaseTtl ∧
    vars.lastAckLease ≤ constants.maxLeases ∧ vars.lastAckActiveLease ≤ constants.maxLeases ∧
    vars.lastHeartbeatLease ≤ constants.maxLeases ∧ vars.lastExpiredLease ≤ constants.maxLeases

def NoDualLease : Prop := vars.state.live = true → vars.activeLease ≠ noLease

def FreshLeases : Prop := vars.activeLease ≤ vars.issued

def AttemptCapped : Prop := vars.attempt ≤ constants.maxAttempts

def LeaseFencingOK : Prop := vars.lastAckLease = vars.lastAckActiveLease

def NoLeaseWhenIdle : Prop := vars.state.live = false → vars.activeLease = noLease

def NonRetryableAlwaysParks : Prop := vars.lastFailRetryable = true ∨ vars.lastFailParked = true

def HeartbeatExpiryFence : Prop :=
  vars.lastExpiredLease = noLease ∨ vars.lastExpiredLease ≠ vars.lastHeartbeatLease ∨
    vars.lastHeartbeatDeadline ≤ vars.lastExpiryNow

end Invariants

theorem Phase.open_of_live {phase : Phase} (live : phase.live = true) : phase.settled = false := by
  cases phase <;> first | rfl | cases live

/-- The counters: attempts and grants move together, and the time is within what grants and
    heartbeats have bought. -/
structure Vars.Counted (constants : Constants) (vars : Vars) : Prop where
  ongoing : vars.state.settled = false → vars.attempt < constants.maxAttempts
  capped : vars.attempt ≤ constants.maxAttempts
  issued : vars.issued ≤ constants.maxLeases
  renewed : vars.heartbeats ≤ constants.maxHeartbeats
  clock : vars.now ≤ (vars.issued + vars.heartbeats) * constants.leaseTtl
  due : vars.deadline ≤ (vars.issued + vars.heartbeats) * constants.leaseTtl
  active : vars.activeLease = if vars.state.live then vars.issued else noLease
  spent : vars.state.settled = false → vars.issued = vars.attempt + if vars.state.live then 1 else 0

structure Vars.Fenced (vars : Vars) : Prop where
  beaten : vars.lastHeartbeatLease ≤ vars.issued
  beating : vars.state.live = true → vars.lastHeartbeatLease = vars.issued →
    vars.deadline = vars.lastHeartbeatDeadline
  expired : vars.lastExpiredLease ≤ vars.issued
  unexpired : vars.state.live = true → vars.lastExpiredLease ≠ vars.issued
  fence : HeartbeatExpiryFence vars
  acked : vars.lastAckLease = vars.lastAckActiveLease ∧ vars.lastAckLease ≤ vars.issued
  parks : NonRetryableAlwaysParks vars

section Steps

variable {constants : Constants} {before after : Vars} {act : Act}

theorem Vars.Counted.init (attempts : 1 ≤ constants.maxAttempts) : Vars.init.Counted constants := by
  refine ⟨fun _ => attempts, Nat.zero_le _, Nat.zero_le _, Nat.zero_le _, Nat.zero_le _, Nat.zero_le _, rfl,
    fun _ => rfl⟩

theorem retryOrPark_cases (constants : Constants) (vars : Vars) :
    (retryOrPark constants vars = .parked) ∨
      (retryOrPark constants vars = .pending ∧ vars.attempt + 1 < constants.maxAttempts) := by
  unfold retryOrPark
  split
  · exact .inl rfl
  · exact .inr ⟨rfl, by omega⟩

theorem Vars.Counted.settle (counted : before.Counted constants) (live : before.state.live = true)
    (state : after.state = .parked ∨ (after.state = .pending ∧ before.attempt + 1 < constants.maxAttempts))
    (attempt : after.attempt = before.attempt + 1) (active : after.activeLease = noLease)
    (deadline : after.deadline = 0)
    (rest : after.issued = before.issued ∧ after.heartbeats = before.heartbeats ∧ after.now = before.now) :
    after.Counted constants := by
  obtain ⟨issued, heartbeats, now⟩ := rest
  have below := counted.ongoing (Phase.open_of_live live)
  have spent := counted.spent (Phase.open_of_live live)
  rw [live, if_pos rfl] at spent
  refine ⟨?_, by omega, issued ▸ counted.issued, heartbeats ▸ counted.renewed, ?_, ?_, ?_, ?_⟩
  · intro ongoing
    rcases state with state | ⟨_, room⟩
    · rw [state] at ongoing
      cases ongoing
    · omega
  · rw [now, issued, heartbeats]
    exact counted.clock
  · rw [deadline]
    exact Nat.zero_le _
  · rw [active]
    rcases state with state | ⟨state, _⟩ <;> rw [state] <;> rfl
  · intro ongoing
    rcases state with state | ⟨state, _⟩
    · rw [state] at ongoing
      cases ongoing
    · rw [state, issued, attempt, spent]
      rfl

theorem Vars.Counted.step (counted : before.Counted constants)
    (taken : act.exec constants before = some after) : after.Counted constants := by
  have facts := counted
  obtain ⟨ongoing, capped, issued, renewed, clock, due, active, spent⟩ := facts
  cases act with
  | lease =>
    simp only [Act.exec, Option.ite_none_right_eq_some, Option.some.injEq] at taken
    obtain ⟨⟨state, room⟩, rfl⟩ := taken
    have granted : (before.issued + 1 + before.heartbeats) * constants.leaseTtl =
      (before.issued + before.heartbeats) * constants.leaseTtl + constants.leaseTtl := by ring
    rw [state] at ongoing spent
    refine ⟨fun _ => ongoing rfl, capped, room, renewed, ?_, ?_, rfl, fun _ => congrArg (· + 1) (spent rfl)⟩
    · simp only [granted]
      omega
    · simp only [granted]
      omega
  | start =>
    simp only [Act.exec, Option.ite_none_right_eq_some, Option.some.injEq] at taken
    obtain ⟨state, rfl⟩ := taken
    rw [state] at ongoing spent active
    exact ⟨fun _ => ongoing rfl, capped, issued, renewed, clock, due, active, fun _ => spent rfl⟩
  | ackSucceed grant =>
    simp only [Act.exec, Option.ite_none_right_eq_some, Option.some.injEq] at taken
    obtain ⟨_, rfl⟩ := taken
    exact ⟨by simp [Phase.settled], capped, issued, renewed, clock, Nat.zero_le _, rfl, by simp [Phase.settled]⟩
  | ackFail grant retryable =>
    simp only [Act.exec, Option.ite_none_right_eq_some, Option.some.injEq] at taken
    obtain ⟨⟨_, state, _⟩, rfl⟩ := taken
    refine counted.settle (by rw [state]; rfl) ?_ rfl rfl rfl ⟨rfl, rfl, rfl⟩
    cases retryable with
    | false => exact .inl rfl
    | true => exact retryOrPark_cases constants before
  | tick =>
    simp only [Act.exec, Option.ite_none_right_eq_some, Option.some.injEq] at taken
    obtain ⟨⟨_, early⟩, rfl⟩ := taken
    exact ⟨ongoing, capped, issued, renewed, Nat.le_trans early due, due, active, spent⟩
  | heartbeat =>
    simp only [Act.exec, Option.ite_none_right_eq_some, Option.some.injEq] at taken
    obtain ⟨⟨_, early, room⟩, rfl⟩ := taken
    have renewal : (before.issued + (before.heartbeats + 1)) * constants.leaseTtl =
      (before.issued + before.heartbeats) * constants.leaseTtl + constants.leaseTtl := by ring
    refine ⟨ongoing, capped, issued, room, ?_, ?_, active, spent⟩
    · simp only [renewal]
      omega
    · simp only [renewal]
      omega
  | expire =>
    simp only [Act.exec, Option.ite_none_right_eq_some, Option.some.injEq] at taken
    obtain ⟨⟨live, _⟩, rfl⟩ := taken
    exact counted.settle live (retryOrPark_cases constants before) rfl rfl rfl ⟨rfl, rfl, rfl⟩
  | lateAck grant =>
    simp only [Act.exec, Option.ite_none_right_eq_some, Option.some.injEq] at taken
    obtain ⟨_, rfl⟩ := taken
    exact ⟨ongoing, capped, issued, renewed, clock, due, active, spent⟩
  | cancel =>
    simp only [Act.exec, Option.ite_none_right_eq_some, Option.some.injEq] at taken
    obtain ⟨_, rfl⟩ := taken
    exact ⟨by simp [Phase.settled], capped, issued, renewed, clock, Nat.zero_le _, rfl, by simp [Phase.settled]⟩

theorem Vars.Fenced.init : Vars.init.Fenced := by
  refine ⟨Nat.le_refl _, ?_, Nat.le_refl _, ?_, .inl rfl, ⟨rfl, Nat.le_refl _⟩, .inl rfl⟩
  · intro live
    cases live
  · intro live
    cases live

theorem Vars.Fenced.step (counted : before.Counted constants) (fenced : before.Fenced)
    (taken : act.exec constants before = some after) : after.Fenced := by
  obtain ⟨beaten, beating, expired, unexpired, fence, acked, parks⟩ := fenced
  cases act with
  | lease =>
    simp only [Act.exec, Option.ite_none_right_eq_some, Option.some.injEq] at taken
    obtain ⟨_, rfl⟩ := taken
    refine ⟨Nat.le_succ_of_le beaten, ?_, Nat.le_succ_of_le expired, ?_, fence,
      ⟨acked.1, Nat.le_succ_of_le acked.2⟩, parks⟩
    · intro _ same
      simp only at same
      omega
    · intro _ same
      simp only at same
      omega
  | start =>
    simp only [Act.exec, Option.ite_none_right_eq_some, Option.some.injEq] at taken
    obtain ⟨state, rfl⟩ := taken
    rw [state] at beating unexpired
    exact ⟨beaten, fun _ => beating rfl, expired, fun _ => unexpired rfl, fence, acked, parks⟩
  | ackSucceed grant =>
    simp only [Act.exec, Option.ite_none_right_eq_some, Option.some.injEq] at taken
    obtain ⟨⟨_, state, named⟩, rfl⟩ := taken
    have active := counted.active
    rw [state] at active
    refine ⟨beaten, ?_, expired, ?_, fence, ⟨named, ?_⟩, parks⟩
    · intro live
      cases live
    · intro live
      cases live
    · exact Nat.le_of_eq (named.trans active)
  | ackFail grant retryable =>
    simp only [Act.exec, Option.ite_none_right_eq_some, Option.some.injEq] at taken
    obtain ⟨⟨_, state, named⟩, rfl⟩ := taken
    have active := counted.active
    rw [state] at active
    have idle : (if retryable then retryOrPark constants before else Phase.parked).live = false := by
      cases retryable with
      | false => rfl
      | true => rcases retryOrPark_cases constants before with parked | ⟨pending, _⟩ <;> simp [*, Phase.live]
    refine ⟨beaten, ?_, expired, ?_, fence, ⟨named, ?_⟩, ?_⟩
    · intro live
      rw [idle] at live
      cases live
    · intro live
      rw [idle] at live
      cases live
    · exact Nat.le_of_eq (named.trans active)
    · cases retryable with
      | false => exact .inr (by simp)
      | true => exact .inl rfl
  | tick =>
    simp only [Act.exec, Option.ite_none_right_eq_some, Option.some.injEq] at taken
    obtain ⟨_, rfl⟩ := taken
    exact ⟨beaten, beating, expired, unexpired, fence, acked, parks⟩
  | heartbeat =>
    simp only [Act.exec, Option.ite_none_right_eq_some, Option.some.injEq] at taken
    obtain ⟨⟨live, _⟩, rfl⟩ := taken
    have active := counted.active
    rw [live] at active
    refine ⟨Nat.le_of_eq active, fun _ _ => rfl, expired, unexpired, .inr (.inl ?_), acked, parks⟩
    simp only [active, if_true]
    exact unexpired live
  | expire =>
    simp only [Act.exec, Option.ite_none_right_eq_some, Option.some.injEq] at taken
    obtain ⟨⟨live, late⟩, rfl⟩ := taken
    have active := counted.active
    rw [live] at active
    have idle : (retryOrPark constants before).live = false := by
      rcases retryOrPark_cases constants before with parked | ⟨pending, _⟩ <;> simp [*, Phase.live]
    refine ⟨beaten, ?_, Nat.le_of_eq active, ?_, ?_, acked, parks⟩
    · intro live
      rw [idle] at live
      cases live
    · intro live
      rw [idle] at live
      cases live
    · by_cases same : before.activeLease = before.lastHeartbeatLease
      -- the grant that the last heartbeat renewed still has the deadline of that heartbeat
      · refine .inr (.inr ?_)
        simp only [← beating live (same.symm.trans active)]
        exact late
      · exact .inr (.inl same)
  | lateAck grant =>
    simp only [Act.exec, Option.ite_none_right_eq_some, Option.some.injEq] at taken
    obtain ⟨_, rfl⟩ := taken
    exact ⟨beaten, beating, expired, unexpired, fence, acked, parks⟩
  | cancel =>
    simp only [Act.exec, Option.ite_none_right_eq_some, Option.some.injEq] at taken
    obtain ⟨_, rfl⟩ := taken
    refine ⟨beaten, ?_, expired, ?_, fence, acked, parks⟩
    · intro live
      cases live
    · intro live
      cases live

end Steps

abbrev Path := List (Record Vars Act Unit)

section Runs

variable {constants : Constants}

theorem Run.counted {path : Path} {vars : Vars} (attempts : 1 ≤ constants.maxAttempts)
    (run : Run (Vars.Step constants) .init path vars) : vars.Counted constants :=
  run.invariant (Vars.Counted constants) (.init attempts) fun _ _ _ _ counted taken => counted.step taken

theorem Run.fenced {path : Path} {vars : Vars} (attempts : 1 ≤ constants.maxAttempts)
    (run : Run (Vars.Step constants) .init path vars) : vars.Fenced := by
  have both := run.invariant (fun vars => vars.Counted constants ∧ vars.Fenced)
    ⟨.init attempts, .init⟩ fun _ _ _ _ kept taken => ⟨kept.1.step taken, kept.2.step kept.1 taken⟩
  exact both.2

/-- The eight invariants that the model checker is given hold for all constants and runs of any length. -/
theorem protocol_invariants {path : Path} {vars : Vars} (attempts : 1 ≤ constants.maxAttempts)
    (run : Run (Vars.Step constants) .init path vars) :
    TypeOK constants vars ∧ NoDualLease vars ∧ FreshLeases vars ∧ AttemptCapped constants vars ∧
      LeaseFencingOK vars ∧ NoLeaseWhenIdle vars ∧ NonRetryableAlwaysParks vars ∧ HeartbeatExpiryFence vars := by
  have counted := Run.counted attempts run
  have fenced := Run.fenced attempts run
  obtain ⟨acked, ackedBelow⟩ := fenced.acked
  have issued := counted.issued
  have fresh : vars.activeLease ≤ vars.issued := by
    rw [counted.active]
    split
    · exact Nat.le_refl _
    · exact Nat.zero_le _
  refine ⟨⟨counted.capped, fresh.trans issued, issued, counted.renewed, counted.clock, counted.due,
    ackedBelow.trans issued, acked ▸ ackedBelow.trans issued, fenced.beaten.trans issued,
    fenced.expired.trans issued⟩, ?_, fresh, counted.capped, acked, ?_, fenced.parks, fenced.fence⟩
  · intro live
    have spent := counted.spent (Phase.open_of_live live)
    rw [live, if_pos rfl] at spent
    rw [counted.active, if_pos live, spent]
    exact Nat.succ_ne_zero _
  · intro idle
    rw [counted.active, idle]
    rfl

end Runs

/-- The constants of `lease_protocol.cfg`. -/
def checked : Constants := ⟨3, 5, 2, 2⟩

def renewedActs : List Act := [.expire, .tick, .tick, .heartbeat, .tick, .lease]

def Act.attempt (constants : Constants) (acts : List Act) : Option (Path × Vars) :=
  Run.attempt (fun act vars => (act.exec constants vars).map (·, ())) .init acts

theorem Act.of_attempt {constants : Constants} {acts : List Act} {path : Path} {vars : Vars}
    (ran : Act.attempt constants acts = some (path, vars)) : Run (Vars.Step constants) .init path vars := by
  refine (Run.of_attempt ?_ ran).1
  intro act before after result taken
  simpa [Vars.Step] using taken

theorem protocol_invariants_renewed :
    ∃ path vars, Run (Vars.Step checked) .init path vars ∧ vars.lastHeartbeatLease = 1 ∧
      vars.lastExpiredLease = 1 ∧ vars.attempt = 1 ∧ TypeOK checked vars ∧ HeartbeatExpiryFence vars := by
  have ran : Act.attempt checked renewedActs = some _ := rfl
  have run := Act.of_attempt ran
  obtain ⟨types, _, _, _, _, _, _, fence⟩ := protocol_invariants (by decide) run
  exact ⟨_, _, run, rfl, rfl, rfl, types, fence⟩

end Koine.Formal
