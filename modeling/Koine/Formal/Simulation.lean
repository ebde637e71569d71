import Koine.Domain.Commands
import Koine.Formal.LeaseProtocol
import Koine.Library.Stutter

namespace Koine.Formal

open Library Domain

/-- What the events of a job say about its grants, the newest first, and about late acks: those under a
    lease that the job has granted and does not hold. -/
structure Ledger where
  granted : List LeaseId
  held : Option LeaseId
  conflicts : Nat

def Ledger.empty : Ledger := ⟨[], none, 0⟩

def Ledger.record (ledger : Ledger) : JobEvent → Ledger
  | .leased _ lease _ => { ledger with granted := lease :: ledger.granted, held := some lease }
  | .succeeded _ | .failed .. | .leaseExpired _ | .cancelled _ => { ledger with held := none }
  | .lateAckConflict _ lease _ =>
    if ledger.granted.contains lease && ledger.held != some lease then
      { ledger with conflicts := ledger.conflicts + 1 }
    else ledger
  | _ => ledger

def Ledger.recordAll (ledger : Ledger) (events : List JobEvent) : Ledger := events.foldl Ledger.record ledger

/-- The variables that the code has, without the abstract clock and the ghosts. -/
structure View where
  state : Phase
  attempt : Nat
  activeLease : Nat
  issued : Nat
  conflicts : Nat
  heartbeats : Nat
deriving DecidableEq

def Vars.view (vars : Vars) : View where
  state := vars.state
  attempt := vars.attempt
  activeLease := vars.activeLease
  issued := vars.issued
  conflicts := vars.conflicts
  heartbeats := vars.heartbeats

def phaseOf : JobState → Option Phase
  | .pending _ => some .pending
  | .leased .. => some .leased
  | .running .. => some .running
  | .succeeded => some .succeeded
  | .parked _ => some .parked
  | .cancelled => some .cancelled
  | .suspended | .awaitingApproval _ => none

def viewOf (heartbeats : Nat) (ledger : Ledger) (job : Job) : Option View :=
  (phaseOf job.state).map fun state =>
    { state
      attempt := job.attempt.toNat
      activeLease := if state.live then ledger.granted.length else noLease
      issued := ledger.granted.length
      conflicts := ledger.conflicts
      heartbeats }

/-- A run of the module to `vars` shows the same changes as `views`. -/
def Follows (constants : Constants) (views : List View) (vars : Vars) : Prop :=
  ∃ path rest, views = vars.view :: rest ∧ Run (Vars.Step constants) .init path vars ∧
    SameChanges views (Run.seen Vars.view .init path)

namespace Follows

variable {constants : Constants} {views : List View} {vars after : Vars} {act : Act}

theorem init (constants : Constants) : Follows constants [Vars.init.view] .init :=
  ⟨[], [], rfl, .refl, rfl⟩

theorem seen_head {path : Path} (run : Run (Vars.Step constants) .init path vars) :
    ∃ rest, Run.seen Vars.view .init path = vars.view :: rest := by
  cases run with
  | refl => exact ⟨[], rfl⟩
  | step run taken => exact ⟨_, rfl⟩

theorem acts (follows : Follows constants views vars) (taken : act.exec constants vars = some after) :
    Follows constants (after.view :: views) after := by
  obtain ⟨path, rest, rfl, run, same⟩ := follows
  obtain ⟨older, seen⟩ := seen_head run
  refine ⟨⟨vars, act, (), after⟩ :: path, vars.view :: rest, rfl, .step run taken, ?_⟩
  rw [seen] at same
  change SameChanges _ (after.view :: Run.seen Vars.view .init path)
  rw [seen]
  exact same.cons after.view

theorem silent (follows : Follows constants views vars) (taken : act.exec constants vars = some after)
    (unseen : after.view = vars.view) : Follows constants views after := by
  obtain ⟨path, rest, rfl, run, same⟩ := follows
  obtain ⟨older, seen⟩ := seen_head run
  refine ⟨⟨vars, act, (), after⟩ :: path, rest, by rw [unseen], .step run taken, ?_⟩
  rw [seen] at same
  change SameChanges _ (after.view :: Run.seen Vars.view .init path)
  rw [seen, unseen]
  exact same.repeat_right

theorem stay (follows : Follows constants views vars) : Follows constants (vars.view :: views) vars := by
  obtain ⟨path, rest, rfl, run, same⟩ := follows
  exact ⟨path, vars.view :: rest, rfl, run, same.repeat_left⟩

theorem counted (attempts : 1 ≤ constants.maxAttempts) (follows : Follows constants views vars) :
    vars.Counted constants := by
  obtain ⟨path, _, _, run, _⟩ := follows
  exact Run.counted attempts run

theorem ripen (follows : Follows constants views vars) (live : vars.state.live = true)
    (early : vars.now ≤ vars.deadline) : Follows constants views { vars with now := vars.deadline } := by
  obtain ⟨left, far⟩ := Nat.exists_eq_add_of_le early
  clear early
  induction left generalizing vars with
  | zero =>
    have ripe : ({ vars with now := vars.deadline } : Vars) = vars := by
      cases vars
      simp_all
    rw [ripe]
    exact follows
  | succ left ih =>
    have ticked : Act.exec constants vars .tick = some { vars with now := vars.now + 1 } :=
      if_pos ⟨live, by omega⟩
    have closer : vars.deadline = vars.now + 1 + left := by omega
    exact @ih { vars with now := vars.now + 1 } (follows.silent ticked rfl) live closer

end Follows

/-- The job as the code has it and the variables of the module agree. The abstract clock stands before
    the deadline of a grant, so that heartbeats can be taken at any time. -/
structure Matches (heartbeats : Nat) (ledger : Ledger) (job : Job) (vars : Vars) : Prop where
  shown : viewOf heartbeats ledger job = some vars.view
  held : ledger.held = job.state.held
  newest : ∀ lease, ledger.held = some lease → ledger.granted.head? = some lease
  early : vars.state.live = true → vars.now < vars.deadline

theorem Matches.vars {heartbeats : Nat} {ledger : Ledger} {job : Job} {vars : Vars}
    (matched : Matches heartbeats ledger job vars) :
    phaseOf job.state = some vars.state ∧ vars.attempt = job.attempt.toNat ∧
      vars.issued = ledger.granted.length ∧ vars.conflicts = ledger.conflicts ∧
      vars.heartbeats = heartbeats := by
  have shown := matched.shown
  unfold viewOf at shown
  obtain ⟨state, phase, view⟩ := Option.map_eq_some_iff.mp shown
  simp only [Vars.view, View.mk.injEq] at view
  obtain ⟨rfl, attempt, _, issued, conflicts, heartbeats⟩ := view
  exact ⟨phase, attempt.symm, issued.symm, conflicts.symm, heartbeats.symm⟩

def Shadow (constants : Constants) (heartbeats : Nat) (ledger : Ledger) (job : Job) (views : List View) : Prop :=
  ∃ vars, Follows constants views vars ∧ Matches heartbeats ledger job vars

/-- The constants of the module for a job: its own cap, and room for a grant in each attempt. -/
structure Suits (constants : Constants) (policy : RetryPolicy) : Prop where
  attempts : constants.maxAttempts = policy.maxAttempts.toNat
  positive : 1 ≤ constants.maxAttempts
  leases : constants.maxAttempts ≤ constants.maxLeases
  ttl : 1 ≤ constants.leaseTtl

section Commands

variable {constants : Constants} {heartbeats : Nat} {ledger : Ledger} {job next : Job} {views : List View}
  {vars after : Vars}

theorem Matches.phase {state : JobState} {phase : Phase} (matched : Matches heartbeats ledger job vars)
    (current : job.state = state) (named : phaseOf state = some phase) : vars.state = phase := by
  have shown := matched.vars.1
  rw [current, named] at shown
  exact (Option.some.inj shown).symm

theorem Matches.live {lease : LeaseId} (matched : Matches heartbeats ledger job vars)
    (held : job.state.held = some lease) : vars.state.live = true := by
  obtain ⟨worker, expiresAt, state | state⟩ := JobState.held_eq_some.mp held
  · rw [matched.phase state rfl]
    rfl
  · rw [matched.phase state rfl]
    rfl

theorem Suits.retry {attempt : UInt32} (suits : Suits constants job.retryPolicy)
    (counted : vars.attempt + 1 = attempt.toNat) (below : attempt < job.retryPolicy.maxAttempts) :
    retryOrPark constants vars = .pending := by
  have below := UInt32.lt_iff_toNat_lt.mp below
  have attempts := suits.attempts
  exact if_neg (by omega)

theorem Suits.park {attempt : UInt32} (suits : Suits constants job.retryPolicy)
    (counted : vars.attempt + 1 = attempt.toNat) (spent : job.retryPolicy.maxAttempts ≤ attempt) :
    retryOrPark constants vars = .parked := by
  have spent := UInt32.le_iff_toNat_le.mp spent
  have attempts := suits.attempts
  exact if_pos (by omega)

theorem Matches.succ [BuildProfile] {lease : LeaseId} {attempt : UInt32}
    (matched : Matches heartbeats ledger job vars) (suits : Suits constants job.retryPolicy)
    (counted : vars.Counted constants) (held : job.state.held = some lease)
    (succ : u32Succ job.attempt = some attempt) : vars.attempt + 1 = attempt.toNat := by
  have below := counted.ongoing (Phase.open_of_live (matched.live held))
  have same := matched.vars.2.1
  have width := job.retryPolicy.maxAttempts.toNat_lt
  have attempts := suits.attempts
  rw [u32Succ_toNat (by omega) succ, same]

theorem Vars.Counted.active_range (counted : vars.Counted constants) (live : vars.state.live = true) :
    1 ≤ vars.activeLease ∧ vars.activeLease ≤ constants.maxLeases := by
  have spent := counted.spent (Phase.open_of_live live)
  have issued := counted.issued
  have active := counted.active
  rw [live, if_pos rfl] at spent active
  omega

theorem Shadow.acted {act : Act} {ledger' : Ledger} (follows : Follows constants views vars)
    (taken : act.exec constants vars = some after) (matched : Matches heartbeats ledger' next after) :
    ∃ view, viewOf heartbeats ledger' next = some view ∧
      Shadow constants heartbeats ledger' next (view :: views) :=
  ⟨after.view, matched.shown, after, follows.acts taken, matched⟩

theorem phaseOf_live {state : JobState} {phase : Phase} (named : phaseOf state = some phase)
    (live : phase.live = true) : ∃ lease, state.held = some lease := by
  cases state with
  | leased worker lease expiresAt | running worker lease expiresAt => exact ⟨lease, rfl⟩
  | suspended | awaitingApproval => cases named
  | pending | succeeded | parked | cancelled =>
    cases named
    cases live

theorem Matches.granted_twice {lease : LeaseId} (matched : Matches heartbeats ledger job vars)
    (live : vars.state.live = true) (granted : lease ∈ ledger.granted) (free : ledger.held ≠ some lease) :
    2 ≤ ledger.granted.length := by
  obtain ⟨current, held⟩ := phaseOf_live matched.vars.1 live
  rw [← matched.held] at held
  have newest := matched.newest current held
  rw [held] at free
  cases grants : ledger.granted with
  | nil => simp [grants] at granted
  | cons first older =>
    rw [grants] at newest granted
    cases newest
    rcases List.mem_cons.mp granted with rfl | earlier
    · exact absurd rfl free
    · have nonempty := List.length_pos_of_mem earlier
      rw [List.length_cons]
      omega

theorem Shadow.lateAck {lease : LeaseId} {version : Nat} (positive : 1 ≤ constants.maxAttempts)
    (follows : Follows constants views vars) (matched : Matches heartbeats ledger job vars)
    (worker : WorkerId) (reported : ReportedOutcome) :
    ∃ view, viewOf heartbeats (ledger.record (.lateAckConflict worker lease reported)) { job with version } =
        some view ∧
      Shadow constants heartbeats (ledger.record (.lateAckConflict worker lease reported)) { job with version }
        (view :: views) := by
  obtain ⟨phase, attempt, issued, conflicts, beats⟩ := matched.vars
  have shown := matched.shown
  simp only [Ledger.record]
  split
  · rename_i late
    simp only [Bool.and_eq_true, List.contains_iff_mem, bne_iff_ne] at late
    obtain ⟨granted, free⟩ := late
    have counted := follows.counted positive
    have bound := counted.issued
    have nonempty := List.length_pos_of_mem granted
    -- the module does not look at which of the older grants the ack names: take the first one
    have old : 1 ≠ vars.activeLease := by
      rw [counted.active]
      split
      · rename_i live
        have twice := matched.granted_twice live granted free
        omega
      · exact Nat.one_ne_zero
    have taken : Act.exec constants vars (.lateAck 1) = some { vars with conflicts := vars.conflicts + 1 } :=
      if_pos ⟨⟨Nat.le_refl _, by omega⟩, old, by omega⟩
    refine Shadow.acted follows taken ⟨?_, matched.held, matched.newest, matched.early⟩
    rw [← conflicts]
    simp only [viewOf, phase, Option.map_some, Option.some.injEq, Vars.view, View.mk.injEq] at shown ⊢
    exact ⟨shown.1, shown.2.1, shown.2.2.1, shown.2.2.2.1, trivial, shown.2.2.2.2.2⟩
  · exact ⟨vars.view, shown, vars, follows.stay, ⟨shown, matched.held, matched.newest, matched.early⟩⟩

theorem Matches.released {attempt : UInt32} {state : JobState} {version : Nat} {phase : Phase}
    (matched : Matches heartbeats ledger job vars) (named : phaseOf state = some phase)
    (idle : phase.live = false) (free : state.held = none)
    (moved : after.view = ⟨phase, attempt.toNat, noLease, vars.issued, vars.conflicts, vars.heartbeats⟩) :
    Matches heartbeats { ledger with held := none } { job with attempt, state, version } after := by
  obtain ⟨_, _, issued, conflicts, beats⟩ := matched.vars
  refine ⟨?_, free.symm, by simp, ?_⟩
  · rw [moved]
    simp [viewOf, named, idle, issued, conflicts, beats]
  · intro live
    have same := congrArg View.state moved
    simp only [Vars.view] at same
    rw [same, idle] at live
    cases live

theorem Shadow.expired {attempt : UInt32} {state : JobState} {version : Nat} {phase : Phase}
    (follows : Follows constants views vars) (matched : Matches heartbeats ledger job vars)
    (live : vars.state.live = true) (spent : vars.attempt + 1 = attempt.toNat)
    (decided : retryOrPark constants vars = phase) (named : phaseOf state = some phase)
    (idle : phase.live = false) (free : state.held = none) :
    ∃ view, viewOf heartbeats { ledger with held := none } { job with attempt, state, version } = some view ∧
      Shadow constants heartbeats { ledger with held := none } { job with attempt, state, version }
        (view :: views) := by
  have ripe := follows.ripen live (Nat.le_of_lt (matched.early live))
  have taken : Act.exec constants { vars with now := vars.deadline } .expire = some { vars with
      now := vars.deadline
      attempt := vars.attempt + 1
      activeLease := noLease
      deadline := 0
      state := retryOrPark constants vars
      lastExpiredLease := vars.activeLease
      lastExpiryNow := vars.deadline } := if_pos ⟨live, Nat.le_refl _⟩
  refine Shadow.acted ripe taken (matched.released named idle free ?_)
  simp only [Vars.view, decided, spent]

theorem Shadow.failed {attempt : UInt32} {state : JobState} {version : Nat} {phase : Phase} (retryable : Bool)
    (positive : 1 ≤ constants.maxAttempts) (follows : Follows constants views vars)
    (matched : Matches heartbeats ledger job vars) (running : vars.state = .running)
    (spent : vars.attempt + 1 = attempt.toNat)
    (decided : (if retryable then retryOrPark constants vars else .parked) = phase)
    (named : phaseOf state = some phase) (idle : phase.live = false) (free : state.held = none) :
    ∃ view, viewOf heartbeats { ledger with held := none } { job with attempt, state, version } = some view ∧
      Shadow constants heartbeats { ledger with held := none } { job with attempt, state, version }
        (view :: views) := by
  have range := (follows.counted positive).active_range (by rw [running]; rfl)
  have taken : Act.exec constants vars (.ackFail vars.activeLease retryable) = some { vars with
      attempt := vars.attempt + 1
      activeLease := noLease
      deadline := 0
      state := if retryable then retryOrPark constants vars else .parked
      lastAckLease := vars.activeLease
      lastAckActiveLease := vars.activeLease
      lastFailRetryable := retryable
      lastFailParked := (if retryable then retryOrPark constants vars else .parked) = .parked } :=
    if_pos ⟨range, running, rfl⟩
  refine Shadow.acted follows taken (matched.released named idle free ?_)
  simp only [Vars.view, decided, spent]

/-- What a command records is one action of the module, an expiry after the clock has run to the deadline;
    a late ack may be none. -/
theorem Shadow.effect [BuildProfile] {events : List JobEvent} (suits : Suits constants job.retryPolicy)
    (shadow : Shadow constants heartbeats ledger job views) (effect : Job.Effect job events next) :
    ∃ view, viewOf heartbeats (ledger.recordAll events) next = some view ∧
      Shadow constants heartbeats (ledger.recordAll events) next (view :: views) := by
  obtain ⟨vars, follows, matched⟩ := shadow
  obtain ⟨phase, attempt, issued, conflicts, beats⟩ := matched.vars
  have counted := follows.counted suits.positive
  have leases := suits.leases
  have ttl := suits.ttl
  cases effect with
  | leased worker lease expiresAt state =>
    have pending := matched.phase state rfl
    have below := counted.ongoing (by rw [pending]; rfl)
    have grants := counted.spent (by rw [pending]; rfl)
    rw [pending] at grants
    simp only [Phase.live, Bool.false_eq_true, if_false] at grants
    have taken : Act.exec constants vars .lease = some { vars with
        issued := vars.issued + 1
        activeLease := vars.issued + 1
        deadline := vars.now + constants.leaseTtl
        state := .leased } := if_pos ⟨pending, by omega⟩
    refine Shadow.acted follows taken ⟨?_, rfl, fun _ held => held, ?_⟩
    · simp [viewOf, phaseOf, Vars.view, Ledger.recordAll, Ledger.record, Phase.live, attempt, issued, conflicts, beats]
    · intro _
      simp only
      omega
  | started state =>
    have leased := matched.phase state rfl
    have taken : Act.exec constants vars .start = some { vars with state := .running } := if_pos leased
    have shown := matched.shown
    refine Shadow.acted follows taken ⟨?_, ?_, matched.newest, ?_⟩
    · simp only [viewOf, state, phaseOf, Option.map_some, Option.some.injEq, Vars.view, View.mk.injEq] at shown ⊢
      exact ⟨trivial, shown.2⟩
    · exact matched.held.trans (by rw [state]; rfl)
    · intro _
      exact matched.early (by rw [leased]; rfl)
  | succeeded result state =>
    have running := matched.phase state rfl
    have range := counted.active_range (by rw [running]; rfl)
    have taken : Act.exec constants vars (.ackSucceed vars.activeLease) = some { vars with
        state := .succeeded
        activeLease := noLease
        deadline := 0
        lastAckLease := vars.activeLease
        lastAckActiveLease := vars.activeLease } := if_pos ⟨range, running, rfl⟩
    refine Shadow.acted follows taken (matched.released rfl rfl rfl ?_)
    simp only [Vars.view, attempt]
  | failedRetry error attempt notBefore state succ below =>
    have held : job.state.held = some _ := congrArg JobState.held state
    have spent := matched.succ suits counted held succ
    exact Shadow.failed true suits.positive follows matched (matched.phase state rfl) spent
      (suits.retry spent below) rfl rfl rfl
  | failedParked error attempt reason state succ cause =>
    have held : job.state.held = some _ := congrArg JobState.held state
    have spent := matched.succ suits counted held succ
    have running := matched.phase state rfl
    rcases cause with ⟨_, exhausted⟩ | _
    · exact Shadow.failed true suits.positive follows matched running spent (suits.park spent exhausted) rfl rfl rfl
    · exact Shadow.failed false suits.positive follows matched running spent rfl rfl rfl rfl
  | expiredRetry attempt notBefore held succ below =>
    have spent := matched.succ suits counted held succ
    exact Shadow.expired follows matched (matched.live held) spent (suits.retry spent below) rfl rfl rfl
  | expiredParked attempt held succ exhausted =>
    have spent := matched.succ suits counted held succ
    exact Shadow.expired follows matched (matched.live held) spent (suits.park spent exhausted) rfl rfl rfl
  | cancelled reason ongoing =>
    have taken : Act.exec constants vars .cancel = some { vars with
        state := .cancelled
        activeLease := noLease
        deadline := 0 } := by
      refine if_pos ⟨?_, ?_⟩
      · intro same
        rw [same] at phase
        cases state : job.state <;> simp_all [phaseOf]
      · intro same
        rw [same] at phase
        cases state : job.state <;> simp_all [phaseOf]
    refine Shadow.acted follows taken (matched.released rfl rfl rfl ?_)
    simp only [Vars.view, attempt]
  | lateAck worker lease reported => exact Shadow.lateAck suits.positive follows matched worker reported

theorem Shadow.renewed {lease : LeaseId} (positive : 1 ≤ constants.leaseTtl)
    (room : heartbeats < constants.maxHeartbeats) (held : job.state.held = some lease)
    (shadow : Shadow constants heartbeats ledger job views) :
    ∃ view, viewOf (heartbeats + 1) ledger job = some view ∧
      Shadow constants (heartbeats + 1) ledger job (view :: views) := by
  obtain ⟨vars, follows, matched⟩ := shadow
  have shown := matched.shown
  have live := matched.live held
  obtain ⟨phase, attempt, issued, conflicts, beats⟩ := matched.vars
  have taken : Act.exec constants vars .heartbeat = some { vars with
      deadline := vars.now + constants.leaseTtl
      heartbeats := vars.heartbeats + 1
      lastHeartbeatLease := vars.activeLease
      lastHeartbeatDeadline := vars.now + constants.leaseTtl } :=
    if_pos ⟨live, matched.early live, by omega⟩
  refine Shadow.acted follows taken ⟨?_, matched.held, matched.newest, ?_⟩
  · simp only [viewOf, phase, Option.map_some, Option.some.injEq, Vars.view, View.mk.injEq] at shown ⊢
    exact ⟨shown.1, shown.2.1, shown.2.2.1, shown.2.2.2.1, shown.2.2.2.2.1, by rw [beats]⟩
  · intro _
    simp only
    omega

theorem Shadow.unmoved (shadow : Shadow constants heartbeats ledger job views) :
    ∃ view, viewOf heartbeats ledger job = some view ∧ Shadow constants heartbeats ledger job (view :: views) := by
  obtain ⟨vars, follows, matched⟩ := shadow
  exact ⟨vars.view, matched.shown, vars, follows.stay, matched⟩

theorem Shadow.opened (constants : Constants) {id : JobId} {queue : QueueName} {payload : Value}
    {priority : Priority} {policy : RetryPolicy} {notBefore : Option DateTime} :
    ∃ view, viewOf 0 .empty (Job.opened id queue payload priority policy notBefore) = some view ∧
      Shadow constants 0 .empty (Job.opened id queue payload priority policy notBefore) [view] := by
  refine ⟨Vars.init.view, rfl, .init, .init constants, rfl, rfl, ?_, ?_⟩
  · intro lease held
    cases held
  · intro live
    cases live

end Commands

end Koine.Formal
