import Mathlib.Data.List.Infix
import Koine.Domain.Commands

namespace Koine.Domain

open Library

def JobState.terminal : JobState → Bool
  | .succeeded | .cancelled => true
  | _ => false

def JobEvent.isLateAck : JobEvent → Bool
  | .lateAckConflict .. => true
  | _ => false

@[reducible] def BuildProfile.checked : BuildProfile := ⟨true⟩

def attemptsAfter (count : Nat) : JobEvent → Nat
  | .failed _ attempt | .retryScheduled attempt _ => attempt.toNat
  | .leaseExpired _ => count + 1
  | .repaired .. => 0
  | _ => count

namespace Job

variable [BuildProfile]

/-- Events applied one by one; what a rejected event leaves behind is what the next one is applied to. -/
def replay (job : Job) : List JobEvent → Job
  | [] => job
  | event :: rest => (job.apply event).1.replay rest

theorem replay_append (job : Job) (left right : List JobEvent) :
    job.replay (left ++ right) = (job.replay left).replay right := by
  induction left generalizing job with
  | nil => rfl
  | cons event left ih => exact ih _

theorem apply_refused {job next : Job} {event : JobEvent} {error : DomainError}
    (refused : job.apply event = (next, .err error)) : next = job := by
  unfold apply at refused
  split at refused
  case h_6 | h_7 => split at refused <;> cases refused
  all_goals cases refused
  rfl

theorem apply_unwound {job next : Job} {event : JobEvent} (unwound : job.apply event = (next, .panic)) :
    u32Succ job.attempt = none ∧ job.state.held.isSome = true ∧ ∃ lease, event = .leaseExpired lease := by
  unfold apply at unwound
  split at unwound
  case h_6 | h_7 =>
    rename_i state
    split at unwound
    · cases unwound
    · rw [state]
      exact ⟨by assumption, rfl, _, rfl⟩
  all_goals cases unwound

theorem apply_expiry {job : Job} (held : job.state.held.isSome = true) (lease : LeaseId) :
    job.apply (.leaseExpired lease) = match u32Succ job.attempt with
      | some attempt => { job with attempt }.advance (.pending none)
      | none => (job, .panic) := by
  obtain ⟨other, held⟩ := Option.isSome_iff_exists.mp held
  obtain ⟨worker, expiresAt, state | state⟩ := JobState.held_eq_some.mp held
  all_goals
    cases job
    cases state
    rfl

theorem apply_payload {job next : Job} {event : JobEvent} (accepted : job.apply event = (next, .ok ())) :
    next.payload = job.payload ∨ ∃ newPayload note, event = .repaired (some newPayload) note := by
  unfold apply at accepted
  split at accepted
  case h_6 | h_7 =>
    split at accepted
    · cases accepted
      exact .inl rfl
    · cases accepted
  all_goals cases accepted
  all_goals try exact .inl rfl
  -- only a repair is left
  rename_i newPayload note _
  cases newPayload with
  | none => exact .inl rfl
  | some payload => exact .inr ⟨payload, note, rfl⟩

theorem apply_terminal {job next : Job} {event : JobEvent} (terminal : job.state.terminal = true)
    (accepted : job.apply event = (next, .ok ())) :
    event.isLateAck = true ∧ next.state = job.state := by
  cases state : job.state <;> rw [state] at terminal <;> try cases terminal
  all_goals cases event <;> simp only [apply, state, advance] at accepted <;> cases accepted
  all_goals exact ⟨rfl, rfl⟩

structure Atomic (job : Job) (event : JobEvent) : Prop where
  answered : (job.apply event).2 ≠ .panic
  rejected : ∀ error, (job.apply event).2 = .err error → (job.apply event).1 = job
  accepted : (job.apply event).2 = .ok () → (job.apply event).1.version = job.version + 1
  identity : SameIdentity job (job.apply event).1
  payload : (job.apply event).1.payload ≠ job.payload →
    (job.apply event).2 = .ok () ∧ ∃ newPayload note, event = .repaired (some newPayload) note
  absorbed : job.state.terminal = true → (job.apply event).1.state = job.state ∧
    ((job.apply event).2 = .ok () → event.isLateAck = true)
  late : event.isLateAck = true → (job.apply event).2 = .ok ()

theorem apply_atomic {job : Job} (event : JobEvent) (room : job.attempt.toNat + 1 < 2 ^ 32) :
    Atomic job event := by
  rcases applied : job.apply event with ⟨next, _ | error | _⟩
  · obtain ⟨version, identity⟩ := apply_accepted applied
    constructor <;> rw [applied]
    case answered => nofun
    case rejected => nofun
    case accepted => exact fun _ => version
    case identity => exact identity
    case payload => exact fun changed => ⟨rfl, (apply_payload applied).resolve_left changed⟩
    case absorbed =>
      intro terminal
      obtain ⟨late, state⟩ := apply_terminal terminal applied
      exact ⟨state, fun _ => late⟩
    case late => exact fun _ => rfl
  · have same := apply_refused applied
    subst same
    constructor <;> rw [applied]
    case answered => nofun
    case rejected => exact fun _ _ => rfl
    case accepted => nofun
    case identity => exact .refl _
    case payload => exact fun changed => absurd rfl changed
    case absorbed => exact fun _ => ⟨rfl, nofun⟩
    case late =>
      intro late
      cases event <;> try cases late
      have verdict := congrArg Prod.snd applied
      rw [apply_lateAck] at verdict
      cases verdict
  · exact absurd (apply_unwound applied).1 (u32Succ_of_room room)

theorem replay_identity {job : Job} {events : List JobEvent}
    (counted : ∀ before, before <+: events → (job.replay before).attempt.toNat + 1 < 2 ^ 32) :
    SameIdentity job (job.replay events) := by
  induction events using List.reverseRecOn with
  | nil => exact .refl _
  | append_singleton events event ih =>
    have earlier := ih fun before early => counted before (early.trans (List.prefix_append ..))
    rw [replay_append]
    exact earlier.trans (apply_atomic event (counted events (List.prefix_append ..))).identity

theorem replay_terminal {job : Job} {events : List JobEvent} (terminal : job.state.terminal = true)
    (counted : ∀ before, before <+: events → (job.replay before).attempt.toNat + 1 < 2 ^ 32) :
    (job.replay events).state = job.state := by
  induction events using List.reverseRecOn with
  | nil => rfl
  | append_singleton events event ih =>
    have earlier := ih fun before early => counted before (early.trans (List.prefix_append ..))
    have atomic := apply_atomic event (counted events (List.prefix_append ..))
    rw [replay_append]
    rw [← earlier] at terminal ⊢
    exact (atomic.absorbed terminal).1

/-- Replaying any events, rejected ones skipped: each step is atomic, a job keeps its identity, and a
    terminal state is final. -/
theorem replay_is_atomic (job : Job) (events : List JobEvent)
    (counted : ∀ before, before <+: events → (job.replay before).attempt.toNat < 2 ^ 32 - 1) :
    (∀ before event after, events = before ++ event :: after → Atomic (job.replay before) event) ∧
      ∀ before after, events = before ++ after →
        SameIdentity job (job.replay before) ∧
          ((job.replay before).state.terminal = true →
            (job.replay events).state = (job.replay before).state) := by
  have room : ∀ before, before <+: events → (job.replay before).attempt.toNat + 1 < 2 ^ 32 := by
    intro before early
    have := counted before early
    omega
  refine ⟨?_, ?_⟩
  · rintro before event after rfl
    exact apply_atomic event (room before (List.prefix_append ..))
  · rintro before after rfl
    refine ⟨replay_identity fun past early => room past (early.trans (List.prefix_append ..)), ?_⟩
    intro terminal
    rw [replay_append]
    refine replay_terminal terminal fun past early => ?_
    rw [← replay_append]
    exact room _ ((List.prefix_append_right_inj before).mpr early)

omit [BuildProfile] in
theorem worker_named : workerIdError "worker-1" = none := by decide

omit [BuildProfile] in
theorem queue_named : queueNameError "default" = none := by decide

def strayEvents : List JobEvent :=
  [.leased ⟨"worker-1", worker_named⟩ ⟨1⟩ ⟨0, by decide, by decide⟩, .started ⟨"worker-1", worker_named⟩,
    .succeeded none, .started ⟨"worker-1", worker_named⟩,
    .lateAckConflict ⟨"worker-1", worker_named⟩ ⟨1⟩ .failed]

def freshJob : Job :=
  opened ⟨0⟩ ⟨"default", queue_named⟩ .null ⟨0⟩ ⟨3, .fromSecs 1, .fromSecs 60⟩ none

omit [BuildProfile] in
theorem replay_is_atomic_stray :
    (@replay .release freshJob strayEvents).state = (@replay .release freshJob (strayEvents.take 3)).state := by
  let _ := BuildProfile.release
  refine ((replay_is_atomic freshJob strayEvents ?_).2 (strayEvents.take 3) (strayEvents.drop 3) rfl).2 rfl
  intro before early
  rw [← List.mem_inits] at early
  revert before
  decide

end Job

namespace Job

/-- The attempt count that the events of a stream spell out. -/
def attemptsOf (stream : List EventEnvelope) : Nat := (stream.map (·.event)).foldl attemptsAfter 0

/-- Whether `attempt + 1` is computed next: by the fold, on an expiry, or at the end of the stream by a command. -/
def Adds (job : Job) (next : Option EventEnvelope) : Prop :=
  job.state.held.isSome = true ∧
    ∀ envelope ∈ next, envelope.version = job.version + 1 ∧ ∃ lease, envelope.event = .leaseExpired lease

section Overflow

-- a build that checks for overflow panics where there is one
attribute [local instance] BuildProfile.checked

def NeverOverflows (stream : List EventEnvelope) : Prop :=
  fromEvents stream ≠ .panic ∧ ∀ job, fromEvents stream = .ok job →
    (∀ lease error now seed, job.fail lease error now seed ≠ .panic) ∧ ∀ now seed, job.expireLease now seed ≠ .panic

/-- Wherever `attempt + 1` is computed, the count that the events up to there spell out is below `u32::MAX`. -/
def Room (stream : List EventEnvelope) : Prop :=
  ∀ before after job, stream = before ++ after → fromEvents before = .ok job → job.Adds after.head? →
    attemptsOf before < 2 ^ 32 - 1

variable {job next result : Job} {envelopes : List EventEnvelope}

theorem u32Succ_checked {attempt : UInt32} : u32Succ attempt = none ↔ ¬ attempt.toNat < 2 ^ 32 - 1 := by
  unfold u32Succ
  split
  · simp
    omega
  · simp
    omega

theorem apply_attempt {event : JobEvent} (accepted : job.apply event = (next, .ok ())) :
    next.attempt.toNat = attemptsAfter job.attempt.toNat event := by
  unfold apply at accepted
  split at accepted
  case h_6 | h_7 =>
    split at accepted
    · rename_i attempt counted
      cases accepted
      have room : job.attempt.toNat < 2 ^ 32 - 1 := by
        by_contra full
        rw [u32Succ_checked.mpr full] at counted
        cases counted
      exact u32Succ_toNat (by omega) counted
    · cases accepted
  all_goals cases accepted
  all_goals rfl

theorem foldRest_attempt (folded : job.foldRest envelopes = .ok result) :
    result.attempt.toNat = (envelopes.map (·.event)).foldl attemptsAfter job.attempt.toNat := by
  induction envelopes generalizing job with
  | nil =>
    cases folded
    rfl
  | cons envelope envelopes ih =>
    rw [foldRest] at folded
    split at folded
    · cases folded
    · split at folded
      · rename_i next accepted
        rw [List.map_cons, List.foldl_cons, ← apply_attempt accepted]
        exact ih folded
      · cases folded
      · cases folded

theorem fromEvents_attempt {stream : List EventEnvelope} (folded : fromEvents stream = .ok job) :
    job.attempt.toNat = attemptsOf stream := by
  unfold fromEvents at folded
  split at folded
  · cases folded
  · rename_i first rest
    split at folded
    · rename_i opens
      split at folded
      · cases folded
      · rw [attemptsOf, List.map_cons, opens]
        exact foldRest_attempt folded
    · cases folded

def Overflows (job : Job) (envelopes : List EventEnvelope) : Prop :=
  ∃ before after reached, envelopes = before ++ after ∧ job.foldRest before = .ok reached ∧
    reached.Adds after.head? ∧ u32Succ reached.attempt = none

theorem overflows_nil : job.Overflows [] ↔ job.state.held.isSome = true ∧ u32Succ job.attempt = none := by
  constructor
  · rintro ⟨before, after, reached, split, folded, adds, full⟩
    obtain ⟨rfl, rfl⟩ := List.append_eq_nil_iff.mp split.symm
    cases folded
    exact ⟨adds.1, full⟩
  · rintro ⟨held, full⟩
    exact ⟨[], [], job, rfl, rfl, ⟨held, by simp⟩, full⟩

theorem overflows_cons {envelope : EventEnvelope} :
    job.Overflows (envelope :: envelopes) ↔ (job.Adds (some envelope) ∧ u32Succ job.attempt = none) ∨
      envelope.version = job.version + 1 ∧
        ∃ next, job.apply envelope.event = (next, .ok ()) ∧ next.Overflows envelopes := by
  constructor
  · rintro ⟨before, after, reached, split, folded, adds, full⟩
    cases before with
    | nil =>
      cases folded
      rw [List.nil_append] at split
      subst split
      exact .inl ⟨adds, full⟩
    | cons first before =>
      obtain ⟨rfl, rfl⟩ := List.cons.inj split
      rw [foldRest] at folded
      split at folded
      · cases folded
      · rename_i follows
        split at folded
        · rename_i next accepted
          exact .inr ⟨not_not.mp follows, next, accepted, before, after, reached, rfl, folded, adds, full⟩
        · cases folded
        · cases folded
  · rintro (⟨adds, full⟩ | ⟨follows, next, accepted, before, after, reached, rfl, folded, adds, full⟩)
    · exact ⟨[], envelope :: envelopes, job, rfl, rfl, adds, full⟩
    · refine ⟨envelope :: before, after, reached, rfl, ?_, adds, full⟩
      rw [foldRest, if_neg (not_not.mpr follows), accepted]
      exact folded

theorem apply_panic {event : JobEvent} : (job.apply event).2 = .panic ↔
    u32Succ job.attempt = none ∧ job.state.held.isSome = true ∧ ∃ lease, event = .leaseExpired lease := by
  constructor
  · exact fun unwound => apply_unwound (Prod.ext rfl unwound)
  · rintro ⟨full, held, lease, rfl⟩
    rw [apply_expiry held, full]

theorem overflows_iff : job.Overflows envelopes ↔ job.foldRest envelopes = .panic ∨
    ∃ result, job.foldRest envelopes = .ok result ∧ result.state.held.isSome = true ∧
      u32Succ result.attempt = none := by
  induction envelopes generalizing job with
  | nil =>
    rw [overflows_nil, foldRest]
    simp
  | cons envelope envelopes ih =>
    rw [overflows_cons, foldRest]
    by_cases follows : envelope.version = job.version + 1
    · rw [if_neg (not_not.mpr follows)]
      have adds : job.Adds (some envelope) ∧ u32Succ job.attempt = none ↔ (job.apply envelope.event).2 = .panic := by
        rw [apply_panic, Adds]
        simp only [Option.mem_some_iff, forall_eq', follows, true_and]
        tauto
      rw [adds]
      rcases applied : job.apply envelope.event with ⟨next, _ | error | _⟩
      · simp [follows, ih]
      · simp
      · simp
    · rw [if_pos follows]
      simp [Adds, follows]

theorem fromEvents_opening (first : EventEnvelope) :
    (∃ start, ∀ (profile : BuildProfile) (rest : List EventEnvelope),
        @fromEvents profile (first :: rest) = @foldRest profile start rest) ∨
      ∃ error, ∀ (profile : BuildProfile) (rest : List EventEnvelope),
        @fromEvents profile (first :: rest) = .err error := by
  cases event : first.event
  case enqueued queue payload priority retryPolicy notBefore =>
    by_cases opens : first.version = 1
    · refine .inl ⟨opened first.streamId queue payload priority retryPolicy notBefore, fun profile rest => ?_⟩
      simp [fromEvents, event, opens]
    · refine .inr ⟨.nonSequentialVersion 1 first.version, fun profile rest => ?_⟩
      simp [fromEvents, event, opens]
  all_goals
    refine .inr ⟨.streamMustStartWithEnqueued first.event.kind, fun profile rest => ?_⟩
    simp [fromEvents, event]

theorem room_iff {stream : List EventEnvelope} : Room stream ↔ fromEvents stream ≠ .panic ∧
    ∀ job, fromEvents stream = .ok job → job.state.held.isSome = true → u32Succ job.attempt ≠ none := by
  have spelled : Room stream ↔ ∀ before after job, stream = before ++ after → fromEvents before = .ok job →
      job.Adds after.head? → u32Succ job.attempt ≠ none := by
    refine forall₃_congr fun before after job => forall₂_congr fun _ folded => ?_
    rw [Ne, u32Succ_checked, not_not, fromEvents_attempt folded]
  rw [spelled]
  cases stream with
  | nil =>
    refine iff_of_true (fun before after job split folded => ?_) ⟨by simp [fromEvents], by simp [fromEvents]⟩
    rw [(List.append_eq_nil_iff.mp split.symm).1] at folded
    cases folded
  | cons first rest =>
    rcases fromEvents_opening first with ⟨start, opens⟩ | ⟨error, fails⟩
    · have overflows : (∀ before after job, first :: rest = before ++ after → fromEvents before = .ok job →
          job.Adds after.head? → u32Succ job.attempt ≠ none) ↔ ¬ start.Overflows rest := by
        constructor
        · rintro room ⟨before, after, reached, rfl, folded, adds, full⟩
          exact room (first :: before) after reached rfl ((opens _ before).trans folded) adds full
        · intro none before after job split folded adds full
          cases before with
          | nil => cases folded
          | cons other before =>
            obtain ⟨rfl, rfl⟩ := List.cons.inj split
            exact none ⟨before, after, job, rfl, (opens _ before).symm.trans folded, adds, full⟩
      rw [overflows, overflows_iff, opens, not_or]
      simp only [not_exists, not_and, Ne]
    · rw [fails]
      refine iff_of_true (fun before after job split folded => ?_) ⟨by simp, by simp⟩
      cases before with
      | nil => cases folded
      | cons other before =>
        cases (List.cons.inj split).1
        rw [fails] at folded
        cases folded

theorem neverOverflows_iff {stream : List EventEnvelope} : NeverOverflows stream ↔ Room stream := by
  rw [room_iff, NeverOverflows]
  refine and_congr_right fun _ => forall₂_congr fun job _ => ?_
  constructor
  · rintro ⟨_, expires⟩ held full
    exact expires ⟨0, by decide, by decide⟩ 0 (expireLease_panic.mpr ⟨full, held⟩)
  · intro room
    refine ⟨fun lease error now seed unwound => ?_, fun now seed unwound => ?_⟩
    · exact room (Option.isSome_of_mem (fail_panic unwound).2) (fail_panic unwound).1
    · exact room (expireLease_panic.mp unwound).2 (expireLease_panic.mp unwound).1

end Overflow

section Profiles

variable [BuildProfile] {job : Job}

theorem u32Succ_agrees {attempt : UInt32} (room : @u32Succ .checked attempt ≠ none) :
    u32Succ attempt = @u32Succ .checked attempt := by
  have bound := not_not.mp (mt u32Succ_checked.mpr room)
  rw [u32Succ_eq (by omega), @u32Succ_eq .checked attempt (by omega)]

theorem apply_agrees {event : JobEvent} (through : (@apply .checked job event).2 ≠ .panic) :
    job.apply event = @apply .checked job event := by
  have room : job.state.held.isSome = true → ∀ lease, event = .leaseExpired lease →
      u32Succ job.attempt = @u32Succ .checked job.attempt := by
    intro held lease same
    refine u32Succ_agrees fun full => through ?_
    exact apply_panic.mpr ⟨full, held, lease, same⟩
  clear through
  unfold apply
  split
  case h_6 | h_7 =>
    rename_i state
    rw [room (by rw [state]; rfl) _ rfl]
  all_goals rfl

theorem foldRest_agrees {envelopes : List EventEnvelope} (through : @foldRest .checked job envelopes ≠ .panic) :
    job.foldRest envelopes = @foldRest .checked job envelopes := by
  induction envelopes generalizing job with
  | nil => rfl
  | cons envelope envelopes ih =>
    unfold foldRest at through ⊢
    split at through
    · rename_i apart
      rw [if_pos apart, if_pos apart]
    · rename_i follows
      rw [if_neg follows, if_neg follows]
      have same : job.apply envelope.event = @apply .checked job envelope.event := by
        refine apply_agrees fun unwound => through ?_
        rw [show @apply .checked job envelope.event = ((@apply .checked job envelope.event).1, .panic) from
          Prod.ext rfl unwound]
      rw [same]
      split at through
      · exact ih through
      · rfl
      · rfl

theorem fromEvents_agrees {stream : List EventEnvelope} (through : @fromEvents .checked stream ≠ .panic) :
    fromEvents stream = @fromEvents .checked stream := by
  cases stream with
  | nil => rfl
  | cons first rest =>
    rcases fromEvents_opening first with ⟨start, opens⟩ | ⟨error, fails⟩
    · rw [opens] at through ⊢
      rw [opens, foldRest_agrees through]
    · rw [fails, fails]

/-- No addition of the fold or of a command on its job overflows exactly where the events of the stream leave room
    for it. Then the counter is the number they spell out, whether or not the build checks for overflow. -/
theorem attempts_never_overflow (stream : List EventEnvelope) :
    (NeverOverflows stream ↔ Room stream) ∧
      (Room stream → fromEvents stream ≠ .panic ∧ ∀ job, fromEvents stream = .ok job →
        job.attempt.toNat = attemptsOf stream ∧
          (∀ lease error now seed, job.fail lease error now seed ≠ .panic) ∧
          ∀ now seed, job.expireLease now seed ≠ .panic) := by
  refine ⟨neverOverflows_iff, fun room => ?_⟩
  obtain ⟨through, rest⟩ := room_iff.mp room
  rw [fromEvents_agrees through]
  refine ⟨through, fun job folded => ?_⟩
  have counted : job.state.held.isSome = true → u32Succ job.attempt ≠ none := by
    intro held
    rw [u32Succ_agrees (rest job folded held)]
    exact rest job folded held
  refine ⟨fromEvents_attempt folded, fun _ _ _ _ unwound => ?_, fun _ _ unwound => ?_⟩
  · exact counted (Option.isSome_of_mem (fail_panic unwound).2) (fail_panic unwound).1
  · exact counted (expireLease_panic.mp unwound).2 (expireLease_panic.mp unwound).1

end Profiles

def streamOf (events : List JobEvent) : List EventEnvelope :=
  (initialEvent ⟨"default", queue_named⟩ .null ⟨0⟩ ⟨3, .fromSecs 1, .fromSecs 60⟩ none :: events).mapIdx
    fun k event =>
      { eventId := ⟨.ofNat 128 k⟩, streamId := ⟨0⟩, version := k + 1, recordedAt := ⟨0, by decide, by decide⟩
        correlationId := ⟨0⟩, causationId := none, traceparent := none, schemaVersion, event }

/-- A recorded failure may carry any attempt; here the last one there is, followed by a new lease. -/
def exhaustedEvents : List JobEvent :=
  [.leased ⟨"worker-1", worker_named⟩ ⟨1⟩ ⟨0, by decide, by decide⟩, .started ⟨"worker-1", worker_named⟩,
    .failed ⟨"boom", "", none, true⟩ 4294967295,
    .leased ⟨"worker-1", worker_named⟩ ⟨2⟩ ⟨0, by decide, by decide⟩, .started ⟨"worker-1", worker_named⟩]

/-- The fold panics on the next expiry where overflow is checked and starts over at zero where it is
    not; the commands on the folded job do the same. -/
theorem full_counter_overflows :
    @fromEvents .checked (streamOf (exhaustedEvents ++ [.leaseExpired ⟨2⟩])) = .panic ∧
      (∃ job, @fromEvents .release (streamOf (exhaustedEvents ++ [.leaseExpired ⟨2⟩])) = .ok job ∧
        job.attempt = 0) ∧
      ∃ job, @fromEvents .checked (streamOf exhaustedEvents) = .ok job ∧
        @fail .checked job ⟨2⟩ ⟨"boom", "", none, true⟩ ⟨0, by decide, by decide⟩ 0 = .panic ∧
        @expireLease .checked job ⟨0, by decide, by decide⟩ 0 = .panic :=
  ⟨rfl, ⟨_, rfl, rfl⟩, ⟨_, rfl, rfl, rfl⟩⟩

end Job

end Koine.Domain
