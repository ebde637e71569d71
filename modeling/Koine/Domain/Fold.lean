import Koine.Domain.Job

namespace Koine.Domain

open Library

def JobState.dispatchable : JobState → Bool
  | .pending _ | .leased .. | .running .. => true
  | _ => false

def JobState.held : JobState → Option LeaseId
  | .leased _ lease _ | .running _ lease _ => some lease
  | _ => none

theorem JobState.held_eq_some {state : JobState} {lease : LeaseId} :
    state.held = some lease ↔
      ∃ worker expiresAt, state = .leased worker lease expiresAt ∨ state = .running worker lease expiresAt := by
  cases state <;> simp [JobState.held, eq_comm]

def JobState.heldUntil : JobState → Option DateTime
  | .leased _ _ expiresAt | .running _ _ expiresAt => some expiresAt
  | _ => none

def JobEvent.grantedUntil : JobEvent → Option DateTime
  | .leased _ _ expiresAt => some expiresAt
  | _ => none

def lastGrant (events : List JobEvent) : Option DateTime := events.reverse.findSome? JobEvent.grantedUntil

theorem lastGrant_cons (event : JobEvent) (events : List JobEvent) :
    lastGrant (event :: events) = (lastGrant events).or event.grantedUntil := by
  rw [lastGrant, List.reverse_cons, List.findSome?_append, lastGrant, List.findSome?_singleton]

namespace Job

variable [BuildProfile]

/-- The fold of `from_events` without its version check. -/
def applyEvents (job : Job) : List JobEvent → Outcome DomainError Job
  | [] => .ok job
  | event :: rest =>
    match job.apply event with
    | (next, .ok ()) => next.applyEvents rest
    | (_, .err error) => .err error
    | (_, .panic) => .panic

def SameIdentity (job next : Job) : Prop :=
  next.id = job.id ∧ next.queue = job.queue ∧ next.priority = job.priority ∧
    next.retryPolicy = job.retryPolicy

omit [BuildProfile] in
theorem SameIdentity.refl (job : Job) : SameIdentity job job := ⟨rfl, rfl, rfl, rfl⟩

omit [BuildProfile] in
theorem SameIdentity.trans {first second third : Job} (left : SameIdentity first second)
    (right : SameIdentity second third) : SameIdentity first third :=
  ⟨right.1.trans left.1, right.2.1.trans left.2.1, right.2.2.1.trans left.2.2.1,
    right.2.2.2.trans left.2.2.2⟩

theorem apply_accepted {job next : Job} {event : JobEvent}
    (accepted : job.apply event = (next, .ok ())) :
    next.version = job.version + 1 ∧ SameIdentity job next := by
  unfold apply at accepted
  split at accepted
  case h_6 | h_7 =>
    split at accepted
    · cases accepted
      exact ⟨rfl, rfl, rfl, rfl, rfl⟩
    · cases accepted
  all_goals cases accepted
  all_goals exact ⟨rfl, rfl, rfl, rfl, rfl⟩

theorem apply_held {job next : Job} {event : JobEvent}
    (accepted : job.apply event = (next, .ok ())) (lease : LeaseId)
    (held : next.state.held = some lease) :
    (∃ worker expiresAt, event = .leased worker lease expiresAt) ∨
      (job.state.held = some lease ∧ ∀ worker other expiresAt, event ≠ .leased worker other expiresAt) := by
  unfold apply at accepted
  split at accepted
  case h_6 | h_7 =>
    split at accepted
    · cases accepted
      cases held
    · cases accepted
  all_goals cases accepted
  all_goals simp_all [JobState.held]

theorem apply_heldUntil {job next : Job} {event : JobEvent} (accepted : job.apply event = (next, .ok ()))
    {deadline : DateTime} (held : next.state.heldUntil = some deadline) :
    event.grantedUntil = some deadline ∨ (event.grantedUntil = none ∧ job.state.heldUntil = some deadline) := by
  unfold apply at accepted
  split at accepted
  case h_6 | h_7 =>
    split at accepted
    · cases accepted
      cases held
    · cases accepted
  all_goals cases accepted
  all_goals simp_all [JobState.heldUntil, JobEvent.grantedUntil]

theorem foldRest_cons_ok {job result : Job} {envelope : EventEnvelope} {rest : List EventEnvelope} :
    job.foldRest (envelope :: rest) = .ok result ↔
      envelope.version = job.version + 1 ∧
        ∃ next, job.apply envelope.event = (next, .ok ()) ∧ next.foldRest rest = .ok result := by
  rw [foldRest]
  split
  · simp_all
  · rename_i sequential
    rw [not_not] at sequential
    split <;> simp_all

theorem foldRest_append (job : Job) (left right : List EventEnvelope) :
    job.foldRest (left ++ right) = (job.foldRest left >>= fun middle => middle.foldRest right) := by
  induction left generalizing job with
  | nil => rfl
  | cons envelope left ih =>
    rw [List.cons_append, foldRest, foldRest]
    split
    · rfl
    · split
      · exact ih _
      · rfl
      · rfl

theorem foldRest_version {job result : Job} {envelopes : List EventEnvelope}
    (folded : job.foldRest envelopes = .ok result) :
    result.version = job.version + envelopes.length ∧ SameIdentity job result := by
  induction envelopes generalizing job with
  | nil =>
    cases folded
    exact ⟨rfl, .refl _⟩
  | cons envelope envelopes ih =>
    obtain ⟨_, next, accepted, rest⟩ := foldRest_cons_ok.mp folded
    have first := apply_accepted accepted
    have last := ih rest
    refine ⟨?_, first.2.trans last.2⟩
    rw [last.1, first.1, List.length_cons]
    omega

theorem foldRest_heldUntil {job result : Job} {envelopes : List EventEnvelope}
    (folded : job.foldRest envelopes = .ok result) {deadline : DateTime}
    (held : result.state.heldUntil = some deadline) :
    (lastGrant (envelopes.map (·.event))).or job.state.heldUntil = some deadline := by
  induction envelopes generalizing job with
  | nil =>
    cases folded
    exact held
  | cons envelope envelopes ih =>
    obtain ⟨_, next, accepted, rest⟩ := foldRest_cons_ok.mp folded
    rw [List.map_cons, lastGrant_cons]
    have later := ih rest
    cases last : lastGrant (envelopes.map (·.event)) with
    | some granted =>
      rw [last] at later
      exact later
    | none =>
      rw [last, Option.none_or] at later
      rcases apply_heldUntil accepted later with grants | ⟨none, kept⟩
      · rw [grants]
        rfl
      · rw [none, kept]
        rfl

def Sequential (base : Nat) : List EventEnvelope → Prop
  | [] => True
  | envelope :: rest => envelope.version = base + 1 ∧ Sequential (base + 1) rest

omit [BuildProfile] in
theorem sequential_append {base : Nat} {left right : List EventEnvelope} :
    Sequential base (left ++ right) ↔ Sequential base left ∧ Sequential (base + left.length) right := by
  induction left generalizing base with
  | nil => simp [Sequential]
  | cons envelope left ih =>
    simp only [List.cons_append, Sequential, ih, List.length_cons, and_assoc,
      show base + 1 + left.length = base + (left.length + 1) by omega]

theorem foldRest_sequential {job result : Job} {envelopes : List EventEnvelope}
    (folded : job.foldRest envelopes = .ok result) : Sequential job.version envelopes := by
  induction envelopes generalizing job with
  | nil => trivial
  | cons envelope envelopes ih =>
    obtain ⟨version, next, accepted, rest⟩ := foldRest_cons_ok.mp folded
    refine ⟨version, ?_⟩
    rw [← (apply_accepted accepted).1]
    exact ih rest

theorem foldRest_eq_applyEvents {job : Job} {envelopes : List EventEnvelope}
    (sequential : Sequential job.version envelopes) :
    job.foldRest envelopes = job.applyEvents (envelopes.map (·.event)) := by
  induction envelopes generalizing job with
  | nil => rfl
  | cons envelope envelopes ih =>
    rw [foldRest, List.map_cons, applyEvents, if_neg (not_not.mpr sequential.1)]
    rcases applied : job.apply envelope.event with ⟨next, _ | _ | _⟩
    · apply ih
      rw [(apply_accepted applied).1]
      exact sequential.2
    · rfl
    · rfl

theorem fromEvents_cons_ok {first : EventEnvelope} {rest : List EventEnvelope} {job : Job} :
    fromEvents (first :: rest) = .ok job ↔
      ∃ queue payload priority retryPolicy notBefore,
        first.event = .enqueued queue payload priority retryPolicy notBefore ∧ first.version = 1 ∧
          (opened first.streamId queue payload priority retryPolicy notBefore).foldRest rest = .ok job := by
  rw [fromEvents]
  split
  · split <;> simp_all
  · rename_i other
    simp only [reduceCtorEq, false_iff]
    rintro ⟨queue, payload, priority, retryPolicy, notBefore, event, _⟩
    exact other _ _ _ _ _ event

theorem fromEvents_ne_nil {stream : List EventEnvelope} {job : Job}
    (folded : fromEvents stream = .ok job) : stream ≠ [] := by
  rintro rfl
  cases folded

theorem fromEvents_append {stream : List EventEnvelope} (batch : List EventEnvelope)
    (nonempty : stream ≠ []) :
    fromEvents (stream ++ batch) = (fromEvents stream >>= fun job => job.foldRest batch) := by
  obtain ⟨first, rest, rfl⟩ := List.exists_cons_of_ne_nil nonempty
  rw [List.cons_append, fromEvents, fromEvents]
  split
  · split
    · rfl
    · exact foldRest_append _ _ _
  · rfl

theorem fromEvents_extend {stream batch : List EventEnvelope} {job : Job}
    (folded : fromEvents stream = .ok job) :
    fromEvents (stream ++ batch) = job.foldRest batch := by
  rw [fromEvents_append batch (fromEvents_ne_nil folded), folded]
  rfl

theorem fromEvents_version {stream : List EventEnvelope} {job : Job}
    (folded : fromEvents stream = .ok job) : job.version = stream.length := by
  cases stream with
  | nil => cases folded
  | cons first rest =>
    obtain ⟨_, _, _, _, _, _, _, rest⟩ := fromEvents_cons_ok.mp folded
    have version := (foldRest_version rest).1
    simp only [opened, List.length_cons] at version ⊢
    omega

theorem fromEvents_id {stream : List EventEnvelope} {job : Job} {id : JobId}
    (folded : fromEvents stream = .ok job) (keyed : ∀ envelope ∈ stream, envelope.streamId = id) :
    job.id = id := by
  cases stream with
  | nil => cases folded
  | cons first rest =>
    obtain ⟨_, _, _, _, _, _, _, rest⟩ := fromEvents_cons_ok.mp folded
    rw [(foldRest_version rest).2.1]
    exact keyed first (by simp)

theorem fromEvents_sequential {stream : List EventEnvelope} {job : Job}
    (folded : fromEvents stream = .ok job) : Sequential 0 stream := by
  cases stream with
  | nil => trivial
  | cons first rest =>
    obtain ⟨_, _, _, _, _, _, version, rest⟩ := fromEvents_cons_ok.mp folded
    exact ⟨version, foldRest_sequential rest⟩

theorem fromEvents_heldUntil {stream : List EventEnvelope} {job : Job} (folded : fromEvents stream = .ok job)
    {deadline : DateTime} (held : job.state.heldUntil = some deadline) :
    lastGrant (stream.map (·.event)) = some deadline := by
  cases stream with
  | nil => cases folded
  | cons first rest =>
    obtain ⟨_, _, _, _, _, opens, _, rest⟩ := fromEvents_cons_ok.mp folded
    have later := foldRest_heldUntil rest held
    rw [List.map_cons, lastGrant_cons, opens]
    exact later

end Job

end Koine.Domain
