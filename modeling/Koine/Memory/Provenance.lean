import Koine.Memory.Heartbeat

namespace Koine.Memory

open Library Domain Application

def Sets (lease : LeaseId) (deadline : DateTime) : Action → Response → Prop
  | .leaseNext ports _ _ ttl, .leased (.ok (some leased)) =>
    leased.lease = lease ∧ deadline.nanos = ports.now.nanos + ttl.nanos
  | .extendLease ports held ttl, .extended (.ok true) =>
    held = lease ∧ deadline.nanos = ports.now.nanos + ttl.nanos
  | _, _ => False

section Sets

variable {lease : LeaseId} {deadline : DateTime} {ports : Ports} {ttl : Duration} {response : Response}

theorem Sets.of_leaseNext {queue : QueueName} {worker : WorkerId}
    (sets : Sets lease deadline (.leaseNext ports queue worker ttl) response) :
    ∃ leased, response = .leased (.ok (some leased)) ∧ leased.lease = lease ∧
      deadline.nanos = ports.now.nanos + ttl.nanos := by
  unfold Sets at sets
  split at sets
  · rename_i leased shape
    cases shape
    exact ⟨leased, rfl, sets⟩
  · rename_i shape
    cases shape
  · exact sets.elim

theorem Sets.of_extendLease {held : LeaseId} (sets : Sets lease deadline (.extendLease ports held ttl) response) :
    response = .extended (.ok true) ∧ held = lease ∧ deadline.nanos = ports.now.nanos + ttl.nanos := by
  unfold Sets at sets
  split at sets
  · rename_i _ shape
    cases shape
  · rename_i shape
    cases shape
    exact ⟨rfl, sets⟩
  · exact sets.elim

end Sets

variable [BuildProfile]

/-- A deadline in force, or one that the next projection of a stream puts back into force. -/
inductive Standing (system : System) (lease : LeaseId) (deadline : DateTime) : Prop where
  | indexed (id : JobId) (entry : DispatchEntry) (state : LeaseState)
      (present : system.store.inner.index.lookup id = some entry) (live : entry.lease = some state)
      (named : state.lease = lease) (expires : state.expiresAt = deadline)
  | recorded (id : JobId) (job : Job) (folded : Job.fromEvents (system.stream id) = .ok job)
      (held : job.state.held = some lease) (expires : job.state.heldUntil = some deadline)

theorem Standing.of_appended {before after : System} {target : JobId} {batch : List EventEnvelope} {next : Job}
    {lease : LeaseId} {deadline : DateTime}
    (effects : Appended before.store.inner after.store.inner target batch next)
    (standing : Standing after lease deadline) :
    Standing before lease deadline ∨
      (next.state.held = some lease ∧ next.state.heldUntil = some deadline) := by
  cases standing with
  | indexed id entry state present live named expires =>
    by_cases same : id = target
    · subst same
      rw [effects.index_self] at present
      have projected := entryOf_held present live
      rw [named, expires] at projected
      exact .inr projected
    · rw [effects.index_other id same] at present
      exact .inl (.indexed id entry state present live named expires)
  | recorded id job folded held expires =>
    by_cases same : id = target
    · subst same
      rw [System.stream, effects.stream, effects.folded] at folded
      cases folded
      exact .inr ⟨held, expires⟩
    · rw [System.stream, effects.stream_ne same] at folded
      exact .inl (.recorded id job folded held expires)

theorem Standing.origin {before after : System} {action : Action} {response : Response} {lease : LeaseId}
    {deadline : DateTime} (change : Change before after action response) (standing : Standing after lease deadline) :
    Standing before lease deadline ∨ Sets lease deadline action response := by
  cases change with
  | quiet order refused =>
    left
    cases standing with
    | indexed id entry state present live named expires =>
      rw [order.index] at present
      exact .indexed id entry state present live named expires
    | recorded id job folded held expires =>
      rw [System.stream, order.stream] at folded
      exact .recorded id job folded held expires
  | enqueued valid fresh effects =>
    rcases standing.of_appended effects with kept | ⟨held, _⟩
    · exact .inl kept
    · cases held
  | leased present folded granted named expires effect effects =>
    rcases standing.of_appended effects with kept | ⟨held, recorded⟩
    · exact .inl kept
    · right
      obtain ⟨_, delta, sum, _, _, converted, added, same⟩ := Job.lease_ok granted
      cases same
      cases effect
      cases held
      cases recorded
      exact ⟨named, DateTime.deadline_nanos converted added⟩
  | extended held live converted added effects =>
    rename_i target entry state delta sum
    subst held
    cases standing with
    | indexed id other kept present again named expires =>
      by_cases same : id = target
      · subst same
        rw [effects.index_self] at present
        cases present
        cases again
        subst named expires
        exact .inr ⟨rfl, DateTime.deadline_nanos converted added⟩
      · rw [effects.index_other id same] at present
        exact .inl (.indexed id other kept present again named expires)
    | recorded id job folded held expires =>
      rw [System.stream, effects.stream] at folded
      exact .inl (.recorded id job folded held expires)
  | retired indexed live overdue present folded retired effect effects =>
    rcases standing.of_appended effects with kept | ⟨held, _⟩
    · exact .inl kept
    · rw [Effect.retired_free retired effect] at held
      cases held
  | @answered ticket ports flight reply stream job next events ongoing present folded same command effect
      effects =>
    left
    rcases standing.of_appended effects with kept | ⟨held, recorded⟩
    · exact kept
    · obtain ⟨_, before, unchanged⟩ := Call.keepsLease command effect held
      rw [unchanged] at recorded
      refine .recorded flight.jobId job ?_ before recorded
      rw [System.stream, Inner.stream_of_lookup present]
      exact folded

theorem Run.standing_set {history : Trace} {system : System} (run : Run System.Step .new history system)
    {lease : LeaseId} {deadline : DateTime} (standing : Standing system lease deadline) :
    ∃ record ∈ history, Sets lease deadline record.label record.result := by
  induction run with
  | refl =>
    cases standing with
    | indexed id entry state present live named expires => cases present
    | recorded id job folded held expires => cases folded
  | step run taken ih =>
    rcases standing.origin (taken.change (Run.sound run)) with kept | set
    · obtain ⟨record, member, set⟩ := ih kept
      exact ⟨record, List.mem_cons_of_mem _ member, set⟩
    · exact ⟨_, List.mem_cons_self .., set⟩

end Koine.Memory
