import Koine.Memory.System

namespace Koine.Memory

open Library Domain Application

variable [BuildProfile]

/-- The step at which a call in flight appends its batch. -/
def Appends (record : Record System Action Response) (flight : InFlight) : Prop :=
  ∃ ticket ports reply, record.label = .append ticket ports ∧
    record.before.inFlight ticket = some flight ∧ record.result = .answered (.ok reply)

theorem effect_nonempty {job next : Job} {events : List JobEvent} (effect : Job.Effect job events next) :
    0 < events.length := by
  cases effect <;> simp

theorem Change.refused_stream {before after : System} {action : Action} {response : Response}
    (change : Change before after action response) (refused : response.refused = true) (id : JobId) :
    after.stream id = before.stream id := by
  cases change with
  | quiet order _ => exact order.stream id
  | enqueued | leased | extended | retired | answered => cases refused

theorem Change.answered_stream {before after : System} {ticket : Nat} {ports : Ports} {reply : Reply}
    (change : Change before after (.append ticket ports) (.answered (.ok reply))) :
    ∃ flight job events, before.inFlight ticket = some flight ∧
      Job.fromEvents (before.stream flight.jobId) = .ok job ∧
      flight.loaded = ⟨job, before.stream flight.jobId⟩ ∧
      flight.call.command ports job = .ok (reply, events) ∧ 0 < events.length ∧
      after.stream flight.jobId = before.stream flight.jobId ++
        follow ports flight.jobId (before.stream flight.jobId) events ∧
      ∀ id, id ≠ flight.jobId → after.stream id = before.stream id := by
  cases change with
  | quiet order refused => cases refused
  | @answered _ _ flight _ stream job next events ongoing present folded same command effect effects =>
    have current : before.stream flight.jobId = stream := Inner.stream_of_lookup present
    have written := effects.stream
    refine ⟨flight, job, events, ongoing, ?_, ?_, command, effect_nonempty effect, ?_, ?_⟩
    · rw [current]
      exact folded
    · rw [current]
      exact same
    · rw [current]
      unfold System.stream at current ⊢
      rw [written, current]
    · intro id different
      exact effects.stream_ne different

theorem Appends.advances {record : Record System Action Response} {flight : InFlight}
    (change : Change record.before record.after record.label record.result)
    (appends : Appends record flight) :
    flight.loaded.job.version = (record.before.stream flight.jobId).length ∧
      (record.before.stream flight.jobId).length < (record.after.stream flight.jobId).length := by
  obtain ⟨ticket, ports, reply, label, ongoing, result⟩ := appends
  rw [label, result] at change
  obtain ⟨other, job, events, found, folded, loaded, _, nonempty, written, _⟩ := change.answered_stream
  rw [ongoing] at found
  cases found
  refine ⟨?_, ?_⟩
  · rw [loaded]
    exact Job.fromEvents_version folded
  · rw [written, List.length_append, follow_length]
    omega

theorem loaded_version_appends_once {history newer middle older : Trace} {system : System}
    {first second : Record System Action Response} {left right : InFlight}
    (run : Run System.Step .new history system)
    (order : history = newer ++ second :: (middle ++ first :: older)) (earlier : Appends first left)
    (later : Appends second right) (job : left.jobId = right.jobId) :
    left.loaded.job.version ≠ right.loaded.job.version := by
  subst order
  obtain ⟨before, taken, _⟩ := run.split
  obtain ⟨start, opened, between⟩ := before.split
  have soundFirst : first.before.Sound := Run.sound start
  have soundSecond : second.before.Sound := Run.sound before
  have advanced := earlier.advances (opened.change soundFirst)
  have checked := later.advances (taken.change soundSecond)
  have grown := (Run.grows (soundFirst.step opened) between left.jobId).length_le
  rw [← job] at checked
  omega

theorem calls_linearizable {history : Trace} {system : System}
    (run : Run System.Step .new history system) :
    (∀ record ∈ history, ∀ id, record.before.stream id <+: record.after.stream id) ∧
    (∀ record ∈ history, ∀ ticket ports reply, record.label = .append ticket ports →
      record.result = .answered (.ok reply) →
      ∃ flight job events, record.before.inFlight ticket = some flight ∧
        Job.fromEvents (record.before.stream flight.jobId) = .ok job ∧
        flight.call.command ports job = .ok (reply, events) ∧
        record.after.stream flight.jobId = record.before.stream flight.jobId ++
          follow ports flight.jobId (record.before.stream flight.jobId) events ∧
        ∀ id, id ≠ flight.jobId → record.after.stream id = record.before.stream id) ∧
    (∀ record ∈ history, (∃ result, record.result = .loaded result) ∨
        (∃ error, record.result = .answered (.err error)) →
      ∀ id, record.after.stream id = record.before.stream id) ∧
    ∀ newer middle older first second left right,
      history = newer ++ second :: (middle ++ first :: older) → Appends first left →
      Appends second right → left.jobId = right.jobId →
      left.loaded.job.version ≠ right.loaded.job.version := by
  refine ⟨?_, ?_, ?_, ?_⟩
  · intro record member id
    exact (Run.change run member).grows id
  · intro record member ticket ports reply label result
    have change := Run.change run member
    rw [label, result] at change
    obtain ⟨flight, job, events, ongoing, folded, _, command, _, written, others⟩ := change.answered_stream
    exact ⟨flight, job, events, ongoing, folded, command, written, others⟩
  · intro record member failed id
    apply (Run.change run member).refused_stream
    rcases failed with ⟨result, loaded⟩ | ⟨error, answered⟩
    · rw [loaded]
      rfl
    · rw [answered]
      rfl
  · intro newer middle older first second left right order earlier later job
    exact loaded_version_appends_once run order earlier later job

/-- A start and a cancellation that both loaded version 2, newest step first. -/
def raceActions : List Action :=
  [.append 1 (Sample.ports 4 6), .append 0 (Sample.ports 3 5), .load 1 ⟨1⟩ (.cancel none),
    .load 0 ⟨1⟩ (.start Sample.worker),
    .leaseNext (Sample.ports 1 2) Sample.queue Sample.worker (.fromSecs 10),
    .enqueue (Sample.ports 0 1) Sample.command]

omit [BuildProfile] in
theorem calls_linearizable_race :
    let _ := BuildProfile.release
    (Run.replay Action.exec System.new raceActions).1.map (·.result.refused) =
        [true, false, true, true, false, false] ∧
      ∀ record ∈ (Run.replay Action.exec System.new raceActions).1, ∀ id,
        record.before.stream id <+: record.after.stream id := by
  intro _
  exact ⟨by decide, (calls_linearizable (Run.of_replay System.Step.of_exec raceActions)).1⟩

end Koine.Memory
