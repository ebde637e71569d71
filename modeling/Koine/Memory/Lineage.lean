import Koine.Memory.System

namespace Koine.Memory

open Library Domain Application

section Clock

def opensCall (ticket : Nat) (record : Record System Action Response) : Bool :=
  match record.label, record.result with
  | .load slot .., .loaded (.ok ()) => slot = ticket
  | _, _ => false

def Trace.untilLoad (history : Trace) (ticket : Nat) : Trace :=
  history.dropWhile fun record => !opensCall ticket record

/-- What was over before the step read the clock. A call reads it after its load, `EnqueueJob` at some
    point before its append, and the dispatcher inside its critical section. -/
def Trace.over (older : Trace) : Action → Trace
  | .enqueue .. => []
  | .append ticket _ => older.untilLoad ticket
  | _ => older

/-- The first reading after that. A claim has taken its `now` before it got the lock. -/
def Action.opening : Action → Option DateTime
  | .leaseNext ports .. => some ports.recordedAt
  | .extendLease ports .. | .retireNextExpiredLease ports | .append _ ports => some ports.now
  | .enqueue .. | .load .. => none

def Action.closing : Action → Option DateTime
  | .enqueue ports _ | .leaseNext ports .. | .retireNextExpiredLease ports | .append _ ports =>
    some ports.recordedAt
  | .extendLease ports .. => some ports.now
  | .load .. => none

def Action.inOrder : Action → Bool
  | .leaseNext ports .. | .retireNextExpiredLease ports | .append _ ports => ports.now ≤ ports.recordedAt
  | .enqueue .. | .extendLease .. | .load .. => true

/-- One clock that never goes back. -/
def ClockForward : Trace → Prop
  | [] => True
  | record :: older => ClockForward older ∧ record.label.inOrder = true ∧
      ∀ past ∈ Trace.over older record.label, ∀ earlier ∈ past.label.closing,
        ∀ later ∈ record.label.opening, earlier ≤ later

instance ClockForward.decidable : (history : Trace) → Decidable (ClockForward history)
  | [] => isTrue trivial
  | record :: older =>
    have := ClockForward.decidable older
    inferInstanceAs (Decidable (ClockForward older ∧ record.label.inOrder = true ∧ _))

end Clock

theorem mem_follow {ports : Ports} {id : JobId} {stream : List EventEnvelope} {events : List JobEvent}
    {envelope : EventEnvelope} (member : envelope ∈ follow ports id stream events) :
    envelope.recordedAt = ports.recordedAt ∧ envelope.correlationId = (lineageOf stream).1 ∧
      envelope.causationId = stream.getLast?.map (·.eventId) ∧
      envelope.traceparent = (lineageOf stream).2.2 := by
  obtain ⟨k, bound, rfl⟩ := List.mem_mapIdx.mp member
  exact ⟨rfl, rfl, rfl, rfl⟩

def SharesLineage (stream : List EventEnvelope) : Prop :=
  ∀ first ∈ stream.head?, ∀ envelope ∈ stream,
    envelope.correlationId = first.correlationId ∧ envelope.traceparent = first.traceparent

theorem SharesLineage.follow {ports : Ports} {id : JobId} {stream : List EventEnvelope}
    {events : List JobEvent} (shares : SharesLineage stream) (some : stream ≠ []) :
    SharesLineage (stream ++ Memory.follow ports id stream events) := by
  obtain ⟨first, rest, rfl⟩ := List.exists_cons_of_ne_nil some
  intro head found envelope member
  rw [List.cons_append, List.head?_cons, Option.mem_some_iff] at found
  subst found
  rcases List.mem_append.mp member with old | new
  · exact shares first rfl envelope old
  · obtain ⟨_, correlation, _, trace⟩ := mem_follow new
    exact ⟨correlation, trace⟩

variable [BuildProfile]

theorem Run.sharesLineage {history : Trace} {system : System} (run : Run System.Step .new history system) :
    system.Streams fun stream _ => SharesLineage stream := by
  refine Run.streams _ ?_ ?_ run
  · intro ports cmd valid first found envelope member
    rw [List.mem_singleton.mp (show envelope ∈ [_] from member)]
    cases found
    exact ⟨rfl, rfl⟩
  · intro ports id stream job events next folded shares effect
    exact shares.follow (Job.fromEvents_ne_nil folded)

omit [BuildProfile] in
theorem mem_untilLoad_cons {history : Trace} {record past : Record System Action Response} {ticket : Nat}
    (member : past ∈ Trace.untilLoad history ticket) : past ∈ Trace.untilLoad (record :: history) ticket := by
  unfold Trace.untilLoad at member ⊢
  rw [List.dropWhile_cons]
  split
  · exact member
  · exact List.mem_cons_of_mem _ ((List.dropWhile_suffix _).subset member)

/-- Every envelope was stamped with the last reading of a step of the trace; those that a call has loaded,
    with that of a step before its load. Along a stream the stamps never decrease. -/
structure Stamped (history : Trace) (system : System) : Prop where
  stored : ∀ id, ∀ envelope ∈ system.stream id, ∃ record ∈ history, envelope.recordedAt ∈ record.label.closing
  loaded : ∀ ticket flight, system.inFlight ticket = some flight → ∀ envelope ∈ flight.loaded.stream,
    ∃ record ∈ Trace.untilLoad history ticket, envelope.recordedAt ∈ record.label.closing
  forward : ∀ id, (system.stream id).Pairwise fun earlier later => earlier.recordedAt ≤ later.recordedAt

omit [BuildProfile] in
theorem Stamped.new : Stamped [] System.new where
  stored := by intro id envelope member; cases member
  loaded := by intro ticket flight ongoing; cases ongoing
  forward := fun _ => List.Pairwise.nil

inductive FollowsUp (before : System) (id : JobId) (ports : Ports) : Action → Prop where
  | claim (queue : QueueName) (worker : WorkerId) (ttl : Duration) :
      FollowsUp before id ports (.leaseNext ports queue worker ttl)
  | retirement : FollowsUp before id ports (.retireNextExpiredLease ports)
  | answer {ticket : Nat} {flight : InFlight} (ongoing : before.inFlight ticket = some flight)
      (current : flight.loaded.stream = before.stream id) : FollowsUp before id ports (.append ticket ports)

inductive Written (before after : System) (id : JobId) : Action → Prop where
  | kept {action : Action} (same : after.stream id = before.stream id) : Written before after id action
  | opened {ports : Ports} {cmd : EnqueueCommand} (fresh : before.stream id = [])
      (stream : after.stream id = cmd.envelopes ports) : Written before after id (.enqueue ports cmd)
  | followed {action : Action} {ports : Ports} {job next : Job} {events : List JobEvent}
      (folded : Job.fromEvents (before.stream id) = .ok job) (effect : Job.Effect job events next)
      (stream : after.stream id = before.stream id ++ follow ports id (before.stream id) events)
      (writer : FollowsUp before id ports action) : Written before after id action

theorem Change.written {before after : System} {action : Action} {response : Response}
    (change : Change before after action response) (id : JobId) : Written before after id action := by
  cases change with
  | quiet order refused => exact .kept (order.stream id)
  | extended held live converted added effects => exact .kept effects.stream
  | @enqueued ports cmd valid fresh effects =>
    by_cases target : id = ports.jobId
    · subst target
      have none : before.stream ports.jobId = [] := by
        rw [System.stream, Inner.stream, fresh]
        rfl
      refine .opened none ?_
      have grown := effects.stream
      unfold System.stream at none ⊢
      rw [grown, none]
      rfl
    · exact .kept (effects.stream_ne target)
  | @leased ports queue worker ttl stream job next expiresAt leased present folded granted lease deadline
      effect effects =>
    by_cases target : id = leased.jobId
    · subst target
      have stored : before.stream leased.jobId = stream := Inner.stream_of_lookup present
      subst stored
      exact .followed folded effect effects.stream (.claim queue worker ttl)
    · exact .kept (effects.stream_ne target)
  | @retired ports job entry state stream fold next events indexed live overdue present folded retired
      effect effects =>
    by_cases target : id = job
    · subst target
      have stored : before.stream id = stream := Inner.stream_of_lookup present
      subst stored
      exact .followed folded effect effects.stream .retirement
    · exact .kept (effects.stream_ne target)
  | @answered ticket ports flight reply stream job next events ongoing present folded same command effect
      effects =>
    by_cases target : id = flight.jobId
    · subst target
      have stored : before.stream flight.jobId = stream := Inner.stream_of_lookup present
      subst stored
      exact .followed folded effect effects.stream (.answer ongoing (by rw [same]))
    · exact .kept (effects.stream_ne target)

omit [BuildProfile] in
theorem Stamped.earlier {history : Trace} {record : Record System Action Response} {id : JobId}
    {ports : Ports} (stamped : Stamped history record.before) (clock : ClockForward (record :: history))
    (writer : FollowsUp record.before id ports record.label) :
    ∀ envelope ∈ record.before.stream id, envelope.recordedAt ≤ ports.recordedAt := by
  obtain ⟨_, inOrder, readings⟩ := clock
  obtain ⟨before, label, result, after⟩ := record
  intro envelope member
  cases writer with
  | claim queue worker ttl =>
    obtain ⟨past, listed, stamp⟩ := stamped.stored id envelope member
    exact readings past listed _ stamp _ rfl
  | retirement =>
    obtain ⟨past, listed, stamp⟩ := stamped.stored id envelope member
    exact (readings past listed _ stamp _ rfl).trans (of_decide_eq_true inOrder)
  | answer ongoing current =>
    rw [← current] at member
    obtain ⟨past, listed, stamp⟩ := stamped.loaded _ _ ongoing envelope member
    exact (readings past listed _ stamp _ rfl).trans (of_decide_eq_true inOrder)

omit [BuildProfile] in
theorem FollowsUp.closing {before : System} {id : JobId} {ports : Ports} {action : Action}
    (writer : FollowsUp before id ports action) : action.closing = some ports.recordedAt := by
  cases writer <;> rfl

theorem Stamped.step {history : Trace} {before after : System} {action : Action} {response : Response}
    (stamped : Stamped history before) (sound : before.Sound)
    (taken : System.Step before action response after)
    (clock : ClockForward (⟨before, action, response, after⟩ :: history)) :
    Stamped (⟨before, action, response, after⟩ :: history) after := by
  have change := taken.change sound
  refine ⟨?_, ?_, ?_⟩
  · intro id envelope member
    have old (found : envelope ∈ before.stream id) : ∃ record ∈ ⟨before, action, response, after⟩ :: history,
        envelope.recordedAt ∈ record.label.closing := by
      obtain ⟨record, listed, stamp⟩ := stamped.stored id envelope found
      exact ⟨record, List.mem_cons_of_mem _ listed, stamp⟩
    cases change.written id with
    | kept same => exact old (same ▸ member)
    | opened fresh stream =>
      rw [stream] at member
      rw [List.mem_singleton.mp (show envelope ∈ [_] from member)]
      exact ⟨_, List.mem_cons_self, rfl⟩
    | followed folded effect stream writer =>
      rw [stream] at member
      rcases List.mem_append.mp member with found | added
      · exact old found
      · refine ⟨_, List.mem_cons_self, ?_⟩
        rw [(mem_follow added).1]
        exact writer.closing
  · intro ticket flight ongoing envelope member
    rcases taken.inFlight ongoing with old | ⟨⟨call, rfl, rfl⟩, stored, _⟩
    · obtain ⟨record, listed, stamp⟩ := stamped.loaded ticket flight old envelope member
      exact ⟨record, mem_untilLoad_cons listed, stamp⟩
    · rw [← Inner.stream_of_lookup stored] at member
      obtain ⟨record, listed, stamp⟩ := stamped.stored flight.jobId envelope member
      refine ⟨record, ?_, stamp⟩
      rw [Trace.untilLoad, List.dropWhile_cons_of_neg (by simp [opensCall])]
      exact List.mem_cons_of_mem _ listed
  · intro id
    have forward := stamped.forward id
    cases change.written id with
    | kept same =>
      rw [same]
      exact forward
    | opened fresh stream =>
      rw [stream]
      exact List.pairwise_singleton _ _
    | followed folded effect stream writer =>
      rw [stream, List.pairwise_append]
      refine ⟨forward, ?_, ?_⟩
      · refine List.Pairwise.imp_of_mem ?_ (List.pairwise_of_forall fun _ _ => trivial)
        intro earlier later first second _
        rw [(mem_follow first).1, (mem_follow second).1]
      · intro earlier found later added
        rw [(mem_follow added).1]
        exact stamped.earlier clock writer earlier found

theorem Run.stamped {history : Trace} {system : System} (run : Run System.Step .new history system)
    (clock : ClockForward history) : Stamped history system := by
  induction run with
  | refl => exact Stamped.new
  | step run taken ih => exact (ih clock.1).step (Run.sound run) taken clock

theorem Run.caused {history : Trace} {system : System} (run : Run System.Step .new history system)
    {id : JobId} {i : Nat} {envelope : EventEnvelope} (later : 0 < i)
    (found : (system.stream id)[i]? = some envelope) :
    ∃ record ∈ history, ∃ last, (record.before.stream id).getLast? = some last ∧
      (record.before.stream id).length ≤ i ∧ i < (record.after.stream id).length ∧
      envelope.causationId = some last.eventId := by
  induction run with
  | refl => cases found
  | @step older before after label result run taken ih =>
    have earlier (present : (before.stream id)[i]? = some envelope) :
        ∃ record ∈ (⟨before, label, result, after⟩ :: older : Trace), ∃ last,
          (record.before.stream id).getLast? = some last ∧ (record.before.stream id).length ≤ i ∧
          i < (record.after.stream id).length ∧ envelope.causationId = some last.eventId := by
      obtain ⟨record, listed, rest⟩ := ih present
      exact ⟨record, List.mem_cons_of_mem _ listed, rest⟩
    cases (taken.change (Run.sound run)).written id with
    | kept same =>
      rw [same] at found
      exact earlier found
    | @opened ports cmd fresh stream =>
      have bound := (List.getElem?_eq_some_iff.mp found).1
      have single : (after.stream id).length = 1 := by
        rw [stream]
        rfl
      omega
    | followed folded effect stream writer =>
      have bound := (List.getElem?_eq_some_iff.mp found).1
      rcases Nat.lt_or_ge i (before.stream id).length with old | new
      · rw [stream, List.getElem?_append_left old] at found
        exact earlier found
      · have some := Job.fromEvents_ne_nil folded
        refine ⟨_, List.mem_cons_self, (before.stream id).getLast some, List.getLast?_eq_some_getLast some,
          new, bound, ?_⟩
        rw [stream, List.getElem?_append_right new] at found
        rw [(mem_follow (List.mem_of_getElem? found)).2.2.1, List.getLast?_eq_some_getLast some]
        rfl

def causeOf (stream : List EventEnvelope) (envelope : EventEnvelope) : Option EventEnvelope :=
  envelope.causationId.bind fun cause => stream.find? fun other => other.eventId = cause

def traceBack (stream : List EventEnvelope) : Nat → EventEnvelope → Option EventEnvelope
  | 0, envelope => some envelope
  | steps + 1, envelope => (causeOf stream envelope).bind (traceBack stream steps)

omit [BuildProfile] in
theorem causeOf_eq {stream : List EventEnvelope} {envelope cause : EventEnvelope} {k : Nat}
    (distinct : (stream.map (·.eventId)).Nodup) (found : stream[k]? = some cause)
    (named : envelope.causationId = some cause.eventId) : causeOf stream envelope = some cause := by
  rw [causeOf, named, Option.bind_some]
  obtain ⟨other, chosen⟩ : ∃ other, stream.find? (fun other => other.eventId = cause.eventId) = some other := by
    rw [← Option.isSome_iff_exists, List.find?_isSome]
    exact ⟨cause, List.mem_of_getElem? found, by simp⟩
  have same : other.eventId = cause.eventId := by simpa using List.find?_some chosen
  rw [chosen, List.inj_on_of_nodup_map distinct (List.mem_of_find?_eq_some chosen) (List.mem_of_getElem? found)
    same]

theorem Run.tracesBack {history : Trace} {system : System} (run : Run System.Step .new history system)
    {id : JobId} (distinct : ((system.stream id).map (·.eventId)).Nodup) (i : Nat) (envelope : EventEnvelope)
    (found : (system.stream id)[i]? = some envelope) :
    ∃ steps ≤ i, traceBack (system.stream id) steps envelope = (system.stream id).head? := by
  induction i using Nat.strong_induction_on generalizing envelope with
  | _ i ih =>
    rcases Nat.eq_zero_or_pos i with rfl | later
    · exact ⟨0, le_rfl, by rw [List.head?_eq_getElem?, found]; rfl⟩
    · obtain ⟨record, listed, last, ends, before, _, named⟩ := Run.caused run later found
      obtain ⟨_, _, _, older, taken, newer⟩ := run.of_mem listed
      have sound := Run.sound older
      have grown : record.before.stream id <+: system.stream id :=
        ((taken.change sound).grows id).trans (Run.grows (sound.step taken) newer id)
      have some : record.before.stream id ≠ [] := by
        intro none
        rw [none] at ends
        cases ends
      have positive := List.length_pos_of_ne_nil some
      have position : (system.stream id)[(record.before.stream id).length - 1]? = .some last := by
        obtain ⟨rest, whole⟩ := grown
        rw [← whole, List.getElem?_append_left (by omega), ← List.getLast?_eq_getElem?]
        exact ends
      obtain ⟨steps, fewer, back⟩ := ih _ (by omega) last position
      refine ⟨steps + 1, by omega, ?_⟩
      rw [traceBack, causeOf_eq distinct position named]
      exact back

theorem lineage_carried {history : Trace} {system : System} {id : JobId} {stream : List EventEnvelope}
    (run : Run System.Step .new history system) (clock : ClockForward history)
    (distinct : (stream.map (·.eventId)).Nodup)
    (stored : system.store.inner.streams.lookup id = some stream) :
    (∀ (i : Nat) envelope, stream[i]? = some envelope → envelope.version = i + 1 ∧ envelope.streamId = id) ∧
      SharesLineage stream ∧
      (∀ (i : Nat) envelope, 0 < i → stream[i]? = some envelope →
        ∃ record ∈ history, ∃ last, (record.before.stream id).getLast? = some last ∧
          (record.before.stream id).length ≤ i ∧ i < (record.after.stream id).length ∧
          envelope.causationId = some last.eventId) ∧
      (∀ envelope ∈ stream, ∃ steps, traceBack stream steps envelope = stream.head?) ∧
      stream.Pairwise fun earlier later => earlier.recordedAt ≤ later.recordedAt := by
  have whole : system.stream id = stream := Inner.stream_of_lookup stored
  subst whole
  obtain ⟨job, folded, _⟩ := (Run.sound run).consistent.folds id _ stored
  refine ⟨?_, (Run.sharesLineage run).stored id _ job stored folded, ?_, ?_, (Run.stamped run clock).forward id⟩
  · intro i envelope found
    refine ⟨?_, system.store.inner.keyed id _ stored envelope (List.mem_of_getElem? found)⟩
    have numbered := sequential_iff_getElem.mp (Job.fromEvents_sequential folded) i envelope found
    omega
  · intro i envelope later found
    exact Run.caused run later found
  · intro envelope member
    obtain ⟨i, bound, here⟩ := List.getElem_of_mem member
    obtain ⟨steps, _, back⟩ := Run.tracesBack run distinct i envelope
      (List.getElem?_eq_some_iff.mpr ⟨bound, here⟩)
    exact ⟨steps, back⟩

/-- A start and a stale ack that load the same stream, of which the second to append is refused, and the
    retirement of the lease, newest step first. -/
def racingAcks : List Action :=
  [.retireNextExpiredLease (Sample.ports 20 7), .append 1 (Sample.ports 4 6), .append 0 (Sample.ports 5 5),
    .load 1 ⟨1⟩ (.succeed Sample.worker ⟨9⟩ none), .load 0 ⟨1⟩ (.start Sample.worker),
    .leaseNext (Sample.ports 1 2) Sample.queue Sample.worker (.fromSecs 10),
    .enqueue (Sample.ports 0 1) Sample.command]

omit [BuildProfile] in
theorem lineage_carried_racing :
    let _ := BuildProfile.release
    ∃ stream, (Run.replay Action.exec System.new racingAcks).2.store.inner.streams.lookup ⟨1⟩ = some stream ∧
      stream.length = 5 ∧ SharesLineage stream ∧
      stream.Pairwise fun earlier later => earlier.recordedAt ≤ later.recordedAt := by
  intro _
  have stored : (Run.replay Action.exec System.new racingAcks).2.store.inner.streams.lookup ⟨1⟩ = some _ := rfl
  obtain ⟨_, shares, _, _, forward⟩ :=
    lineage_carried (Run.of_replay System.Step.of_exec racingAcks) (by decide) (by decide) stored
  exact ⟨_, rfl, rfl, shares, forward⟩

end Koine.Memory
