import Koine.Memory.Operations

namespace Koine.Memory

open Library Domain Application

structure InFlight where
  jobId : JobId
  call : Call
  loaded : Loaded

/-- The store and the calls of its clients, each under a ticket of its own. -/
structure System where
  store : InMemoryEventStore
  inFlight : Nat → Option InFlight

def System.new : System := ⟨.new, fun _ => none⟩

def System.stream (system : System) (id : JobId) : List EventEnvelope := system.store.inner.stream id

def System.ticketed (system : System) (ticket : Nat) (call : Option InFlight) : System :=
  { system with inFlight := fun other => if other = ticket then call else system.inFlight other }

/-- One critical section: `EnqueueJob`, a dispatcher call, or one half of a client call. -/
inductive Action where
  | enqueue (ports : Ports) (cmd : EnqueueCommand)
  | leaseNext (ports : Ports) (queue : QueueName) (worker : WorkerId) (ttl : Duration)
  | extendLease (ports : Ports) (lease : LeaseId) (ttl : Duration)
  | retireNextExpiredLease (ports : Ports)
  | load (ticket : Nat) (jobId : JobId) (call : Call)
  | append (ticket : Nat) (ports : Ports)

inductive Response where
  | enqueued (result : Outcome EnqueueError JobId)
  | leased (result : Outcome DispatchError (Option LeasedJob))
  | extended (result : Outcome DispatchError Bool)
  | retired (result : Outcome DispatchError (Option JobId))
  | loaded (result : Outcome AckError Unit)
  | answered (result : Outcome AckError Reply)
  | noCall

def Response.refused : Response → Bool
  | .enqueued (.ok _) | .leased (.ok (some _)) | .extended (.ok true) | .retired (.ok (some _))
  | .answered (.ok _) => false
  | _ => true

def Action.exec [BuildProfile] (action : Action) (system : System) : System × Response :=
  match action with
  | .enqueue ports cmd =>
    let (store, result) := EnqueueJob.execute system.store ports cmd
    ({ system with store }, .enqueued result)
  | .leaseNext ports queue worker ttl =>
    let (store, result) := system.store.leaseNext ports queue worker ttl
    ({ system with store }, .leased result)
  | .extendLease ports lease ttl =>
    let (store, result) := system.store.extendLease ports lease ttl
    ({ system with store }, .extended result)
  | .retireNextExpiredLease ports =>
    let (store, result) := system.store.retireNextExpiredLease ports
    ({ system with store }, .retired result)
  | .load ticket jobId call =>
    match Call.load system.store jobId with
    | .ok loaded => (system.ticketed ticket (some ⟨jobId, call, loaded⟩), .loaded (.ok ()))
    | .err error => (system, .loaded (.err error))
    | .panic => (system, .loaded .panic)
  | .append ticket ports =>
    match system.inFlight ticket with
    | none => (system, .noCall)
    | some flight =>
      let (store, result) := flight.call.finish system.store ports flight.loaded
      ({ system with store }.ticketed ticket none, .answered result)

variable [BuildProfile]

/-- A step of the system, under any iteration order of the maps. -/
def System.Step (before : System) (action : Action) (response : Response) (after : System) : Prop :=
  ∃ shuffled, before.store.inner.Reordered shuffled ∧
    action.exec { before with store := ⟨shuffled, before.store.poisoned⟩ } = (after, response)

theorem System.Step.of_exec (action : Action) (before : System) :
    System.Step before action (action.exec before).2 (action.exec before).1 :=
  ⟨before.store.inner, .refl _, rfl⟩

/-- What a call in flight has loaded is a prefix of the stream, and folds to the job it decides on. -/
structure System.Sound (system : System) : Prop where
  consistent : system.store.inner.Consistent
  loaded : ∀ ticket flight, system.inFlight ticket = some flight →
    Job.fromEvents flight.loaded.stream = .ok flight.loaded.job ∧
      flight.loaded.job.id = flight.jobId ∧
      flight.loaded.stream <+: system.stream flight.jobId

inductive Change (before after : System) : Action → Response → Prop where
  | quiet {action : Action} {response : Response}
      (order : before.store.inner.Reordered after.store.inner) (refused : response.refused = true) :
      Change before after action response
  | enqueued {ports : Ports} {cmd : EnqueueCommand} (valid : validatePolicy cmd.retryPolicy = .ok ())
      (fresh : before.store.inner.streams.lookup ports.jobId = none)
      (effects : Appended before.store.inner after.store.inner ports.jobId (cmd.envelopes ports)
        (Job.opened ports.jobId cmd.queue cmd.payload cmd.priority cmd.retryPolicy cmd.notBefore)) :
      Change before after (.enqueue ports cmd) (.enqueued (.ok ports.jobId))
  | leased {ports : Ports} {queue : QueueName} {worker : WorkerId} {ttl : Duration}
      {stream : List EventEnvelope} {job next : Job} {expiresAt : DateTime} {leased : LeasedJob}
      (present : before.store.inner.streams.lookup leased.jobId = some stream)
      (folded : Job.fromEvents stream = .ok job)
      (granted : job.lease worker ports.leaseId ports.now ttl =
        .ok (.leased worker ports.leaseId expiresAt))
      (lease : leased.lease = ports.leaseId) (deadline : leased.expiresAt = expiresAt)
      (effect : Job.Effect job [.leased worker ports.leaseId expiresAt] next)
      (effects : Appended before.store.inner after.store.inner leased.jobId
        (follow ports leased.jobId stream [.leased worker ports.leaseId expiresAt]) next) :
      Change before after (.leaseNext ports queue worker ttl) (.leased (.ok (some leased)))
  | extended {ports : Ports} {lease : LeaseId} {ttl : Duration} {id : JobId} {entry : DispatchEntry}
      {state : LeaseState} {delta : TimeDelta} {deadline : DateTime} (held : state.lease = lease)
      (live : ports.now < state.expiresAt) (converted : TimeDelta.fromStd ttl = some delta)
      (added : ports.now.checkedAddSigned delta = some deadline)
      (effects : Extended before.store.inner after.store.inner id entry state deadline) :
      Change before after (.extendLease ports lease ttl) (.extended (.ok true))
  | retired {ports : Ports} {id : JobId} {entry : DispatchEntry} {state : LeaseState}
      {stream : List EventEnvelope} {job next : Job} {events : List JobEvent}
      (indexed : before.store.inner.index.lookup id = some entry) (live : entry.lease = some state)
      (overdue : state.expiresAt ≤ ports.now)
      (present : before.store.inner.streams.lookup id = some stream)
      (folded : Job.fromEvents stream = .ok job)
      (retired : job.expireLease ports.now ports.jitterSeed = .ok events)
      (effect : Job.Effect job events next)
      (effects : Appended before.store.inner after.store.inner id (follow ports id stream events) next) :
      Change before after (.retireNextExpiredLease ports) (.retired (.ok (some id)))
  | answered {ticket : Nat} {ports : Ports} {flight : InFlight} {reply : Reply}
      {stream : List EventEnvelope} {job next : Job} {events : List JobEvent}
      (ongoing : before.inFlight ticket = some flight)
      (present : before.store.inner.streams.lookup flight.jobId = some stream)
      (folded : Job.fromEvents stream = .ok job) (same : flight.loaded = ⟨job, stream⟩)
      (command : flight.call.command ports job = .ok (reply, events))
      (effect : Job.Effect job events next)
      (effects : Appended before.store.inner after.store.inner flight.jobId
        (follow ports flight.jobId stream events) next) :
      Change before after (.append ticket ports) (.answered (.ok reply))

theorem enqueued_opens (cmd : EnqueueCommand) (ports : Ports) :
    Job.fromEvents (cmd.envelopes ports) =
      .ok (Job.opened ports.jobId cmd.queue cmd.payload cmd.priority cmd.retryPolicy cmd.notBefore) := rfl

omit [BuildProfile] in
theorem Inner.stream_of_lookup {inner : Inner} {id : JobId} {stream : List EventEnvelope}
    (present : inner.streams.lookup id = some stream) : inner.stream id = stream := by
  rw [Inner.stream, present]
  rfl

theorem Inner.Consistent.lookup_of_stream {inner : Inner} (consistent : inner.Consistent) {id : JobId} :
    inner.streams.lookup id = if inner.stream id = [] then none else some (inner.stream id) := by
  cases stored : inner.streams.lookup id with
  | none => simp [Inner.stream, stored]
  | some stream =>
    obtain ⟨job, folded, _⟩ := consistent.folds id stream stored
    rw [Inner.stream_of_lookup stored, if_neg (Job.fromEvents_ne_nil folded)]

theorem enqueue_change {before : System} {shuffled : Inner} {ports : Ports} {cmd : EnqueueCommand}
    {store : InMemoryEventStore} {result : Outcome EnqueueError JobId}
    (consistent : before.store.inner.Consistent) (order : before.store.inner.Reordered shuffled)
    (ran : EnqueueJob.execute (⟨shuffled, before.store.poisoned⟩ : InMemoryEventStore) ports cmd =
      (store, result)) :
    Change before { before with store } (.enqueue ports cmd) (.enqueued result) := by
  unfold EnqueueJob.execute at ran
  split at ran
  · cases ran
    exact .quiet order rfl
  · rename_i valid
    rcases appended : EventStore.append (⟨shuffled, before.store.poisoned⟩ : InMemoryEventStore)
      ports.jobId 0 (cmd.envelopes ports) with ⟨written, outcome⟩
    rw [appended] at ran
    rcases append_cases appended with ⟨same, refused⟩ | ⟨rfl, length, job, effects⟩
    · have kept : before.store.inner.Reordered written.inner := same ▸ order
      cases outcome with
      | ok value => exact absurd rfl refused
      | err error =>
        cases ran
        exact .quiet kept rfl
      | panic =>
        cases ran
        exact .quiet kept rfl
    · cases ran
      have moved := effects.of_reordered order
      have empty : before.store.inner.stream ports.jobId = [] := by
        rw [← order.stream]
        exact List.eq_nil_of_length_eq_zero length
      have opened := moved.folded
      rw [empty, List.nil_append, enqueued_opens] at opened
      cases opened
      refine .enqueued valid ?_ moved
      rw [consistent.lookup_of_stream, if_pos empty]

theorem append_change {before : System} {shuffled : Inner} {ticket : Nat} {ports : Ports}
    {flight : InFlight} {store : InMemoryEventStore} {result : Outcome AckError Reply}
    (sound : before.Sound) (order : before.store.inner.Reordered shuffled)
    (ongoing : before.inFlight ticket = some flight)
    (ran : flight.call.finish (⟨shuffled, before.store.poisoned⟩ : InMemoryEventStore) ports
      flight.loaded = (store, result)) :
    Change before ({ before with store }.ticketed ticket none) (.append ticket ports)
      (.answered result) := by
  obtain ⟨folded, id, grown⟩ := sound.loaded ticket flight ongoing
  unfold Call.finish at ran
  split at ran
  · cases ran
    exact .quiet order rfl
  · cases ran
    exact .quiet order rfl
  · rename_i reply events command
    rcases appended : EventStore.append (⟨shuffled, before.store.poisoned⟩ : InMemoryEventStore)
      flight.loaded.job.id flight.loaded.job.version (flight.loaded.envelopes ports events) with
      ⟨written, outcome⟩
    rw [appended] at ran
    rcases append_cases appended with ⟨same, refused⟩ | ⟨rfl, length, final, effects⟩
    · have kept : before.store.inner.Reordered written.inner := same ▸ order
      cases outcome with
      | ok value => exact absurd rfl refused
      | err error =>
        cases ran
        exact .quiet kept rfl
      | panic =>
        cases ran
        exact .quiet kept rfl
    · cases ran
      have version := Job.fromEvents_version folded
      have moved := effects.of_reordered order
      -- the version check says that nothing was appended since the load
      have current : flight.loaded.stream = before.stream flight.jobId := by
        apply grown.eq_of_length
        rw [id] at length
        rw [← version, ← length]
        exact congrArg List.length (order.stream flight.jobId)
      have present : before.store.inner.streams.lookup flight.jobId = some flight.loaded.stream := by
        rw [sound.consistent.lookup_of_stream]
        unfold System.stream at current
        rw [← current, if_neg (Job.fromEvents_ne_nil folded)]
      have wrapped : flight.loaded.envelopes ports events =
          follow ports flight.jobId flight.loaded.stream events := by
        rw [Loaded.envelopes, follow, id, version]
      obtain ⟨next, effect⟩ := Call.command_effect command
      have result := follow_folds ports flight.jobId folded effect.applies
      rw [id, wrapped] at moved
      have final := moved.folded
      unfold System.stream at current
      rw [← current, result] at final
      cases final
      exact .answered ongoing present folded rfl command effect moved

theorem System.Step.change {before after : System} {action : Action} {response : Response}
    (taken : System.Step before action response after) (sound : before.Sound) :
    Change before after action response := by
  obtain ⟨shuffled, order, ran⟩ := taken
  cases action with
  | enqueue ports cmd =>
    cases ran
    exact enqueue_change sound.consistent order rfl
  | leaseNext ports queue worker ttl =>
    simp only [Action.exec] at ran
    rcases called : InMemoryEventStore.leaseNext ⟨shuffled, before.store.poisoned⟩ ports queue worker ttl
      with ⟨written, result⟩
    rw [called] at ran
    cases ran
    rcases leaseNext_cases called with ⟨same, refused⟩ | ⟨id, stream, job, expiresAt, next, leased, _,
      present, folded, granted, effect, effects, rfl, rfl, lease, deadline⟩
    · refine .quiet (same ▸ order) ?_
      rcases result with (_ | leased) | error | _
      · rfl
      · exact absurd rfl (refused leased)
      · rfl
      · rfl
    · rw [order.streams] at present
      exact .leased present folded granted lease deadline effect (effects.of_reordered order)
  | extendLease ports lease ttl =>
    simp only [Action.exec] at ran
    rcases called : InMemoryEventStore.extendLease ⟨shuffled, before.store.poisoned⟩ ports lease ttl
      with ⟨written, result⟩
    rw [called] at ran
    cases ran
    rcases extendLease_step_cases called with ⟨same, refused⟩ | ⟨id, entry, state, delta, deadline,
      effects, held, live, converted, added, rfl⟩
    · refine .quiet (same ▸ order) ?_
      rcases result with (_ | _) | error | _
      · rfl
      · exact absurd rfl refused
      · rfl
      · rfl
    · exact .extended held live converted added (effects.of_reordered order)
  | retireNextExpiredLease ports =>
    simp only [Action.exec] at ran
    rcases called : InMemoryEventStore.retireNextExpiredLease ⟨shuffled, before.store.poisoned⟩ ports
      with ⟨written, result⟩
    rw [called] at ran
    cases ran
    rcases retire_cases called with ⟨same, refused⟩ | ⟨id, stream, job, events, next, picked, present,
      folded, retired, effect, effects, rfl⟩
    · refine .quiet (same ▸ order) ?_
      rcases result with (_ | id) | error | _
      · rfl
      · exact absurd rfl (refused id)
      · rfl
      · rfl
    · obtain ⟨entry, indexed, overdue⟩ := pickExpired_some picked
      obtain ⟨state, live, expired⟩ := overdue_iff.mp overdue
      rw [order.streams] at present
      rw [order.index] at indexed
      exact .retired indexed live expired present folded retired effect (effects.of_reordered order)
  | load ticket jobId call =>
    simp only [Action.exec] at ran
    split at ran
    · cases ran
      exact .quiet order rfl
    · cases ran
      exact .quiet order rfl
    · cases ran
      exact .quiet order rfl
  | append ticket ports =>
    simp only [Action.exec] at ran
    split at ran
    · cases ran
      exact .quiet order rfl
    · rename_i flight ongoing
      cases ran
      exact append_change sound order ongoing rfl

theorem Appended.stream {inner after : Inner} {stream : JobId} {batch : List EventEnvelope} {job : Job}
    (effects : Appended inner after stream batch job) :
    after.stream stream = inner.stream stream ++ batch :=
  Inner.stream_of_lookup effects.stream_self

theorem Appended.stream_ne {inner after : Inner} {stream id : JobId} {batch : List EventEnvelope}
    {job : Job} (effects : Appended inner after stream batch job) (different : id ≠ stream) :
    after.stream id = inner.stream id := by
  rw [Inner.stream, effects.stream_other id different, Inner.stream]

theorem Appended.grows {inner after : Inner} {stream : JobId} {batch : List EventEnvelope} {job : Job}
    (effects : Appended inner after stream batch job) (id : JobId) : inner.stream id <+: after.stream id := by
  by_cases same : id = stream
  · subst same
    rw [effects.stream]
    exact List.prefix_append _ _
  · simp only [effects.stream_ne same, List.prefix_rfl]

omit [BuildProfile] in
theorem Extended.stream {inner after : Inner} {id job : JobId} {entry : DispatchEntry}
    {state : LeaseState} {deadline : DateTime} (effects : Extended inner after id entry state deadline) :
    after.stream job = inner.stream job := by
  rw [Inner.stream, effects.streams, Inner.stream]

theorem Change.grows {before after : System} {action : Action} {response : Response}
    (change : Change before after action response) (id : JobId) : before.stream id <+: after.stream id := by
  unfold System.stream
  cases change with
  | quiet order refused => simp only [order.stream, List.prefix_rfl]
  | enqueued valid fresh effects => exact effects.grows id
  | leased present folded granted lease deadline effect effects => exact effects.grows id
  | extended held live converted added effects => simp only [effects.stream, List.prefix_rfl]
  | retired indexed live overdue present folded retired effect effects => exact effects.grows id
  | answered ongoing present folded same command effect effects => exact effects.grows id

theorem Change.consistent {before after : System} {action : Action} {response : Response}
    (change : Change before after action response) (consistent : before.store.inner.Consistent) :
    after.store.inner.Consistent := by
  cases change with
  | quiet order refused => exact consistent.reorder order
  | enqueued valid fresh effects => exact consistent.appended effects
  | leased present folded granted lease deadline effect effects => exact consistent.appended effects
  | extended held live converted added effects => exact consistent.extended effects
  | retired indexed live overdue present folded retired effect effects => exact consistent.appended effects
  | answered ongoing present folded same command effect effects => exact consistent.appended effects

omit [BuildProfile] in
theorem InMemoryEventStore.load_ok {store : InMemoryEventStore} {id : JobId}
    {stream : List EventEnvelope} (loaded : store.load id = .ok stream) :
    store.inner.streams.lookup id = some stream := by
  unfold InMemoryEventStore.load InMemoryEventStore.locked at loaded
  split at loaded
  · cases loaded
  · cases found : store.inner.streams.lookup id with
    | none => simp [found] at loaded
    | some envelopes =>
      simp only [found, Outcome.ok.injEq] at loaded
      rw [loaded]

theorem Call.load_ok {store : InMemoryEventStore} {id : JobId} {loaded : Loaded}
    (read : Call.load store id = .ok loaded) :
    store.inner.streams.lookup id = some loaded.stream ∧ Job.fromEvents loaded.stream = .ok loaded.job := by
  unfold Call.load at read
  split at read
  · cases read
  · cases read
  · rename_i stream found
    split at read
    · cases read
    · cases read
    · rename_i job folded
      cases read
      exact ⟨InMemoryEventStore.load_ok found, folded⟩

theorem System.Step.inFlight {before after : System} {action : Action} {response : Response}
    {ticket : Nat} {flight : InFlight} (taken : System.Step before action response after)
    (ongoing : after.inFlight ticket = some flight) :
    before.inFlight ticket = some flight ∨
      (∃ call, action = .load ticket flight.jobId call ∧ response = .loaded (.ok ())) ∧
        before.store.inner.streams.lookup flight.jobId = some flight.loaded.stream ∧
        Job.fromEvents flight.loaded.stream = .ok flight.loaded.job := by
  obtain ⟨shuffled, order, ran⟩ := taken
  cases action with
  | load slot jobId call =>
    simp only [Action.exec] at ran
    split at ran
    · rename_i loaded read
      cases ran
      simp only [System.ticketed] at ongoing
      split at ongoing
      · rename_i same
        cases ongoing
        obtain ⟨stored, folded⟩ := Call.load_ok read
        rw [order.streams] at stored
        exact .inr ⟨⟨call, by rw [same], rfl⟩, stored, folded⟩
      · exact .inl ongoing
    · cases ran
      exact .inl ongoing
    · cases ran
      exact .inl ongoing
  | append slot ports =>
    simp only [Action.exec] at ran
    split at ran
    · cases ran
      exact .inl ongoing
    · cases ran
      simp only [System.ticketed] at ongoing
      split at ongoing
      · cases ongoing
      · exact .inl ongoing
  | _ =>
    cases ran
    exact .inl ongoing

theorem System.Sound.step {before after : System} {action : Action} {response : Response}
    (sound : before.Sound) (taken : System.Step before action response after) : after.Sound := by
  have change := taken.change sound
  refine ⟨change.consistent sound.consistent, ?_⟩
  intro ticket flight ongoing
  rcases taken.inFlight ongoing with old | ⟨_, stored, folded⟩
  · obtain ⟨folded, id, grown⟩ := sound.loaded ticket flight old
    exact ⟨folded, id, grown.trans (change.grows flight.jobId)⟩
  · have stream : before.stream flight.jobId = flight.loaded.stream := Inner.stream_of_lookup stored
    refine ⟨folded, Job.fromEvents_id folded (before.store.inner.keyed _ _ stored), ?_⟩
    rw [← stream]
    exact change.grows flight.jobId

theorem System.Sound.new : System.new.Sound where
  consistent := Inner.Consistent.empty
  loaded := by
    intro ticket flight ongoing
    cases ongoing

abbrev Trace := List (Record System Action Response)

theorem Run.sound {history : Trace} {system : System} (run : Run System.Step .new history system) :
    system.Sound :=
  run.invariant System.Sound .new fun _ _ _ _ sound taken => sound.step taken

theorem Run.change {history : Trace} {system : System} {record : Record System Action Response}
    (run : Run System.Step .new history system) (member : record ∈ history) :
    Change record.before record.after record.label record.result := by
  obtain ⟨newer, older, _, before, taken, _⟩ := run.of_mem member
  exact taken.change (Run.sound before)

theorem Run.grows {history : Trace} {start system : System} (sound : start.Sound)
    (run : Run System.Step start history system) (id : JobId) : start.stream id <+: system.stream id := by
  induction run with
  | refl => exact List.prefix_rfl
  | step run taken ih =>
    have before : System.Sound _ := run.invariant System.Sound sound fun _ _ _ _ kept next => kept.step next
    exact ih.trans ((taken.change before).grows id)

theorem Change.streams {before after : System} {action : Action} {response : Response}
    (change : Change before after action response) :
    (∀ id, after.store.inner.streams.lookup id = before.store.inner.streams.lookup id) ∨
      (∃ (ports : Ports) (cmd : EnqueueCommand), validatePolicy cmd.retryPolicy = .ok () ∧
        Appended before.store.inner after.store.inner ports.jobId (cmd.envelopes ports)
          (Job.opened ports.jobId cmd.queue cmd.payload cmd.priority cmd.retryPolicy cmd.notBefore) ∧
        before.store.inner.streams.lookup ports.jobId = none) ∨
      ∃ ports id stream job events next, before.store.inner.streams.lookup id = some stream ∧
        Job.fromEvents stream = .ok job ∧ Job.Effect job events next ∧
        Appended before.store.inner after.store.inner id (follow ports id stream events) next := by
  cases change with
  | quiet order refused => exact .inl order.streams
  | enqueued valid fresh effects => exact .inr (.inl ⟨_, _, valid, effects, fresh⟩)
  | leased present folded granted lease deadline effect effects =>
    exact .inr (.inr ⟨_, _, _, _, _, _, present, folded, effect, effects⟩)
  | extended held live converted added effects => exact .inl effects.streams
  | retired indexed live overdue present folded retired effect effects =>
    exact .inr (.inr ⟨_, _, _, _, _, _, present, folded, effect, effects⟩)
  | answered ongoing present folded same command effect effects =>
    exact .inr (.inr ⟨_, _, _, _, _, _, present, folded, effect, effects⟩)

/-- `holds` is true of every stored stream with its fold, and of all that calls have loaded. -/
structure System.Streams (system : System) (holds : List EventEnvelope → Job → Prop) : Prop where
  stored : ∀ id stream job, system.store.inner.streams.lookup id = some stream →
    Job.fromEvents stream = .ok job → holds stream job
  loaded : ∀ ticket flight, system.inFlight ticket = some flight →
    holds flight.loaded.stream flight.loaded.job

/-- What holds of fresh streams and survives every command holds of all streams of every run. -/
theorem Run.streams {history : Trace} {system : System} (holds : List EventEnvelope → Job → Prop)
    (opened : ∀ (ports : Ports) (cmd : EnqueueCommand), validatePolicy cmd.retryPolicy = .ok () →
      holds (cmd.envelopes ports)
        (Job.opened ports.jobId cmd.queue cmd.payload cmd.priority cmd.retryPolicy cmd.notBefore))
    (kept : ∀ (ports : Ports) (id : JobId) (stream : List EventEnvelope) (job : Job)
      (events : List JobEvent) (next : Job), Job.fromEvents stream = .ok job → holds stream job →
      Job.Effect job events next → holds (stream ++ follow ports id stream events) next)
    (run : Run System.Step .new history system) : system.Streams holds := by
  induction run with
  | refl =>
    refine ⟨?_, ?_⟩
    · intro id stream job stored
      cases stored
    · intro ticket flight ongoing
      cases ongoing
  | step run taken ih =>
    refine ⟨?_, ?_⟩
    · intro id stream job stored folded
      rcases (taken.change (Run.sound run)).streams with same | ⟨ports, cmd, valid, effects, fresh⟩ |
        ⟨ports, target, old, before, events, next, present, fold, effect, effects⟩
      · rw [same] at stored
        exact ih.stored id stream job stored folded
      · by_cases target : id = ports.jobId
        · subst target
          rw [effects.stream_self, Inner.stream, fresh] at stored
          cases stored
          cases folded
          exact opened ports cmd valid
        · rw [effects.stream_other id target] at stored
          exact ih.stored id stream job stored folded
      · by_cases same : id = target
        · subst same
          rw [effects.stream_self, Inner.stream_of_lookup present] at stored
          cases stored
          rw [follow_folds ports id fold effect.applies] at folded
          cases folded
          exact kept ports id old before events _ fold (ih.stored id old before present fold) effect
        · rw [effects.stream_other id same] at stored
          exact ih.stored id stream job stored folded
    · intro ticket flight ongoing
      rcases taken.inFlight ongoing with old | ⟨_, stored, folded⟩
      · exact ih.loaded ticket flight old
      · exact ih.stored flight.jobId _ _ stored folded

end Koine.Memory
