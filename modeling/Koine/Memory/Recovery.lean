import Mathlib.Data.Finset.Card
import Koine.Memory.Health

namespace Koine.Memory

open Library Domain Application

def Inner.idsWhere (inner : Inner) (holds : DispatchEntry → Bool) : Finset JobId :=
  inner.index.keys.toFinset.filter fun id => (inner.index.lookup id).any holds

theorem Inner.mem_idsWhere {inner : Inner} {holds : DispatchEntry → Bool} {id : JobId} :
    id ∈ inner.idsWhere holds ↔ ∃ entry, inner.index.lookup id = some entry ∧ holds entry = true := by
  unfold Inner.idsWhere
  rw [Finset.mem_filter, List.mem_toFinset, ← AList.mem_keys, ← AList.lookup_isSome]
  cases inner.index.lookup id <;> simp

theorem Inner.idsWhere_card_lt {inner after : Inner} {holds : DispatchEntry → Bool} {id : JobId}
    (listed : id ∈ inner.idsWhere holds) (dropped : id ∉ after.idsWhere holds)
    (others : ∀ other, other ≠ id → after.index.lookup other = inner.index.lookup other) :
    (after.idsWhere holds).card < (inner.idsWhere holds).card := by
  apply Finset.card_lt_card
  refine ⟨?_, fun all => dropped (all listed)⟩
  intro other member
  by_cases same : other = id
  · exact absurd (same ▸ member) dropped
  · rw [Inner.mem_idsWhere, others other same] at member
    exact Inner.mem_idsWhere.mpr member

/-- An instant, thirty days and a TTL together are representable. -/
def Room (ttl : Duration) (time : DateTime) : Prop :=
  time.nanos + maxSaneDelay.nanos + ttl.nanos ≤ maxUtcNanos

instance (ttl : Duration) (time : DateTime) : Decidable (Room ttl time) := inferInstanceAs (Decidable (_ ≤ _))

theorem Room.max {ttl : Duration} {left right : DateTime} (first : Room ttl left) (second : Room ttl right) :
    Room ttl (max left right) := by
  rcases max_choice left right with same | same
  · rw [same]
    exact first
  · rw [same]
    exact second

theorem Room.later {ttl : Duration} {time : DateTime} (room : Room ttl time) :
    ∃ later : DateTime, later.nanos = time.nanos + maxSaneDelay.nanos ∧ time ≤ later := by
  have lower := time.lower
  unfold Room at room
  refine ⟨⟨time.nanos + maxSaneDelay.nanos, by omega, by omega⟩, rfl, ?_⟩
  rw [DateTime.le_iff]
  exact Int.le_add_of_nonneg_right (Int.natCast_nonneg _)

inductive Remedy where
  | sweep (time : DateTime)
  | leaseNext (time : DateTime)

def Remedy.clock : Remedy → DateTime
  | .sweep time | .leaseNext time => time

variable [BuildProfile]

/-- One `SweepExpiredLeases::execute` while the clock shows `time`, `swept` retirements in. -/
inductive Sweeps (time : DateTime) : System → UInt32 → Outcome SweepError UInt32 → System → Prop where
  | done {before after : System} {swept : UInt32} (ports : Ports) (clock : ports.now = time)
      (taken : System.Step before (.retireNextExpiredLease ports) (.retired (.ok none)) after) :
      Sweeps time before swept (.ok swept) after
  | more {before middle after : System} {swept next : UInt32} {id : JobId} {result : Outcome SweepError UInt32}
      (ports : Ports) (clock : ports.now = time)
      (taken : System.Step before (.retireNextExpiredLease ports) (.retired (.ok (some id))) middle)
      (counted : u32Succ swept = some next) (rest : Sweeps time middle next result after) :
      Sweeps time before swept result after
  | overflowed {before after : System} {swept : UInt32} {id : JobId} (ports : Ports) (clock : ports.now = time)
      (taken : System.Step before (.retireNextExpiredLease ports) (.retired (.ok (some id))) after)
      (full : u32Succ swept = none) : Sweeps time before swept .panic after
  | failed {before after : System} {swept : UInt32} {error : DispatchError} (ports : Ports)
      (clock : ports.now = time)
      (taken : System.Step before (.retireNextExpiredLease ports) (.retired (.err error)) after) :
      Sweeps time before swept (.err (.dispatch error)) after
  | panicked {before after : System} {swept : UInt32} (ports : Ports) (clock : ports.now = time)
      (taken : System.Step before (.retireNextExpiredLease ports) (.retired .panic) after) :
      Sweeps time before swept .panic after

/-- The sweep's own loop, whenever it returns, is such a sweep. -/
theorem Sweeps.of_loop {time : DateTime} {ports : Nat → Ports} (clock : ∀ k, (ports k).now = time)
    (calls : Nat → Option InFlight) {fuel : Nat} {swept : UInt32} {store after : InMemoryEventStore}
    {result : Outcome SweepError UInt32}
    (ran : SweepExpiredLeases.loop fuel store ports swept = (after, some result)) :
    Sweeps time ⟨store, calls⟩ swept result ⟨after, calls⟩ := by
  induction fuel generalizing store ports swept with
  | zero => cases ran
  | succ fuel ih =>
    have taken := System.Step.of_exec (.retireNextExpiredLease (ports 0)) ⟨store, calls⟩
    simp only [Action.exec] at taken
    simp only [SweepExpiredLeases.loop, Dispatcher.retireNextExpiredLease] at ran
    rcases retired : store.retireNextExpiredLease (ports 0) with ⟨middle, outcome⟩
    rw [retired] at ran taken
    rcases outcome with (_ | id) | error | _
    · cases ran
      exact .done (ports 0) (clock 0) taken
    · cases counted : u32Succ swept with
      | some next =>
        simp only [counted] at ran
        exact .more (ports 0) (clock 0) taken counted (ih (fun k => clock (k + 1)) ran)
      | none =>
        simp only [counted] at ran
        cases ran
        exact .overflowed (ports 0) (clock 0) taken counted
    · cases ran
      exact .failed (ports 0) (clock 0) taken
    · cases ran
      exact .panicked (ports 0) (clock 0) taken

/-- Carrying out a plan on one queue; ids, seeds and iteration orders are anyone's choice. -/
inductive Follows (queue : QueueName) (worker : WorkerId) (ttl : Duration) :
    System → List Remedy → List (Ports × Outcome DispatchError (Option LeasedJob)) → System → Prop where
  | nil {system : System} : Follows queue worker ttl system [] [] system
  | sweep {before middle after : System} {time : DateTime} {plan : List Remedy}
      {answers : List (Ports × Outcome DispatchError (Option LeasedJob))}
      {result : Outcome SweepError UInt32} (swept : Sweeps time before 0 result middle)
      (rest : Follows queue worker ttl middle plan answers after) :
      Follows queue worker ttl before (.sweep time :: plan) answers after
  | leaseNext {before middle after : System} {time : DateTime} {plan : List Remedy}
      {answers : List (Ports × Outcome DispatchError (Option LeasedJob))}
      {result : Outcome DispatchError (Option LeasedJob)} (ports : Ports) (clock : ports.now = time)
      (taken : System.Step before (.leaseNext ports queue worker ttl) (.leased result) middle)
      (rest : Follows queue worker ttl middle plan answers after) :
      Follows queue worker ttl before (.leaseNext time :: plan) ((ports, result) :: answers) after

def Exhausted (system : System) (id : JobId) : Prop :=
  ∃ job, Job.fromEvents (system.stream id) = .ok job ∧ job.state = .parked .retriesExhausted

def Recovered (id : JobId) (answers : List (Ports × Outcome DispatchError (Option LeasedJob)))
    (final : System) : Prop :=
  (∃ ports leased, (ports, .ok (some leased)) ∈ answers ∧ leased.jobId = id ∧
    leased.lease = ports.leaseId) ∨ Exhausted final id

theorem Recovered.cons {id : JobId} {answers : List (Ports × Outcome DispatchError (Option LeasedJob))}
    {final : System} (answer : Ports × Outcome DispatchError (Option LeasedJob))
    (recovered : Recovered id answers final) : Recovered id (answer :: answers) final := by
  rcases recovered with ⟨ports, leased, member, found⟩ | exhausted
  · exact .inl ⟨ports, leased, List.mem_cons_of_mem _ member, found⟩
  · exact .inr exhausted

/-- Reached from the new system by steps whose deadlines are all in range. -/
def Steady (system : System) : Prop :=
  ∃ history : Trace, Run System.Step .new history system ∧
    ∀ record ∈ history, record.label.representable record.before = true

theorem Steady.sound {system : System} (steady : Steady system) : system.Sound := by
  obtain ⟨history, run, _⟩ := steady
  exact Run.sound run

theorem Steady.accounted {system : System} (steady : Steady system) : system.Streams Accounted := by
  obtain ⟨history, run, _⟩ := steady
  exact Run.accounted run

theorem Steady.unpoisoned {system : System} (steady : Steady system) : system.store.poisoned = false := by
  obtain ⟨history, run, fits⟩ := steady
  exact Run.unpoisoned run fits

theorem Steady.step {before after : System} {action : Action} {response : Response}
    (steady : Steady before) (taken : System.Step before action response after)
    (fits : action.representable before = true) : Steady after := by
  obtain ⟨history, run, all⟩ := steady
  exact ⟨_, .step run taken, List.forall_mem_cons.mpr ⟨fits, all⟩⟩

omit [BuildProfile] in
theorem locked_result {α : Type} {store : InMemoryEventStore}
    {body : Inner → Inner × Outcome EventStoreError α} (healthy : store.poisoned = false) :
    (store.locked body).2 = (body store.inner).2 := by
  rcases ran : store.locked body with ⟨after, result⟩
  rcases locked_cases ran with ⟨poisoned, _, _⟩ | ⟨_, called, _⟩
  · rw [healthy] at poisoned
    cases poisoned
  · rw [called]

/-- What a retirement leaves of the job: due again within thirty days, or parked for good. -/
def Released (time : DateTime) (job : Job) : Prop :=
  (∃ notBefore, job.state = .pending (some notBefore) ∧
    notBefore.nanos ≤ time.nanos + maxSaneDelay.nanos) ∨ job.state = .parked .retriesExhausted

omit [BuildProfile] in
theorem Accounted.delays {stream : List EventEnvelope} {job : Job} (accounted : Accounted stream job)
    {time : DateTime} (room : time.nanos + maxSaneDelay.nanos ≤ maxUtcNanos) :
    time.nanos + job.retryPolicy.maxDelay.nanos ≤ maxUtcNanos := by
  have policy := validatePolicy_ok accounted.policy
  omega

theorem expireLease_released {stream : List EventEnvelope} {job next : Job} {now : DateTime} {seed : UInt64}
    {events : List JobEvent} (accounted : Accounted stream job)
    (retired : job.expireLease now seed = .ok events) (effect : Job.Effect job events next) :
    next.queue = job.queue ∧ Released now next := by
  have policy := validatePolicy_ok accounted.policy
  have applied := effect.applies
  obtain ⟨lease, attempt, decision, held, succ, decided, rfl⟩ := Job.expireLease_ok retired
  rcases Job.retryDecisionEvent_ok decided with ⟨notBefore, delay, delta, chosen, converted, added,
    below, rfl⟩ | ⟨spent, rfl⟩
  · rw [(Job.Effect.expiredRetry attempt notBefore held succ below).applies] at applied
    cases applied
    have capped := Duration.le_iff.mp (RetryPolicy.decide_delay chosen)
    have sum := DateTime.deadline_nanos converted added
    exact ⟨rfl, .inl ⟨notBefore, rfl, by omega⟩⟩
  · rw [(Job.Effect.expiredParked attempt held succ spent).applies] at applied
    cases applied
    exact ⟨rfl, .inr rfl⟩

theorem Steady.retire {before after : System} {ports : Ports} {result : Outcome DispatchError (Option JobId)}
    (steady : Steady before) (room : ports.now.nanos + maxSaneDelay.nanos ≤ maxUtcNanos)
    (taken : System.Step before (.retireNextExpiredLease ports) (.retired result) after) :
    (result = .ok none ∧ before.store.inner.Reordered after.store.inner ∧
        before.store.inner.idsWhere (·.overdue ports.now) = ∅) ∨
      ∃ id job next batch, result = .ok (some id) ∧
        id ∈ before.store.inner.idsWhere (·.overdue ports.now) ∧
        Job.fromEvents (before.stream id) = .ok job ∧
        Appended before.store.inner after.store.inner id batch next ∧ next.queue = job.queue ∧
        Released ports.now next := by
  have sound := steady.sound
  have change := taken.change sound
  obtain ⟨shuffled, order, ran⟩ := taken
  have healthy : (⟨shuffled, before.store.poisoned⟩ : InMemoryEventStore).poisoned = false :=
    steady.unpoisoned
  simp only [Action.exec, retireNextExpiredLease_eq, locked_result healthy, Prod.mk.injEq,
    Response.retired.injEq] at ran
  obtain ⟨_, answered⟩ := ran
  rcases called : shuffled.retireOne ports with ⟨written, outcome⟩
  rw [called] at answered
  cases picked : shuffled.pickExpired ports.now with
  | none =>
    simp only [Inner.retireOne, picked] at called
    cases called
    cases answered
    refine .inl ⟨rfl, ?_, ?_⟩
    · cases change with
      | quiet order refused => exact order
    · rw [Finset.eq_empty_iff_forall_notMem]
      intro id member
      obtain ⟨entry, present, overdue⟩ := Inner.mem_idsWhere.mp member
      rw [← order.index] at present
      rw [pickExpired_none.mp picked id entry present] at overdue
      cases overdue
  | some id =>
    obtain ⟨entry, state, stream, job, _, _, _, stored, folded, held⟩ :=
      (sound.consistent.reorder order).expired picked
    have found := stored
    rw [order.streams] at found
    have accounted := steady.accounted.stored id stream job found folded
    obtain ⟨events, retired⟩ := Job.expireLease_total held (u32Succ_of_room accounted.room)
      (accounted.delays room) ports.jitterSeed
    rcases retireOne_picked picked stored folded called with ⟨_, _, rfl⟩ | ⟨_, refused, _⟩ | ⟨unwound, _⟩
    · cases answered
      cases change with
      | quiet order refused => cases refused
      | retired indexed live overdue present again expired effect effects =>
        rw [found] at present
        cases present
        rw [folded] at again
        cases again
        obtain ⟨queue, released⟩ := expireLease_released accounted expired effect
        have listed := overdue_iff.mpr ⟨_, live, overdue⟩
        refine .inr ⟨id, job, _, _, rfl, Inner.mem_idsWhere.mpr ⟨_, indexed, listed⟩, ?_, effects, queue,
          released⟩
        rw [System.stream, Inner.stream_of_lookup found]
        exact folded
    · rw [retired] at refused
      cases refused
    · rw [retired] at unwound
      cases unwound

theorem Steady.claims {before after : System} {ports : Ports} {queue : QueueName} {worker : WorkerId}
    {ttl : Duration} {id : JobId} {result : Outcome DispatchError (Option LeasedJob)}
    (steady : Steady before) (room : ports.now.nanos + ttl.nanos ≤ maxUtcNanos)
    (waiting : id ∈ before.store.inner.idsWhere (·.eligible queue ports.now))
    (taken : System.Step before (.leaseNext ports queue worker ttl) (.leased result) after) :
    ∃ leased, result = .ok (some leased) ∧ leased.lease = ports.leaseId ∧
      leased.jobId ∈ before.store.inner.idsWhere (·.eligible queue ports.now) ∧
      leased.jobId ∉ after.store.inner.idsWhere (·.eligible queue ports.now) ∧
      ∀ other, other ≠ leased.jobId →
        after.store.inner.index.lookup other = before.store.inner.index.lookup other := by
  have sound := steady.sound
  have change := taken.change sound
  obtain ⟨shuffled, order, ran⟩ := taken
  have healthy : (⟨shuffled, before.store.poisoned⟩ : InMemoryEventStore).poisoned = false :=
    steady.unpoisoned
  simp only [Action.exec, leaseNext_eq, locked_result healthy, Prod.mk.injEq, Response.leased.injEq] at ran
  obtain ⟨_, answered⟩ := ran
  rcases called : shuffled.claim ports queue worker ttl with ⟨written, outcome⟩
  rw [called] at answered
  cases picked : shuffled.pickEligible queue ports.now with
  | none =>
    obtain ⟨entry, present, eligible⟩ := Inner.mem_idsWhere.mp waiting
    rw [← order.index] at present
    rw [pickEligible_none.mp picked id entry present] at eligible
    cases eligible
  | some chosen =>
    obtain ⟨entry, stream, job, present, eligible, stored, folded, pending, due⟩ :=
      (sound.consistent.reorder order).picked picked
    obtain ⟨deadline, granted⟩ := Job.lease_total pending due room worker ports.leaseId
    rcases claim_picked picked stored folded called with ⟨_, leased, _, rfl, rfl⟩ | ⟨_, refused, _⟩ |
      ⟨unwound, _⟩
    · cases answered
      rw [order.index] at present
      cases change with
      | quiet order refused => cases refused
      | leased _ _ _ lease _ effect effects =>
        refine ⟨leased, rfl, lease, Inner.mem_idsWhere.mpr ⟨entry, present, eligible⟩, ?_,
          effects.index_other⟩
        intro member
        obtain ⟨kept, stays, free⟩ := Inner.mem_idsWhere.mp member
        cases effect with
        | leased _ _ _ _ =>
          rw [effects.index_self] at stays
          cases stays
          cases (eligible_iff.mp free).2.1
    · rw [granted] at refused
      cases refused
    · rw [granted] at unwound
      cases unwound

theorem Exhausted.claim {before after : System} {ports : Ports} {queue : QueueName} {worker : WorkerId}
    {ttl : Duration} {id : JobId} {response : Response} (exhausted : Exhausted before id)
    (sound : before.Sound) (taken : System.Step before (.leaseNext ports queue worker ttl) response after) :
    Exhausted after id := by
  obtain ⟨job, folded, parked⟩ := exhausted
  refine ⟨job, ?_, parked⟩
  cases taken.change sound with
  | quiet order refused =>
    rw [System.stream, order.stream]
    exact folded
  | leased present refolded granted lease deadline effect effects =>
    rename_i leased
    by_cases same : id = leased.jobId
    · subst same
      rw [System.stream, Inner.stream_of_lookup present, refolded] at folded
      cases folded
      obtain ⟨notBefore, _, _, pending, _⟩ := Job.lease_ok granted
      rw [parked] at pending
      cases pending
    · rw [System.stream, effects.stream_ne same]
      exact folded

theorem Steady.recovers {queue : QueueName} {worker : WorkerId} {ttl : Duration} {time : DateTime}
    {id : JobId} (room : time.nanos + ttl.nanos ≤ maxUtcNanos) (claims : Nat) {system final : System}
    {answers : List (Ports × Outcome DispatchError (Option LeasedJob))} (steady : Steady system)
    (state : Exhausted system id ∨ id ∈ system.store.inner.idsWhere (·.eligible queue time) ∧
      (system.store.inner.idsWhere (·.eligible queue time)).card ≤ claims)
    (followed : Follows queue worker ttl system (List.replicate claims (.leaseNext time)) answers final) :
    Recovered id answers final := by
  induction claims generalizing system answers with
  | zero =>
    cases followed
    rcases state with exhausted | ⟨waiting, bound⟩
    · exact .inr exhausted
    · rw [Nat.le_zero, Finset.card_eq_zero] at bound
      rw [bound] at waiting
      cases waiting
  | succ claims ih =>
    rw [List.replicate_succ] at followed
    cases followed with
    | leaseNext ports clock taken rest =>
      subst clock
      obtain ⟨delta, deadline, converted, added⟩ := DateTime.addable room
      have fits : (Action.leaseNext ports queue worker ttl).representable system = true := by
        simp [Action.representable, representable, converted, added]
      have next := steady.step taken fits
      rcases state with exhausted | ⟨waiting, bound⟩
      · exact (ih next (.inl (exhausted.claim steady.sound taken)) rest).cons _
      · obtain ⟨leased, rfl, lease, listed, dropped, others⟩ := steady.claims room waiting taken
        by_cases found : leased.jobId = id
        · exact .inl ⟨ports, leased, List.mem_cons_self, found, lease⟩
        · have fewer := Inner.idsWhere_card_lt listed dropped others
          refine Recovered.cons _ (ih next (.inr ⟨?_, by omega⟩) rest)
          rw [Inner.mem_idsWhere, others id (Ne.symm found)]
          exact Inner.mem_idsWhere.mp waiting

theorem Released.not_overdue {before after : System} {id : JobId} {batch : List EventEnvelope} {next : Job}
    {time : DateTime} (released : Released time next)
    (effects : Appended before.store.inner after.store.inner id batch next) :
    id ∉ after.store.inner.idsWhere (·.overdue time) := by
  intro member
  obtain ⟨entry, present, overdue⟩ := Inner.mem_idsWhere.mp member
  rw [effects.index_self] at present
  rcases released with ⟨notBefore, pending, _⟩ | parked
  · simp only [entryOf, pending] at present
    cases present
    cases overdue
  · simp only [entryOf, parked] at present
    cases present

omit [BuildProfile] in
theorem Inner.idsWhere_reordered {inner shuffled : Inner} (order : inner.Reordered shuffled)
    (holds : DispatchEntry → Bool) : shuffled.idsWhere holds = inner.idsWhere holds := by
  ext id
  rw [Inner.mem_idsWhere, Inner.mem_idsWhere, order.index]

theorem Steady.retire_fewer {before after : System} {ports : Ports} {id : JobId} (steady : Steady before)
    (room : ports.now.nanos + maxSaneDelay.nanos ≤ maxUtcNanos)
    (taken : System.Step before (.retireNextExpiredLease ports) (.retired (.ok (some id))) after) :
    (after.store.inner.idsWhere (·.overdue ports.now)).card <
      (before.store.inner.idsWhere (·.overdue ports.now)).card := by
  rcases steady.retire room taken with ⟨none, _⟩ | ⟨retired, job, next, batch, _, listed, _, effects, _, released⟩
  · cases none
  · exact Inner.idsWhere_card_lt listed (released.not_overdue effects) effects.index_other

theorem Steady.sweep_returns {time : DateTime} {ports : Nat → Ports} (clock : ∀ k, (ports k).now = time)
    (room : time.nanos + maxSaneDelay.nanos ≤ maxUtcNanos) (fuel : Nat) (swept : UInt32) {system : System}
    (steady : Steady system) (enough : (system.store.inner.idsWhere (·.overdue time)).card < fuel) :
    ∃ after result, SweepExpiredLeases.loop fuel system.store ports swept = (after, some result) := by
  induction fuel generalizing system ports swept with
  | zero => omega
  | succ fuel ih =>
    have taken := System.Step.of_exec (.retireNextExpiredLease (ports 0)) system
    simp only [Action.exec] at taken
    simp only [SweepExpiredLeases.loop, Dispatcher.retireNextExpiredLease]
    rcases retired : system.store.retireNextExpiredLease (ports 0) with ⟨store, result⟩
    rw [retired] at taken
    rw [← clock 0] at room
    rcases steady.retire room taken with ⟨rfl, _⟩ | ⟨id, _, _, _, rfl, _⟩
    · exact ⟨store, .ok swept, rfl⟩
    · cases counted : u32Succ swept with
      | none => exact ⟨store, .panic, rfl⟩
      | some next =>
        have fewer := steady.retire_fewer room taken
        rw [clock 0] at fewer
        exact ih (fun k => clock (k + 1)) next (steady.step taken rfl) (by omega)

def Waiting (system : System) (id : JobId) (queue : QueueName) (time : DateTime) : Prop :=
  id ∈ system.store.inner.idsWhere (·.eligible queue time) ∨ Exhausted system id

def Overdue (system : System) (id : JobId) (queue : QueueName) (time : DateTime) : Prop :=
  ∃ entry, system.store.inner.index.lookup id = some entry ∧ entry.queue = queue ∧
    entry.overdue time = true

theorem Exhausted.unindexed {system : System} {id : JobId} (exhausted : Exhausted system id)
    (sound : system.Sound) : system.store.inner.index.lookup id = none := by
  obtain ⟨job, folded, parked⟩ := exhausted
  cases present : system.store.inner.index.lookup id with
  | none => rfl
  | some entry =>
    obtain ⟨stream, other, stored, refolded, mirrors⟩ := sound.consistent.entry present
    rw [System.stream, Inner.stream_of_lookup stored, refolded] at folded
    cases folded
    have content := mirrors.2.2
    rw [parked] at content
    cases content

theorem Waiting.frame {before after : System} {id : JobId} {queue : QueueName} {time : DateTime}
    (waiting : Waiting before id queue time)
    (entry : after.store.inner.index.lookup id = before.store.inner.index.lookup id)
    (stream : after.stream id = before.stream id) : Waiting after id queue time := by
  rcases waiting with listed | ⟨job, folded, parked⟩
  · left
    rw [Inner.mem_idsWhere, entry]
    exact Inner.mem_idsWhere.mp listed
  · right
    refine ⟨job, ?_, parked⟩
    rw [stream]
    exact folded

theorem entry_queue {system : System} {id : JobId} {queue : QueueName} {time later : DateTime}
    {entry : DispatchEntry} (sound : system.Sound)
    (state : Overdue system id queue time ∨ Waiting system id queue later)
    (present : system.store.inner.index.lookup id = some entry) : entry.queue = queue := by
  rcases state with ⟨other, found, home, _⟩ | listed | exhausted
  · rw [found] at present
    cases present
    exact home
  · obtain ⟨other, found, eligible⟩ := Inner.mem_idsWhere.mp listed
    rw [found] at present
    cases present
    exact (eligible_iff.mp eligible).1
  · rw [exhausted.unindexed sound] at present
    cases present

theorem Released.waiting {before after : System} {id : JobId} {batch : List EventEnvelope} {next : Job}
    {time later : DateTime} (released : Released time next)
    (span : later.nanos = time.nanos + maxSaneDelay.nanos)
    (effects : Appended before.store.inner after.store.inner id batch next) :
    Waiting after id next.queue later := by
  rcases released with ⟨notBefore, pending, soon⟩ | parked
  · left
    refine Inner.mem_idsWhere.mpr ⟨_, by rw [effects.index_self, entryOf, pending], ?_⟩
    refine eligible_iff.mpr ⟨rfl, rfl, ?_⟩
    intro time due
    cases due
    rw [DateTime.le_iff]
    omega
  · right
    refine ⟨next, ?_, parked⟩
    rw [System.stream, effects.stream]
    exact effects.folded

theorem Steady.retire_keeps {before after : System} {ports : Ports}
    {result : Outcome DispatchError (Option JobId)} {id : JobId} {queue : QueueName} {later : DateTime}
    (steady : Steady before) (span : later.nanos = ports.now.nanos + maxSaneDelay.nanos)
    (state : Overdue before id queue ports.now ∨ Waiting before id queue later)
    (taken : System.Step before (.retireNextExpiredLease ports) (.retired result) after) :
    (result = .ok none ∧ Waiting after id queue later ∨
      ∃ retired, result = .ok (some retired) ∧
        (Overdue after id queue ports.now ∨ Waiting after id queue later)) ∧
      after.store.inner.idsWhere (fun _ => true) ⊆ before.store.inner.idsWhere (fun _ => true) := by
  have room : ports.now.nanos + maxSaneDelay.nanos ≤ maxUtcNanos := span ▸ later.upper
  rcases steady.retire room taken with ⟨rfl, order, none⟩ | ⟨retired, job, next, batch, rfl, listed,
    folded, effects, kept, released⟩
  · constructor
    · rcases state with ⟨entry, present, _, overdue⟩ | waiting
      · have listed : id ∈ before.store.inner.idsWhere (·.overdue ports.now) :=
          Inner.mem_idsWhere.mpr ⟨entry, present, overdue⟩
        rw [none] at listed
        cases listed
      · exact .inl ⟨rfl, waiting.frame (order.index id) (order.stream id)⟩
    · intro other member
      rw [Inner.mem_idsWhere, order.index] at member
      exact Inner.mem_idsWhere.mpr member
  · obtain ⟨entry, present, overdue⟩ := Inner.mem_idsWhere.mp listed
    constructor
    · by_cases same : id = retired
      · subst same
        have home := entry_queue steady.sound state present
        obtain ⟨stream, folder, stored, refolded, mirrors⟩ := steady.sound.consistent.entry present
        rw [System.stream, Inner.stream_of_lookup stored, refolded] at folded
        cases folded
        rw [mirrors.1, ← kept] at home
        rw [← home]
        exact .inr ⟨id, rfl, .inr (released.waiting span effects)⟩
      · have entries := effects.index_other id same
        have streams := effects.stream_ne same
        rcases state with ⟨other, found, home, expired⟩ | waiting
        · exact .inr ⟨retired, rfl, .inl ⟨other, entries.trans found, home, expired⟩⟩
        · exact .inr ⟨retired, rfl, .inr (waiting.frame entries streams)⟩
    · intro other member
      by_cases same : other = retired
      · subst same
        exact Inner.mem_idsWhere.mpr ⟨entry, present, rfl⟩
      · rw [Inner.mem_idsWhere, effects.index_other other same] at member
        exact Inner.mem_idsWhere.mpr member

theorem Steady.sweep {before after : System} {time : DateTime} {swept : UInt32}
    {result : Outcome SweepError UInt32} (steady : Steady before)
    (ran : Sweeps time before swept result after) : Steady after := by
  induction ran with
  | done ports clock taken => exact steady.step taken rfl
  | more ports clock taken counted rest ih => exact ih (steady.step taken rfl)
  | overflowed ports clock taken full => exact steady.step taken rfl
  | failed ports clock taken | panicked ports clock taken => exact steady.step taken rfl

/-- A sweep that counts to its end leaves nothing overdue; one that stops for want of room in its counter
    leaves fewer. -/
theorem Steady.sweep_keeps {before after : System} {time later : DateTime} {swept : UInt32}
    {result : Outcome SweepError UInt32} {id : JobId} {queue : QueueName} (steady : Steady before)
    (span : later.nanos = time.nanos + maxSaneDelay.nanos)
    (state : Overdue before id queue time ∨ Waiting before id queue later)
    (ran : Sweeps time before swept result after) :
    (Overdue after id queue time ∨ Waiting after id queue later) ∧
      (after.store.inner.idsWhere (·.overdue time)).card ≤
        (before.store.inner.idsWhere (·.overdue time)).card - 1 ∧
      after.store.inner.idsWhere (fun _ => true) ⊆ before.store.inner.idsWhere (fun _ => true) := by
  have room : time.nanos + maxSaneDelay.nanos ≤ maxUtcNanos := span ▸ later.upper
  induction ran with
  | done ports clock taken =>
    subst clock
    obtain ⟨⟨_, waiting⟩ | ⟨_, some, _⟩, fewer⟩ := steady.retire_keeps span state taken
    · refine ⟨.inr waiting, ?_, fewer⟩
      rcases steady.retire room taken with ⟨_, order, empty⟩ | ⟨_, _, _, _, some, _⟩
      · rw [Inner.idsWhere_reordered order, empty]
        exact Nat.zero_le _
      · cases some
    · cases some
  | more ports clock taken counted rest ih =>
    subst clock
    have dropped := steady.retire_fewer room taken
    obtain ⟨⟨none, _⟩ | ⟨_, _, next⟩, fewer⟩ := steady.retire_keeps span state taken
    · cases none
    · obtain ⟨kept, less, fewest⟩ := ih (steady.step taken rfl) next
      exact ⟨kept, by omega, fewest.trans fewer⟩
  | overflowed ports clock taken full =>
    subst clock
    have dropped := steady.retire_fewer room taken
    obtain ⟨⟨none, _⟩ | ⟨_, _, kept⟩, fewer⟩ := steady.retire_keeps span state taken
    · cases none
    · exact ⟨kept, by omega, fewer⟩
  | failed ports clock taken | panicked ports clock taken =>
    subst clock
    obtain ⟨⟨none, _⟩ | ⟨_, some, _⟩, _⟩ := steady.retire_keeps span state taken
    · cases none
    · cases some

theorem Steady.sweeps_keep {queue : QueueName} {worker : WorkerId} {ttl : Duration} {time later : DateTime}
    {id : JobId} {plan : List Remedy} {final : System}
    {answers : List (Ports × Outcome DispatchError (Option LeasedJob))}
    (span : later.nanos = time.nanos + maxSaneDelay.nanos) (sweeps : Nat) {system : System}
    (steady : Steady system) (state : Overdue system id queue time ∨ Waiting system id queue later)
    (bound : (system.store.inner.idsWhere (·.overdue time)).card ≤ sweeps)
    (followed : Follows queue worker ttl system (List.replicate sweeps (.sweep time) ++ plan) answers final) :
    ∃ middle, Steady middle ∧ Waiting middle id queue later ∧
      middle.store.inner.idsWhere (fun _ => true) ⊆ system.store.inner.idsWhere (fun _ => true) ∧
      Follows queue worker ttl middle plan answers final := by
  induction sweeps generalizing system with
  | zero =>
    rcases state with ⟨entry, present, _, overdue⟩ | waiting
    · have listed : id ∈ system.store.inner.idsWhere (·.overdue time) :=
        Inner.mem_idsWhere.mpr ⟨entry, present, overdue⟩
      have positive := Finset.card_pos.mpr ⟨id, listed⟩
      omega
    · exact ⟨system, steady, waiting, subset_rfl, followed⟩
  | succ sweeps ih =>
    rw [List.replicate_succ, List.cons_append] at followed
    cases followed with
    | sweep swept rest =>
      obtain ⟨kept, dropped, fewer⟩ := steady.sweep_keeps span state swept
      obtain ⟨middle, settled, waiting, fewest, claims⟩ := ih (steady.sweep swept) kept (by omega) rest
      exact ⟨middle, settled, waiting, fewest.trans fewer, claims⟩

theorem Steady.sweeps_exist {queue : QueueName} {worker : WorkerId} {ttl : Duration} {time : DateTime}
    {plan : List Remedy} (room : time.nanos + maxSaneDelay.nanos ≤ maxUtcNanos)
    (claims : ∀ system, ∃ answers final, Follows queue worker ttl system plan answers final) (sweeps : Nat)
    {system : System} (steady : Steady system) :
    ∃ answers final,
      Follows queue worker ttl system (List.replicate sweeps (.sweep time) ++ plan) answers final := by
  induction sweeps generalizing system with
  | zero => exact claims system
  | succ sweeps ih =>
    let ports : Nat → Ports := fun _ => { Sample.ports 0 0 with now := time }
    obtain ⟨store, result, ran⟩ :=
      steady.sweep_returns (fun _ => rfl : ∀ k, (ports k).now = time) room _ 0 (Nat.lt_succ_self _)
    have swept := Sweeps.of_loop (fun _ => rfl) system.inFlight ran
    obtain ⟨answers, final, rest⟩ := ih (steady.sweep swept)
    exact ⟨answers, final, .sweep swept rest⟩

theorem Follows.claims_exist (queue : QueueName) (worker : WorkerId) (ttl : Duration) (time : DateTime)
    (claims : Nat) (system : System) :
    ∃ answers final, Follows queue worker ttl system (List.replicate claims (.leaseNext time)) answers final := by
  induction claims generalizing system with
  | zero => exact ⟨[], system, .nil⟩
  | succ claims ih =>
    let ports : Ports := { Sample.ports 0 0 with now := time }
    obtain ⟨answers, final, rest⟩ :=
      ih { system with store := (system.store.leaseNext ports queue worker ttl).1 }
    have taken := System.Step.of_exec (.leaseNext ports queue worker ttl) system
    exact ⟨_, final, .leaseNext ports rfl taken rest⟩

omit [BuildProfile] in
theorem Inner.idsWhere_card_le (inner : Inner) (holds : DispatchEntry → Bool) :
    (inner.idsWhere holds).card ≤ (inner.idsWhere fun _ => true).card := by
  apply Finset.card_le_card
  intro id member
  obtain ⟨entry, present, _⟩ := Inner.mem_idsWhere.mp member
  exact Inner.mem_idsWhere.mpr ⟨entry, present, rfl⟩

theorem Steady.recovers_waiting {queue : QueueName} {worker : WorkerId} {ttl : Duration} {time : DateTime}
    {id : JobId} {claims : Nat} {system final : System}
    {answers : List (Ports × Outcome DispatchError (Option LeasedJob))} (steady : Steady system)
    (room : time.nanos + ttl.nanos ≤ maxUtcNanos) (waiting : Waiting system id queue time)
    (enough : (system.store.inner.idsWhere fun _ => true).card ≤ claims)
    (followed : Follows queue worker ttl system (List.replicate claims (.leaseNext time)) answers final) :
    Recovered id answers final := by
  have fewer := system.store.inner.idsWhere_card_le (·.eligible queue time)
  rcases waiting with listed | exhausted
  · exact steady.recovers room claims (.inr ⟨listed, by omega⟩) followed
  · exact steady.recovers room claims (.inl exhausted) followed

/-- A held job: wait for the deadline, sweep (as often as the counter may stop a sweep), wait out the
    longest retry delay, claim. -/
theorem Steady.recovers_held {system : System} {id : JobId} {queue : QueueName} {entry : DispatchEntry}
    {state : LeaseState} {ttl : Duration} {now : DateTime} (worker : WorkerId) (steady : Steady system)
    (present : system.store.inner.index.lookup id = some entry) (home : entry.queue = queue)
    (held : entry.lease = some state) (room : Room ttl now) (deadline : Room ttl state.expiresAt) :
    ∃ plan : List Remedy, (now :: plan.map Remedy.clock).Pairwise (· ≤ ·) ∧
      (∃ answers final, Follows queue worker ttl system plan answers final) ∧
      ∀ answers final, Follows queue worker ttl system plan answers final → Recovered id answers final := by
  have wait : ∃ time, now ≤ time ∧ state.expiresAt ≤ time ∧ Room ttl time :=
    ⟨max now state.expiresAt, le_max_left _ _, le_max_right _ _, room.max deadline⟩
  obtain ⟨time, after, expired, space⟩ := wait
  obtain ⟨later, span, longer⟩ := space.later
  have overdue : Overdue system id queue time :=
    ⟨entry, present, home, overdue_iff.mpr ⟨state, held, expired⟩⟩
  unfold Room at space
  let sweeps := (system.store.inner.idsWhere (·.overdue time)).card
  let claims := (system.store.inner.idsWhere fun _ => true).card
  refine ⟨List.replicate sweeps (.sweep time) ++ List.replicate claims (.leaseNext later), ?_, ?_, ?_⟩
  · simp only [List.map_append, List.map_replicate, Remedy.clock, List.pairwise_cons, List.mem_append,
      List.mem_replicate, List.pairwise_append, List.pairwise_replicate]
    refine ⟨?_, .inr le_rfl, .inr le_rfl, ?_⟩
    · rintro other (⟨_, rfl⟩ | ⟨_, rfl⟩)
      · exact after
      · exact after.trans longer
    · rintro _ ⟨_, rfl⟩ _ ⟨_, rfl⟩
      exact longer
  · exact steady.sweeps_exist (by omega) (Follows.claims_exist queue worker ttl later claims) sweeps
  · intro answers final followed
    obtain ⟨middle, settled, waiting, fewer, rest⟩ :=
      steady.sweeps_keep span sweeps (.inl overdue) le_rfl followed
    exact settled.recovers_waiting (by omega) waiting (Finset.card_le_card fewer) rest

theorem Steady.recovers_pending {system : System} {id : JobId} {queue : QueueName} {entry : DispatchEntry}
    {ttl : Duration} {now : DateTime} (worker : WorkerId) (steady : Steady system)
    (present : system.store.inner.index.lookup id = some entry) (home : entry.queue = queue)
    (free : entry.lease = none) (room : Room ttl now)
    (due : ∀ time, entry.notBefore = some time → Room ttl time) :
    ∃ plan : List Remedy, (now :: plan.map Remedy.clock).Pairwise (· ≤ ·) ∧
      (∃ answers final, Follows queue worker ttl system plan answers final) ∧
      ∀ answers final, Follows queue worker ttl system plan answers final → Recovered id answers final := by
  have wait : ∃ time, now ≤ time ∧ (∀ start, entry.notBefore = some start → start ≤ time) ∧
      Room ttl time := by
    cases later : entry.notBefore with
    | none => exact ⟨now, le_rfl, by simp, room⟩
    | some start =>
      exact ⟨max now start, le_max_left _ _, by simp, room.max (due start later)⟩
  obtain ⟨time, after, reached, space⟩ := wait
  have listed : id ∈ system.store.inner.idsWhere (·.eligible queue time) :=
    Inner.mem_idsWhere.mpr ⟨entry, present, eligible_iff.mpr ⟨home, free, reached⟩⟩
  let claims := (system.store.inner.idsWhere fun _ => true).card
  refine ⟨List.replicate claims (.leaseNext time), ?_, Follows.claims_exist .., ?_⟩
  · simp only [List.map_replicate, Remedy.clock, List.pairwise_cons, List.mem_replicate,
      List.pairwise_replicate]
    exact ⟨fun other listed => listed.2 ▸ after, .inr le_rfl⟩
  · intro answers final followed
    unfold Room at space
    exact steady.recovers_waiting (by omega) (.inl listed) le_rfl followed

theorem no_job_stranded {history : Trace} {system : System} {id : JobId} {stream : List EventEnvelope}
    {job : Job} {ttl : Duration} {now : DateTime} (worker : WorkerId)
    (run : Run System.Step .new history system)
    (fits : ∀ record ∈ history, record.label.representable record.before = true)
    (stored : system.store.inner.streams.lookup id = some stream) (folded : Job.fromEvents stream = .ok job)
    (live : job.state.dispatchable = true) (room : Room ttl now)
    (rooms : ∀ other entry, system.store.inner.index.lookup other = some entry →
      (∀ time, entry.notBefore = some time → Room ttl time) ∧
        ∀ state, entry.lease = some state → Room ttl state.expiresAt) :
    ∃ plan : List Remedy, (now :: plan.map Remedy.clock).Pairwise (· ≤ ·) ∧
      (∃ answers final, Follows job.queue worker ttl system plan answers final) ∧
      ∀ answers final, Follows job.queue worker ttl system plan answers final →
        Recovered id answers final := by
  have steady : Steady system := ⟨history, run, fits⟩
  obtain ⟨other, refolded, mirrors⟩ := steady.sound.consistent.folds id stream stored
  rw [folded] at refolded
  cases refolded
  cases present : system.store.inner.index.lookup id with
  | none =>
    rw [present, Mirrors, live] at mirrors
    cases mirrors
  | some entry =>
    rw [present] at mirrors
    obtain ⟨starts, deadlines⟩ := rooms id entry present
    cases held : entry.lease with
    | none => exact steady.recovers_pending worker present mirrors.1 held room starts
    | some state => exact steady.recovers_held worker present mirrors.1 held room (deadlines state held)

omit [BuildProfile] in
theorem locked_poisoned {α : Type} {store : InMemoryEventStore}
    {body : Inner → Inner × Outcome EventStoreError α} (poisoned : store.poisoned = true) :
    store.locked body = (store, .err (.backend "store mutex poisoned")) := by
  rw [InMemoryEventStore.locked, if_pos poisoned]

theorem System.Step.claim_refused {before after : System} {ports : Ports} {queue : QueueName}
    {worker : WorkerId} {ttl : Duration} {result : Outcome DispatchError (Option LeasedJob)}
    (poisoned : before.store.poisoned = true)
    (taken : System.Step before (.leaseNext ports queue worker ttl) (.leased result) after) :
    (∃ error, result = .err error) ∧ after.store.poisoned = true ∧
      ∀ id, after.stream id = before.stream id := by
  obtain ⟨shuffled, order, ran⟩ := taken
  have stuck : (⟨shuffled, before.store.poisoned⟩ : InMemoryEventStore).poisoned = true := poisoned
  simp only [Action.exec, leaseNext_eq, locked_poisoned stuck, Prod.mk.injEq, Response.leased.injEq] at ran
  obtain ⟨rfl, rfl⟩ := ran
  exact ⟨⟨_, rfl⟩, stuck, order.stream⟩

theorem System.Step.retire_refused {before after : System} {ports : Ports}
    {result : Outcome DispatchError (Option JobId)} (poisoned : before.store.poisoned = true)
    (taken : System.Step before (.retireNextExpiredLease ports) (.retired result) after) :
    (∃ error, result = .err error) ∧ after.store.poisoned = true ∧
      ∀ id, after.stream id = before.stream id := by
  obtain ⟨shuffled, order, ran⟩ := taken
  have stuck : (⟨shuffled, before.store.poisoned⟩ : InMemoryEventStore).poisoned = true := poisoned
  simp only [Action.exec, retireNextExpiredLease_eq, locked_poisoned stuck, Prod.mk.injEq,
    Response.retired.injEq] at ran
  obtain ⟨rfl, rfl⟩ := ran
  exact ⟨⟨_, rfl⟩, stuck, order.stream⟩

theorem Sweeps.refused {time : DateTime} {before after : System} {swept : UInt32}
    {result : Outcome SweepError UInt32} (poisoned : before.store.poisoned = true)
    (ran : Sweeps time before swept result after) :
    after.store.poisoned = true ∧ ∀ id, after.stream id = before.stream id := by
  cases ran with
  | done ports clock taken => exact (taken.retire_refused poisoned).2
  | more ports clock taken counted rest =>
    obtain ⟨⟨error, failed⟩, _⟩ := taken.retire_refused poisoned
    cases failed
  | overflowed ports clock taken full => exact (taken.retire_refused poisoned).2
  | failed ports clock taken => exact (taken.retire_refused poisoned).2
  | panicked ports clock taken => exact (taken.retire_refused poisoned).2

theorem Follows.refused {queue : QueueName} {worker : WorkerId} {ttl : Duration} {before after : System}
    {plan : List Remedy} {answers : List (Ports × Outcome DispatchError (Option LeasedJob))}
    (poisoned : before.store.poisoned = true)
    (followed : Follows queue worker ttl before plan answers after) :
    (∀ ports leased, (ports, .ok (some leased)) ∉ answers) ∧
      ∀ id, after.stream id = before.stream id := by
  induction followed with
  | nil => exact ⟨by simp, fun _ => rfl⟩
  | sweep swept rest ih =>
    obtain ⟨stuck, same⟩ := swept.refused poisoned
    obtain ⟨none, still⟩ := ih stuck
    exact ⟨none, fun id => (still id).trans (same id)⟩
  | leaseNext ports clock taken rest ih =>
    obtain ⟨⟨error, rfl⟩, stuck, same⟩ := taken.claim_refused poisoned
    obtain ⟨none, still⟩ := ih stuck
    refine ⟨?_, fun id => (still id).trans (same id)⟩
    intro drawn leased member
    rcases List.mem_cons.mp member with found | found
    · cases found
    · exact none drawn leased found

/-- One pending job, and a claim whose TTL reaches past the last representable instant. -/
def poisoningActions : List Action :=
  [.leaseNext (Sample.ports 1 2) Sample.queue Sample.worker (.fromSecs 9000000000000),
    .enqueue (Sample.ports 0 1) Sample.command]

omit [BuildProfile] in
theorem oversized_ttl_strands_job :
    let _ := BuildProfile.release
    ∃ history system stream job, Run System.Step .new history system ∧
      system.store.inner.streams.lookup ⟨1⟩ = some stream ∧ Job.fromEvents stream = .ok job ∧
      job.state = .pending none ∧ Room (.fromSecs 10) (Sample.instant 2) ∧
      (∀ other entry, system.store.inner.index.lookup other = some entry →
        entry.notBefore = none ∧ entry.lease = none) ∧
      ∀ plan answers final,
        Follows job.queue Sample.worker (.fromSecs 10) system plan answers final →
        ¬ Recovered ⟨1⟩ answers final := by
  intro _
  refine ⟨_, _, _, _, Run.of_replay System.Step.of_exec poisoningActions, rfl, rfl, rfl, by decide, ?_, ?_⟩
  · intro other entry present
    have listed := AList.mem_lookup_iff.mp present
    have only : (⟨other, entry⟩ : (_ : JobId) × DispatchEntry) ∈
        [⟨⟨1⟩, { queue := Sample.queue, priority := ⟨0⟩, seq := 1, notBefore := none, lease := none }⟩] :=
      listed
    cases List.mem_singleton.mp only
    exact ⟨rfl, rfl⟩
  · intro plan answers final followed recovered
    obtain ⟨none, still⟩ := followed.refused rfl
    rcases recovered with ⟨ports, leased, member, _⟩ | ⟨job, folded, parked⟩
    · exact none ports leased member
    · rw [still] at folded
      cases folded
      cases parked

def abandonedActions : List Action :=
  [.leaseNext (Sample.ports 1 2) Sample.queue Sample.worker (.fromSecs 10),
    .enqueue (Sample.ports 0 1) Sample.command]

omit [BuildProfile] in
theorem no_job_stranded_dead_worker :
    let _ := BuildProfile.release
    ∃ plan : List Remedy, (Sample.instant 2 :: plan.map Remedy.clock).Pairwise (· ≤ ·) ∧
      (∃ answers final, Follows Sample.queue Sample.worker (.fromSecs 10)
        (Run.replay Action.exec System.new abandonedActions).2 plan answers final) ∧
      ∀ answers final, Follows Sample.queue Sample.worker (.fromSecs 10)
        (Run.replay Action.exec System.new abandonedActions).2 plan answers final →
        Recovered ⟨1⟩ answers final := by
  intro _
  have stored : (Run.replay Action.exec System.new abandonedActions).2.store.inner.streams.lookup ⟨1⟩ =
      some _ := rfl
  refine no_job_stranded Sample.worker (Run.of_replay System.Step.of_exec abandonedActions) (by decide)
    stored rfl rfl (by decide) ?_
  intro other entry present
  have listed := AList.mem_lookup_iff.mp present
  have only : (⟨other, entry⟩ : (_ : JobId) × DispatchEntry) ∈
      [⟨⟨1⟩, { queue := Sample.queue, priority := ⟨0⟩, seq := 1, notBefore := none
               lease := some ⟨⟨2⟩, Sample.worker, Sample.instant 11⟩ }⟩] :=
    listed
  cases List.mem_singleton.mp only
  refine ⟨by simp, ?_⟩
  intro state held
  cases held
  decide

end Koine.Memory
