import Koine.Memory.Delivery
import Koine.Memory.Lineage

namespace Koine.Memory

open Library Domain Application

def decides : JobEvent → Bool
  | .retryScheduled .. | .parked _ => true
  | _ => false

def carriedAttempt : JobEvent → Option UInt32
  | .failed _ attempt | .retryScheduled attempt _ => some attempt
  | _ => none

def eventsIn (stream : List EventEnvelope) : List JobEvent := stream.map (·.event)

def Decided (log : List JobEvent) : Prop :=
  ∀ (i : Nat) event, log[i]? = some event → spends event = true →
    ∃ next, log[i + 1]? = some next ∧ decides next = true

/-- The attempts that events carry are the running count of failures and expiries. -/
def Counted (log : List JobEvent) : Prop :=
  ∀ (i : Nat) event attempt, log[i]? = some event → carriedAttempt event = some attempt →
    attempt.toNat = (log.take (i + 1)).countP spends

/-- A scheduled retry is what a pending job waits for, unless it has been leased since. -/
def Served (log : List JobEvent) (job : Job) : Prop :=
  ∀ (i : Nat) attempt time, log[i]? = some (.retryScheduled attempt time) → job.state.dispatchable = true →
    job.state = .pending (some time) ∨ ∃ j event, i < j ∧ log[j]? = some event ∧ grantsLease event = true

theorem Decided.append {log events : List JobEvent} (decided : Decided log) (settles : Decided events) :
    Decided (log ++ events) := by
  intro i event found spent
  rcases Nat.lt_or_ge i log.length with old | new
  · rw [List.getElem?_append_left old] at found
    obtain ⟨next, follows, decision⟩ := decided i event found spent
    have bound := (List.getElem?_eq_some_iff.mp follows).1
    exact ⟨next, by rw [List.getElem?_append_left bound]; exact follows, decision⟩
  · rw [List.getElem?_append_right new] at found
    obtain ⟨next, follows, decision⟩ := settles _ event found spent
    refine ⟨next, ?_, decision⟩
    rw [List.getElem?_append_right (by omega), show i + 1 - log.length = i - log.length + 1 by omega]
    exact follows

theorem Counted.append {log events : List JobEvent} (counted : Counted log)
    (counts : ∀ (k : Nat) event attempt, events[k]? = some event → carriedAttempt event = some attempt →
      attempt.toNat = log.countP spends + (events.take (k + 1)).countP spends) : Counted (log ++ events) := by
  intro i event attempt found carried
  rcases Nat.lt_or_ge i log.length with old | new
  · rw [List.getElem?_append_left old] at found
    rw [counted i event attempt found carried, List.take_append_of_le_length (by omega)]
  · rw [List.getElem?_append_right new] at found
    have whole : log.take (i + 1) = log := List.take_of_length_le (by omega)
    rw [counts _ event attempt found carried, List.take_append, List.countP_append, whole,
      show i + 1 - log.length = i - log.length + 1 by omega]

theorem Served.append {log events : List JobEvent} {job next : Job} (served : Served log job)
    (live : next.state.dispatchable = true → job.state.dispatchable = true)
    (kept : ∀ time, job.state = .pending (some time) → next.state.dispatchable = true →
      next.state = .pending (some time) ∨ ∃ event ∈ events, grantsLease event = true)
    (scheduled : ∀ attempt time, .retryScheduled attempt time ∈ events → next.state = .pending (some time)) :
    Served (log ++ events) next := by
  intro i attempt time found dispatchable
  rcases Nat.lt_or_ge i log.length with old | new
  · rw [List.getElem?_append_left old] at found
    rcases served i attempt time found (live dispatchable) with waiting | ⟨j, event, after, leased, granted⟩
    · rcases kept time waiting dispatchable with same | ⟨event, member, granted⟩
      · exact .inl same
      · obtain ⟨k, bound, here⟩ := List.getElem_of_mem member
        refine .inr ⟨log.length + k, event, by omega, ?_, granted⟩
        rw [List.getElem?_append_right (by omega), Nat.add_sub_cancel_left, List.getElem?_eq_getElem bound, here]
    · have bound := (List.getElem?_eq_some_iff.mp leased).1
      exact .inr ⟨j, event, after, by rw [List.getElem?_append_left bound]; exact leased, granted⟩
  · rw [List.getElem?_append_right new] at found
    exact .inl (scheduled attempt time (List.mem_of_getElem? found))

structure Gated (stream : List EventEnvelope) (job : Job) : Prop where
  accounted : Accounted stream job
  decided : Decided (eventsIn stream)
  counted : Counted (eventsIn stream)
  served : Served (eventsIn stream) job
  waits : ∀ notBefore, job.state = .pending notBefore → 0 < job.attempt.toNat → notBefore ≠ none

theorem decided_of_none {events : List JobEvent} (none : ∀ event ∈ events, spends event = false) :
    Decided events := by
  intro i event found spent
  rw [none event (List.mem_of_getElem? found)] at spent
  cases spent

theorem decided_pair {first second : JobEvent} (decision : decides second = true) :
    Decided [first, second] := by
  intro i event found spent
  rcases i with _ | _ | i
  · exact ⟨second, rfl, decision⟩
  · cases found
    cases second <;> simp_all [spends, decides]
  · cases found

theorem Gated.opened (ports : Ports) (cmd : EnqueueCommand) (valid : validatePolicy cmd.retryPolicy = .ok ()) :
    Gated (cmd.envelopes ports)
      (Job.opened ports.jobId cmd.queue cmd.payload cmd.priority cmd.retryPolicy cmd.notBefore) := by
  have alone : ∀ (i : Nat) event, (eventsIn (cmd.envelopes ports))[i]? = some event →
      event = .enqueued cmd.queue cmd.payload cmd.priority cmd.retryPolicy cmd.notBefore := by
    intro i event found
    exact List.mem_singleton.mp (List.mem_of_getElem? found)
  refine ⟨.opened ports cmd valid, ?_, ?_, ?_, ?_⟩
  · exact decided_of_none fun event member => by
      rw [List.mem_singleton.mp member]
      rfl
  · intro i event attempt found carried
    rw [alone i event found] at carried
    cases carried
  · intro i attempt time found
    cases alone i _ found
  · intro notBefore _ positive
    cases positive

variable [BuildProfile]

theorem Effect.decided {job next : Job} {events : List JobEvent} (effect : Job.Effect job events next) :
    Decided events := by
  cases effect with
  | failedRetry | failedParked | expiredRetry | expiredParked => exact decided_pair rfl
  | _ =>
    refine decided_of_none fun event member => ?_
    rw [List.mem_singleton.mp member]
    rfl

omit [BuildProfile] in
theorem counts_pair {first second : JobEvent} {before : Nat} {attempt : UInt32}
    (step : attempt.toNat = before + 1) (spent : spends first = true) (decision : decides second = true)
    (carriers : ∀ event ∈ [first, second], ∀ carried ∈ carriedAttempt event, carried = attempt) (k : Nat)
    (event : JobEvent) (carried : UInt32) (found : [first, second][k]? = some event)
    (carries : carriedAttempt event = some carried) :
    carried.toNat = before + ([first, second].take (k + 1)).countP spends := by
  have free : spends second = false := by cases second <;> simp_all [spends, decides]
  rw [carriers event (List.mem_of_getElem? found) carried carries, step]
  rcases k with _ | k
  · rw [List.take_succ_cons, List.take_zero, List.countP_singleton, if_pos spent]
  · rw [List.take_of_length_le (by simp), List.countP_cons_of_pos spent, List.countP_singleton,
      if_neg (by simp [free])]

theorem Effect.counts {stream : List EventEnvelope} {job next : Job} {events : List JobEvent}
    (accounted : Accounted stream job) (effect : Job.Effect job events next) (k : Nat) (event : JobEvent)
    (carried : UInt32) (found : events[k]? = some event) (carries : carriedAttempt event = some carried) :
    carried.toNat = eventCount spends stream + (events.take (k + 1)).countP spends := by
  rw [← accounted.spent]
  cases effect with
  | failedRetry error attempt notBefore state succ below =>
    exact counts_pair (u32Succ_toNat accounted.room succ) rfl rfl (by simp [carriedAttempt]) k event
      carried found carries
  | failedParked error attempt reason state succ cause =>
    exact counts_pair (u32Succ_toNat accounted.room succ) rfl rfl (by simp [carriedAttempt]) k event
      carried found carries
  | expiredRetry attempt notBefore held succ below =>
    exact counts_pair (u32Succ_toNat accounted.room succ) rfl rfl (by simp [carriedAttempt]) k event
      carried found carries
  | expiredParked attempt held succ exhausted =>
    exact counts_pair (u32Succ_toNat accounted.room succ) rfl rfl (by simp [carriedAttempt]) k event
      carried found carries
  | _ =>
    rw [List.mem_singleton.mp (List.mem_of_getElem? found)] at carries
    cases carries

theorem Effect.served {log : List JobEvent} {job next : Job} {events : List JobEvent}
    (served : Served log job) (effect : Job.Effect job events next) : Served (log ++ events) next := by
  refine served.append (Effect.live effect) ?_ ?_
  · intro time waiting dispatchable
    cases effect with
    | leased worker lease expiresAt state => exact .inr ⟨_, List.mem_singleton_self _, rfl⟩
    | lateAck worker lease reported => exact .inl waiting
    | expiredRetry attempt notBefore held =>
      rw [waiting] at held
      cases held
    | started state | failedRetry _ _ _ state =>
      rw [state] at waiting
      cases waiting
    | succeeded | failedParked | expiredParked | cancelled => cases dispatchable
  · intro attempt time member
    cases effect with
    | failedRetry | expiredRetry =>
      simp only [List.mem_cons, List.not_mem_nil, or_false, reduceCtorEq, false_or,
        JobEvent.retryScheduled.injEq] at member
      rw [member.2]
    | failedParked | expiredParked => simp at member
    | _ => cases List.mem_singleton.mp member

theorem Effect.waits {job next : Job} {events : List JobEvent} (effect : Job.Effect job events next)
    (waits : ∀ notBefore, job.state = .pending notBefore → 0 < job.attempt.toNat → notBefore ≠ none)
    (notBefore : Option DateTime) (pending : next.state = .pending notBefore)
    (positive : 0 < next.attempt.toNat) : notBefore ≠ none := by
  cases effect with
  | lateAck worker lease reported => exact waits notBefore pending positive
  | failedRetry | expiredRetry =>
    cases pending
    exact Option.some_ne_none _
  | _ => cases pending

theorem Gated.effect {stream : List EventEnvelope} {job next : Job} {events : List JobEvent} (ports : Ports)
    (id : JobId) (gated : Gated stream job) (effect : Job.Effect job events next) :
    Gated (stream ++ follow ports id stream events) next := by
  have written : eventsIn (stream ++ follow ports id stream events) = eventsIn stream ++ events := by
    rw [eventsIn, List.map_append, follow_events]
    rfl
  have spent : (eventsIn stream).countP spends = eventCount spends stream := by
    rw [eventsIn, List.countP_map]
    rfl
  refine ⟨gated.accounted.effect ports id effect, ?_, ?_, ?_, Effect.waits effect gated.waits⟩
  · rw [written]
    exact gated.decided.append (Effect.decided effect)
  · rw [written]
    refine gated.counted.append fun k event attempt found carried => ?_
    rw [spent]
    exact Effect.counts gated.accounted effect k event attempt found carried
  · rw [written]
    exact Effect.served gated.served effect

theorem Run.gated {history : Trace} {system : System} (run : Run System.Step .new history system) :
    system.Streams Gated :=
  Run.streams Gated Gated.opened (fun ports id _ _ _ _ _ gated effect => gated.effect ports id effect) run

omit [BuildProfile] in
theorem getElem?_eventsIn {stream : List EventEnvelope} {i : Nat} {event : JobEvent} :
    (eventsIn stream)[i]? = some event ↔ ∃ envelope, stream[i]? = some envelope ∧ envelope.event = event := by
  rw [eventsIn, List.getElem?_map, Option.map_eq_some_iff]

def Punctual (stream : List EventEnvelope) : Prop :=
  ∀ (i j : Nat) earlier later attempt time, i < j → stream[i]? = some earlier →
    earlier.event = .retryScheduled attempt time → stream[j]? = some later →
    grantsLease later.event = true → time ≤ later.recordedAt

omit [BuildProfile] in
theorem Punctual.follow {ports : Ports} {id : JobId} {stream : List EventEnvelope} {events : List JobEvent}
    (punctual : Punctual stream)
    (due : ∀ event ∈ events, grantsLease event = true → events = [event] ∧
      ∀ (i : Nat) earlier attempt time, stream[i]? = some earlier →
        earlier.event = .retryScheduled attempt time → time ≤ ports.recordedAt) :
    Punctual (stream ++ Memory.follow ports id stream events) := by
  intro i j earlier later attempt time before first scheduled second granted
  rcases Nat.lt_or_ge j stream.length with old | new
  · rw [List.getElem?_append_left old] at second
    rw [List.getElem?_append_left (by omega)] at first
    exact punctual i j earlier later attempt time before first scheduled second granted
  · have bound := (List.getElem?_eq_some_iff.mp second).1
    rw [List.getElem?_append_right new] at second
    have member := List.mem_of_getElem? second
    have carried : later.event ∈ events := by
      rw [← follow_events ports id stream events]
      exact List.mem_map_of_mem member
    obtain ⟨alone, gate⟩ := due _ carried granted
    have single : (Memory.follow ports id stream events).length = 1 := by
      rw [← List.length_map (·.event), follow_events, alone]
      rfl
    rw [List.length_append, single] at bound
    rw [List.getElem?_append_left (by omega)] at first
    rw [(mem_follow member).1]
    exact gate i earlier attempt time first scheduled

omit [BuildProfile] in
theorem Gated.due {history : Trace} {record : Record System Action Response} {job : Job} {id : JobId}
    {ports : Ports} {queue : QueueName} {worker : WorkerId} {ttl : Duration} {event : JobEvent}
    (stamped : Stamped history record.before) (clock : ClockForward (record :: history))
    (label : record.label = .leaseNext ports queue worker ttl)
    (gated : Gated (record.before.stream id) job) (punctual : Punctual (record.before.stream id))
    (granted : job.lease worker ports.leaseId ports.now ttl = .ok event) (i : Nat) (earlier : EventEnvelope)
    (attempt : UInt32) (time : DateTime) (found : (record.before.stream id)[i]? = some earlier)
    (scheduled : earlier.event = .retryScheduled attempt time) : time ≤ ports.recordedAt := by
  obtain ⟨notBefore, _, _, state, eligible, _⟩ := Job.lease_ok granted
  have ordered : ports.now ≤ ports.recordedAt := by
    have inOrder := clock.2.1
    rw [label] at inOrder
    exact of_decide_eq_true inOrder
  rcases gated.served i attempt time (getElem?_eventsIn.mpr ⟨earlier, found, scheduled⟩) (by rw [state]; rfl)
    with waiting | ⟨j, _, after, leased, grants⟩
  · rw [state] at waiting
    cases waiting
    exact (of_decide_eq_true eligible).trans ordered
  · obtain ⟨later, here, rfl⟩ := getElem?_eventsIn.mp leased
    have writer : FollowsUp record.before id ports record.label := by
      rw [label]
      exact .claim queue worker ttl
    exact (punctual i j earlier later attempt time after found scheduled here grants).trans
      (stamped.earlier clock writer later (List.mem_of_getElem? here))

theorem Call.command_grants {call : Call} {ports : Ports} {job : Job} {reply : Reply}
    {events : List JobEvent} (yielded : call.command ports job = .ok (reply, events)) :
    ∀ event ∈ events, grantsLease event = false := by
  rcases Call.command_reply yielded with
    ⟨_, _, _, _, _, _, ⟨_, rfl⟩ | ⟨_, _, _, rfl⟩ | ⟨_, _, _, rfl⟩⟩ | ⟨_, _, _, _, _, rfl⟩ |
    ⟨_, _, ⟨_, rfl⟩ | ⟨_, rfl⟩⟩ <;> simp [grantsLease]

theorem expireLease_grants {job : Job} {now : DateTime} {seed : UInt64} {events : List JobEvent}
    (retired : job.expireLease now seed = .ok events) : ∀ event ∈ events, grantsLease event = false := by
  obtain ⟨_, _, decision, _, _, decided, rfl⟩ := Job.expireLease_ok retired
  rcases Job.retryDecisionEvent_ok decided with ⟨_, _, _, _, _, _, _, rfl⟩ | ⟨_, rfl⟩ <;> simp [grantsLease]

theorem Run.punctual {history : Trace} {system : System} (run : Run System.Step .new history system)
    (clock : ClockForward history) (id : JobId) : Punctual (system.stream id) := by
  induction run with
  | refl =>
    intro i j earlier later attempt time _ found
    cases found
  | @step older before after label result run taken ih =>
    have punctual := ih clock.1
    have unleased {job : JobId} {ports : Ports} {stream : List EventEnvelope} {events : List JobEvent}
        (stored : before.stream job = stream)
        (free : ∀ event ∈ events, grantsLease event = false)
        (written : after.stream job = before.stream job ++ follow ports job stream events)
        (rest : id ≠ job → after.stream id = before.stream id) : Punctual (after.stream id) := by
      subst stored
      by_cases target : id = job
      · subst target
        rw [written]
        refine punctual.follow fun event member granted => ?_
        rw [free event member] at granted
        cases granted
      · rw [rest target]
        exact punctual
    have change := taken.change (Run.sound run)
    cases change with
    | quiet order refused =>
      rw [show after.stream id = before.stream id from order.stream id]
      exact punctual
    | extended held live converted added effects =>
      rw [show after.stream id = before.stream id from effects.stream]
      exact punctual
    | @enqueued ports cmd valid fresh effects =>
      by_cases target : id = ports.jobId
      · subst target
        have written : after.stream ports.jobId = cmd.envelopes ports := by
          rw [System.stream, effects.stream, Inner.stream, fresh]
          rfl
        rw [written]
        intro i j earlier later attempt time ordered first scheduled
        rw [List.mem_singleton.mp (show earlier ∈ [_] from List.mem_of_getElem? first)] at scheduled
        cases scheduled
      · rw [show after.stream id = before.stream id from effects.stream_ne target]
        exact punctual
    | @leased ports queue worker ttl stream job next expiresAt leased present folded granted lease deadline
        effect effects =>
      by_cases target : id = leased.jobId
      · subst target
        have stored : before.stream leased.jobId = stream := Inner.stream_of_lookup present
        subst stored
        rw [show after.stream leased.jobId = _ from effects.stream]
        refine punctual.follow fun event member _ => ⟨by rw [List.mem_singleton.mp member], ?_⟩
        exact Gated.due (Run.stamped run clock.1) clock rfl ((Run.gated run).stored _ _ job present folded)
          punctual granted
      · rw [show after.stream id = before.stream id from effects.stream_ne target]
        exact punctual
    | retired indexed live overdue present folded retired effect effects =>
      have stored := Inner.stream_of_lookup present
      exact unleased stored (expireLease_grants retired) effects.stream fun other => effects.stream_ne other
    | answered ongoing present folded same command effect effects =>
      have stored := Inner.stream_of_lookup present
      exact unleased stored (Call.command_grants command) effects.stream fun other => effects.stream_ne other

theorem Run.writer {history : Trace} {system : System} (run : Run System.Step .new history system)
    {id : JobId} {i : Nat} (bound : i < (system.stream id).length) :
    ∃ record ∈ history, (record.before.stream id).length ≤ i ∧ i < (record.after.stream id).length := by
  induction run with
  | refl => cases bound
  | @step older before after label result run taken ih =>
    rcases Nat.lt_or_ge i (before.stream id).length with old | new
    · obtain ⟨record, listed, rest⟩ := ih old
      exact ⟨record, List.mem_cons_of_mem _ listed, rest⟩
    · exact ⟨_, List.mem_cons_self, new, bound⟩

theorem backoff_never_bypassed {history : Trace} {system : System} {id : JobId}
    {stream : List EventEnvelope} (run : Run System.Step .new history system) (clock : ClockForward history)
    (stored : system.store.inner.streams.lookup id = some stream) :
    (∀ (i : Nat) envelope, stream[i]? = some envelope → spends envelope.event = true →
        ∃ next record, stream[i + 1]? = some next ∧ decides next.event = true ∧ record ∈ history ∧
          (record.before.stream id).length ≤ i ∧ i + 1 < (record.after.stream id).length) ∧
      (∀ (i : Nat) envelope attempt, stream[i]? = some envelope →
        carriedAttempt envelope.event = some attempt →
        attempt.toNat = eventCount spends (stream.take (i + 1))) ∧
      (∀ job notBefore, Job.fromEvents stream = .ok job → job.state = .pending notBefore →
        0 < job.attempt.toNat → notBefore ≠ none) ∧
      (∀ (i j : Nat) earlier later attempt time, i < j → stream[i]? = some earlier →
        earlier.event = .retryScheduled attempt time → stream[j]? = some later →
        grantsLease later.event = true → time ≤ later.recordedAt) := by
  have whole : system.stream id = stream := Inner.stream_of_lookup stored
  subst whole
  obtain ⟨job, folded, _⟩ := (Run.sound run).consistent.folds id _ stored
  have gated := (Run.gated run).stored id _ job stored folded
  refine ⟨?_, ?_, ?_, Run.punctual run clock id⟩
  · intro i envelope found spent
    obtain ⟨record, listed, first, last⟩ := Run.writer run (List.getElem?_eq_some_iff.mp found).1
    obtain ⟨_, _, _, older, taken, newer⟩ := run.of_mem listed
    -- the stream was decided as soon as that step was over
    have upTo := Run.step older taken
    obtain ⟨rest, grown⟩ := Run.grows (Run.sound upTo) newer id
    have here : (record.after.stream id)[i]? = some envelope := by
      rw [← grown, List.getElem?_append_left last] at found
      exact found
    have present : record.after.store.inner.streams.lookup id = some (record.after.stream id) := by
      have nonempty : record.after.stream id ≠ [] := List.ne_nil_of_length_pos (by omega)
      rw [(Run.sound upTo).consistent.lookup_of_stream]
      exact if_neg nonempty
    obtain ⟨past, thenFolded, _⟩ := (Run.sound upTo).consistent.folds id _ present
    obtain ⟨event, follows, decision⟩ := ((Run.gated upTo).stored id _ past present thenFolded).decided i
      envelope.event (getElem?_eventsIn.mpr ⟨envelope, here, rfl⟩) spent
    obtain ⟨next, place, rfl⟩ := getElem?_eventsIn.mp follows
    have inside := (List.getElem?_eq_some_iff.mp place).1
    refine ⟨next, record, ?_, decision, listed, first, inside⟩
    rw [← grown, List.getElem?_append_left inside]
    exact place
  · intro i envelope attempt found carried
    rw [gated.counted i envelope.event attempt (getElem?_eventsIn.mpr ⟨envelope, found, rfl⟩) carried, eventsIn,
      ← List.map_take, List.countP_map]
    rfl
  · intro other notBefore again pending positive
    rw [folded] at again
    cases again
    exact gated.waits notBefore pending positive

/-- A failure and an expiry of one job, each followed by a claim once its backoff is over, newest step
    first. -/
def retriedTwice : List Action :=
  [.leaseNext (Sample.ports 900 8) Sample.queue Sample.worker (.fromSecs 10),
    .retireNextExpiredLease (Sample.ports 600 7),
    .leaseNext (Sample.ports 300 6) Sample.queue Sample.worker (.fromSecs 10),
    .append 1 (Sample.ports 5 5), .load 1 ⟨1⟩ (.fail Sample.worker ⟨2⟩ ⟨"E", "boom", none, true⟩),
    .append 0 (Sample.ports 3 4), .load 0 ⟨1⟩ (.start Sample.worker),
    .leaseNext (Sample.ports 1 2) Sample.queue Sample.worker (.fromSecs 10),
    .enqueue (Sample.ports 0 1) Sample.command]

omit [BuildProfile] in
theorem backoff_never_bypassed_retried :
    let _ := BuildProfile.release
    ∃ stream, (Run.replay Action.exec System.new retriedTwice).2.store.inner.streams.lookup ⟨1⟩ = some stream ∧
      stream.map (·.event.kind) = ["enqueued", "leased", "started", "failed", "retry_scheduled", "leased",
        "lease_expired", "retry_scheduled", "leased"] ∧ Punctual stream := by
  intro _
  have stored : (Run.replay Action.exec System.new retriedTwice).2.store.inner.streams.lookup ⟨1⟩ = some _ := rfl
  obtain ⟨_, _, _, punctual⟩ :=
    backoff_never_bypassed (Run.of_replay System.Step.of_exec retriedTwice) (by decide) stored
  exact ⟨_, rfl, by decide, punctual⟩

end Koine.Memory
