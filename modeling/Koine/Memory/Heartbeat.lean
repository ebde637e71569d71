import Koine.Memory.Fencing

namespace Koine.Memory

open Library Domain Application

def heartbeatOf (lease : LeaseId) (record : Record System Action Response) : Option DateTime :=
  match record.label, record.result with
  | .extendLease ports held ttl, .extended (.ok true) =>
    if held = lease then (TimeDelta.fromStd ttl).bind ports.now.checkedAddSigned else none
  | _, _ => none

def grantOf (lease : LeaseId) (record : Record System Action Response) : Option DateTime :=
  match record.result with
  | .leased (.ok (some leased)) => if leased.lease = lease then some leased.expiresAt else none
  | _ => none

def Trace.lastHeartbeat (history : Trace) (lease : LeaseId) : Option DateTime :=
  history.findSome? (heartbeatOf lease)

/-- The deadline last promised for `lease`: by its last accepted heartbeat, else by its grant. -/
def Trace.promised (history : Trace) (lease : LeaseId) : Option DateTime :=
  (history.lastHeartbeat lease).or (history.findSome? (grantOf lease))

def expiredLeases (record : Record System Action Response) (id : JobId) : List LeaseId :=
  (batchOf record id).filterMap fun envelope =>
    match envelope.event with
    | .leaseExpired lease => some lease
    | _ => none

/-- No retirement comes before the deadline last promised for the lease it expires. -/
def HeartbeatFence (history : Trace) : Prop :=
  ∀ newer record older ports id lease, history = newer ++ record :: older →
    record.label = .retireNextExpiredLease ports → record.result = .retired (.ok (some id)) →
    lease ∈ expiredLeases record id →
    ∃ deadline, Trace.promised older lease = some deadline ∧ deadline ≤ ports.now

def keepsLease : List JobEvent → Bool
  | [.started _] | [.lateAckConflict ..] => true
  | _ => false

variable [BuildProfile]

/-- The lease of a job to which the action appends `started` or `late_ack_conflict`, and the deadline that its stream
    records; none where the append is refused. -/
def reprojected (before : System) : Action → Option (DateTime × LeaseState)
  | .append ticket ports => do
    let flight ← before.inFlight ticket
    if before.store.poisoned ∨ flight.loaded.job.version ≠ (before.stream flight.jobId).length then none
    else
      match flight.call.command ports flight.loaded.job, Job.fromEvents (before.stream flight.jobId) with
      | .ok (_, events), .ok job =>
        if keepsLease events then
          return (← job.state.heldUntil, ← (before.store.inner.index.lookup flight.jobId).bind DispatchEntry.lease)
        else none
      | _, _ => none
  | _ => none

/-- The accepted deadline of such a job is later than the one its stream records. -/
def rewinds (before : System) (action : Action) : Bool :=
  (reprojected before action).any fun (recorded, state) => recorded < state.expiresAt

theorem reprojected_eq_some {before : System} {action : Action} {recorded : DateTime} {state : LeaseState} :
    reprojected before action = some (recorded, state) ↔
      ∃ ticket ports flight reply events entry job,
        action = .append ticket ports ∧ before.inFlight ticket = some flight ∧ before.store.poisoned = false ∧
        flight.loaded.job.version = (before.stream flight.jobId).length ∧
        flight.call.command ports flight.loaded.job = .ok (reply, events) ∧ keepsLease events = true ∧
        before.store.inner.index.lookup flight.jobId = some entry ∧ entry.lease = some state ∧
        Job.fromEvents (before.stream flight.jobId) = .ok job ∧ job.state.heldUntil = some recorded := by
  constructor
  · intro found
    unfold reprojected at found
    split at found
    · rename_i ticket ports
      simp only [Option.bind_eq_bind, Option.bind_eq_some_iff] at found
      obtain ⟨flight, ongoing, found⟩ := found
      split at found
      · cases found
      · rename_i accepted
        rw [not_or, Bool.not_eq_true, not_not] at accepted
        split at found
        · rename_i reply events job command folded
          split at found
          · rename_i keeps
            simp only [Option.bind_eq_some_iff, Option.pure_def, Option.some.injEq, Prod.mk.injEq] at found
            obtain ⟨_, deadline, _, ⟨entry, indexed, live⟩, rfl, rfl⟩ := found
            exact ⟨ticket, ports, flight, reply, events, entry, job, rfl, ongoing, accepted.1, accepted.2, command,
              keeps, indexed, live, folded, deadline⟩
          · cases found
        · cases found
    · cases found
  · rintro ⟨ticket, ports, flight, reply, events, entry, job, rfl, ongoing, healthy, current, command, keeps, indexed,
      live, folded, deadline⟩
    simp [reprojected, ongoing, healthy, current, command, folded, keeps, deadline, indexed, live]

theorem System.Step.healthy {before after : System} {ticket : Nat} {ports : Ports} {reply : Reply}
    (taken : System.Step before (.append ticket ports) (.answered (.ok reply)) after) :
    before.store.poisoned = false := by
  obtain ⟨shuffled, _, ran⟩ := taken
  simp only [Action.exec] at ran
  split at ran
  · cases ran
  · rename_i flight ongoing
    rcases finished : flight.call.finish (⟨shuffled, before.store.poisoned⟩ : InMemoryEventStore) ports flight.loaded
      with ⟨store, result⟩
    rw [finished] at ran
    cases ran
    unfold Call.finish at finished
    split at finished
    · cases finished
    · cases finished
    · rename_i events command
      rcases appended : EventStore.append (⟨shuffled, before.store.poisoned⟩ : InMemoryEventStore)
        flight.loaded.job.id flight.loaded.job.version (flight.loaded.envelopes ports events) with ⟨written, outcome⟩
      rw [appended] at finished
      cases outcome with
      | ok value =>
        have healthy := append_healthy appended
        exact healthy
      | err error | panic => cases finished

structure Deadlines (history : Trace) (system : System) : Prop where
  known : ∀ lease deadline, history.lastHeartbeat lease = some deadline → lease ∈ history.granted
  kept : ∀ id entry state, system.store.inner.index.lookup id = some entry → entry.lease = some state →
    ∃ deadline, history.promised state.lease = some deadline ∧ deadline ≤ state.expiresAt

theorem Inner.Consistent.heldLease {inner : Inner} (consistent : inner.Consistent) {id : JobId}
    {entry : DispatchEntry} {state : LeaseState} (present : inner.index.lookup id = some entry)
    (live : entry.lease = some state) : heldLease (inner.stream id) = some state.lease := by
  obtain ⟨stream, job, stored, folded, mirrors⟩ := consistent.entry present
  rw [Inner.stream_of_lookup stored, heldLease_of_fold folded]
  exact mirrors.held live

omit [BuildProfile] in
theorem promised_cons {history : Trace} {record : Record System Action Response} {lease : LeaseId}
    (noHeartbeat : heartbeatOf lease record = none) (noGrant : grantOf lease record = none) :
    Trace.promised (record :: history) lease = history.promised lease := by
  simp [Trace.promised, Trace.lastHeartbeat, noHeartbeat, noGrant]

omit [BuildProfile] in
theorem lastHeartbeat_cons {history : Trace} {record : Record System Action Response} {lease : LeaseId}
    (noHeartbeat : heartbeatOf lease record = none) :
    Trace.lastHeartbeat (record :: history) lease = history.lastHeartbeat lease := by
  simp [Trace.lastHeartbeat, noHeartbeat]

omit [BuildProfile] in
theorem silent_record {record : Record System Action Response} (notGrant : handedOut record.result = [])
    (notHeartbeat : record.result ≠ .extended (.ok true)) (lease : LeaseId) :
    heartbeatOf lease record = none ∧ grantOf lease record = none := by
  refine ⟨?_, ?_⟩
  · unfold heartbeatOf
    split
    · rename_i result
      exact absurd result notHeartbeat
    · rfl
  · unfold grantOf
    split
    · rename_i leased result
      rw [result] at notGrant
      cases notGrant
    · rfl

omit [BuildProfile] in
theorem entryOf_held {job : Job} {seq : Nat} {entry : DispatchEntry} {state : LeaseState}
    (projected : entryOf job seq = some entry) (live : entry.lease = some state) :
    job.state.held = some state.lease ∧ job.state.heldUntil = some state.expiresAt := by
  unfold entryOf at projected
  cases shape : job.state <;> rw [shape] at projected <;> cases projected
  · cases live
  · cases live
    exact ⟨rfl, rfl⟩
  · cases live
    exact ⟨rfl, rfl⟩

theorem Effect.keepsLease {job next : Job} {events : List JobEvent} {lease : LeaseId}
    (effect : Job.Effect job events next) (held : next.state.held = some lease) :
    (∃ worker expiresAt, events = [.leased worker lease expiresAt]) ∨
      (Memory.keepsLease events = true ∧ job.state.held = some lease ∧
        next.state.heldUntil = job.state.heldUntil) := by
  cases effect with
  | leased worker granted expiresAt state =>
    cases held
    exact .inl ⟨worker, expiresAt, rfl⟩
  | started state =>
    rw [state]
    exact .inr ⟨rfl, held, rfl⟩
  | lateAck worker presented reported => exact .inr ⟨rfl, held, rfl⟩
  | succeeded | failedRetry | failedParked | expiredRetry | expiredParked | cancelled => cases held

theorem Effect.retired_free {job next : Job} {now : DateTime} {seed : UInt64} {events : List JobEvent}
    (retired : job.expireLease now seed = .ok events) (effect : Job.Effect job events next) :
    next.state.held = none := by
  obtain ⟨_, _, _, _, _, _, rfl⟩ := Job.expireLease_ok retired
  cases effect <;> rfl

theorem Call.keepsLease {call : Call} {ports : Ports} {job next : Job} {reply : Reply}
    {events : List JobEvent} {lease : LeaseId} (command : call.command ports job = .ok (reply, events))
    (effect : Job.Effect job events next) (held : next.state.held = some lease) :
    Memory.keepsLease events = true ∧ job.state.held = some lease ∧
      next.state.heldUntil = job.state.heldUntil := by
  rcases Effect.keepsLease effect held with ⟨_, _, rfl⟩ | kept
  · rcases Call.command_reply command with
      ⟨_, _, _, _, _, _, ⟨_, shape⟩ | ⟨_, _, _, shape⟩ | ⟨_, _, _, shape⟩⟩ |
      ⟨_, _, _, _, _, shape⟩ | ⟨_, _, ⟨_, shape⟩ | ⟨_, shape⟩⟩ <;> cases shape
  · exact kept

omit [BuildProfile] in
theorem Deadlines.new : Deadlines [] System.new where
  known := by intro lease deadline accepted; cases accepted
  kept := by intro id entry state present; cases present

omit [BuildProfile] in
theorem Deadlines.quiet {history : Trace} {record : Record System Action Response}
    (deadlines : Deadlines history record.before) (notGrant : handedOut record.result = [])
    (notHeartbeat : record.result ≠ .extended (.ok true))
    (kept : ∀ id entry state, record.after.store.inner.index.lookup id = some entry →
      entry.lease = some state →
      ∃ deadline, history.promised state.lease = some deadline ∧ deadline ≤ state.expiresAt) :
    Deadlines (record :: history) record.after := by
  refine ⟨?_, ?_⟩
  · intro lease deadline accepted
    rw [lastHeartbeat_cons (silent_record notGrant notHeartbeat lease).1] at accepted
    exact List.mem_append_right _ (deadlines.known lease deadline accepted)
  · intro id entry state present held
    obtain ⟨noHeartbeat, noGrant⟩ := silent_record notGrant notHeartbeat state.lease
    rw [promised_cons noHeartbeat noGrant]
    exact kept id entry state present held

theorem Deadlines.grant {history : Trace} {record : Record System Action Response} {leased : LeasedJob}
    {worker : WorkerId} {batch : List EventEnvelope} {next : Job}
    (deadlines : Deadlines history record.before) (sound : record.before.Sound)
    (fence : Fence history record.before) (fresh : leased.lease ∉ history.granted)
    (result : record.result = .leased (.ok (some leased)))
    (state : next.state = .leased worker leased.lease leased.expiresAt)
    (effects : Appended record.before.store.inner record.after.store.inner leased.jobId batch next) :
    Deadlines (record :: history) record.after := by
  have noHeartbeat : ∀ lease, heartbeatOf lease record = none := by
    intro lease
    unfold heartbeatOf
    split
    · rename_i other
      rw [result] at other
      cases other
    · rfl
  have granted : Trace.granted (record :: history) = leased.lease :: history.granted := by
    simp [Trace.granted, result, handedOut]
  refine ⟨?_, ?_⟩
  · intro lease deadline accepted
    rw [lastHeartbeat_cons (noHeartbeat lease)] at accepted
    rw [granted]
    exact List.mem_cons_of_mem _ (deadlines.known lease deadline accepted)
  · intro id entry held present live
    by_cases same : id = leased.jobId
    · subst same
      rw [effects.index_self] at present
      obtain ⟨lease, deadline⟩ := entryOf_held present live
      rw [state] at lease deadline
      simp only [JobState.held, JobState.heldUntil, Option.some.injEq] at lease deadline
      -- no heartbeat of a lease can have been accepted before its grant
      have never : Trace.lastHeartbeat history leased.lease = none := by
        cases accepted : Trace.lastHeartbeat history leased.lease with
        | none => rfl
        | some early => exact absurd (deadlines.known _ early accepted) fresh
      have grant : grantOf leased.lease record = some leased.expiresAt := by
        simp [grantOf, result]
      refine ⟨leased.expiresAt, ?_, deadline.le⟩
      rw [← lease, Trace.promised, lastHeartbeat_cons (noHeartbeat _), never]
      simp [grant]
    · rw [effects.index_other id same] at present
      have other : leased.lease ≠ held.lease := by
        intro equal
        rw [equal] at fresh
        exact fresh (fence.live id _ (sound.consistent.heldLease present live))
      have noGrant : grantOf held.lease record = none := by
        simp [grantOf, result, other]
      rw [promised_cons (noHeartbeat _) noGrant]
      exact deadlines.kept id entry held present live

theorem Deadlines.heartbeat {history : Trace} {record : Record System Action Response} {ports : Ports}
    {ttl : Duration} {id : JobId} {entry : DispatchEntry} {state : LeaseState} {delta : TimeDelta}
    {deadline : DateTime} (deadlines : Deadlines history record.before) (sound : record.before.Sound)
    (fence : Fence history record.before) (label : record.label = .extendLease ports state.lease ttl)
    (result : record.result = .extended (.ok true)) (converted : TimeDelta.fromStd ttl = some delta)
    (added : ports.now.checkedAddSigned delta = some deadline)
    (effects : Extended record.before.store.inner record.after.store.inner id entry state deadline) :
    Deadlines (record :: history) record.after := by
  have noGrant : ∀ lease, grantOf lease record = none := by
    intro lease
    simp [grantOf, result]
  have granted : Trace.granted (record :: history) = history.granted := by
    simp [Trace.granted, result, handedOut]
  have self : heartbeatOf state.lease record = some deadline := by
    simp [heartbeatOf, label, result, converted, added]
  have others : ∀ lease, state.lease ≠ lease → heartbeatOf lease record = none := by
    intro lease different
    simp [heartbeatOf, label, result, different]
  have holder := sound.consistent.heldLease effects.present effects.live
  refine ⟨?_, ?_⟩
  · intro lease accepted sent
    rw [granted]
    by_cases same : state.lease = lease
    · rw [← same]
      exact fence.live id _ holder
    · rw [lastHeartbeat_cons (others lease same)] at sent
      exact deadlines.known lease accepted sent
  · intro job other held present live
    by_cases same : job = id
    · subst same
      rw [effects.index_self] at present
      cases present
      cases live
      refine ⟨deadline, ?_, le_refl _⟩
      simp [Trace.promised, Trace.lastHeartbeat, self]
    · rw [effects.index_other job same] at present
      have different : state.lease ≠ held.lease := by
        intro equal
        apply same
        apply fence.unique job id held.lease (sound.consistent.heldLease present live)
        rw [← equal]
        exact holder
      rw [promised_cons (others _ different) (noGrant _)]
      exact deadlines.kept job other held present live

theorem Deadlines.step {history : Trace} {record : Record System Action Response}
    (deadlines : Deadlines history record.before) (sound : record.before.Sound)
    (fence : Fence history record.before) (fresh : (handedOut record.result ++ history.granted).Nodup)
    (change : Change record.before record.after record.label record.result)
    (healthy : ∀ ticket ports reply, record.label = .append ticket ports → record.result = .answered (.ok reply) →
      record.before.store.poisoned = false)
    (steady : rewinds record.before record.label = false) : Deadlines (record :: history) record.after := by
  obtain ⟨before, action, response, after⟩ := record
  simp only at deadlines sound fence fresh change healthy steady
  cases change with
  | quiet order refused =>
    refine Deadlines.quiet deadlines ?_ ?_ ?_
    · cases response <;> first
        | rfl
        | (rename_i result; rcases result with (_ | leased) | _ | _ <;> first | rfl | cases refused)
    · intro accepted
      subst accepted
      cases refused
    · intro id entry state present live
      rw [order.index] at present
      exact deadlines.kept id entry state present live
  | @enqueued ports cmd valid fresh effects =>
    refine Deadlines.quiet deadlines rfl (by simp) ?_
    intro id entry state present live
    by_cases same : id = ports.jobId
    · subst same
      rw [effects.index_self] at present
      cases (entryOf_held present live).1
    · rw [effects.index_other id same] at present
      exact deadlines.kept id entry state present live
  | @leased ports queue worker ttl stream job next expiresAt leased present folded granted lease deadline
      effect effects =>
    have new : leased.lease ∉ history.granted := (List.nodup_cons.mp fresh).1
    have state : next.state = .leased worker leased.lease leased.expiresAt := by
      cases effect
      rw [lease, deadline]
    exact Deadlines.grant deadlines sound fence new rfl state effects
  | extended held live converted added effects =>
    subst held
    exact Deadlines.heartbeat deadlines sound fence rfl rfl converted added effects
  | @retired ports target found held stream job next events indexed live overdue present folded retired
      effect effects =>
    refine Deadlines.quiet deadlines rfl (by simp) ?_
    intro id entry state found live
    by_cases same : id = target
    · subst same
      rw [effects.index_self] at found
      have lease := (entryOf_held found live).1
      rw [Effect.retired_free retired effect] at lease
      cases lease
    · rw [effects.index_other id same] at found
      exact deadlines.kept id entry state found live
  | @answered ticket ports flight reply stream job next events ongoing present folded same command effect
      effects =>
    refine Deadlines.quiet deadlines rfl (by simp) ?_
    intro id entry state found live
    by_cases target : id = flight.jobId
    · subst target
      rw [effects.index_self] at found
      obtain ⟨lease, recorded⟩ := entryOf_held found live
      obtain ⟨keeps, held, unchanged⟩ := Call.keepsLease command effect lease
      obtain ⟨old, before, indexed, running, equal⟩ :=
        sound.consistent.holds_iff.mpr ⟨stream, job, present, folded, held⟩
      obtain ⟨deadline, promised, early⟩ := deadlines.kept _ old before indexed running
      rw [equal] at promised
      refine ⟨deadline, promised, early.trans ?_⟩
      by_contra later
      have projected : reprojected _ (.append ticket ports) = some (state.expiresAt, before) :=
        reprojected_eq_some.mpr ⟨ticket, ports, flight, reply, events, old, job, rfl, ongoing, healthy _ _ _ rfl rfl,
          by rw [same, System.stream, Inner.stream_of_lookup present]; exact Job.fromEvents_version folded,
          by rw [same]; exact command, keeps, indexed, running,
          by rw [System.stream, Inner.stream_of_lookup present]; exact folded, by rw [← unchanged]; exact recorded⟩
      rw [rewinds, projected] at steady
      exact of_decide_eq_false steady (not_le.mp later)
    · rw [effects.index_other id target] at found
      exact deadlines.kept id entry state found live

theorem Run.deadlines {history : Trace} {system : System} (run : Run System.Step .new history system)
    (distinct : history.granted.Nodup) (steady : ∀ record ∈ history, rewinds record.before record.label = false) :
    Deadlines history system := by
  induction run with
  | refl => exact Deadlines.new
  | @step older before after label result run taken ih =>
    have apart : (Trace.granted older).Nodup := List.Nodup.of_append_right distinct
    have deadlines := ih apart fun record member => steady record (List.mem_cons_of_mem _ member)
    have sound := Run.sound run
    refine Deadlines.step deadlines sound (Run.fence run apart) distinct (taken.change sound) ?_
      (steady _ (List.mem_cons_self ..))
    rintro ticket ports reply rfl rfl
    exact taken.healthy

theorem expiredLeases_follow {record : Record System Action Response} {id : JobId} {ports : Ports}
    {stream : List EventEnvelope} {job next : Job} {events : List JobEvent} {lease : LeaseId}
    (effects : Appended record.before.store.inner record.after.store.inner id
      (follow ports id stream events) next)
    (effect : Job.Effect job events next) (expired : lease ∈ expiredLeases record id) :
    job.state.held = some lease := by
  have added : batchOf record id = follow ports id stream events := by
    rw [batchOf, System.stream, System.stream, effects.stream, List.drop_left]
  rw [expiredLeases, added, List.mem_filterMap] at expired
  obtain ⟨envelope, member, named⟩ := expired
  split at named
  · rename_i held event
    cases named
    have listed : JobEvent.leaseExpired lease ∈ events := by
      rw [← follow_events ports id stream events, ← event]
      exact List.mem_map_of_mem member
    exact (Effect.expiry effect listed).1
  · cases named

theorem heartbeat_fence {history : Trace} {system : System} (run : Run System.Step .new history system)
    (distinct : history.granted.Nodup) (steady : ∀ record ∈ history, rewinds record.before record.label = false) :
    HeartbeatFence history := by
  intro newer record older ports id lease shape label result expired
  subst shape
  obtain ⟨before, taken, _⟩ := run.split
  have granted : Trace.granted (newer ++ record :: older) =
      Trace.granted newer ++ (handedOut record.result ++ Trace.granted older) := by
    simp [Trace.granted]
  rw [granted] at distinct
  have deadlines := Run.deadlines before (List.Nodup.of_append_right (List.Nodup.of_append_right distinct))
    fun old member => steady old (by simp [member])
  have sound := Run.sound before
  have change := taken.change sound
  rw [label, result] at change
  cases change with
  | quiet order refused => cases refused
  | retired indexed live overdue present folded retired effect effects =>
    have held := expiredLeases_follow effects effect expired
    obtain ⟨deadline, promised, early⟩ := deadlines.kept id _ _ indexed live
    have holder := sound.consistent.heldLease indexed live
    rw [Inner.stream_of_lookup present, heldLease_of_fold folded, held] at holder
    cases holder
    exact ⟨deadline, promised, early.trans overdue⟩

theorem rewinding_append {before after : System} {ticket : Nat} {ports : Ports} {reply : Reply}
    (change : Change before after (.append ticket ports) (.answered (.ok reply)))
    (rewound : rewinds before (.append ticket ports) = true) :
    ∃ id entry moved state lease, before.store.inner.index.lookup id = some entry ∧
      after.store.inner.index.lookup id = some moved ∧ entry.lease = some state ∧
      moved.lease = some lease ∧ lease.expiresAt < state.expiresAt := by
  rw [rewinds, Option.any_eq_true] at rewound
  obtain ⟨⟨recorded, state⟩, projected, earlier⟩ := rewound
  replace earlier := of_decide_eq_true earlier
  obtain ⟨_, _, flight, _, _, entry, job, action, ongoing, _, _, command, keeps, indexed, live, folded, deadline⟩ :=
    reprojected_eq_some.mp projected
  cases action
  cases change with
  | quiet order refused => cases refused
  | answered found present refolded same yielded effect effects =>
    rw [ongoing] at found
    cases found
    rw [System.stream, Inner.stream_of_lookup present, refolded] at folded
    cases folded
    rw [same, yielded] at command
    cases command
    have self := effects.index_self
    cases effect with
    | started shape =>
      simp only [entryOf] at self
      rw [shape] at deadline
      cases deadline
      exact ⟨_, entry, _, state, _, indexed, self, live, rfl, earlier⟩
    | lateAck worker presented reported =>
      cases shape : job.state <;> rw [shape] at deadline <;> cases deadline
      · simp only [entryOf, shape] at self
        exact ⟨_, entry, _, state, _, indexed, self, live, rfl, earlier⟩
      · simp only [entryOf, shape] at self
        exact ⟨_, entry, _, state, _, indexed, self, live, rfl, earlier⟩
    | leased | succeeded | failedRetry | failedParked | expiredRetry | expiredParked | cancelled => cases keeps

omit [BuildProfile] in
def Action.clock : Action → Option DateTime
  | .enqueue ports _ | .leaseNext ports .. | .extendLease ports .. | .retireNextExpiredLease ports
  | .append _ ports => some ports.now
  | .load .. => none

/-- A claim for 10 s, a heartbeat for 100 s, the start of the job, and a sweep, newest step first. -/
def rewindActions : List Action :=
  [.retireNextExpiredLease (Sample.ports 20 6), .append 0 (Sample.ports 6 5),
    .load 0 ⟨1⟩ (.start Sample.worker), .extendLease (Sample.ports 5 3) ⟨2⟩ (.fromSecs 100),
    .leaseNext (Sample.ports 1 2) Sample.queue Sample.worker (.fromSecs 10),
    .enqueue (Sample.ports 0 1) Sample.command]

omit [BuildProfile] in
theorem start_revokes_heartbeat :
    let _ := BuildProfile.release
    ∃ history system, Run System.Step .new history system ∧ (Trace.granted history).Nodup ∧
      (history.filterMap (·.label.clock)).Pairwise (fun newer older => older ≤ newer) ∧
      ¬ HeartbeatFence history := by
  intro _
  refine ⟨_, _, Run.of_replay System.Step.of_exec rewindActions, by decide, by decide, ?_⟩
  intro fence
  obtain ⟨deadline, promised, early⟩ :=
    fence [] _ _ (Sample.ports 20 6) ⟨1⟩ ⟨2⟩ rfl rfl rfl (by decide)
  have accepted : some (Sample.instant 105) = some deadline := promised
  cases accepted
  exact absurd early (by decide)

def steadyActions : List Action :=
  [.retireNextExpiredLease (Sample.ports 200 6), .extendLease (Sample.ports 5 5) ⟨2⟩ (.fromSecs 100),
    .append 0 (Sample.ports 4 3), .load 0 ⟨1⟩ (.start Sample.worker),
    .leaseNext (Sample.ports 1 2) Sample.queue Sample.worker (.fromSecs 10),
    .enqueue (Sample.ports 0 1) Sample.command]

omit [BuildProfile] in
theorem heartbeat_fence_steady :
    let _ := BuildProfile.release
    Trace.promised (Run.replay Action.exec System.new steadyActions).1 ⟨2⟩ = some (Sample.instant 105) ∧
      HeartbeatFence (Run.replay Action.exec System.new steadyActions).1 := by
  intro _
  refine ⟨by decide, heartbeat_fence (Run.of_replay System.Step.of_exec steadyActions) (by decide) ?_⟩
  decide

end Koine.Memory
