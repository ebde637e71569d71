import Koine.Memory.Heartbeat
import Koine.Memory.Health
import Koine.Memory.Lineage

namespace Koine.Memory

open Library Domain Application

def Dead (lease : LeaseId) (time : DateTime) (system : System) : Prop :=
  ∀ id entry state, system.store.inner.index.lookup id = some entry → entry.lease = some state →
    state.lease = lease → state.expiresAt ≤ time

/-- A worker that was told to stop is never told to go on. -/
def StaysDead (history : Trace) : Prop :=
  ∀ newer second middle first older asked told lease ttl longer,
    history = newer ++ second :: (middle ++ first :: older) → lease ∈ Trace.granted older →
    first.label = .extendLease told lease ttl → first.result = .extended (.ok false) →
    second.label = .extendLease asked lease longer → second.result = .extended (.ok false)

variable [BuildProfile]

/-- The action appends `started` or `late_ack_conflict` to the job held under `lease` while its accepted
    deadline is earlier than the one its stream records. -/
def revives (lease : LeaseId) (before : System) (action : Action) : Bool :=
  (reprojected before action).any fun (recorded, state) => state.lease = lease && state.expiresAt < recorded

theorem Dead.of_refusal {before after : System} {ports : Ports} {lease : LeaseId} {ttl : Duration}
    (sound : before.Sound)
    (unique : ∀ left right, heldLease (before.stream left) = some lease →
      heldLease (before.stream right) = some lease → left = right)
    (taken : System.Step before (.extendLease ports lease ttl) (.extended (.ok false)) after) :
    Dead lease ports.now after := by
  obtain ⟨shuffled, order, ran⟩ := taken
  have consistent := sound.consistent.reorder order
  have only : ∀ left right, heldLease (shuffled.stream left) = some lease →
      heldLease (shuffled.stream right) = some lease → left = right := by
    intro left right
    rw [order.stream, order.stream]
    exact unique left right
  simp only [Action.exec, extendLease_eq] at ran
  rcases called : InMemoryEventStore.locked (⟨shuffled, before.store.poisoned⟩ : InMemoryEventStore)
    (fun inner => inner.extendLease ports lease ttl) with ⟨store, outcome⟩
  rw [called] at ran
  simp only [Prod.mk.injEq, Response.extended.injEq, flatten_eq_ok] at ran
  obtain ⟨rfl, rfl⟩ := ran
  rcases locked_cases called with ⟨_, _, failed⟩ | ⟨_, body, _⟩
  · cases failed
  intro id entry state present held named
  simp only at present body
  unfold Inner.extendLease at body
  split at body
  · cases body
  · split at body
    · cases body
    · split at body
      · rename_i missing
        have same := (Prod.mk.inj body).1
        rw [← same] at present
        exact absurd named (findLease_none missing present held)
      · rename_i other found live first
        split at body
        · rename_i late
          have same := (Prod.mk.inj body).1
          rw [← same] at present
          obtain ⟨indexed, under, label⟩ := findLease_some first
          have holder := consistent.heldLease present held
          have holds := consistent.heldLease indexed under
          rw [named] at holder
          rw [label] at holds
          cases only id other holder holds
          rw [present] at indexed
          cases indexed
          rw [held] at under
          cases under
          exact late
        · cases (Prod.mk.inj body).2

theorem Dead.step {before after : System} {action : Action} {response : Response} {lease : LeaseId}
    {time : DateTime} (dead : Dead lease time before) (sound : before.Sound)
    (change : Change before after action response) (fresh : lease ∉ handedOut response)
    (clock : ∀ ports other ttl, action = .extendLease ports other ttl → time ≤ ports.now)
    (healthy : ∀ ticket ports reply, action = .append ticket ports → response = .answered (.ok reply) →
      before.store.poisoned = false)
    (steady : revives lease before action = false) : Dead lease time after := by
  intro id entry state present held named
  cases change with
  | quiet order refused =>
    rw [order.index] at present
    exact dead id entry state present held named
  | @enqueued ports cmd valid fresh effects =>
    by_cases same : id = ports.jobId
    · subst same
      rw [effects.index_self] at present
      cases (entryOf_held present held).1
    · rw [effects.index_other id same] at present
      exact dead id entry state present held named
  | @leased ports queue worker ttl stream job next expiresAt leased stored folded granted grant deadline
      effect effects =>
    by_cases same : id = leased.jobId
    · subst same
      rw [effects.index_self] at present
      have holder := (entryOf_held present held).1
      cases effect
      have under : ports.leaseId = state.lease := Option.some.inj holder
      refine absurd ?_ fresh
      rw [handedOut, List.mem_singleton, grant, under, named]
    · rw [effects.index_other id same] at present
      exact dead id entry state present held named
  | @extended ports other ttl job moved live delta deadline label alive converted added effects =>
    by_cases same : id = job
    · subst same
      rw [effects.index_self] at present
      cases present
      cases held
      -- a heartbeat is accepted only before the deadline
      have early := dead id _ _ effects.present effects.live named
      have later := clock _ _ _ rfl
      exact absurd alive (not_lt.mpr (early.trans later))
    · rw [effects.index_other id same] at present
      exact dead id entry state present held named
  | @retired ports target found live stream job next events indexed was overdue stored folded retired effect
      effects =>
    by_cases same : id = target
    · subst same
      rw [effects.index_self] at present
      have holder := (entryOf_held present held).1
      rw [Effect.retired_free retired effect] at holder
      cases holder
    · rw [effects.index_other id same] at present
      exact dead id entry state present held named
  | @answered ticket ports flight reply stream job next events ongoing stored folded same command effect
      effects =>
    by_cases target : id = flight.jobId
    · subst target
      rw [effects.index_self] at present
      obtain ⟨holder, recorded⟩ := entryOf_held present held
      obtain ⟨keeps, still, unchanged⟩ := Call.keepsLease command effect holder
      obtain ⟨old, was, indexed, running, equal⟩ :=
        sound.consistent.holds_iff.mpr ⟨stream, job, stored, folded, still⟩
      have label : was.lease = lease := equal.trans named
      have refold : Job.fromEvents (before.stream flight.jobId) = .ok job := by
        rw [System.stream, Inner.stream_of_lookup stored]
        exact folded
      refine le_trans ?_ (dead _ old was indexed running label)
      by_contra later
      rw [unchanged] at recorded
      have projected : reprojected before (.append ticket ports) = some (state.expiresAt, was) :=
        reprojected_eq_some.mpr ⟨ticket, ports, flight, reply, events, old, job, rfl, ongoing, healthy _ _ _ rfl rfl,
          by rw [same, System.stream, Inner.stream_of_lookup stored]; exact Job.fromEvents_version folded,
          by rw [same]; exact command, keeps, indexed, running, refold, recorded⟩
      simp [revives, projected, label, not_le.mp later] at steady
    · rw [effects.index_other id target] at present
      exact dead id entry state present held named

theorem Run.dead {start system : System} {history : Trace} {lease : LeaseId} {time : DateTime}
    (run : Run System.Step start history system) (sound : start.Sound) (dead : Dead lease time start)
    (fresh : ∀ record ∈ history, lease ∉ handedOut record.result)
    (clock : ∀ record ∈ history, ∀ ports other ttl, record.label = .extendLease ports other ttl →
      time ≤ ports.now)
    (steady : ∀ record ∈ history, revives lease record.before record.label = false) :
    Dead lease time system := by
  induction run with
  | refl => exact dead
  | step run taken ih =>
    have before : System.Sound _ := run.invariant System.Sound sound fun _ _ _ _ kept next => kept.step next
    have still := ih (fun record member => fresh record (List.mem_cons_of_mem _ member))
      (fun record member => clock record (List.mem_cons_of_mem _ member))
      (fun record member => steady record (List.mem_cons_of_mem _ member))
    refine still.step before (taken.change before) (fresh _ List.mem_cons_self) (clock _ List.mem_cons_self) ?_
      (steady _ List.mem_cons_self)
    rintro ticket ports reply rfl rfl
    exact taken.healthy

theorem Dead.refused {before after : System} {ports : Ports} {lease : LeaseId} {ttl : Duration}
    {time : DateTime} {response : Response} (dead : Dead lease time before) (later : time ≤ ports.now)
    (taken : System.Step before (.extendLease ports lease ttl) response after) :
    response ≠ .extended (.ok true) ∧
      (before.store.poisoned = false →
        ((TimeDelta.fromStd ttl).bind ports.now.checkedAddSigned).isSome = true →
        response = .extended (.ok false)) := by
  obtain ⟨shuffled, order, ran⟩ := taken
  have missed : ∀ delta deadline, TimeDelta.fromStd ttl = some delta →
      ports.now.checkedAddSigned delta = some deadline →
      shuffled.extendLease ports lease ttl = (shuffled, .ok (.ok false)) := by
    intro delta deadline converted added
    simp only [Inner.extendLease, converted, added]
    cases found : shuffled.findLease lease with
    | none => rfl
    | some holder =>
      obtain ⟨id, entry, state⟩ := holder
      obtain ⟨present, held, named⟩ := findLease_some found
      rw [order.index] at present
      exact if_pos ((dead id entry state present held named).trans later)
  simp only [Action.exec] at ran
  rcases called : InMemoryEventStore.extendLease ⟨shuffled, before.store.poisoned⟩ ports lease ttl
    with ⟨written, result⟩
  rw [called] at ran
  cases ran
  refine ⟨?_, ?_⟩
  · intro accepted
    cases accepted
    rcases extendLease_step_cases called with ⟨_, refused⟩ | ⟨id, entry, state, delta, deadline, effects,
      named, alive, _⟩
    · exact refused rfl
    · have present := effects.present
      rw [order.index] at present
      exact absurd alive (not_lt.mpr ((dead id entry state present effects.live named).trans later))
  · intro healthy representable
    obtain ⟨deadline, sum⟩ := Option.isSome_iff_exists.mp representable
    obtain ⟨delta, converted, added⟩ := Option.bind_eq_some_iff.mp sum
    rw [extendLease_eq] at called
    simp only [InMemoryEventStore.locked, healthy, missed delta deadline converted added] at called
    cases called
    rfl

omit [BuildProfile] in
theorem ClockForward.of_append {newer older : Trace} (clock : ClockForward (newer ++ older)) :
    ClockForward older := by
  induction newer with
  | nil => exact clock
  | cons record newer ih => exact ih clock.1

omit [BuildProfile] in
theorem ClockForward.heartbeats {newer older : Trace} {record past : Record System Action Response}
    {ports earlier : Ports} {lease held : LeaseId} {ttl longer : Duration}
    (clock : ClockForward (newer ++ record :: older)) (label : record.label = .extendLease ports lease ttl)
    (member : past ∈ older) (before : past.label = .extendLease earlier held longer) :
    earlier.now ≤ ports.now := by
  obtain ⟨_, _, readings⟩ := clock.of_append
  rw [label] at readings
  exact readings past member _ (by rw [before]; rfl) _ rfl

theorem dead_lease_stays_dead {newer middle older : Trace} {second first : Record System Action Response}
    {system : System} {told asked : Ports} {lease : LeaseId} {ttl longer : Duration}
    (run : Run System.Step .new (newer ++ second :: (middle ++ first :: older)) system)
    (distinct : (Trace.granted (newer ++ second :: (middle ++ first :: older))).Nodup)
    (clock : ClockForward (newer ++ second :: (middle ++ first :: older)))
    (granted : lease ∈ Trace.granted older) (stopped : first.label = .extendLease told lease ttl)
    (stop : first.result = .extended (.ok false)) (repeated : second.label = .extendLease asked lease longer)
    (steady : ∀ record ∈ middle, revives lease record.before record.label = false) :
    second.result ≠ .extended (.ok true) ∧
      (second.before.store.poisoned = false →
        ((TimeDelta.fromStd longer).bind asked.now.checkedAddSigned).isSome = true →
        second.result = .extended (.ok false)) := by
  obtain ⟨upToSecond, takenSecond, _⟩ := run.split
  obtain ⟨upToFirst, takenFirst, between⟩ := upToSecond.split
  have sound := Run.sound upToFirst
  have apart : (Trace.granted middle ++ (handedOut first.result ++ Trace.granted older)).Nodup := by
    have shape : Trace.granted (newer ++ second :: (middle ++ first :: older)) =
        Trace.granted newer ++ (handedOut second.result ++
          (Trace.granted middle ++ (handedOut first.result ++ Trace.granted older))) := by
      simp [Trace.granted]
    rw [shape] at distinct
    exact distinct.of_append_right.of_append_right
  have fence := Run.fence upToFirst apart.of_append_right.of_append_right
  have fresh : ∀ record ∈ middle, lease ∉ handedOut record.result := by
    intro record member again
    have handed : lease ∈ Trace.granted middle := List.mem_flatMap.mpr ⟨record, member, again⟩
    exact (List.disjoint_of_nodup_append apart) handed (List.mem_append_right _ granted)
  rw [stopped, stop] at takenFirst
  have dead : Dead lease told.now first.after :=
    Dead.of_refusal sound (fun left right => fence.unique left right lease) takenFirst
  have still : Dead lease told.now second.before := by
    refine Run.dead between (sound.step takenFirst) dead fresh ?_ steady
    intro record member ports other span label
    obtain ⟨recent, past, rfl⟩ := List.append_of_mem member
    have forward : ClockForward ((newer ++ second :: recent) ++ record :: (past ++ first :: older)) := by
      simpa using clock
    exact forward.heartbeats label (by simp) stopped
  rw [repeated] at takenSecond
  exact still.refused (clock.heartbeats repeated (by simp) stopped) takenSecond

/-- A claim for 30 s, a heartbeat that shortens it to 5 s, one at 10 s that is refused, the start of the
    job, and a heartbeat after it, newest step first. -/
def revivedActions : List Action :=
  [.extendLease (Sample.ports 13 7) ⟨2⟩ (.fromSecs 20), .append 0 (Sample.ports 12 6),
    .load 0 ⟨1⟩ (.start Sample.worker), .extendLease (Sample.ports 10 4) ⟨2⟩ (.fromSecs 20),
    .extendLease (Sample.ports 2 3) ⟨2⟩ (.fromSecs 5),
    .leaseNext (Sample.ports 1 2) Sample.queue Sample.worker (.fromSecs 30),
    .enqueue (Sample.ports 0 1) Sample.command]

omit [BuildProfile] in
theorem start_revives_dead_lease :
    let _ := BuildProfile.release
    ∃ history system, Run System.Step .new history system ∧ (Trace.granted history).Nodup ∧
      ClockForward history ∧ ¬ StaysDead history := by
  intro _
  refine ⟨_, _, Run.of_replay System.Step.of_exec revivedActions, by decide, by decide, ?_⟩
  intro stays
  have refused : Response.extended (.ok true) = .extended (.ok false) :=
    stays [] _ [_, _] _ [_, _, _] (Sample.ports 13 7) (Sample.ports 10 4) ⟨2⟩ (.fromSecs 20) (.fromSecs 20)
      rfl (by decide) rfl rfl rfl
  cases refused

def stoppedActions : List Action :=
  [.extendLease (Sample.ports 13 7) ⟨2⟩ (.fromSecs 20), .append 1 (Sample.ports 12 6),
    .load 1 ⟨1⟩ (.succeed Sample.worker ⟨2⟩ none), .extendLease (Sample.ports 10 5) ⟨2⟩ (.fromSecs 20),
    .extendLease (Sample.ports 3 4) ⟨2⟩ (.fromSecs 5), .append 0 (Sample.ports 2 3),
    .load 0 ⟨1⟩ (.start Sample.worker),
    .leaseNext (Sample.ports 1 2) Sample.queue Sample.worker (.fromSecs 30),
    .enqueue (Sample.ports 0 1) Sample.command]

omit [BuildProfile] in
theorem dead_lease_stays_dead_stopped :
    let _ := BuildProfile.release
    ∃ last history, (Run.replay Action.exec System.new stoppedActions).1 = last :: history ∧
      last.result = .extended (.ok false) := by
  intro _
  have run : Run System.Step .new ([] ++ _ :: ([_, _] ++ _ :: [_, _, _, _, _])) _ :=
    Run.of_replay System.Step.of_exec stoppedActions
  obtain ⟨_, refused⟩ :=
    dead_lease_stays_dead run (by decide) (by decide) (by decide) rfl rfl rfl (by decide)
  exact ⟨_, _, rfl, refused rfl (by decide)⟩

end Koine.Memory
