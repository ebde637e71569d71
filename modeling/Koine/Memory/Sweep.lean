import Koine.Memory.Heartbeat
import Koine.Memory.Recovery

namespace Koine.Memory

open Library Domain Application

variable [BuildProfile]

/-- A batch that retires the lease a job is held under: the lease expires, and the decision about
    the job follows. -/
def Retires (inner : Inner) (id : JobId) (batch : List EventEnvelope) : Prop :=
  ∃ entry state decision, inner.index.lookup id = some entry ∧ entry.lease = some state ∧
    batch.map (·.event) = [.leaseExpired state.lease, decision] ∧
    ((∃ attempt notBefore, decision = .retryScheduled attempt notBefore) ∨ ∃ reason, decision = .parked reason)

/-- What a sweep at `time` is for: every overdue lease is retired, and nothing else is touched. -/
structure SweptExactly (time : DateTime) (before after : System) : Prop where
  none_left : after.store.inner.idsWhere (·.overdue time) = ∅
  retired : ∀ id ∈ before.store.inner.idsWhere (·.overdue time),
    ∃ batch, after.stream id = before.stream id ++ batch ∧ Retires before.store.inner id batch
  others : ∀ id ∉ before.store.inner.idsWhere (·.overdue time),
    after.store.inner.streams.lookup id = before.store.inner.streams.lookup id ∧
      after.store.inner.index.lookup id = before.store.inner.index.lookup id

theorem System.Step.nothing_overdue {before after : System} {ports : Ports} (sound : before.Sound)
    (taken : System.Step before (.retireNextExpiredLease ports) (.retired (.ok none)) after) :
    before.store.inner.Reordered after.store.inner ∧
      before.store.inner.idsWhere (·.overdue ports.now) = ∅ := by
  constructor
  · cases taken.change sound with
    | quiet order refused => exact order
  obtain ⟨shuffled, order, ran⟩ := taken
  simp only [Action.exec, retireNextExpiredLease_eq, Prod.mk.injEq, Response.retired.injEq] at ran
  obtain ⟨_, answered⟩ := ran
  rcases called : InMemoryEventStore.locked ⟨shuffled, before.store.poisoned⟩
    (fun inner => inner.retireOne ports) with ⟨written, result⟩
  rw [called] at answered
  rcases locked_cases called with ⟨_, _, rfl⟩ | ⟨_, body, _⟩
  · cases answered
  cases picked : shuffled.pickExpired ports.now with
  | none =>
    rw [Finset.eq_empty_iff_forall_notMem]
    intro id member
    obtain ⟨entry, present, overdue⟩ := Inner.mem_idsWhere.mp member
    rw [← order.index] at present
    rw [pickExpired_none.mp picked id entry present] at overdue
    cases overdue
  | some id =>
    obtain ⟨_, _, stream, job, _, _, _, stored, folded, _⟩ := (sound.consistent.reorder order).expired picked
    rcases retireOne_picked picked stored folded body with ⟨_, _, rfl⟩ | ⟨_, _, rfl⟩ | ⟨_, rfl⟩ <;>
      cases answered

theorem System.Step.retirement {before after : System} {ports : Ports} {id : JobId} (sound : before.Sound)
    (taken : System.Step before (.retireNextExpiredLease ports) (.retired (.ok (some id))) after) :
    ∃ batch next, id ∈ before.store.inner.idsWhere (·.overdue ports.now) ∧
      id ∉ after.store.inner.idsWhere (·.overdue ports.now) ∧ Retires before.store.inner id batch ∧
      Appended before.store.inner after.store.inner id batch next := by
  cases taken.change sound with
  | quiet order refused => cases refused
  | retired indexed live overdue present folded retired effect effects =>
    rename_i entry state stream job next events
    have listed : id ∈ before.store.inner.idsWhere (·.overdue ports.now) :=
      Inner.mem_idsWhere.mpr ⟨entry, indexed, overdue_iff.mpr ⟨state, live, overdue⟩⟩
    have held : job.state.held = some state.lease := by
      obtain ⟨stored, found, again, refolded, mirrors⟩ := sound.consistent.entry indexed
      rw [present] at again
      cases again
      rw [folded] at refolded
      cases refolded
      exact mirrors.held live
    obtain ⟨lease, attempt, decision, owned, _, decided, rfl⟩ := Job.expireLease_ok retired
    rw [held] at owned
    cases owned
    have dropped : id ∉ after.store.inner.idsWhere (·.overdue ports.now) := by
      intro member
      obtain ⟨kept, stays, still⟩ := Inner.mem_idsWhere.mp member
      obtain ⟨again, leased, _⟩ := overdue_iff.mp still
      rw [effects.index_self] at stays
      have lease := (entryOf_held stays leased).1
      rw [Effect.retired_free retired effect] at lease
      cases lease
    refine ⟨_, next, listed, dropped, ⟨entry, state, decision, indexed, live, follow_events .., ?_⟩, effects⟩
    rcases Job.retryDecisionEvent_ok decided with ⟨notBefore, _, _, _, _, _, _, rfl⟩ | ⟨_, rfl⟩
    · exact .inl ⟨attempt, notBefore, rfl⟩
    · exact .inr ⟨_, rfl⟩

omit [BuildProfile] in
theorem Inner.idsWhere_erase {inner after : Inner} {holds : DispatchEntry → Bool} {id : JobId}
    (dropped : id ∉ after.idsWhere holds)
    (others : ∀ other, other ≠ id → after.index.lookup other = inner.index.lookup other) :
    after.idsWhere holds = (inner.idsWhere holds).erase id := by
  ext other
  rw [Finset.mem_erase]
  by_cases same : other = id
  · subst same
    simp [dropped]
  · rw [Inner.mem_idsWhere, Inner.mem_idsWhere, others other same]
    simp [same]

theorem SweptExactly.cons {time : DateTime} {before middle after : System} {id : JobId} {next : Job}
    {batch : List EventEnvelope} (swept : SweptExactly time middle after)
    (listed : id ∈ before.store.inner.idsWhere (·.overdue time))
    (left : middle.store.inner.idsWhere (·.overdue time) =
      (before.store.inner.idsWhere (·.overdue time)).erase id)
    (retires : Retires before.store.inner id batch)
    (effects : Appended before.store.inner middle.store.inner id batch next) :
    SweptExactly time before after where
  none_left := swept.none_left
  retired := by
    intro other member
    by_cases same : other = id
    · subst same
      have kept := (swept.others other (by rw [left]; exact Finset.notMem_erase other _)).1
      refine ⟨batch, ?_, retires⟩
      rw [System.stream, Inner.stream, kept]
      exact effects.stream
    · have remains : other ∈ middle.store.inner.idsWhere (·.overdue time) := by
        rw [left]
        exact Finset.mem_erase_of_ne_of_mem same member
      obtain ⟨later, grown, entry, state, decision, indexed, shape⟩ := swept.retired other remains
      rw [effects.index_other other same] at indexed
      rw [System.stream, System.stream, effects.stream_ne same] at grown
      exact ⟨later, grown, entry, state, decision, indexed, shape⟩
  others := by
    intro other absent
    have different : other ≠ id := by
      rintro rfl
      exact absent listed
    have still : other ∉ middle.store.inner.idsWhere (·.overdue time) := by
      rw [left]
      exact fun member => absent (Finset.mem_of_mem_erase member)
    obtain ⟨stream, entry⟩ := swept.others other still
    exact ⟨stream.trans (effects.stream_other other different), entry.trans (effects.index_other other different)⟩

theorem Sweeps.exact {time : DateTime} {before after : System} {swept count : UInt32} (sound : before.Sound)
    (ran : Sweeps time before swept (.ok count) after) :
    count.toNat = (swept.toNat + (before.store.inner.idsWhere (·.overdue time)).card) % 2 ^ 32 ∧
      SweptExactly time before after := by
  generalize returned : (Outcome.ok count : Outcome SweepError UInt32) = result at ran
  induction ran with
  | done ports clock taken =>
    subst clock
    cases returned
    obtain ⟨order, empty⟩ := taken.nothing_overdue sound
    refine ⟨?_, ⟨?_, ?_, ?_⟩⟩
    · rw [empty, Finset.card_empty, Nat.add_zero, Nat.mod_eq_of_lt count.toNat_lt]
    · rw [Inner.idsWhere_reordered order, empty]
    · rw [empty]
      exact fun id member => absurd member (Finset.notMem_empty id)
    · exact fun id _ => ⟨order.streams id, order.index id⟩
  | more ports clock taken counted rest ih =>
    subst clock
    obtain ⟨batch, next, listed, dropped, retires, effects⟩ := taken.retirement sound
    obtain ⟨number, swept⟩ := ih (sound.step taken) returned
    have left := Inner.idsWhere_erase dropped effects.index_other
    have fewer := Finset.card_erase_add_one listed
    have one := u32Succ_mod counted
    rw [left] at number
    exact ⟨by omega, swept.cons listed left retires effects⟩
  | overflowed ports clock taken full | failed ports clock taken | panicked ports clock taken => cases returned

theorem Sweeps.returns {time : DateTime} {before after : System} {swept : UInt32}
    {result : Outcome SweepError UInt32} (steady : Steady before)
    (room : time.nanos + maxSaneDelay.nanos ≤ maxUtcNanos)
    (few : swept.toNat + (before.store.inner.idsWhere (·.overdue time)).card < 2 ^ 32)
    (ran : Sweeps time before swept result after) : ∃ count, result = .ok count := by
  induction ran with
  | done ports clock taken => exact ⟨_, rfl⟩
  | more ports clock taken counted rest ih =>
    subst clock
    have fewer := steady.retire_fewer room taken
    have one := u32Succ_toNat (by omega) counted
    exact ih (steady.step taken rfl) (by omega)
  | overflowed ports clock taken full =>
    subst clock
    have fewer := steady.retire_fewer room taken
    exact absurd full (u32Succ_of_room (by omega))
  | failed ports clock taken | panicked ports clock taken =>
    subst clock
    rcases steady.retire room taken with ⟨failed, _⟩ | ⟨_, _, _, _, failed, _⟩ <;> cases failed

def CountsOverdue (time : DateTime) (before : System) (result : Outcome SweepError UInt32) (after : System) :
    Prop :=
  ∃ count : UInt32, result = .ok count ∧
    count.toNat = (before.store.inner.idsWhere (·.overdue time)).card ∧ SweptExactly time before after

/-- From any state reached with deadlines in range, a sweep with a turn for each overdue lease and one
    more returns, whatever the iteration orders. It returns their number, and has retired exactly those,
    unless they are more than its counter can hold. -/
theorem sweep_retires_overdue {history : Trace} {system : System} (run : Run System.Step .new history system)
    (fits : ∀ record ∈ history, record.label.representable record.before = true) {time : DateTime}
    (room : time.nanos + maxSaneDelay.nanos ≤ maxUtcNanos) :
    (∀ (ports : Nat → Ports) (fuel : Nat), (∀ k, (ports k).now = time) →
      (system.store.inner.idsWhere (·.overdue time)).card < fuel →
        ∃ result after, SweepExpiredLeases.execute fuel system.store ports = (after, some result) ∧
          (CountsOverdue time system result ⟨after, system.inFlight⟩ ↔
            (system.store.inner.idsWhere (·.overdue time)).card < 2 ^ 32)) ∧
      ∀ result after, Sweeps time system 0 result after →
        (CountsOverdue time system result after ↔
          (system.store.inner.idsWhere (·.overdue time)).card < 2 ^ 32) := by
  have steady : Steady system := ⟨history, run, fits⟩
  have every : ∀ result after, Sweeps time system 0 result after →
      (CountsOverdue time system result after ↔
        (system.store.inner.idsWhere (·.overdue time)).card < 2 ^ 32) := by
    intro result after swept
    constructor
    · rintro ⟨count, _, number, _⟩
      rw [← number]
      exact count.toNat_lt
    · intro few
      obtain ⟨count, rfl⟩ := swept.returns steady room (by rw [UInt32.toNat_zero, Nat.zero_add]; exact few)
      obtain ⟨number, exact⟩ := swept.exact steady.sound
      rw [UInt32.toNat_zero, Nat.zero_add, Nat.mod_eq_of_lt few] at number
      exact ⟨count, rfl, number, exact⟩
  refine ⟨fun ports fuel clock enough => ?_, every⟩
  obtain ⟨after, result, returned⟩ := steady.sweep_returns clock room fuel 0 enough
  exact ⟨result, after, returned, every _ _ (Sweeps.of_loop clock system.inFlight returned)⟩

def overdueActions : List Action :=
  [.leaseNext (Sample.ports 1 4) Sample.queue Sample.worker (.fromSecs 100),
    .leaseNext (Sample.ports 1 3) Sample.queue Sample.worker (.fromSecs 10),
    .enqueue (Sample.ports 0 2) Sample.command, .enqueue (Sample.ports 0 1) Sample.command]

omit [BuildProfile] in
theorem sweep_retires_overdue_one_of_two :
    let _ := BuildProfile.release
    ∃ after, SweepExpiredLeases.execute 2 (Run.replay Action.exec System.new overdueActions).2.store
        (fun k => Sample.ports 20 (5 + k)) = (after, some (.ok 1)) ∧
      after.inner.idsWhere (·.overdue (Sample.instant 20)) = ∅ := by
  intro _
  have one : ((Run.replay Action.exec System.new overdueActions).2.store.inner.idsWhere
      (·.overdue (Sample.instant 20))).card = 1 := by decide
  obtain ⟨result, after, returned, counts⟩ := (@sweep_retires_overdue _ _ _
    (Run.of_replay System.Step.of_exec overdueActions) (by decide) (Sample.instant 20) (by decide)).1
      (fun k => Sample.ports 20 (5 + k)) 2 (fun _ => rfl) (by rw [one]; decide)
  obtain ⟨count, rfl, number, swept⟩ := counts.mpr (by rw [one]; decide)
  rw [one] at number
  obtain rfl : count = 1 := UInt32.toNat_inj.mp number
  exact ⟨after, returned, swept.none_left⟩

def poisonedActions : List Action :=
  [.extendLease (Sample.ports 5 3) ⟨2⟩ (.fromSecs 9000000000000),
    .leaseNext (Sample.ports 1 2) Sample.queue Sample.worker (.fromSecs 10),
    .enqueue (Sample.ports 0 1) Sample.command]

omit [BuildProfile] in
/-- The panic of the heartbeat leaves the mutex poisoned: the sweep fails, and the lease that is
    overdue by then is never retired. -/
theorem oversized_heartbeat_stops_sweeps :
    let _ := BuildProfile.release
    ∃ history system, Run System.Step .new history system ∧
      (system.store.inner.idsWhere (·.overdue (Sample.instant 20))).card = 1 ∧
      (SweepExpiredLeases.execute 2 system.store fun k => Sample.ports 20 (4 + k)).2 =
        some (.err (.dispatch (.store (.backend "store mutex poisoned")))) := by
  intro _
  exact ⟨_, _, Run.of_replay System.Step.of_exec poisonedActions, by decide, by decide⟩

end Koine.Memory
