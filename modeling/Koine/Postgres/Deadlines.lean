import Koine.Memory.Health
import Koine.Postgres.Serial

namespace Koine.Postgres

open Library Domain Application Memory

section Heartbeats

variable {J : Type}

theorem extendLease_alone {world : World J} {ports : Ports} {lease : LeaseId} {ttl : Duration}
    {delta : TimeDelta} {deadline : DateTime} (converted : TimeDelta.fromStd ttl = some delta)
    (added : ports.now.checkedAddSigned delta = some deadline) :
    world.transact (extendLease ports lease ttl) =
      (committed ((Stmt.updateDeadline deadline lease ports.now : Stmt J).alone (world, .begin)).1,
        .ok (decide (0 < (world.tables.dispatch.entries.filter fun entry =>
          entry.2.alive lease (timestamptz ports.now)).length))) := by
  simp only [World.transact, extendLease, converted, DateTime.add, added]
  rfl

theorem extendLease_refused {world : World J} {ports : Ports} {lease : LeaseId} {ttl : Duration}
    (refused : TimeDelta.fromStd ttl = none) :
    world.transact (extendLease ports lease ttl) = (world, .err (.backend "ttl out of range")) := by
  simp only [World.transact, extendLease, refused]
  rfl

/-- What a heartbeat of the in-memory dispatcher comes to: the deadline `now + ttl` on the entry held
    under the lease, or an answer that leaves the store as it was. -/
def MemoryBeat (store : InMemoryEventStore) (ports : Ports) (lease : LeaseId) (ttl : Duration)
    (outcome : InMemoryEventStore × Outcome DispatchError Bool) : Prop :=
  (outcome.2 = .ok true ∧ ∃ id entry state deadline, state.lease = lease ∧
      deadline.nanos = ports.now.nanos + ttl.nanos ∧
      Extended store.inner outcome.1.inner id entry state deadline) ∨
    outcome.1 = store ∧ (outcome.2 = .ok false ∨
      ∃ message, outcome.2 = .err (.backend message) ∨ outcome.2 = .err (.store (.backend message)))

/-- The same for Postgres, where every row that is alive under the lease gets the deadline. -/
def PostgresBeat (world : World J) (ports : Ports) (lease : LeaseId) (ttl : Duration)
    (outcome : World J × Outcome DispatchError Bool) : Prop :=
  outcome.1.tables.events = world.tables.events ∧
    ((outcome.2 = .ok true ∧ ∃ deadline : DateTime, deadline.nanos = ports.now.nanos + ttl.nanos ∧
        ∀ id, outcome.1.tables.dispatch.lookup id = (world.tables.dispatch.lookup id).map fun row =>
          if row.alive lease (timestamptz ports.now) then { row with leaseExpiresAt := some deadline } else row) ∨
      (∀ id, outcome.1.tables.dispatch.lookup id = world.tables.dispatch.lookup id) ∧
        (outcome.2 = .ok false ∨ ∃ message, outcome.2 = .err (.backend message)))

def KeepsDeadline (world : World J) (now : DateTime) (lease : LeaseId) (ttl : Duration) : Prop :=
  ∀ id row deadline, world.tables.dispatch.lookup id = some row → row.alive lease (timestamptz now) = true →
    deadline.nanos = now.nanos + ttl.nanos → timestamptz deadline = deadline

theorem representable_iff {now : DateTime} {ttl : Duration} :
    representable now ttl = true ↔
      TimeDelta.fromStd ttl = none ∨
        ∃ delta deadline, TimeDelta.fromStd ttl = some delta ∧ now.checkedAddSigned delta = some deadline ∧
          deadline.nanos = now.nanos + ttl.nanos := by
  cases converted : TimeDelta.fromStd ttl with
  | none => simp [representable, converted]
  | some delta =>
    simp only [representable, converted, Option.isSome_iff_exists, reduceCtorEq, false_or]
    constructor
    · rintro ⟨deadline, added⟩
      exact ⟨delta, deadline, rfl, added, DateTime.deadline_nanos converted added⟩
    · rintro ⟨_, deadline, ⟨⟩, added, _⟩
      exact ⟨deadline, added⟩

theorem not_representable {now : DateTime} {ttl : Duration} (unfit : representable now ttl ≠ true) :
    ∃ delta, TimeDelta.fromStd ttl = some delta ∧ now.checkedAddSigned delta = none := by
  unfold representable at unfit
  split at unfit
  · exact absurd rfl unfit
  · rename_i delta converted
    exact ⟨delta, converted, by simpa using unfit⟩

theorem memory_beats {store : InMemoryEventStore} {ports : Ports} {lease : LeaseId} {ttl : Duration}
    (fits : store.poisoned = true ∨ representable ports.now ttl = true) :
    MemoryBeat store ports lease ttl (store.extendLease ports lease ttl) := by
  rw [extendLease_eq]
  rcases ran : store.locked fun inner => inner.extendLease ports lease ttl with ⟨⟨inner, poisoned⟩, outcome⟩
  rcases locked_cases ran with ⟨_, same, failed⟩ | ⟨healthy, body, unwound⟩
  · subst same failed
    exact .inr ⟨rfl, .inr ⟨_, .inr rfl⟩⟩
  · have fits : representable ports.now ttl = true := by
      refine fits.resolve_left fun poisoned => ?_
      rw [healthy] at poisoned
      cases poisoned
    have calm : outcome ≠ .panic := by
      have answered : (store.inner.extendLease ports lease ttl).2 ≠ .panic := extendLease_calm fits
      rwa [body] at answered
    have same : store = ⟨store.inner, poisoned⟩ := by
      have clean : poisoned = false := by simpa [calm] using unwound
      rw [clean, ← healthy]
    cases converted : TimeDelta.fromStd ttl with
    | none =>
      simp only [Inner.extendLease, converted] at body
      cases body
      exact .inr ⟨same.symm, .inr ⟨_, .inl rfl⟩⟩
    | some delta =>
      obtain ⟨deadline, added⟩ := Option.ne_none_iff_exists'.mp (representable_some fits converted)
      simp only [Inner.extendLease, converted, added] at body
      split at body
      · cases body
        exact .inr ⟨same.symm, .inl rfl⟩
      · rename_i id entry state found
        obtain ⟨present, held, named⟩ := findLease_some found
        split at body
        · cases body
          exact .inr ⟨same.symm, .inl rfl⟩
        · cases body
          exact .inl ⟨rfl, id, entry, state, deadline, named, DateTime.deadline_nanos converted added,
            .of_insert deadline present held⟩

/-- The in-memory heartbeat adds before it looks for the lease, so only a store that is poisoned already is spared
    the panic. -/
theorem memory_beats_iff {store : InMemoryEventStore} {ports : Ports} {lease : LeaseId} {ttl : Duration} :
    MemoryBeat store ports lease ttl (store.extendLease ports lease ttl) ↔
      store.poisoned = true ∨ representable ports.now ttl = true := by
  refine ⟨fun beat => ?_, memory_beats⟩
  by_contra unfit
  rw [not_or, Bool.not_eq_true] at unfit
  obtain ⟨delta, converted, overflow⟩ := not_representable unfit.2
  have unwound : (store.extendLease ports lease ttl).2 = .panic := by
    rw [extendLease_eq]
    simp only [InMemoryEventStore.locked, unfit.1, Inner.extendLease, converted, overflow]
    rfl
  rw [MemoryBeat, unwound] at beat
  simp at beat

theorem postgres_beats {world : World J} {ports : Ports} {lease : LeaseId} {ttl : Duration}
    (fits : representable ports.now ttl = true) (kept : KeepsDeadline world ports.now lease ttl) :
    PostgresBeat world ports lease ttl (world.transact (extendLease ports lease ttl)) := by
  rcases representable_iff.mp fits with refused | ⟨delta, deadline, converted, added, exactly⟩
  · rw [extendLease_refused refused]
    exact ⟨rfl, .inr ⟨fun _ => rfl, .inr ⟨_, rfl⟩⟩⟩
  · rw [extendLease_alone converted added]
    have lookup := updateDeadline_lookup world deadline lease ports.now
    refine ⟨updateDeadline_events world deadline lease ports.now, ?_⟩
    cases alive : world.tables.dispatch.entries.filter fun entry => entry.2.alive lease (timestamptz ports.now) with
    | cons entry rest =>
      refine .inl ⟨rfl, deadline, exactly, fun id => ?_⟩
      rw [lookup]
      refine Option.map_congr fun row present => ?_
      rw [DispatchRow.beaten]
      split
      · rename_i living
        rw [kept id row deadline present living exactly]
      · rfl
    | nil =>
      refine .inr ⟨fun id => ?_, .inl rfl⟩
      rw [lookup]
      cases present : world.tables.dispatch.lookup id with
      | none => rfl
      | some row =>
        have still := List.filter_eq_nil_iff.mp alive ⟨id, row⟩ (AList.mem_lookup_iff.mp present)
        rw [Option.map_some, DispatchRow.beaten, if_neg still]

theorem postgres_beats_iff {world : World J} {ports : Ports} {lease : LeaseId} {ttl : Duration} :
    PostgresBeat world ports lease ttl (world.transact (extendLease ports lease ttl)) ↔
      representable ports.now ttl = true ∧ KeepsDeadline world ports.now lease ttl := by
  refine ⟨?_, fun ⟨fits, kept⟩ => postgres_beats fits kept⟩
  rintro ⟨_, beat⟩
  have fits : representable ports.now ttl = true := by
    by_contra unfit
    obtain ⟨delta, converted, overflow⟩ := not_representable unfit
    have unwound : (world.transact (extendLease ports lease ttl)).2 = .panic := by
      simp only [World.transact, extendLease, converted, DateTime.add, overflow]
      rfl
    rw [unwound] at beat
    simp at beat
  refine ⟨fits, fun id row deadline present living exactly => ?_⟩
  rcases representable_iff.mp fits with refused | ⟨delta, added, converted, sum, same⟩
  · -- a TTL that does not convert is too long for any deadline
    obtain ⟨delta, _, converted, _⟩ := DateTime.addable (exactly ▸ deadline.upper)
    rw [refused] at converted
    cases converted
  · have here : added = deadline := DateTime.nanos_injective (same.trans exactly.symm)
    subst here
    have listed : (⟨id, row⟩ : Σ _ : JobId, DispatchRow) ∈ world.tables.dispatch.entries.filter fun entry =>
        entry.2.alive lease (timestamptz ports.now) :=
      List.mem_filter.mpr ⟨AList.mem_lookup_iff.mp present, living⟩
    have taken : 0 < (world.tables.dispatch.entries.filter fun entry =>
        entry.2.alive lease (timestamptz ports.now)).length := List.length_pos_of_mem listed
    rw [extendLease_alone converted sum, decide_eq_true taken] at beat
    rcases beat with ⟨_, deadline, other, lookup⟩ | ⟨_, failed⟩
    · have moved := lookup id
      rw [updateDeadline_lookup, present, Option.map_some, Option.map_some, DispatchRow.beaten, if_pos living,
        if_pos living, Option.some.injEq, DispatchRow.mk.injEq] at moved
      have one : deadline = added := DateTime.nanos_injective (other.trans exactly.symm)
      simpa [one] using moved
    · simp at failed

end Heartbeats

section Claims

variable {J : Type} [Serde J] [BuildProfile]

/-- A grant makes the deadline `now + ttl` to the nanosecond, or a typed error, exactly where `now + ttl` can be
    represented or the TTL is refused before it is added; so does a heartbeat in memory, unless the store is poisoned
    already, and one in Postgres where besides the column keeps the deadline of a row that it moves. -/
theorem deadline_arithmetic_exact (now : DateTime) (ttl : Duration) :
    (∀ (job : Job) (worker : WorkerId) (lease : LeaseId) (notBefore : Option DateTime),
      job.state = .pending notBefore → notBefore.all (· ≤ now) = true →
        ((job.lease worker lease now ttl = .err .invalidTtl ∨
          ∃ deadline : DateTime, deadline.nanos = now.nanos + ttl.nanos ∧
            job.lease worker lease now ttl = .ok (.leased worker lease deadline)) ↔ representable now ttl = true)) ∧
      ∀ (ports : Ports) (lease : LeaseId), ports.now = now →
        (∀ store, MemoryBeat store ports lease ttl (Dispatcher.extendLease store ports lease ttl) ↔
          store.poisoned = true ∨ representable now ttl = true) ∧
        ∀ world : World J, PostgresBeat world ports lease ttl (Dispatcher.extendLease world ports lease ttl) ↔
          representable now ttl = true ∧ KeepsDeadline world now lease ttl := by
  constructor
  · intro job worker lease notBefore state due
    constructor
    · intro granted
      by_contra unfit
      obtain ⟨delta, converted, overflow⟩ := not_representable unfit
      simp [Job.lease, state, due, converted, DateTime.add, overflow] at granted
    · intro fits
      rcases representable_iff.mp fits with refused | ⟨delta, deadline, converted, added, exactly⟩
      · left
        simp only [Job.lease, state, due, if_true, refused]
      · right
        refine ⟨deadline, exactly, ?_⟩
        simp only [Job.lease, state, due, if_true, converted, DateTime.add, added]
        rfl
  · rintro ports lease rfl
    exact ⟨fun store => memory_beats_iff, fun world => postgres_beats_iff⟩

def leasedWorld : World TypedJson :=
  let _ := BuildProfile.release
  (Run.replay Operation.exec .empty
    [.leaseNext (Sample.ports 1 3) Sample.queue Sample.worker (.fromSecs 10),
      .append ⟨1⟩ 0 (Sample.command.envelopes (Sample.ports 0 1))]).2

omit [Serde J] [BuildProfile] in
theorem deadline_arithmetic_exact_heartbeat :
    let _ := BuildProfile.release
    (Dispatcher.extendLease leasedWorld (Sample.ports 5 4) ⟨3⟩ (.fromSecs 100)).2 = .ok true ∧
      PostgresBeat leasedWorld (Sample.ports 5 4) ⟨3⟩ (.fromSecs 100)
        (Dispatcher.extendLease leasedWorld (Sample.ports 5 4) ⟨3⟩ (.fromSecs 100)) := by
  intro _
  refine ⟨by decide +kernel, ?_⟩
  refine (((deadline_arithmetic_exact (Sample.instant 5) (.fromSecs 100)).2 (Sample.ports 5 4) ⟨3⟩ rfl).2
    leasedWorld).mpr ⟨by decide, fun id row deadline _ _ exactly => ?_⟩
  have here : deadline = Sample.instant 105 := DateTime.nanos_injective exactly
  rw [here]
  decide

omit [Serde J] [BuildProfile] in
/-- A TTL of 9000000000000 s passes `TimeDelta::from_std`, but no `DateTime` is that far from the first
    second: the claim and both heartbeats panic, and the in-memory store stays poisoned. -/
theorem oversized_ttl_panics :
    let _ := BuildProfile.release
    (TimeDelta.fromStd (.fromSecs 9000000000000)).isSome = true ∧
      (∃ job : Job, job.state = .pending none ∧
        job.lease Sample.worker ⟨1⟩ (Sample.instant 1) (.fromSecs 9000000000000) = .panic) ∧
      (Dispatcher.extendLease InMemoryEventStore.new (Sample.ports 1 1) ⟨1⟩ (.fromSecs 9000000000000)).2 = .panic ∧
      (Dispatcher.extendLease InMemoryEventStore.new (Sample.ports 1 1) ⟨1⟩
        (.fromSecs 9000000000000)).1.poisoned = true ∧
      (Dispatcher.extendLease (World.empty : World TypedJson) (Sample.ports 1 1) ⟨1⟩
        (.fromSecs 9000000000000)).2 = .panic := by
  intro _
  exact ⟨by decide, ⟨Job.opened ⟨1⟩ Sample.queue .null ⟨0⟩ Sample.command.retryPolicy none, rfl, rfl⟩,
    by decide⟩

end Claims

end Koine.Postgres
