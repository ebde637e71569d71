import Koine.Memory.Heartbeat
import Koine.Memory.Health

namespace Koine.Memory

open Library Domain Application

def unversioned (job : Job) : Job := { job with version := 0 }

def unnumbered (entry : DispatchEntry) : DispatchEntry := { entry with seq := 0 }

/-- One call of a use case or of the dispatcher, with no step of another in between. -/
inductive Task where
  | enqueue (ports : Ports) (cmd : EnqueueCommand)
  | leaseNext (ports : Ports) (queue : QueueName) (worker : WorkerId) (ttl : Duration)
  | extendLease (ports : Ports) (lease : LeaseId) (ttl : Duration)
  | retireNextExpiredLease (ports : Ports)
  | call (request : Call) (ports : Ports) (jobId : JobId)

theorem unversioned_eq {left right : Job} (same : unversioned left = unversioned right) :
    right = { left with version := right.version } := by
  obtain ⟨id, queue, priority, payload, retryPolicy, attempt, state, version⟩ := left
  obtain ⟨id, queue, priority, payload, retryPolicy, attempt, state, version⟩ := right
  simp only [unversioned, Job.mk.injEq, and_true] at same
  simp only [same]

/-- What the head of a stream hands on to every claim of the job. -/
def Inner.origin (inner : Inner) (id : JobId) : Option (CorrelationId × Option String) :=
  (inner.stream id).head?.map fun envelope => (envelope.correlationId, envelope.traceparent)

def Inner.listing (inner : Inner) : List (JobId × DispatchEntry) :=
  inner.index.entries.map fun entry => (entry.1, unnumbered entry.2)

section Stores

variable [BuildProfile]

def Task.exec (task : Task) (store : InMemoryEventStore) : InMemoryEventStore × Response :=
  match task with
  | .enqueue ports cmd =>
    let (store, result) := EnqueueJob.execute store ports cmd
    (store, .enqueued result)
  | .leaseNext ports queue worker ttl =>
    let (store, result) := store.leaseNext ports queue worker ttl
    (store, .leased result)
  | .extendLease ports lease ttl =>
    let (store, result) := store.extendLease ports lease ttl
    (store, .extended result)
  | .retireNextExpiredLease ports =>
    let (store, result) := store.retireNextExpiredLease ports
    (store, .retired result)
  | .call request ports jobId =>
    let (store, result) := request.execute store ports jobId
    (store, .answered result)

def TaskStep (before : InMemoryEventStore) (task : Task) (response : Response)
    (after : InMemoryEventStore) : Prop :=
  ∃ shuffled, before.inner.Reordered shuffled ∧
    task.exec (⟨shuffled, before.poisoned⟩ : InMemoryEventStore) = (after, response)

/-- One task on two stores whose indexes are iterated in the same order. -/
def PairStep (before : InMemoryEventStore × InMemoryEventStore) (task : Task) (response : Response × Response)
    (after : InMemoryEventStore × InMemoryEventStore) : Prop :=
  ∃ left right, before.1.inner.Reordered left ∧ before.2.inner.Reordered right ∧
    left.index.keys = right.index.keys ∧
    task.exec (⟨left, before.1.poisoned⟩ : InMemoryEventStore) = (after.1, response.1) ∧
    task.exec (⟨right, before.2.poisoned⟩ : InMemoryEventStore) = (after.2, response.2)

def Inner.folded (inner : Inner) (id : JobId) : Option Job :=
  match Job.fromEvents (inner.stream id) with
  | .ok job => some (unversioned job)
  | _ => none

/-- The same jobs and the same index, apart from versions and sequence numbers; these are in the same
    order. -/
structure Agree (left right : Inner) : Prop where
  folds : ∀ id, left.folded id = right.folded id
  entries : ∀ id, (left.index.lookup id).map unnumbered = (right.index.lookup id).map unnumbered
  order : ∀ id other first second third fourth, left.index.lookup id = some first →
    left.index.lookup other = some second → right.index.lookup id = some third →
    right.index.lookup other = some fourth → (first.seq < second.seq ↔ third.seq < fourth.seq)

structure Alike (left right : Inner) : Prop extends Agree left right where
  origins : ∀ id, left.origin id = right.origin id
  left : left.Consistent
  right : right.Consistent

omit [BuildProfile] in
theorem Inner.Reordered.origin {inner shuffled : Inner} (order : inner.Reordered shuffled) (id : JobId) :
    shuffled.origin id = inner.origin id := by
  rw [Inner.origin, order.stream, Inner.origin]

theorem Inner.Reordered.folded {inner shuffled : Inner} (order : inner.Reordered shuffled) (id : JobId) :
    shuffled.folded id = inner.folded id := by
  rw [Inner.folded, order.stream, Inner.folded]

theorem Agree.reordered {left right first second : Inner} (agree : Agree left right)
    (orderLeft : left.Reordered first) (orderRight : right.Reordered second) : Agree first second := by
  refine ⟨?_, ?_, ?_⟩
  · simpa only [orderLeft.folded, orderRight.folded] using agree.folds
  · simpa only [orderLeft.index, orderRight.index] using agree.entries
  · simpa only [orderLeft.index, orderRight.index] using agree.order

theorem Alike.reordered {left right first second : Inner} (alike : Alike left right)
    (orderLeft : left.Reordered first) (orderRight : right.Reordered second) : Alike first second := by
  refine ⟨alike.toAgree.reordered orderLeft orderRight, ?_, alike.left.reorder orderLeft,
    alike.right.reorder orderRight⟩
  simpa only [orderLeft.origin, orderRight.origin] using alike.origins

theorem Alike.symm {left right : Inner} (alike : Alike left right) : Alike right left where
  folds id := (alike.folds id).symm
  entries id := (alike.entries id).symm
  order id other first second third fourth found rival equal facing :=
    (alike.order id other third fourth first second equal facing found rival).symm
  origins id := (alike.origins id).symm
  left := alike.right
  right := alike.left

theorem Alike.entry {left right : Inner} (alike : Alike left right) {id : JobId} {entry : DispatchEntry}
    (present : left.index.lookup id = some entry) :
    ∃ other, right.index.lookup id = some other ∧ unnumbered entry = unnumbered other := by
  have same := alike.entries id
  rw [present, Option.map_some] at same
  obtain ⟨other, found, equal⟩ := Option.map_eq_some_iff.mp same.symm
  exact ⟨other, found, equal.symm⟩

omit [BuildProfile] in
theorem lineageOf_origin {inner : Inner} {id : JobId} {stream : List EventEnvelope}
    {first : CorrelationId × Option String}
    (stored : inner.streams.lookup id = some stream) (origin : inner.origin id = some first) :
    (lineageOf stream).1 = first.1 ∧ (lineageOf stream).2.2 = first.2 := by
  rw [Inner.origin, Inner.stream_of_lookup stored, Option.map_eq_some_iff] at origin
  obtain ⟨envelope, head, rfl⟩ := origin
  simp [lineageOf, head]

theorem Alike.stream {left right : Inner} (alike : Alike left right) {id : JobId}
    {stream : List EventEnvelope} {job : Job} (stored : left.streams.lookup id = some stream)
    (folded : Job.fromEvents stream = .ok job) :
    ∃ other version, right.streams.lookup id = some other ∧
      Job.fromEvents other = .ok { job with version } ∧
      (lineageOf other).1 = (lineageOf stream).1 ∧ (lineageOf other).2.2 = (lineageOf stream).2.2 := by
  have same := alike.folds id
  rw [Inner.folded, Inner.stream_of_lookup stored, folded] at same
  simp only [Inner.folded] at same
  split at same
  · rename_i twin refolded
    have shape := unversioned_eq (Option.some.inj same)
    have present : right.streams.lookup id = some (right.stream id) := by
      rw [alike.right.lookup_of_stream, if_neg (Job.fromEvents_ne_nil refolded)]
    refine ⟨right.stream id, twin.version, present, ?_, ?_⟩
    · rw [refolded]
      exact congrArg _ shape
    · obtain ⟨envelope, head⟩ : ∃ envelope, (left.stream id).head? = some envelope := by
        rw [Inner.stream_of_lookup stored]
        exact ⟨_, List.head?_eq_some_head (Job.fromEvents_ne_nil folded)⟩
      have origin : left.origin id = some (envelope.correlationId, envelope.traceparent) := by
        rw [Inner.origin, head]
        rfl
      obtain ⟨correlation, trace⟩ := lineageOf_origin stored origin
      rw [alike.origins] at origin
      obtain ⟨correlationRight, traceRight⟩ := lineageOf_origin present origin
      exact ⟨by rw [correlation, correlationRight], by rw [trace, traceRight]⟩
  · cases same

theorem Alike.missing {left right : Inner} (alike : Alike left right) {id : JobId}
    (missing : left.streams.lookup id = none) : right.streams.lookup id = none := by
  by_contra found
  obtain ⟨stream, stored⟩ := Option.ne_none_iff_exists'.mp found
  obtain ⟨job, folded, _⟩ := alike.right.folds id stream stored
  obtain ⟨other, _, present, _⟩ := alike.symm.stream stored folded
  rw [missing] at present
  cases present

theorem Effect.reversion {job next : Job} {events : List JobEvent} (effect : Job.Effect job events next)
    (version : Nat) : ∃ other, Job.Effect { job with version } events other ∧
      unversioned next = unversioned other := by
  cases effect with
  | leased worker lease expiresAt state => exact ⟨_, .leased worker lease expiresAt state, rfl⟩
  | started state => exact ⟨_, .started state, rfl⟩
  | succeeded result state => exact ⟨_, .succeeded result state, rfl⟩
  | failedRetry error attempt notBefore state succ below =>
    exact ⟨_, .failedRetry error attempt notBefore state succ below, rfl⟩
  | failedParked error attempt reason state succ cause =>
    exact ⟨_, .failedParked error attempt reason state succ cause, rfl⟩
  | expiredRetry attempt notBefore held succ below =>
    exact ⟨_, .expiredRetry attempt notBefore held succ below, rfl⟩
  | expiredParked attempt held succ spent => exact ⟨_, .expiredParked attempt held succ spent, rfl⟩
  | cancelled reason live => exact ⟨_, .cancelled reason live, rfl⟩
  | lateAck worker lease reported => exact ⟨_, .lateAck worker lease reported, rfl⟩

omit [BuildProfile] in
theorem entryOf_unversioned (job : Job) (seq : Nat) :
    (entryOf job seq).map unnumbered = entryOf (unversioned job) 0 := by
  cases shape : job.state <;> simp [entryOf, unversioned, shape, unnumbered]

theorem Appended.numbered {inner after : Inner} {id : JobId} {batch : List EventEnvelope} {job : Job}
    {entry : DispatchEntry} (consistent : inner.Consistent) (effects : Appended inner after id batch job)
    (present : after.index.lookup id = some entry) :
    (∃ old, inner.index.lookup id = some old ∧ old.seq = entry.seq) ∨
      inner.index.lookup id = none ∧
        ∀ other rival, other ≠ id → after.index.lookup other = some rival → rival.seq < entry.seq := by
  rw [effects.index_self] at present
  rw [entryOf_seq present, Inner.seqFor]
  cases before : inner.index.lookup id with
  | some old => exact .inl ⟨old, rfl, rfl⟩
  | none =>
    refine .inr ⟨rfl, ?_⟩
    intro other rival different found
    rw [effects.index_other other different] at found
    have bound := consistent.seq_le other rival found
    simp only
    omega

theorem Alike.appended {left right leftAfter rightAfter : Inner} {id : JobId}
    {leftBatch rightBatch : List EventEnvelope} {leftJob rightJob : Job} (alike : Alike left right)
    (effects : Appended left leftAfter id leftBatch leftJob)
    (mirrored : Appended right rightAfter id rightBatch rightJob)
    (same : unversioned leftJob = unversioned rightJob)
    (origin : leftAfter.origin id = rightAfter.origin id) : Alike leftAfter rightAfter := by
  -- the projected job against another one
  have rank {other : JobId} {first second third fourth : DispatchEntry} (different : other ≠ id)
      (found : leftAfter.index.lookup id = some first) (rival : leftAfter.index.lookup other = some second)
      (facing : rightAfter.index.lookup id = some third)
      (opposed : rightAfter.index.lookup other = some fourth) :
      (first.seq < second.seq ↔ third.seq < fourth.seq) ∧ (second.seq < first.seq ↔ fourth.seq < third.seq) := by
    have rivalBefore := rival
    have opposedBefore := opposed
    rw [effects.index_other other different] at rivalBefore
    rw [mirrored.index_other other different] at opposedBefore
    rcases effects.numbered alike.left found with ⟨old, before, kept⟩ | ⟨before, above⟩
    · obtain ⟨twin, beside, _⟩ := alike.entry before
      rcases mirrored.numbered alike.right facing with ⟨again, present, stays⟩ | ⟨absent, _⟩
      · rw [present] at beside
        cases beside
        rw [← kept, ← stays]
        exact ⟨alike.order id other old second twin fourth before rivalBefore present opposedBefore,
          alike.order other id second old fourth twin rivalBefore before opposedBefore present⟩
      · rw [absent] at beside
        cases beside
    · rcases mirrored.numbered alike.right facing with ⟨again, present, _⟩ | ⟨_, beyond⟩
      · obtain ⟨twin, beside, _⟩ := alike.symm.entry present
        rw [before] at beside
        cases beside
      · have less := above other second different rival
        have lower := beyond other fourth different opposed
        omega
  refine ⟨⟨?_, ?_, ?_⟩, ?_, alike.left.appended effects, alike.right.appended mirrored⟩
  · intro other
    by_cases target : other = id
    · subst target
      rw [Inner.folded, Inner.folded, effects.stream, mirrored.stream, effects.folded, mirrored.folded]
      exact congrArg some same
    · rw [Inner.folded, effects.stream_ne target, Inner.folded, mirrored.stream_ne target]
      exact alike.folds other
  · intro other
    by_cases target : other = id
    · subst target
      rw [effects.index_self, mirrored.index_self, entryOf_unversioned, entryOf_unversioned, same]
    · rw [effects.index_other other target, mirrored.index_other other target]
      exact alike.entries other
  · intro one other first second third fourth found rival facing opposed
    by_cases target : one = id
    · subst target
      by_cases both : other = one
      · subst both
        rw [found] at rival
        cases rival
        rw [facing] at opposed
        cases opposed
        simp only [lt_irrefl]
      · exact (rank both found rival facing opposed).1
    · by_cases equal : other = id
      · subst equal
        exact (rank target rival found opposed facing).2
      · rw [effects.index_other one target] at found
        rw [effects.index_other other equal] at rival
        rw [mirrored.index_other one target] at facing
        rw [mirrored.index_other other equal] at opposed
        exact alike.order one other first second third fourth found rival facing opposed
  · intro other
    by_cases target : other = id
    · subst target
      exact origin
    · rw [Inner.origin, effects.stream_ne target, Inner.origin, mirrored.stream_ne target]
      exact alike.origins other

theorem Appended.origin {inner after : Inner} {id : JobId} {stream batch : List EventEnvelope} {job : Job}
    (effects : Appended inner after id batch job) (stored : inner.streams.lookup id = some stream)
    (some : stream ≠ []) : after.origin id = inner.origin id := by
  rw [Inner.origin, effects.stream, Inner.origin, Inner.stream_of_lookup stored,
    List.head?_append_of_ne_nil _ some]

theorem Alike.follow {left right : Inner} {id : JobId} {stream other : List EventEnvelope} {job next : Job}
    {version : Nat} {events : List JobEvent} (ports : Ports) (alike : Alike left right)
    (stored : left.streams.lookup id = some stream) (folded : Job.fromEvents stream = .ok job)
    (present : right.streams.lookup id = some other)
    (refolded : Job.fromEvents other = .ok { job with version }) (effect : Job.Effect job events next) :
    ∃ leftAfter rightAfter,
      left.appendLocked id job.version (Memory.follow ports id stream events) = (leftAfter, .ok ()) ∧
      right.appendLocked id version (Memory.follow ports id other events) = (rightAfter, .ok ()) ∧
      Alike leftAfter rightAfter := by
  obtain ⟨twin, mirrored, same⟩ := Effect.reversion effect version
  obtain ⟨leftAfter, appended, effects⟩ := appendLocked_follow ports stored folded effect.applies
  obtain ⟨rightAfter, accepted, counterpart⟩ := appendLocked_follow ports present refolded mirrored.applies
  refine ⟨leftAfter, rightAfter, appended, accepted, alike.appended effects counterpart same ?_⟩
  rw [effects.origin stored (Job.fromEvents_ne_nil folded),
    counterpart.origin present (Job.fromEvents_ne_nil refolded)]
  exact alike.origins id

omit [BuildProfile] in
theorem eligible_unnumbered (entry : DispatchEntry) (queue : QueueName) (now : DateTime) :
    (unnumbered entry).eligible queue now = entry.eligible queue now := rfl

theorem Alike.keyLe {left right : Inner} (alike : Alike left right) {id other : JobId}
    {first second third fourth : DispatchEntry} (found : left.index.lookup id = some first)
    (rival : left.index.lookup other = some second) (facing : right.index.lookup id = some third)
    (opposed : right.index.lookup other = some fourth) (less : first.keyLe second = true) :
    third.keyLe fourth = true := by
  have priority {one : JobId} {entry twin : DispatchEntry} (here : left.index.lookup one = some entry)
      (there : right.index.lookup one = some twin) : entry.priority = twin.priority := by
    obtain ⟨again, present, same⟩ := alike.entry here
    rw [there] at present
    cases present
    have equal : (unnumbered entry).priority = (unnumbered twin).priority := by rw [same]
    exact equal
  have order := alike.order id other first second third fourth found rival facing opposed
  rw [keyLe_iff] at less ⊢
  rw [← priority found facing, ← priority rival opposed]
  omega

theorem Alike.pickEligible {left right : Inner} (alike : Alike left right) (queue : QueueName)
    (now : DateTime) : left.pickEligible queue now = right.pickEligible queue now := by
  have across {one two : Inner} (same : Alike one two) {id : JobId} {entry : DispatchEntry}
      (present : one.index.lookup id = some entry) (eligible : entry.eligible queue now = true) :
      ∃ twin, two.index.lookup id = some twin ∧ twin.eligible queue now = true := by
    obtain ⟨twin, found, equal⟩ := same.entry present
    exact ⟨twin, found, by rw [← eligible_unnumbered, ← equal]; exact eligible⟩
  cases picked : left.pickEligible queue now with
  | none =>
    symm
    rw [pickEligible_none] at picked ⊢
    intro id entry present
    by_contra eligible
    obtain ⟨twin, found, free⟩ := across alike.symm present (by simpa using eligible)
    rw [picked id twin found] at free
    cases free
  | some id =>
    obtain ⟨entry, present, eligible, greatest⟩ := pickEligible_some picked
    obtain ⟨twin, found, free⟩ := across alike present eligible
    cases chosen : right.pickEligible queue now with
    | none =>
      rw [pickEligible_none.mp chosen id twin found] at free
      cases free
    | some other =>
      obtain ⟨rival, facing, waiting, best⟩ := pickEligible_some chosen
      obtain ⟨counterpart, there, due⟩ := across alike.symm facing waiting
      have below := best id twin found free
      have above := alike.keyLe there present facing found (greatest other counterpart there due)
      rw [keyLe_iff] at below above
      rw [alike.right.seq_injective id other twin rival found facing (by omega)]

omit [BuildProfile] in
theorem Inner.listing_eq (inner : Inner) :
    inner.listing = inner.index.keys.filterMap fun id =>
      (inner.index.lookup id).map fun entry => (id, unnumbered entry) := by
  have here : ∀ entry ∈ inner.index.entries,
      (inner.index.lookup entry.1).map (fun found => (entry.1, unnumbered found)) =
        some (entry.1, unnumbered entry.2) := by
    intro entry member
    rw [mem_entries.mp member]
    rfl
  rw [Inner.listing, AList.keys, List.keys, List.filterMap_map, ← List.filterMap_eq_map]
  exact (List.filterMap_congr fun entry member => here entry member).symm

theorem Alike.listing {left right : Inner} (alike : Alike left right)
    (keys : left.index.keys = right.index.keys) : left.listing = right.listing := by
  rw [Inner.listing_eq, Inner.listing_eq, keys]
  refine List.filterMap_congr fun id _ => ?_
  have same := congrArg (Option.map fun entry => (id, entry)) (alike.entries id)
  rw [Option.map_map, Option.map_map] at same
  exact same

omit [BuildProfile] in
theorem pickExpired_listing (inner : Inner) (now : DateTime) :
    inner.pickExpired now = ((inner.listing.filter fun entry => entry.2.overdue now).map (·.1)).min? := by
  rw [Inner.pickExpired, Inner.listing, List.filter_map, List.map_map]
  rfl

omit [BuildProfile] in
theorem findLease_listing (inner : Inner) (lease : LeaseId) :
    (inner.findLease lease).map (fun found => (found.1, unnumbered found.2.1, found.2.2)) =
      inner.listing.findSome? fun entry =>
        match entry.2.lease with
        | some state => if state.lease = lease then some (entry.1, entry.2, state) else none
        | none => none := by
  rw [Inner.findLease, Inner.listing, List.findSome?_map, List.map_findSome?]
  congr 1
  funext entry
  cases held : entry.2.lease with
  | none => simp [held, unnumbered]
  | some state =>
    by_cases same : state.lease = lease
    · simp [held, unnumbered, same]
    · simp [held, unnumbered, same]

structure Indistinct (left right : InMemoryEventStore) : Prop where
  inner : Alike left.inner right.inner
  poisoned : left.poisoned = right.poisoned

theorem Indistinct.locked {α : Type} {left right : InMemoryEventStore}
    (indistinct : Indistinct left right) (body mirror : Inner → Inner × Outcome EventStoreError α)
    (runs : (body left.inner).2 = (mirror right.inner).2 ∧
      Alike (body left.inner).1 (mirror right.inner).1) :
    (left.locked body).2 = (right.locked mirror).2 ∧
      Indistinct (left.locked body).1 (right.locked mirror).1 := by
  obtain ⟨result, alike⟩ := runs
  unfold InMemoryEventStore.locked
  rw [← indistinct.poisoned]
  split
  · exact ⟨rfl, indistinct⟩
  · rcases first : body left.inner with ⟨leftAfter, outcome⟩
    rcases second : mirror right.inner with ⟨rightAfter, twin⟩
    rw [first, second] at result alike
    simp only at result alike
    subst result
    cases outcome <;> exact ⟨rfl, alike, rfl⟩

theorem Alike.claim {left right : Inner} (alike : Alike left right) (ports : Ports) (queue : QueueName)
    (worker : WorkerId) (ttl : Duration) :
    (left.claim ports queue worker ttl).2 = (right.claim ports queue worker ttl).2 ∧
      Alike (left.claim ports queue worker ttl).1 (right.claim ports queue worker ttl).1 := by
  have pick := alike.pickEligible queue ports.now
  cases picked : left.pickEligible queue ports.now with
  | none =>
    rw [picked] at pick
    simp only [Inner.claim, picked, ← pick]
    exact ⟨trivial, alike⟩
  | some id =>
    rw [picked] at pick
    obtain ⟨_, stream, job, _, _, stored, folded, _⟩ := alike.left.picked picked
    obtain ⟨other, version, present, refolded, correlation, trace⟩ := alike.stream stored folded
    have granting : Job.lease { job with version } worker ports.leaseId ports.now ttl =
        job.lease worker ports.leaseId ports.now ttl := rfl
    cases granted : job.lease worker ports.leaseId ports.now ttl with
    | ok event =>
      obtain ⟨_, _, expiresAt, pending, _, _, _, rfl⟩ := Job.lease_ok granted
      obtain ⟨leftAfter, appended, claimed⟩ := claim_granted picked stored folded granted
      obtain ⟨rightAfter, accepted, taken⟩ := claim_granted pick.symm present refolded (granting.trans granted)
      obtain ⟨_, _, again, twice, after⟩ :=
        alike.follow ports stored folded present refolded (.leased worker ports.leaseId expiresAt pending)
      rw [appended] at again
      rw [accepted] at twice
      cases again
      cases twice
      rw [claimed, taken, correlation, trace]
      exact ⟨rfl, after⟩
    | err error =>
      simp only [Inner.claim, picked, ← pick, stored, folded, present, refolded, granted, granting]
      exact ⟨trivial, alike⟩
    | panic =>
      simp only [Inner.claim, picked, ← pick, stored, folded, present, refolded, granted, granting]
      exact ⟨trivial, alike⟩

theorem Alike.retireOne {left right : Inner} (alike : Alike left right)
    (keys : left.index.keys = right.index.keys) (ports : Ports) :
    (left.retireOne ports).2 = (right.retireOne ports).2 ∧
      Alike (left.retireOne ports).1 (right.retireOne ports).1 := by
  have pick : left.pickExpired ports.now = right.pickExpired ports.now := by
    rw [pickExpired_listing, pickExpired_listing, alike.listing keys]
  cases picked : left.pickExpired ports.now with
  | none =>
    rw [picked] at pick
    simp only [Inner.retireOne, picked, ← pick]
    exact ⟨trivial, alike⟩
  | some id =>
    rw [picked] at pick
    obtain ⟨_, _, stream, job, _, _, _, stored, folded, _⟩ := alike.left.expired picked
    obtain ⟨other, version, present, refolded, _⟩ := alike.stream stored folded
    have expiring : Job.expireLease { job with version } ports.now ports.jitterSeed =
        job.expireLease ports.now ports.jitterSeed := rfl
    cases retired : job.expireLease ports.now ports.jitterSeed with
    | ok events =>
      obtain ⟨next, effect⟩ := Job.expireLease_effect retired
      obtain ⟨leftAfter, appended, expired⟩ := retireOne_expired picked stored folded retired
      obtain ⟨rightAfter, accepted, taken⟩ :=
        retireOne_expired pick.symm present refolded (expiring.trans retired)
      obtain ⟨_, _, again, twice, after⟩ := alike.follow ports stored folded present refolded effect
      rw [appended] at again
      rw [accepted] at twice
      cases again
      cases twice
      rw [expired, taken]
      exact ⟨rfl, after⟩
    | err error =>
      simp only [Inner.retireOne, picked, ← pick, stored, folded, present, refolded, retired, expiring]
      exact ⟨trivial, alike⟩
    | panic =>
      simp only [Inner.retireOne, picked, ← pick, stored, folded, present, refolded, retired, expiring]
      exact ⟨trivial, alike⟩

theorem Alike.extended {left right leftAfter rightAfter : Inner} {id : JobId} {entry twin : DispatchEntry}
    {state : LeaseState} {deadline : DateTime} (alike : Alike left right)
    (same : unnumbered entry = unnumbered twin)
    (effects : Extended left leftAfter id entry state deadline)
    (mirrored : Extended right rightAfter id twin state deadline) : Alike leftAfter rightAfter := by
  have kept {inner after : Inner} {held : DispatchEntry} (moves : Extended inner after id held state deadline)
      {other : JobId} {moved : DispatchEntry} (present : after.index.lookup other = some moved) :
      ∃ old, inner.index.lookup other = some old ∧ old.seq = moved.seq := by
    by_cases target : other = id
    · subst target
      rw [moves.index_self] at present
      cases present
      exact ⟨held, moves.present, rfl⟩
    · rw [moves.index_other other target] at present
      exact ⟨moved, present, rfl⟩
  refine ⟨⟨?_, ?_, ?_⟩, ?_, alike.left.extended effects, alike.right.extended mirrored⟩
  · intro other
    rw [Inner.folded, effects.stream, Inner.folded, mirrored.stream]
    exact alike.folds other
  · intro other
    by_cases target : other = id
    · subst target
      rw [effects.index_self, mirrored.index_self, Option.map_some, Option.map_some]
      exact congrArg (fun held => some { held with lease := some { state with expiresAt := deadline } }) same
    · rw [effects.index_other other target, mirrored.index_other other target]
      exact alike.entries other
  · intro one other first second third fourth found rival facing opposed
    obtain ⟨_, before, equal⟩ := kept effects found
    obtain ⟨_, rivalBefore, rivalEqual⟩ := kept effects rival
    obtain ⟨_, facingBefore, facingEqual⟩ := kept mirrored facing
    obtain ⟨_, opposedBefore, opposedEqual⟩ := kept mirrored opposed
    rw [← equal, ← rivalEqual, ← facingEqual, ← opposedEqual]
    exact alike.order one other _ _ _ _ before rivalBefore facingBefore opposedBefore
  · intro other
    rw [Inner.origin, effects.stream, Inner.origin, mirrored.stream]
    exact alike.origins other

theorem Alike.extendLease {left right : Inner} (alike : Alike left right)
    (keys : left.index.keys = right.index.keys) (ports : Ports) (lease : LeaseId) (ttl : Duration) :
    (left.extendLease ports lease ttl).2 = (right.extendLease ports lease ttl).2 ∧
      Alike (left.extendLease ports lease ttl).1 (right.extendLease ports lease ttl).1 := by
  have finds := findLease_listing left lease
  rw [alike.listing keys, ← findLease_listing right lease] at finds
  cases converted : TimeDelta.fromStd ttl with
  | none =>
    simp only [Inner.extendLease, converted]
    exact ⟨trivial, alike⟩
  | some delta =>
    cases added : ports.now.checkedAddSigned delta with
    | none =>
      simp only [Inner.extendLease, converted, added]
      exact ⟨trivial, alike⟩
    | some deadline =>
      cases found : left.findLease lease with
      | none =>
        rw [found, Option.map_none, eq_comm, Option.map_eq_none_iff] at finds
        simp only [Inner.extendLease, converted, added, found, finds]
        exact ⟨trivial, alike⟩
      | some holder =>
        obtain ⟨id, entry, state⟩ := holder
        rw [found, Option.map_some, eq_comm, Option.map_eq_some_iff] at finds
        obtain ⟨⟨other, twin, held⟩, there, shape⟩ := finds
        simp only [Prod.mk.injEq] at shape
        obtain ⟨rfl, same, rfl⟩ := shape
        by_cases late : held.expiresAt ≤ ports.now
        · simp only [Inner.extendLease, converted, added, found, there, late, if_true]
          exact ⟨trivial, alike⟩
        · simp only [Inner.extendLease, converted, added, found, there, late, if_false]
          obtain ⟨present, live, _⟩ := findLease_some found
          obtain ⟨facing, opposed, _⟩ := findLease_some there
          exact ⟨trivial, alike.extended same.symm (.of_insert deadline present live)
            (.of_insert deadline facing opposed)⟩

theorem enqueue_accepted {inner : Inner} {ports : Ports} (cmd : EnqueueCommand)
    (missing : inner.streams.lookup ports.jobId = none) :
    ∃ after, inner.appendLocked ports.jobId 0 (cmd.envelopes ports) = (after, .ok ()) ∧
      Appended inner after ports.jobId (cmd.envelopes ports)
        (Job.opened ports.jobId cmd.queue cmd.payload cmd.priority cmd.retryPolicy cmd.notBefore) := by
  have empty : inner.stream ports.jobId = [] := by
    rw [Inner.stream, missing]
    rfl
  have batch : continues ports.jobId (inner.stream ports.jobId).length (cmd.envelopes ports) = true := by
    rw [empty]
    simp [continues, EnqueueCommand.envelopes, wrapEvents]
  have folded : Job.fromEvents (inner.stream ports.jobId ++ cmd.envelopes ports) =
      .ok (Job.opened ports.jobId cmd.queue cmd.payload cmd.priority cmd.retryPolicy cmd.notBefore) := by
    rw [empty]
    exact enqueued_opens cmd ports
  have accepted := appendLocked_accepts batch folded
  rw [empty] at accepted
  rcases appended : inner.appendLocked ports.jobId 0 (cmd.envelopes ports) with ⟨after, outcome⟩
  have result : outcome = .ok () := by
    rw [← accepted]
    exact (congrArg Prod.snd appended).symm
  subst result
  obtain ⟨_, _, job, effects⟩ := appendLocked_accepted appended
  have same := effects.folded
  rw [folded] at same
  cases same
  exact ⟨after, rfl, effects⟩

theorem enqueue_refused {inner : Inner} {ports : Ports} (cmd : EnqueueCommand)
    (taken : inner.stream ports.jobId ≠ []) :
    inner.appendLocked ports.jobId 0 (cmd.envelopes ports) =
      (inner, .err (.versionConflict ports.jobId 0)) := by
  unfold Inner.appendLocked
  exact if_pos (List.length_pos_of_ne_nil taken).ne'

theorem Alike.enqueue {left right : Inner} (alike : Alike left right) (ports : Ports) (cmd : EnqueueCommand) :
    (left.appendLocked ports.jobId 0 (cmd.envelopes ports)).2 =
        (right.appendLocked ports.jobId 0 (cmd.envelopes ports)).2 ∧
      Alike (left.appendLocked ports.jobId 0 (cmd.envelopes ports)).1
        (right.appendLocked ports.jobId 0 (cmd.envelopes ports)).1 := by
  cases stored : left.streams.lookup ports.jobId with
  | none =>
    have missing := alike.missing stored
    obtain ⟨leftAfter, appended, effects⟩ := enqueue_accepted cmd stored
    obtain ⟨rightAfter, taken, mirrored⟩ := enqueue_accepted cmd missing
    rw [appended, taken]
    refine ⟨rfl, alike.appended effects mirrored rfl ?_⟩
    rw [Inner.origin, effects.stream, Inner.origin, mirrored.stream, Inner.stream, stored, Inner.stream, missing]
  | some stream =>
    obtain ⟨job, folded, _⟩ := alike.left.folds _ stream stored
    obtain ⟨other, version, present, refolded, _⟩ := alike.stream stored folded
    have here : left.stream ports.jobId ≠ [] := by
      rw [Inner.stream_of_lookup stored]
      exact Job.fromEvents_ne_nil folded
    have there : right.stream ports.jobId ≠ [] := by
      rw [Inner.stream_of_lookup present]
      exact Job.fromEvents_ne_nil refolded
    rw [enqueue_refused cmd here, enqueue_refused cmd there]
    exact ⟨rfl, alike⟩

theorem Call.load_eq {store : InMemoryEventStore} (consistent : store.inner.Consistent) (id : JobId) :
    (∃ error, Call.load store id = .err error ∧
        error = (if store.poisoned then .store (.backend "store mutex poisoned") else .store (.streamNotFound id)) ∧
        (store.poisoned = true ∨ store.inner.streams.lookup id = none)) ∨
      ∃ stream job, Call.load store id = .ok ⟨job, stream⟩ ∧ store.poisoned = false ∧
        store.inner.streams.lookup id = some stream ∧ Job.fromEvents stream = .ok job := by
  cases poisoned : store.poisoned with
  | true =>
    refine .inl ⟨_, ?_, rfl, .inl rfl⟩
    simp [Call.load, EventStore.load, InMemoryEventStore.load, InMemoryEventStore.locked, poisoned]
  | false =>
    cases stored : store.inner.streams.lookup id with
    | none =>
      refine .inl ⟨_, ?_, rfl, .inr rfl⟩
      simp [Call.load, EventStore.load, InMemoryEventStore.load, InMemoryEventStore.locked, poisoned, stored]
    | some stream =>
      obtain ⟨job, folded, _⟩ := consistent.folds id stream stored
      refine .inr ⟨stream, job, ?_, rfl, rfl, folded⟩
      simp [Call.load, EventStore.load, InMemoryEventStore.load, InMemoryEventStore.locked, poisoned, stored,
        folded]

theorem Indistinct.load {left right : InMemoryEventStore} (indistinct : Indistinct left right) (id : JobId) :
    (∃ error, Call.load left id = .err error ∧ Call.load right id = .err error) ∨
      ∃ stream other job version, Call.load left id = .ok ⟨job, stream⟩ ∧
        Call.load right id = .ok ⟨{ job with version }, other⟩ ∧
        left.inner.streams.lookup id = some stream ∧ Job.fromEvents stream = .ok job ∧
        right.inner.streams.lookup id = some other ∧ Job.fromEvents other = .ok { job with version } := by
  have alike := indistinct.inner
  rcases Call.load_eq alike.left id with ⟨error, failed, shape, cause⟩ |
    ⟨stream, job, loaded, healthy, stored, folded⟩
  · rcases Call.load_eq alike.right id with ⟨again, refused, same, _⟩ |
      ⟨other, _, _, healthy, present, _⟩
    · refine .inl ⟨error, failed, ?_⟩
      rw [refused, same, ← indistinct.poisoned, shape]
    · rcases cause with poisoned | missing
      · rw [indistinct.poisoned, healthy] at poisoned
        cases poisoned
      · rw [alike.missing missing] at present
        cases present
  · obtain ⟨other, version, present, refolded, _⟩ := alike.stream stored folded
    rcases Call.load_eq alike.right id with ⟨_, _, _, cause⟩ | ⟨again, twin, reloaded, _, there, fold⟩
    · rcases cause with poisoned | missing
      · rw [← indistinct.poisoned, healthy] at poisoned
        cases poisoned
      · rw [present] at missing
        cases missing
    · rw [present] at there
      cases there
      rw [refolded] at fold
      cases fold
      exact .inr ⟨stream, other, job, version, loaded, reloaded, stored, folded, present, refolded⟩

theorem Loaded.envelopes_follow {inner : Inner} {id : JobId} {stream : List EventEnvelope} {job : Job}
    (stored : inner.streams.lookup id = some stream) (folded : Job.fromEvents stream = .ok job)
    (ports : Ports) (events : List JobEvent) :
    job.id = id ∧ Loaded.envelopes ⟨job, stream⟩ ports events = follow ports id stream events := by
  have named := Job.fromEvents_id folded (inner.keyed id stream stored)
  refine ⟨named, ?_⟩
  rw [Loaded.envelopes, follow, named, Job.fromEvents_version folded]

theorem Indistinct.execute {left right : InMemoryEventStore} (indistinct : Indistinct left right)
    (request : Call) (ports : Ports) (id : JobId) :
    (request.execute left ports id).2 = (request.execute right ports id).2 ∧
      Indistinct (request.execute left ports id).1 (request.execute right ports id).1 := by
  rcases indistinct.load id with ⟨error, failed, refused⟩ |
    ⟨stream, other, job, version, loaded, reloaded, stored, folded, present, refolded⟩
  · simp only [Call.execute, failed, refused]
    exact ⟨trivial, indistinct⟩
  · have decides : request.command ports { job with version } = request.command ports job := by
      cases request <;> rfl
    simp only [Call.execute, loaded, reloaded, Call.finish, decides]
    cases command : request.command ports job with
    | err error => exact ⟨rfl, indistinct⟩
    | panic => exact ⟨rfl, indistinct⟩
    | ok answer =>
      obtain ⟨reply, events⟩ := answer
      obtain ⟨next, effect⟩ := Call.command_effect command
      obtain ⟨named, envelopes⟩ := Loaded.envelopes_follow stored folded ports events
      obtain ⟨_, mirrored⟩ := Loaded.envelopes_follow present refolded ports events
      subst named
      obtain ⟨leftAfter, rightAfter, appended, accepted, after⟩ :=
        indistinct.inner.follow ports stored folded present refolded effect
      have writes : (left.append job.id job.version (follow ports job.id stream events)).2 =
            (right.append job.id version (follow ports job.id other events)).2 ∧
          Indistinct (left.append job.id job.version (follow ports job.id stream events)).1
            (right.append job.id version (follow ports job.id other events)).1 := by
        refine indistinct.locked _ _ ?_
        rw [appended, accepted]
        exact ⟨rfl, after⟩
      simp only [envelopes, mirrored, EventStore.append]
      rcases first : left.append job.id job.version (follow ports job.id stream events) with
        ⟨leftStore, outcome⟩
      rcases second : right.append job.id version (follow ports job.id other events) with ⟨rightStore, twin⟩
      rw [first, second] at writes
      obtain ⟨result, indistinctAfter⟩ := writes
      simp only at result
      subst result
      cases outcome <;> exact ⟨rfl, indistinctAfter⟩

theorem Indistinct.enqueue {left right : InMemoryEventStore} (indistinct : Indistinct left right)
    (ports : Ports) (cmd : EnqueueCommand) :
    (EnqueueJob.execute left ports cmd).2 = (EnqueueJob.execute right ports cmd).2 ∧
      Indistinct (EnqueueJob.execute left ports cmd).1 (EnqueueJob.execute right ports cmd).1 := by
  unfold EnqueueJob.execute
  split
  · exact ⟨rfl, indistinct⟩
  · obtain ⟨result, after⟩ : (left.append ports.jobId 0 (cmd.envelopes ports)).2 =
          (right.append ports.jobId 0 (cmd.envelopes ports)).2 ∧
        Indistinct (left.append ports.jobId 0 (cmd.envelopes ports)).1
          (right.append ports.jobId 0 (cmd.envelopes ports)).1 :=
      indistinct.locked _ _ (indistinct.inner.enqueue ports cmd)
    simp only [EventStore.append]
    rcases first : left.append ports.jobId 0 (cmd.envelopes ports) with ⟨leftStore, outcome⟩
    rcases second : right.append ports.jobId 0 (cmd.envelopes ports) with ⟨rightStore, twin⟩
    rw [first, second] at result after
    simp only at result
    subst result
    cases outcome <;> exact ⟨rfl, after⟩

theorem Indistinct.leaseNext {left right : InMemoryEventStore} (indistinct : Indistinct left right)
    (ports : Ports) (queue : QueueName) (worker : WorkerId) (ttl : Duration) :
    (left.leaseNext ports queue worker ttl).2 = (right.leaseNext ports queue worker ttl).2 ∧
      Indistinct (left.leaseNext ports queue worker ttl).1 (right.leaseNext ports queue worker ttl).1 := by
  obtain ⟨result, after⟩ := indistinct.locked (·.claim ports queue worker ttl) (·.claim ports queue worker ttl)
    (indistinct.inner.claim ports queue worker ttl)
  rw [leaseNext_eq, leaseNext_eq, result]
  exact ⟨rfl, after⟩

theorem Indistinct.extendLease {left right : InMemoryEventStore} (indistinct : Indistinct left right)
    (keys : left.inner.index.keys = right.inner.index.keys) (ports : Ports) (lease : LeaseId)
    (ttl : Duration) :
    (left.extendLease ports lease ttl).2 = (right.extendLease ports lease ttl).2 ∧
      Indistinct (left.extendLease ports lease ttl).1 (right.extendLease ports lease ttl).1 := by
  obtain ⟨result, after⟩ := indistinct.locked (·.extendLease ports lease ttl) (·.extendLease ports lease ttl)
    (indistinct.inner.extendLease keys ports lease ttl)
  rw [extendLease_eq, extendLease_eq, result]
  exact ⟨rfl, after⟩

theorem Indistinct.retire {left right : InMemoryEventStore} (indistinct : Indistinct left right)
    (keys : left.inner.index.keys = right.inner.index.keys) (ports : Ports) :
    (left.retireNextExpiredLease ports).2 = (right.retireNextExpiredLease ports).2 ∧
      Indistinct (left.retireNextExpiredLease ports).1 (right.retireNextExpiredLease ports).1 := by
  obtain ⟨result, after⟩ := indistinct.locked (·.retireOne ports) (·.retireOne ports)
    (indistinct.inner.retireOne keys ports)
  rw [retireNextExpiredLease_eq, retireNextExpiredLease_eq, result]
  exact ⟨rfl, after⟩

/-- No task tells indistinct stores apart. -/
theorem Indistinct.step {before after : InMemoryEventStore × InMemoryEventStore} {task : Task}
    {response : Response × Response} (indistinct : Indistinct before.1 before.2)
    (taken : PairStep before task response after) :
    response.1 = response.2 ∧ Indistinct after.1 after.2 := by
  obtain ⟨left, right, orderLeft, orderRight, keys, ranLeft, ranRight⟩ := taken
  have start : Indistinct (⟨left, before.1.poisoned⟩ : InMemoryEventStore) ⟨right, before.2.poisoned⟩ :=
    ⟨indistinct.inner.reordered orderLeft orderRight, indistinct.poisoned⟩
  have finish {α : Type} {wrap : α → Response} {first second : InMemoryEventStore × α}
      (runs : first.2 = second.2 ∧ Indistinct first.1 second.1)
      (leftward : (first.1, wrap first.2) = (after.1, response.1))
      (rightward : (second.1, wrap second.2) = (after.2, response.2)) :
      response.1 = response.2 ∧ Indistinct after.1 after.2 := by
    obtain ⟨storeLeft, answerLeft⟩ := Prod.mk.inj leftward
    obtain ⟨storeRight, answerRight⟩ := Prod.mk.inj rightward
    rw [← storeLeft, ← storeRight, ← answerLeft, ← answerRight, runs.1]
    exact ⟨rfl, runs.2⟩
  cases task with
  | enqueue ports cmd => exact finish (start.enqueue ports cmd) ranLeft ranRight
  | leaseNext ports queue worker ttl => exact finish (start.leaseNext ports queue worker ttl) ranLeft ranRight
  | extendLease ports lease ttl => exact finish (start.extendLease keys ports lease ttl) ranLeft ranRight
  | retireNextExpiredLease ports => exact finish (start.retire keys ports) ranLeft ranRight
  | call request ports id => exact finish (start.execute request ports id) ranLeft ranRight

theorem Indistinct.run {start final : InMemoryEventStore × InMemoryEventStore}
    {history : List (Record (InMemoryEventStore × InMemoryEventStore) Task (Response × Response))}
    (indistinct : Indistinct start.1 start.2) (run : Run PairStep start history final) :
    Indistinct final.1 final.2 ∧
      ∀ record ∈ history, record.result.1 = record.result.2 ∧
        Agree record.after.1.inner record.after.2.inner := by
  induction run with
  | refl =>
    refine ⟨indistinct, ?_⟩
    intro record member
    cases member
  | step run taken ih =>
    obtain ⟨response, after⟩ := ih.1.step taken
    exact ⟨after, List.forall_mem_cons.mpr ⟨⟨response, after.inner.toAgree⟩, ih.2⟩⟩

theorem Alike.refl {inner : Inner} (consistent : inner.Consistent) : Alike inner inner where
  folds _ := rfl
  entries _ := rfl
  order id other first second third fourth found rival facing opposed := by
    rw [found] at facing
    rw [rival] at opposed
    cases facing
    cases opposed
    exact Iff.rfl
  origins _ := rfl
  left := consistent
  right := consistent

theorem TaskStep.consistent {before after : InMemoryEventStore} {task : Task} {response : Response}
    (consistent : before.inner.Consistent) (taken : TaskStep before task response after) :
    after.inner.Consistent := by
  obtain ⟨shuffled, order, ran⟩ := taken
  have twice : PairStep (before, before) task (response, response) (after, after) :=
    ⟨shuffled, shuffled, order, order, rfl, ran, ran⟩
  have same : Indistinct before before := ⟨.refl consistent, rfl⟩
  exact (same.step twice).2.inner.left

theorem execute_conflict {store after : InMemoryEventStore} {request : Call} {ports : Ports} {id : JobId}
    (consistent : store.inner.Consistent)
    (ran : request.execute store ports id = (after, .ok (.ack .conflict))) :
    ∃ stream job batch, store.inner.streams.lookup id = some stream ∧ Job.fromEvents stream = .ok job ∧
      Appended store.inner after.inner id batch { job with version := job.version + 1 } ∧
      after.poisoned = store.poisoned := by
  rcases Call.load_eq consistent id with ⟨error, failed, _⟩ | ⟨stream, job, loaded, healthy, stored, folded⟩
  · simp only [Call.execute, failed] at ran
    cases ran
  · simp only [Call.execute, loaded, Call.finish] at ran
    split at ran
    · cases ran
    · cases ran
    · rename_i reply events command
      rcases appended : EventStore.append store job.id job.version (Loaded.envelopes ⟨job, stream⟩ ports events)
        with ⟨written, outcome⟩
      rw [appended] at ran
      cases outcome with
      | err error => cases ran
      | panic => cases ran
      | ok value =>
        cases ran
        obtain ⟨named, envelopes⟩ := Loaded.envelopes_follow stored folded ports events
        subst named
        have accepted := appended
        rcases append_cases appended with ⟨_, refused⟩ | ⟨_, _, next, effects⟩
        · exact absurd rfl refused
        · rcases Call.command_reply command with ⟨reply, _⟩ | ⟨_, worker, lease, reported, _, rfl⟩ | ⟨reply, _⟩
          · cases reply
          · have grown := effects.folded
            rw [envelopes, Inner.stream_of_lookup stored,
              follow_folds ports job.id folded (Job.Effect.lateAck worker lease reported).applies] at grown
            cases grown
            refine ⟨stream, job, _, stored, folded, effects, ?_⟩
            rw [append_unpoisoned accepted healthy (by simp), healthy]
          · cases reply

end Stores

def deadlineRecorded [BuildProfile] (inner : Inner) (id : JobId) : Bool :=
  match inner.index.lookup id, Job.fromEvents (inner.stream id) with
  | some entry, .ok job => entry.lease.all fun state => job.state.heldUntil = some state.expiresAt
  | _, _ => true

theorem Mirrors.reproject {job : Job} {entry : DispatchEntry} (mirrors : Mirrors job (some entry))
    (recorded : ∀ state, entry.lease = some state → job.state.heldUntil = some state.expiresAt) :
    entryOf job entry.seq = some entry := by
  obtain ⟨queue, priority, seq, notBefore, lease⟩ := entry
  obtain ⟨sameQueue, samePriority, content⟩ := mirrors
  simp only at sameQueue samePriority content recorded
  subst sameQueue samePriority
  cases shape : job.state with
  | pending wait =>
    simp only [shape] at content
    simp [entryOf, shape, content]
  | leased worker held expiresAt | running worker held expiresAt =>
    simp only [shape] at content
    obtain ⟨free, state, live, same, holder⟩ := content
    have deadline := recorded state live
    rw [shape] at deadline
    cases deadline
    simp [entryOf, shape, free, live, ← same, ← holder]
  | _ =>
    simp only [shape] at content

variable [BuildProfile]

theorem deadlineRecorded_entry {inner : Inner} {id : JobId} {stream : List EventEnvelope} {job : Job}
    (consistent : inner.Consistent) (stored : inner.streams.lookup id = some stream)
    (folded : Job.fromEvents stream = .ok job) (recorded : deadlineRecorded inner id = true) :
    entryOf job (inner.seqFor id) = inner.index.lookup id := by
  obtain ⟨again, refolded, mirrors⟩ := consistent.folds id stream stored
  rw [folded] at refolded
  cases refolded
  cases present : inner.index.lookup id with
  | none =>
    rw [present, Mirrors] at mirrors
    cases shape : job.state <;> simp_all [entryOf, JobState.dispatchable]
  | some entry =>
    rw [present] at mirrors
    simp only [deadlineRecorded, present, Inner.stream_of_lookup stored, folded] at recorded
    rw [Inner.seqFor, present]
    refine mirrors.reproject fun state live => ?_
    simpa [live] using recorded

theorem Indistinct.of_conflict {store inserted : InMemoryEventStore} {request : Call} {ports : Ports}
    {id : JobId} (consistent : store.inner.Consistent)
    (stale : TaskStep store (.call request ports id) (.answered (.ok (.ack .conflict))) inserted)
    (recorded : deadlineRecorded store.inner id = true) : Indistinct store inserted := by
  obtain ⟨shuffled, order, ran⟩ := stale
  simp only [Task.exec, Prod.mk.injEq, Response.answered.injEq] at ran
  rcases executed : request.execute (⟨shuffled, store.poisoned⟩ : InMemoryEventStore) ports id with
    ⟨after, outcome⟩
  rw [executed] at ran
  obtain ⟨rfl, rfl⟩ := ran
  obtain ⟨stream, job, batch, stored, folded, effects, poisoned⟩ :=
    execute_conflict (consistent.reorder order) executed
  rw [order.streams] at stored
  have moved := effects.of_reordered order
  have entry : ∀ other, after.inner.index.lookup other = store.inner.index.lookup other := by
    intro other
    by_cases target : other = id
    · subst target
      rw [moved.index_self, ← deadlineRecorded_entry consistent stored folded recorded]
      rfl
    · exact moved.index_other other target
  refine ⟨⟨⟨?_, ?_, ?_⟩, ?_, consistent, consistent.appended moved⟩, poisoned.symm⟩
  · intro other
    by_cases target : other = id
    · subst target
      rw [Inner.folded, Inner.stream_of_lookup stored, folded, Inner.folded, moved.stream, moved.folded]
      rfl
    · rw [Inner.folded, Inner.folded, moved.stream_ne target]
  · intro other
    rw [entry]
  · intro one other first second third fourth found rival facing opposed
    rw [entry, found] at facing
    rw [entry, rival] at opposed
    cases facing
    cases opposed
    exact Iff.rfl
  · intro other
    by_cases target : other = id
    · subst target
      rw [moved.origin stored (Job.fromEvents_ne_nil folded)]
    · rw [Inner.origin, Inner.origin, moved.stream_ne target]

/-- A run on a store, and the same tasks on the store that has taken one more ack. -/
theorem stale_ack_inert {earlier : List (Record InMemoryEventStore Task Response)}
    {later : List (Record (InMemoryEventStore × InMemoryEventStore) Task (Response × Response))}
    {store inserted : InMemoryEventStore} {final : InMemoryEventStore × InMemoryEventStore} {request : Call}
    {ports : Ports} {id : JobId} (run : Run TaskStep .new earlier store)
    (stale : TaskStep store (.call request ports id) (.answered (.ok (.ack .conflict))) inserted)
    (recorded : deadlineRecorded store.inner id = true) (paired : Run PairStep (store, inserted) later final) :
    Agree store.inner inserted.inner ∧
      ∀ record ∈ later, record.result.1 = record.result.2 ∧
        Agree record.after.1.inner record.after.2.inner := by
  have consistent : store.inner.Consistent :=
    run.invariant (·.inner.Consistent) Inner.Consistent.empty fun _ _ _ _ kept taken => taken.consistent kept
  have start : Indistinct store inserted := .of_conflict consistent stale recorded
  exact ⟨start.inner.toAgree, (start.run paired).2⟩

theorem TaskStep.of_exec (task : Task) (before : InMemoryEventStore) :
    TaskStep before task (task.exec before).2 (task.exec before).1 :=
  ⟨before.inner, .refl _, rfl⟩

def pairExec (task : Task) (pair : InMemoryEventStore × InMemoryEventStore) :
    Option ((InMemoryEventStore × InMemoryEventStore) × (Response × Response)) :=
  if pair.1.inner.index.keys = pair.2.inner.index.keys then
    some (((task.exec pair.1).1, (task.exec pair.2).1), ((task.exec pair.1).2, (task.exec pair.2).2))
  else none

theorem PairStep.of_exec (task : Task) (before after : InMemoryEventStore × InMemoryEventStore)
    (response : Response × Response) (ran : pairExec task before = some (after, response)) :
    PairStep before task response after := by
  unfold pairExec at ran
  split at ran
  · rename_i keys
    cases ran
    exact ⟨before.1.inner, before.2.inner, .refl _, .refl _, keys, rfl, rfl⟩
  · cases ran

/-- Tasks that follow `earlier`, without and with `ack` before them, each list newest first. -/
def besideAck (earlier : List Task) (ack : Task) (later : List Task) :=
  let store := (Run.replay Task.exec InMemoryEventStore.new earlier).2
  Run.attempt pairExec (store, (ack.exec store).1) later

def Task.clock : Task → DateTime
  | .enqueue ports _ | .leaseNext ports .. | .extendLease ports .. | .retireNextExpiredLease ports
  | .call _ ports _ => ports.now

def heldTasks : List Task :=
  [.extendLease (Sample.ports 5 3) ⟨2⟩ (.fromSecs 100),
    .leaseNext (Sample.ports 1 2) Sample.queue Sample.worker (.fromSecs 10),
    .enqueue (Sample.ports 0 1) Sample.command]

def strayAck : Task := .call (.succeed Sample.worker ⟨9⟩ none) (Sample.ports 6 4) ⟨1⟩

def nextHeartbeat : Task := .extendLease (Sample.ports 20 5) ⟨2⟩ (.fromSecs 100)

omit [BuildProfile] in
theorem stale_ack_kills_heartbeat :
    let _ := BuildProfile.release
    let store := (Run.replay Task.exec InMemoryEventStore.new heldTasks).2
    (∃ earlier, Run TaskStep .new earlier store) ∧ heldLease (store.inner.stream ⟨1⟩) ≠ some ⟨9⟩ ∧
      (nextHeartbeat.clock :: strayAck.clock :: heldTasks.map (·.clock)).Pairwise
        (fun newer older => older ≤ newer) ∧
      ∃ inserted record final, TaskStep store strayAck (.answered (.ok (.ack .conflict))) inserted ∧
        Run PairStep (store, inserted) [record] final ∧ record.label = nextHeartbeat ∧
        record.result = (.extended (.ok true), .extended (.ok false)) := by
  intro _ store
  have stale : TaskStep store strayAck (.answered (.ok (.ack .conflict))) (strayAck.exec store).1 :=
    TaskStep.of_exec strayAck store
  have ran : besideAck heldTasks strayAck [nextHeartbeat] = some ([_], _) := rfl
  obtain ⟨paired, _⟩ := Run.of_attempt PairStep.of_exec ran
  exact ⟨⟨_, Run.of_replay TaskStep.of_exec heldTasks⟩, by decide, by decide, _, _, _, stale, paired, rfl, rfl⟩

def laterTasks : List Task :=
  [.retireNextExpiredLease (Sample.ports 200 7), nextHeartbeat,
    .call (.start Sample.worker) (Sample.ports 7 5) ⟨1⟩]

omit [BuildProfile] in
theorem stale_ack_inert_unextended :
    let _ := BuildProfile.release
    ∃ records final, besideAck heldTasks.tail strayAck laterTasks = some (records, final) ∧
      records.map (·.label) = laterTasks ∧
      ∀ record ∈ records, record.result.1 = record.result.2 ∧
        Agree record.after.1.inner record.after.2.inner := by
  intro _
  have allowed : (besideAck heldTasks.tail strayAck laterTasks).isSome = true := by decide +kernel
  obtain ⟨⟨records, final⟩, ran⟩ := Option.isSome_iff_exists.mp allowed
  obtain ⟨paired, labels⟩ := Run.of_attempt PairStep.of_exec ran
  obtain ⟨_, agree⟩ := stale_ack_inert (Run.of_replay TaskStep.of_exec heldTasks.tail)
    (TaskStep.of_exec strayAck _) (by decide) paired
  exact ⟨records, final, ran, labels, agree⟩

end Koine.Memory
