import Koine.Postgres.Twins

namespace Koine.Postgres

open Library Domain Application Memory

def storeErrorKind : EventStoreError → EventStoreError
  | .backend _ => .backend ""
  | error => error

def dispatchErrorKind : DispatchError → DispatchError
  | .store error => .store (storeErrorKind error)
  | .domain error => .domain error
  | .backend _ => .backend ""

/-- Two answers are the same up to the texts of errors; of retirements only whether they found
    nothing to retire is compared. -/
def Agree : Answer → Answer → Prop
  | .appended left, .appended right => left.mapErr storeErrorKind = right.mapErr storeErrorKind
  | .loaded left, .loaded right => left.mapErr storeErrorKind = right.mapErr storeErrorKind
  | .leased left, .leased right => left.mapErr dispatchErrorKind = right.mapErr dispatchErrorKind
  | .extended left, .extended right => left.mapErr dispatchErrorKind = right.mapErr dispatchErrorKind
  | .retired left, .retired right => left = .ok none ↔ right = .ok none
  | _, _ => False

def retiredJob : Answer → Option JobId
  | .retired (.ok job) => job
  | _ => none

section Operations

variable {J : Type} [Serde J] [BuildProfile]

/-- Appending inside a transaction that runs alone does what appending under the lock does. -/
theorem Twinned.append {inner after : Inner} {world : World J} {tx : Transaction J}
    (twinned : Twinned inner world) (clean : tx.writes = []) {stream : JobId} {expected : Nat}
    {batch : List EventEnvelope} {result : Outcome EventStoreError Unit}
    (fits : ∀ envelope ∈ batch, Fits J envelope)
    (called : inner.appendLocked stream expected batch = (after, result)) (calm : result ≠ .panic)
    (distinct : DistinctIds after) :
    ∃ last answer, (appendInTx stream expected batch).run Stmt.alone (world, tx) = (last, answer) ∧
      last.1.tables = world.tables ∧ world.dispatchSeq ≤ last.1.dispatchSeq ∧
      ((result = .ok () ∧ ∃ job, answer = .ok job ∧ Appended inner after stream batch job ∧
          Saved world last stream batch job) ∨
        ∃ error other, result = .err error ∧ answer = .err other ∧
          storeErrorKind error = storeErrorKind other ∧ after = inner) := by
  obtain ⟨last, answer, ran, tables, seq, ends⟩ := appendInTx_alone expected clean (twinned.decoded stream)
    (numbered twinned.consistent stream) fits
  refine ⟨last, answer, ran, tables, seq, ?_⟩
  cases ends with
  | conflict stale =>
    unfold Inner.appendLocked at called
    rw [if_pos stale] at called
    cases called
    exact .inr ⟨_, _, rfl, rfl, rfl, rfl⟩
  | malformed message current broken =>
    subst current
    unfold Inner.appendLocked at called
    simp only [ne_eq, not_true_eq_false, if_false, broken, Bool.false_eq_true, dite_false] at called
    cases called
    exact .inr ⟨_, _, rfl, rfl, rfl, rfl⟩
  | duplicate message current accepted taken =>
    cases result with
    | ok value =>
      obtain ⟨_, _, job, effects⟩ := appendLocked_accepted called
      exact absurd (twinned.fresh effects distinct) taken
    | panic => exact absurd rfl calm
    | err error =>
      subst current
      unfold Inner.appendLocked at called
      simp only [ne_eq, not_true_eq_false, if_false, accepted, dite_true] at called
      split at called
      · cases called
        exact .inr ⟨_, _, rfl, rfl, rfl, rfl⟩
      · cases called
      · cases called
  | refused message error current accepted folded =>
    subst current
    unfold Inner.appendLocked at called
    simp only [ne_eq, not_true_eq_false, if_false, accepted, dite_true, folded] at called
    cases called
    exact .inr ⟨_, _, rfl, rfl, rfl, rfl⟩
  | unwound current accepted folded =>
    subst current
    unfold Inner.appendLocked at called
    simp only [ne_eq, not_true_eq_false, if_false, accepted, dite_true, folded] at called
    cases called
    exact absurd rfl calm
  | saved job current accepted folded saved =>
    subst current
    have fine := appendLocked_accepts accepted folded
    rw [called] at fine
    cases fine
    obtain ⟨_, _, other, effects⟩ := appendLocked_accepted called
    have same : other = job := by
      have refolded := effects.folded
      rw [folded] at refolded
      exact (Outcome.ok.inj refolded).symm
    subst same
    exact .inl ⟨rfl, other, rfl, effects, saved⟩

theorem Twinned.append_accepted {inner after : Inner} {world : World J} {tx : Transaction J}
    (twinned : Twinned inner world) (clean : tx.writes = []) {stream : JobId} {expected : Nat}
    {batch : List EventEnvelope} (called : inner.appendLocked stream expected batch = (after, .ok ()))
    (distinct : DistinctIds after) (kept : ∀ id, ∀ envelope ∈ after.stream id, Fits J envelope) :
    ∃ last job, (appendInTx stream expected batch).run Stmt.alone (world, tx) = (last, .ok job) ∧
      Appended inner after stream batch job ∧ Saved world last stream batch job := by
  have fits : ∀ envelope ∈ batch, Fits J envelope := by
    obtain ⟨_, _, job, effects⟩ := appendLocked_accepted called
    intro envelope member
    refine kept stream envelope ?_
    rw [Inner.stream, effects.stream_self]
    exact List.mem_append_right _ member
  obtain ⟨last, answer, ran, _, _, ⟨_, job, rfl, effects, saved⟩ | ⟨_, _, failed, _⟩⟩ :=
    twinned.append clean fits called (by simp) distinct
  · exact ⟨last, job, ran, effects, saved⟩
  · cases failed

omit [Serde J] [BuildProfile] in
theorem writes_begin : (Transaction.begin : Transaction J).writes = [] := rfl

theorem Twinned.append_agrees {inner after : Inner} {world : World J} (twinned : Twinned inner world)
    {stream : JobId} {expected : Nat} {batch : List EventEnvelope} {result : Outcome EventStoreError Unit}
    (fits : ∀ envelope ∈ batch, Fits J envelope)
    (called : inner.appendLocked stream expected batch = (after, result)) (calm : result ≠ .panic)
    (distinct : DistinctIds after) (kept : ∀ id, ∀ envelope ∈ after.stream id, Fits J envelope) :
    ∃ next answer, EventStore.append world stream expected batch = (next, answer) ∧
      result.mapErr storeErrorKind = answer.mapErr storeErrorKind ∧ Twinned after next := by
  obtain ⟨last, answer, ran, tables, seq, ⟨rfl, job, rfl, effects, saved⟩ |
    ⟨error, other, rfl, rfl, same, rfl⟩⟩ := twinned.append writes_begin fits called calm distinct
  · refine ⟨committed last, .ok (), ?_, rfl, twinned.appended effects saved distinct kept⟩
    simp only [EventStore.append, World.transact, Postgres.append]
    rw [Program.run_bind_ok Stmt.alone ran]
    rfl
  · refine ⟨last.1, .err other, ?_, ?_, twinned.rolledBack tables seq⟩
    · simp only [EventStore.append, World.transact, Postgres.append]
      rw [Program.run_bind_err Stmt.alone ran]
    · exact congrArg Outcome.err same

theorem Twinned.stored {inner : Inner} {world : World J} (twinned : Twinned inner world) (id : JobId) :
    inner.streams.lookup id = none ∧ inner.stream id = [] ∨
      inner.streams.lookup id = some (inner.stream id) ∧ inner.stream id ≠ [] := by
  unfold Inner.stream
  cases stored : inner.streams.lookup id with
  | none => exact .inl ⟨rfl, rfl⟩
  | some stream =>
    obtain ⟨job, folded, _⟩ := twinned.consistent.folds id stream stored
    exact .inr ⟨rfl, Job.fromEvents_ne_nil folded⟩

theorem load_alone {world : World J} {stream : JobId} {first count : Nat}
    (versions : (world.tables.streamRows stream).map (·.version) = List.range' first count) :
    EventStore.load world stream = if (world.tables.streamRows stream).isEmpty then .err (.streamNotFound stream)
      else envelopesFromRows (world.tables.streamRows stream) := by
  have rows : (query (Stmt.loadStream stream) : Tx J EventStoreError _).run Stmt.alone (world, .begin) =
      ((world, .begin), .ok (inOrder (world.tables.streamRows stream))) := rfl
  rw [inOrder_of_versions versions] at rows
  simp only [EventStore.load, World.transact, Postgres.load]
  rw [Program.run_bind_ok Stmt.alone rows]
  split <;> rfl

theorem Twinned.load_agrees {inner : Inner} {world : World J} (twinned : Twinned inner world)
    (stream : JobId) :
    InMemoryEventStore.load ⟨inner, false⟩ stream = EventStore.load world stream := by
  have decoded := twinned.decoded stream
  rw [load_alone (decoded_versions decoded (numbered twinned.consistent stream))]
  have length := congrArg List.length (decoded_map (fun row envelope read => (envelopeFromRow_ids read).1)
    decoded)
  rw [List.length_map, List.length_map] at length
  rcases twinned.stored stream with ⟨missing, none⟩ | ⟨stored, some⟩
  · have empty : world.tables.streamRows stream = [] := by
      rw [none] at length
      exact List.eq_nil_of_length_eq_zero length
    rw [empty]
    simp [InMemoryEventStore.load, InMemoryEventStore.locked, missing]
  · have full : (world.tables.streamRows stream).isEmpty = false := by
      cases present : world.tables.streamRows stream with
      | nil =>
        rw [present] at length
        exact absurd (List.eq_nil_of_length_eq_zero length.symm) some
      | cons => rfl
    rw [full, decoded]
    simp [InMemoryEventStore.load, InMemoryEventStore.locked, stored]

omit [Serde J] [BuildProfile] in
theorem eligible_rowFor (entry : DispatchEntry) (seq : Nat) (queue : QueueName) (now : DateTime) :
    (rowFor entry seq).eligible queue now = entry.eligible queue now := by
  unfold DispatchRow.eligible DispatchEntry.eligible rowFor
  cases entry.lease <;> rfl

omit [Serde J] [BuildProfile] in
theorem expired_rowFor (entry : DispatchEntry) (seq : Nat) (now : DateTime) :
    (rowFor entry seq).expired now = entry.overdue now := by
  cases held : entry.lease <;> simp [DispatchRow.expired, DispatchEntry.overdue, rowFor, held]

omit [BuildProfile] in
theorem claimLe_iff {left right : DispatchRow} :
    left.claimLe right = true ↔
      left.priority.value.toInt < right.priority.value.toInt ∨
        (left.priority.value.toInt = right.priority.value.toInt ∧ right.seq ≤ left.seq) := by
  simp [DispatchRow.claimLe]

omit [Serde J] [BuildProfile] in
theorem claimLe_total (left right : (_ : JobId) × DispatchRow) :
    left.2.claimLe right.2 = true ∨ right.2.claimLe left.2 = true := by
  rw [claimLe_iff, claimLe_iff]
  omega

omit [Serde J] [BuildProfile] in
theorem claimLe_trans (first second third : (_ : JobId) × DispatchRow) (lower : first.2.claimLe second.2 = true)
    (upper : second.2.claimLe third.2 = true) : first.2.claimLe third.2 = true := by
  rw [claimLe_iff] at lower upper ⊢
  omega

theorem Twinned.row {inner : Inner} {world : World J} (twinned : Twinned inner world) {id : JobId}
    {row : DispatchRow} (found : world.tables.dispatch.lookup id = some row) :
    ∃ entry, inner.index.lookup id = some entry ∧ row = rowFor entry (world.tables.rank id) := by
  have same := twinned.dispatch id
  rw [found] at same
  obtain ⟨entry, present, equal⟩ := Option.map_eq_some_iff.mp same.symm
  exact ⟨entry, present, equal.symm⟩

theorem Twinned.entry {inner : Inner} {world : World J} (twinned : Twinned inner world) {id : JobId}
    {entry : DispatchEntry} (present : inner.index.lookup id = some entry) :
    world.tables.dispatch.lookup id = some (rowFor entry (world.tables.rank id)) := by
  rw [twinned.dispatch, present]
  rfl

/-- `ORDER BY priority DESC, seq` picks the job that the greatest claim key picks. -/
theorem Twinned.selects {inner : Inner} {world : World J} (twinned : Twinned inner world)
    (queue : QueueName) (now : DateTime) :
    (maxBy (fun left right => left.2.claimLe right.2) (world.tables.dispatch.entries.filter fun entry =>
      entry.2.eligible queue now)).map (·.1) = inner.pickEligible queue now := by
  cases picked : inner.pickEligible queue now with
  | none =>
    rw [Option.map_eq_none_iff, maxBy_eq_none, List.filter_eq_nil_iff]
    intro entry member
    obtain ⟨found, present, same⟩ := twinned.row (AList.mem_lookup_iff.mpr member)
    rw [same, eligible_rowFor, pickEligible_none.mp picked entry.1 found present]
    simp
  | some id =>
    obtain ⟨entry, present, eligible, greatest⟩ := pickEligible_some picked
    have listed : (⟨id, rowFor entry (world.tables.rank id)⟩ : (_ : JobId) × DispatchRow) ∈
        world.tables.dispatch.entries.filter fun entry => entry.2.eligible queue now := by
      rw [List.mem_filter, eligible_rowFor]
      exact ⟨AList.mem_lookup_iff.mp (twinned.entry present), eligible⟩
    cases best : maxBy (fun left right => left.2.claimLe right.2)
        (world.tables.dispatch.entries.filter fun entry => entry.2.eligible queue now) with
    | none =>
      rw [maxBy_eq_none] at best
      rw [best] at listed
      cases listed
    | some chosen =>
      obtain ⟨member, all⟩ := @maxBy_some ((_ : JobId) × DispatchRow)
        (fun left right => left.2.claimLe right.2) claimLe_total claimLe_trans _ _ best
      rw [List.mem_filter] at member
      obtain ⟨other, found, same⟩ := twinned.row (AList.mem_lookup_iff.mpr member.1)
      have claimed := member.2
      rw [same, eligible_rowFor] at claimed
      have above := keyLe_iff.mp (greatest chosen.1 other found claimed)
      have below := claimLe_iff.mp (all _ listed)
      rw [same] at below
      have order := twinned.order _ _ _ _ found present
      have equal : other.seq = entry.seq := by
        simp only [rowFor] at below
        have back := twinned.order _ _ _ _ present found
        omega
      exact congrArg some (twinned.consistent.seq_injective _ _ _ _ found present equal)

theorem Twinned.select {inner : Inner} {world : World J} (twinned : Twinned inner world)
    (queue : QueueName) {now : DateTime} (precise : timestamptz now = now) :
    ∃ tx : Transaction J, tx.writes = [] ∧
      (query (Stmt.selectEligible queue now) : Tx J DispatchError _).run Stmt.alone (world, .begin) =
        ((world, tx), .ok (inner.pickEligible queue now)) := by
  have view : (Transaction.begin : Transaction J).view world.tables = world.tables := rfl
  rw [← twinned.selects queue now]
  simp only [query, Program.issue, Program.run, Stmt.alone, Stmt.exec, precise, List.any_nil, Bool.not_false,
    Bool.and_true, view]
  cases maxBy (fun left right => left.2.claimLe right.2)
    (world.tables.dispatch.entries.filter fun entry => entry.2.eligible queue now) with
  | none => exact ⟨.begin, rfl, rfl⟩
  | some entry => exact ⟨{ Transaction.begin with locks := [entry.1] }, rfl, rfl⟩

theorem Twinned.loads {inner : Inner} {world : World J} (twinned : Twinned inner world)
    {tx : Transaction J} (clean : tx.writes = []) (id : JobId) :
    (loadInTx id : Tx J EventStoreError _).run Stmt.alone (world, tx) = ((world, tx), .ok (inner.stream id)) := by
  have view : tx.view world.tables = world.tables := by
    rw [Transaction.view, clean]
    rfl
  refine loadInTx_alone ?_ (numbered twinned.consistent id)
  rw [view]
  exact twinned.decoded id

theorem Twinned.claim_agrees {inner after : Inner} {world : World J} (twinned : Twinned inner world)
    {ports : Ports} {queue : QueueName} {worker : WorkerId} {ttl : Duration}
    {result : Outcome EventStoreError (Option LeasedJob)}
    (called : inner.claim ports queue worker ttl = (after, result)) (calm : result ≠ .panic)
    (precise : timestamptz ports.now = ports.now) (distinct : DistinctIds after)
    (kept : ∀ id, ∀ envelope ∈ after.stream id, Fits J envelope) :
    ∃ next answer, Dispatcher.leaseNext world ports queue worker ttl = (next, answer) ∧
      (result.mapErr .store).mapErr dispatchErrorKind = answer.mapErr dispatchErrorKind ∧
      Twinned after next := by
  obtain ⟨tx, clean, select⟩ := twinned.select queue precise
  simp only [Dispatcher.leaseNext, World.transact, Postgres.claim]
  rw [Program.run_bind_ok Stmt.alone select]
  cases picked : inner.pickEligible queue ports.now with
  | none =>
    simp only [Inner.claim, picked] at called
    cases called
    exact ⟨world, .ok none, rfl, rfl, twinned⟩
  | some id =>
    obtain ⟨entry, stream, job, present, _, stored, folded, pending, due⟩ := twinned.consistent.picked picked
    have whole : inner.stream id = stream := by
      rw [Inner.stream, stored]
      rfl
    have load : ((loadInTx id).mapErr .store : Tx J DispatchError _).run Stmt.alone (world, tx) =
        ((world, tx), .ok stream) := by
      rw [Program.run_mapErr, twinned.loads clean, whole]
      rfl
    have fold : (.done ((foldStream "fold: " stream).mapErr .store) : Tx J DispatchError Job).run
        Stmt.alone (world, tx) = ((world, tx), .ok job) := by
      rw [foldStream, folded]
      rfl
    simp only
    rw [Program.run_bind_ok Stmt.alone load, Program.run_bind_ok Stmt.alone fold]
    cases granted : job.lease worker ports.leaseId ports.now ttl with
    | panic =>
      simp only [Inner.claim, picked, stored, folded, granted] at called
      cases called
      exact absurd rfl calm
    | err error =>
      simp only [Inner.claim, picked, stored, folded, granted] at called
      cases called
      exact ⟨world, _, rfl, rfl, twinned⟩
    | ok event =>
      obtain ⟨_, _, expiresAt, _, _, _, _, rfl⟩ := Job.lease_ok granted
      obtain ⟨written, appended, claimed⟩ := claim_granted picked stored folded granted
      rw [claimed] at called
      cases called
      have batch : wrapEvents ports id job.version (lineageOf stream).1 (lineageOf stream).2.1
          (lineageOf stream).2.2 [.leased worker ports.leaseId expiresAt] =
          follow ports id stream [.leased worker ports.leaseId expiresAt] := by
        rw [follow, Job.fromEvents_version folded]
      have grant : (.done ((Outcome.ok (.leased worker ports.leaseId expiresAt)).mapErr fun error =>
          DispatchError.store (.backend ("index/state drift: " ++ DomainError.display error))) :
          Tx J DispatchError JobEvent).run Stmt.alone (world, tx) =
          ((world, tx), .ok (.leased worker ports.leaseId expiresAt)) := rfl
      rw [Program.run_bind_ok Stmt.alone grant, batch]
      obtain ⟨last, next, ran, effects, saved⟩ := twinned.append_accepted clean appended distinct kept
      have append : ((appendInTx id job.version (follow ports id stream
          [.leased worker ports.leaseId expiresAt])).mapErr .store : Tx J DispatchError Job).run
          Stmt.alone (world, tx) = (last, .ok next) := by
        rw [Program.run_mapErr, ran]
        rfl
      have head : (follow ports id stream [.leased worker ports.leaseId expiresAt]).head?.map
          EventEnvelope.event = some (.leased worker ports.leaseId expiresAt) := rfl
      have same : next = { job with state := .leased worker ports.leaseId expiresAt, version := job.version + 1 } := by
        have effect := Job.Effect.leased worker ports.leaseId expiresAt pending
        have refolded := effects.folded
        rw [whole, follow_folds ports id folded effect.applies] at refolded
        exact (Outcome.ok.inj refolded).symm
      rw [head]
      simp only
      rw [Program.run_bind_ok Stmt.alone append, same]
      exact ⟨committed last, _, rfl, rfl, twinned.appended effects saved distinct kept⟩

def Stmt.appends : Stmt J → Bool
  | .maxVersion _ | .insertEvent _ | .insertOutbox .. | .loadStream _ | .upsertPending .. | .notifyDispatch _
  | .upsertLeased .. | .deleteDispatch _ => true
  | _ => false

abbrev OnlyAppends {ε α : Type} (program : Tx J ε α) : Prop :=
  program.Obeys (fun (_ : Unit) statement => statement.appends = true) (fun _ _ _ => ()) (fun _ _ => True) ()

abbrev Uncommitted {ε α : Type} (program : Tx J ε α) : Prop :=
  program.Obeys (fun (_ : Unit) statement => statement ≠ .commit) (fun _ _ _ => ()) (fun _ _ => True) ()

omit [Serde J] [BuildProfile] in
theorem OnlyAppends.uncommitted {ε α : Type} {program : Tx J ε α} (only : OnlyAppends program) :
    Uncommitted program := by
  refine only.weaken ?_
  rintro _ statement appends rfl
  cases appends

omit [Serde J] [BuildProfile] in
theorem Uncommitted.tables {ε α : Type} {program : Tx J ε α} (uncommitted : Uncommitted program)
    (world : World J) (tx : Transaction J) :
    (program.run Stmt.alone (world, tx)).1.1.tables = world.tables ∧
      world.dispatchSeq ≤ (program.run Stmt.alone (world, tx)).1.1.dispatchSeq := by
  refine Program.Obeys.run Stmt.alone
    (fun state => state.1.tables = world.tables ∧ world.dispatchSeq ≤ state.1.dispatchSeq) ?_ uncommitted
    ⟨rfl, le_rfl⟩
  intro _ statement state other ⟨tables, seq⟩
  cases statement with
  | commit => exact absurd rfl other
  | insertEvent columns =>
    simp only [Stmt.alone, Stmt.exec]
    split
    · exact ⟨tables, seq⟩
    · split <;> exact ⟨tables, seq⟩
  | upsertPending => exact ⟨tables, seq.trans (Nat.le_succ _)⟩
  | upsertLeased => exact ⟨tables, seq.trans (Nat.le_succ _)⟩
  | deleteDispatch id =>
    simp only [Stmt.alone, Stmt.exec]
    split <;> exact ⟨tables, seq⟩
  | selectEligible queue now =>
    simp only [Stmt.alone, Stmt.exec]
    split <;> exact ⟨tables, seq⟩
  | selectExpired now =>
    simp only [Stmt.alone, Stmt.exec]
    split <;> exact ⟨tables, seq⟩
  | _ => exact ⟨tables, seq⟩

omit [BuildProfile] in
theorem insertEnvelopes_onlyAppends (stream : JobId) (expected : Nat) (envelopes : List EventEnvelope) :
    OnlyAppends (insertEnvelopes stream expected envelopes : Tx J EventStoreError Unit) := by
  induction envelopes with
  | nil => trivial
  | cons envelope rest ih =>
    unfold insertEnvelopes
    rw [OnlyAppends, Program.obeys_bind, Program.obeys_done]
    intro payload _
    split
    · trivial
    · split
      · trivial
      · rw [Program.obeys_bind]
        refine ⟨rfl, ?_⟩
        intro outcome
        cases outcome with
        | violates constraint => cases constraint <;> trivial
        | inserted =>
          change Program.Obeys _ _ _ (_ >>= _) _
          rw [Program.obeys_bind, Program.obeys_done]
          intro json _
          rw [Program.obeys_bind]
          exact ⟨rfl, fun _ => ih⟩

omit [Serde J] [BuildProfile] in
theorem projectInTx_onlyAppends (job : Job) : OnlyAppends (projectInTx job : Tx J EventStoreError Unit) := by
  unfold projectInTx
  cases job.state with
  | pending notBefore => exact ⟨rfl, fun _ => ⟨rfl, fun _ => trivial⟩⟩
  | _ => exact ⟨rfl, fun _ => trivial⟩

theorem appendInTx_onlyAppends (stream : JobId) (expected : Nat) (envelopes : List EventEnvelope) :
    OnlyAppends (appendInTx stream expected envelopes : Tx J EventStoreError Job) := by
  unfold appendInTx
  rw [OnlyAppends, Program.obeys_bind]
  refine ⟨rfl, ?_⟩
  intro newest
  simp only [Program.Obeys]
  split
  · trivial
  · split
    · rw [Program.obeys_bind]
      refine (insertEnvelopes_onlyAppends stream expected envelopes).mono ?_
      intro _ _ _
      rw [loadInTx, Program.obeys_bind, Program.obeys_bind]
      refine ⟨rfl, ?_⟩
      intro rows
      simp only [Program.obeys_done, Program.obeys_bind]
      intro _ _ loaded _ job _
      exact (projectInTx_onlyAppends job).mono fun _ _ _ => trivial
    · trivial

theorem appendInTx_uncommitted (stream : JobId) (expected : Nat) (envelopes : List EventEnvelope) :
    Uncommitted (appendInTx stream expected envelopes : Tx J EventStoreError Job) :=
  (appendInTx_onlyAppends stream expected envelopes).uncommitted

theorem Twinned.selectExpired {inner : Inner} {world : World J} (twinned : Twinned inner world)
    {now : DateTime} (precise : timestamptz now = now) :
    ∃ (tx : Transaction J) (picked : Option JobId), tx.writes = [] ∧
      (query (Stmt.selectExpired now) : Tx J DispatchError _).run Stmt.alone (world, .begin) =
        ((world, tx), .ok picked) ∧
      (picked = none ↔ inner.pickExpired now = none) ∧
      ∀ id, picked = some id → ∃ entry, inner.index.lookup id = some entry ∧ entry.overdue now = true := by
  have view : (Transaction.begin : Transaction J).view world.tables = world.tables := rfl
  simp only [query, Program.issue, Program.run, Stmt.alone, Stmt.exec, precise, List.any_nil, Bool.not_false,
    Bool.and_true, view]
  cases best : maxBy expiryLe (world.tables.dispatch.entries.filter fun entry => entry.2.expired now) with
  | none =>
    refine ⟨.begin, none, rfl, rfl, iff_of_true rfl ?_, by simp⟩
    rw [maxBy_eq_none, List.filter_eq_nil_iff] at best
    rw [pickExpired_none]
    intro id entry present
    have refused := best ⟨id, _⟩ (AList.mem_lookup_iff.mp (twinned.entry present))
    rw [expired_rowFor] at refused
    simpa using refused
  | some chosen =>
    have member := maxBy_mem best
    rw [List.mem_filter] at member
    obtain ⟨entry, present, same⟩ := twinned.row (AList.mem_lookup_iff.mpr member.1)
    have overdue := member.2
    rw [same, expired_rowFor] at overdue
    refine ⟨{ Transaction.begin with locks := [chosen.1] }, some chosen.1, rfl, rfl, ?_, ?_⟩
    · refine iff_of_false (by simp) ?_
      intro none
      rw [pickExpired_none.mp none chosen.1 entry present] at overdue
      cases overdue
    · intro id found
      cases found
      exact ⟨entry, present, overdue⟩

omit [Serde J] in
theorem retireOne_finds {inner after : Inner} {ports : Ports} {other : JobId}
    {result : Outcome EventStoreError (Except DomainError (Option JobId))} (consistent : inner.Consistent)
    (pick : inner.pickExpired ports.now = some other) (called : inner.retireOne ports = (after, result)) :
    flatten .domain result ≠ .ok none := by
  obtain ⟨_, _, stream, job, _, _, _, stored, folded, _⟩ := consistent.expired pick
  rcases retireOne_picked pick stored folded called with ⟨_, _, rfl⟩ | ⟨_, _, rfl⟩ | ⟨_, rfl⟩ <;>
    exact fun contradiction => nomatch contradiction

omit [Serde J] in
theorem retireOne_unchanged {inner after : Inner} {ports : Ports}
    {result : Outcome EventStoreError (Except DomainError (Option JobId))}
    (called : inner.retireOne ports = (after, result))
    (kept : retiredJob (.retired (flatten .domain result)) = none) : after = inner := by
  rcases retireOne_cases called with ⟨same, _⟩ | ⟨_, _, _, _, _, _, _, _, _, _, _, rfl⟩
  · exact same
  · cases kept

theorem Twinned.retire_agrees {inner after : Inner} {world : World J} (twinned : Twinned inner world)
    {ports : Ports} {result : Outcome EventStoreError (Except DomainError (Option JobId))}
    (called : inner.retireOne ports = (after, result)) (calm : result ≠ .panic)
    (precise : timestamptz ports.now = ports.now) (distinct : DistinctIds after)
    (kept : ∀ id, ∀ envelope ∈ after.stream id, Fits J envelope) :
    ∃ next answer, Dispatcher.retireNextExpiredLease world ports = (next, answer) ∧
      (flatten .domain result = .ok none ↔ answer = .ok none) ∧
      (retiredJob (.retired (flatten .domain result)) = retiredJob (.retired answer) → Twinned after next) := by
  obtain ⟨tx, picked, clean, select, none_iff, overdue⟩ := twinned.selectExpired precise
  simp only [Dispatcher.retireNextExpiredLease, World.transact, Postgres.retireOne]
  rw [Program.run_bind_ok Stmt.alone select]
  cases picked with
  | none =>
    simp only [Inner.retireOne, none_iff.mp rfl] at called
    cases called
    have view : tx.view world.tables = world.tables := by
      rw [Transaction.view, clean]
      rfl
    refine ⟨committed (world, tx), .ok none, rfl, iff_of_true rfl rfl, fun _ => ?_⟩
    exact twinned.rolledBack view le_rfl
  | some id =>
    obtain ⟨entry, present, late⟩ := overdue id rfl
    obtain ⟨stream, job, stored, folded, mirrors⟩ := twinned.consistent.entry present
    have whole : inner.stream id = stream := by
      rw [Inner.stream, stored]
      rfl
    have load : ((loadInTx id).mapErr .store : Tx J DispatchError _).run Stmt.alone (world, tx) =
        ((world, tx), .ok stream) := by
      rw [Program.run_mapErr, twinned.loads clean, whole]
      rfl
    have fold : (.done ((Job.fromEvents stream).mapErr .domain) : Tx J DispatchError Job).run
        Stmt.alone (world, tx) = ((world, tx), .ok job) := by
      rw [folded]
      rfl
    simp only
    rw [Program.run_bind_ok Stmt.alone load, Program.run_bind_ok Stmt.alone fold]
    -- the memory store has something to retire as well, though maybe another job
    have picks : ∃ other, inner.pickExpired ports.now = some other := by
      rw [← Option.ne_none_iff_exists']
      intro missing
      cases none_iff.mpr missing
    obtain ⟨other, pick⟩ := picks
    have found := retireOne_finds twinned.consistent pick called
    have aborted (last : World J) (tables : last.tables = world.tables)
        (seq : world.dispatchSeq ≤ last.dispatchSeq)
        (same : retiredJob (.retired (flatten .domain result)) = none) : Twinned after last := by
      rw [retireOne_unchanged called same]
      exact twinned.rolledBack tables seq
    cases expired : job.expireLease ports.now ports.jitterSeed with
    | panic =>
      exact ⟨world, .panic, rfl, iff_of_false found (by simp), aborted world rfl le_rfl⟩
    | err error =>
      exact ⟨world, .err (.domain error), rfl, iff_of_false found (by simp), aborted world rfl le_rfl⟩
    | ok events =>
      have expire : (.done ((Outcome.ok events).mapErr .domain) : Tx J DispatchError (List JobEvent)).run
          Stmt.alone (world, tx) = ((world, tx), .ok events) := rfl
      have batch : wrapEvents ports id job.version (lineageOf stream).1 (lineageOf stream).2.1
          (lineageOf stream).2.2 events = follow ports id stream events := by
        rw [follow, Job.fromEvents_version folded]
      rw [Program.run_bind_ok Stmt.alone expire, batch]
      have untouched := (appendInTx_uncommitted id job.version (follow ports id stream events)).tables world tx
      cases ran : (appendInTx id job.version (follow ports id stream events)).run Stmt.alone (world, tx) with
      | mk last answer =>
      have append : ((appendInTx id job.version (follow ports id stream events)).mapErr .store :
          Tx J DispatchError Job).run Stmt.alone (world, tx) = (last, answer.mapErr .store) := by
        rw [Program.run_mapErr, ran]
      rw [ran] at untouched
      cases answer with
      | panic =>
        rw [Program.run_bind_panic Stmt.alone append]
        exact ⟨last.1, .panic, rfl, iff_of_false found (by simp), aborted last.1 untouched.1 untouched.2⟩
      | err error =>
        rw [Program.run_bind_err Stmt.alone append]
        exact ⟨last.1, .err (.store error), rfl, iff_of_false found (by simp),
          aborted last.1 untouched.1 untouched.2⟩
      | ok next =>
        rw [Program.run_bind_ok Stmt.alone append]
        refine ⟨committed last, .ok (some id), rfl, iff_of_false found (by simp), ?_⟩
        intro same
        have agreed : other = id := by
          rcases retireOne_cases called with ⟨_, failed⟩ | ⟨_, _, _, _, _, chosen, _, _, _, _, _, rfl⟩
          · cases result with
            | ok value =>
              cases value with
              | ok job =>
                cases same
                exact absurd rfl (failed id)
              | error error => cases same
            | err error => cases same
            | panic => cases same
          · rw [pick] at chosen
            cases chosen
            exact Option.some.inj same
        subst agreed
        obtain ⟨written, appended, retired⟩ := retireOne_expired pick stored folded expired
        rw [retired] at called
        cases called
        obtain ⟨final, saved, accepted, effects, kept_rows⟩ :=
          twinned.append_accepted clean appended distinct kept
        rw [ran] at accepted
        cases accepted
        exact twinned.appended effects kept_rows distinct kept

omit [BuildProfile] in
theorem alive_rowFor {entry : DispatchEntry} {seq : Nat} {lease : LeaseId} {now : DateTime} :
    (rowFor entry seq).alive lease now = true ↔
      ∃ state, entry.lease = some state ∧ state.lease = lease ∧ now < state.expiresAt := by
  cases held : entry.lease <;> simp [DispatchRow.alive, rowFor, held]

theorem Twinned.extended {inner after : Inner} {world : World J} (twinned : Twinned inner world)
    {id : JobId} {entry : DispatchEntry} {state : LeaseState} {deadline : DateTime} {row : DispatchRow}
    (effects : Extended inner after id entry state deadline)
    (moved : row = rowFor { entry with lease := some { state with expiresAt := deadline } }
      (world.tables.rank id)) :
    Twinned after { world with tables := { world.tables with dispatch := world.tables.dispatch.insert id row } } := by
  have stream : ∀ job, after.stream job = inner.stream job := by
    intro job
    rw [Inner.stream, effects.streams, Inner.stream]
  have rank : ∀ job, ({ world.tables with dispatch := world.tables.dispatch.insert id row } : Tables J).rank job =
      world.tables.rank job := by
    intro job
    by_cases here : job = id
    · subst here
      rw [Tables.rank, AList.lookup_insert, moved]
      rfl
    · rw [Tables.rank, AList.lookup_insert_ne here, Tables.rank]
  have seqs : ∀ job found, after.index.lookup job = some found →
      ∃ old, inner.index.lookup job = some old ∧ old.seq = found.seq := by
    intro job found present
    by_cases here : job = id
    · subst here
      rw [effects.index_self] at present
      cases present
      exact ⟨entry, effects.present, rfl⟩
    · rw [effects.index_other job here] at present
      exact ⟨found, present, rfl⟩
  refine ⟨twinned.consistent.extended effects, ?_, ?_, ?_, ?_, twinned.ids, ?_⟩
  · intro job
    rw [stream]
    exact twinned.decoded job
  · intro job
    rw [rank]
    by_cases here : job = id
    · subst here
      rw [effects.index_self, AList.lookup_insert, moved]
      rfl
    · rw [effects.index_other job here, AList.lookup_insert_ne here]
      exact twinned.dispatch job
  · intro left right first second foundLeft foundRight
    obtain ⟨oldLeft, beforeLeft, seqLeft⟩ := seqs left first foundLeft
    obtain ⟨oldRight, beforeRight, seqRight⟩ := seqs right second foundRight
    rw [rank, rank, ← seqLeft, ← seqRight]
    exact twinned.order left right oldLeft oldRight beforeLeft beforeRight
  · intro job
    rw [rank]
    exact twinned.drawn job
  · intro job
    rw [stream]
    exact twinned.fits job

def HeldOnce (inner : Inner) (lease : LeaseId) : Prop :=
  ∀ left right, inner.Holds left lease → inner.Holds right lease → left = right

theorem Twinned.alive {inner : Inner} {world : World J} (twinned : Twinned inner world)
    {lease : LeaseId} (once : HeldOnce inner lease) (now : DateTime) :
    world.tables.dispatch.entries.filter (fun entry => entry.2.alive lease now) =
      match inner.findLease lease with
      | none => []
      | some (id, entry, state) =>
        if state.expiresAt ≤ now then [] else [⟨id, rowFor entry (world.tables.rank id)⟩] := by
  have only : ∀ id entry state, inner.findLease lease = some (id, entry, state) →
      ∀ row ∈ world.tables.dispatch.entries, row.2.alive lease now = true →
        row = ⟨id, rowFor entry (world.tables.rank id)⟩ ∧ now < state.expiresAt := by
    intro id entry state found ⟨other, row⟩ listed alive
    obtain ⟨present, held, named⟩ := findLease_some found
    obtain ⟨candidate, stored, rfl⟩ := twinned.row (AList.mem_lookup_iff.mpr listed)
    obtain ⟨live, owned, same, later⟩ := alive_rowFor.mp alive
    have here : other = id := once other id ⟨candidate, live, stored, owned, same⟩ ⟨entry, state, present, held, named⟩
    subst here
    rw [present] at stored
    cases stored
    rw [held] at owned
    cases owned
    exact ⟨rfl, later⟩
  cases found : inner.findLease lease with
  | none =>
    rw [List.filter_eq_nil_iff]
    intro ⟨id, row⟩ listed alive
    obtain ⟨entry, present, rfl⟩ := twinned.row (AList.mem_lookup_iff.mpr listed)
    obtain ⟨state, held, same, _⟩ := alive_rowFor.mp alive
    exact findLease_none found present held same
  | some picked =>
    obtain ⟨id, entry, state⟩ := picked
    simp only
    split
    · rename_i overdue
      rw [List.filter_eq_nil_iff]
      intro row listed alive
      exact absurd (only id entry state found row listed alive).2 (not_lt.mpr overdue)
    · rename_i live
      obtain ⟨present, held, same⟩ := findLease_some found
      refine filter_eq_singleton (AList.nodupKeys _).nodup (AList.mem_lookup_iff.mp (twinned.entry present))
        (alive_rowFor.mpr ⟨state, held, same, not_le.mp live⟩) ?_
      intro row listed alive
      exact (only id entry state found row listed alive).1

theorem Twinned.extend_agrees {inner after : Inner} {world : World J} (twinned : Twinned inner world)
    {ports : Ports} {lease : LeaseId} {ttl : Duration}
    {result : Outcome EventStoreError (Except DispatchError Bool)}
    (called : inner.extendLease ports lease ttl = (after, result)) (calm : result ≠ .panic)
    (precise : timestamptz ports.now = ports.now)
    (faithful : ∀ delta deadline, TimeDelta.fromStd ttl = some delta →
      ports.now.checkedAddSigned delta = some deadline → timestamptz deadline = deadline)
    (once : HeldOnce inner lease) :
    ∃ next answer, Dispatcher.extendLease world ports lease ttl = (next, answer) ∧
      (flatten id result).mapErr dispatchErrorKind = answer.mapErr dispatchErrorKind ∧ Twinned after next := by
  simp only [Dispatcher.extendLease, World.transact, Postgres.extendLease]
  unfold Inner.extendLease at called
  cases converted : TimeDelta.fromStd ttl with
  | none =>
    rw [converted] at called
    cases called
    exact ⟨world, _, rfl, rfl, twinned⟩
  | some delta =>
    rw [converted] at called
    cases added : ports.now.checkedAddSigned delta with
    | none =>
      simp only [added] at called
      cases called
      exact absurd rfl calm
    | some deadline =>
      simp only [added] at called
      have add : (.done (ports.now.add delta) : Tx J DispatchError DateTime).run Stmt.alone (world, .begin) =
          ((world, .begin), .ok deadline) := by
        rw [DateTime.add, added]
        rfl
      have view : (Transaction.begin : Transaction J).view world.tables = world.tables := rfl
      have sharp := faithful delta deadline converted added
      have update (rows : List ((_ : JobId) × DispatchRow))
          (alive : world.tables.dispatch.entries.filter (fun entry => entry.2.alive lease ports.now) = rows) :
          (query (Stmt.updateDeadline deadline lease ports.now) : Tx J DispatchError Nat).run
            Stmt.alone (world, .begin) =
            ((world, ⟨rows.map fun entry =>
              .put entry.1 { entry.2 with leaseExpiresAt := some deadline }, [], []⟩), .ok rows.length) := by
        simp only [query, Program.issue, Program.run, Stmt.alone, Stmt.exec, precise, sharp, view, alive]
        rfl
      have alive := twinned.alive once ports.now
      cases found : inner.findLease lease with
      | none =>
        rw [found] at alive
        simp only [found] at called
        cases called
        simp only
        rw [Program.run_bind_ok Stmt.alone add, Program.run_bind_ok Stmt.alone (update [] alive)]
        exact ⟨_, .ok false, rfl, rfl, twinned⟩
      | some picked =>
        obtain ⟨id, entry, state⟩ := picked
        rw [found] at alive
        simp only [found] at called
        simp only at alive
        by_cases late : state.expiresAt ≤ ports.now
        · rw [if_pos late] at alive called
          cases called
          simp only
          rw [Program.run_bind_ok Stmt.alone add, Program.run_bind_ok Stmt.alone (update [] alive)]
          exact ⟨_, .ok false, rfl, rfl, twinned⟩
        · rw [if_neg late] at alive called
          cases called
          simp only
          rw [Program.run_bind_ok Stmt.alone add, Program.run_bind_ok Stmt.alone (update _ alive)]
          obtain ⟨present, held, _⟩ := findLease_some found
          refine ⟨_, .ok true, rfl, rfl, ?_⟩
          refine twinned.extended (.of_insert deadline present held) ?_
          simp only [rowFor, held]
          rfl

end Operations

end Koine.Postgres
