import Koine.Postgres.Commits
import Koine.Postgres.Deadlock
import Koine.Postgres.Eligibility
import Koine.Postgres.Encoding

namespace Koine.Postgres

open Library Domain Application

theorem timestamptz_timestamptz (t : DateTime) : timestamptz (timestamptz t) = timestamptz t := by
  have nanos : (timestamptz (timestamptz t)).nanos = (timestamptz t).nanos := by
    simp only [timestamptz]
    split <;> split <;> omega
  exact le_antisymm (DateTime.le_iff.mpr nanos.le) (DateTime.le_iff.mpr nanos.ge)

section Batches

def decodedEvents {J : Type} [Serde J] (rows : List (EventRow J)) : List (JobId × JobEvent) :=
  rows.filterMap fun row =>
    match Serde.decodeEvent row.payload with
    | .ok event => some (row.streamId, event)
    | .error _ => none

theorem Stores.decode {stream : JobId} {envelope : EventEnvelope} {row : EventRow Value}
    (stores : Stores stream envelope row) (plain : envelope.event.NullFree) :
    row.streamId = stream ∧ Serde.decodeEvent row.payload = .ok envelope.event := by
  obtain ⟨payload, encoded, same⟩ := stores
  cases encoded
  rw [same]
  exact ⟨rfl, envelope.event.deserialize_serialize.trans (congrArg _ (JobEvent.restored_eq_iff.mpr plain))⟩

theorem decodedEvents_stores {stream : JobId} {batch : List EventEnvelope} {rows : List (EventRow Value)}
    (stores : List.Forall₂ (Stores stream) batch rows) (plain : ∀ envelope ∈ batch, envelope.event.NullFree) :
    decodedEvents rows = batch.map fun envelope => (stream, envelope.event) := by
  induction stores with
  | nil => rfl
  | cons stored rest ih =>
    rw [List.forall_mem_cons] at plain
    obtain ⟨named, decoded⟩ := stored.decode plain.1
    rw [decodedEvents, List.filterMap_cons, decoded, named, List.map_cons, ← ih plain.2]
    rfl

theorem envelopesFromRows_stores {stream : JobId} {batch : List EventEnvelope} {rows : List (EventRow Value)}
    (stores : List.Forall₂ (Stores stream) batch rows) (plain : ∀ envelope ∈ batch, envelope.event.NullFree) :
    ∃ loaded, envelopesFromRows rows = .ok loaded ∧ loaded.map (·.event) = batch.map (·.event) := by
  induction stores with
  | nil => exact ⟨[], rfl, rfl⟩
  | cons stored rest ih =>
    rw [List.forall_mem_cons] at plain
    obtain ⟨loaded, read, events⟩ := ih plain.2
    rw [envelopesFromRows, envelopeFromRow, (stored.decode plain.1).2, read]
    exact ⟨_, rfl, by rw [List.map_cons, List.map_cons, events]⟩

variable [BuildProfile]

theorem foldRows_extend {J : Type} [Serde J] {old new : List (EventRow J)} {envelopes loaded : List EventEnvelope}
    {job final : Job} (first : envelopesFromRows old = .ok envelopes) (second : envelopesFromRows new = .ok loaded)
    (folded : Job.fromEvents envelopes = .ok job) (folds : foldRows (old ++ new) = some final) :
    job.applyEvents (loaded.map (·.event)) = .ok final := by
  obtain ⟨whole, read, extended⟩ := foldRows_eq_some.mp folds
  rw [envelopesFromRows_append first second] at read
  cases read
  have sequential := (Job.sequential_append.mp (Job.fromEvents_sequential extended)).2
  rw [Nat.zero_add, ← Job.fromEvents_version folded] at sequential
  rw [Job.fromEvents_extend folded, Job.foldRest_eq_applyEvents sequential] at extended
  exact extended

/-- What a claim or a retirement decides on the stream it has loaded. -/
inductive Decides (job : Job) : Work → Ports → List JobEvent → Prop where
  | lease {ports : Ports} {queue : QueueName} {worker : WorkerId} {ttl : Duration} {event : JobEvent}
      (granted : job.lease worker ports.leaseId ports.now ttl = .ok event) :
      Decides job (.operation (.leaseNext ports queue worker ttl)) ports [event]
  | expire {ports : Ports} {events : List JobEvent}
      (retired : job.expireLease ports.now ports.jitterSeed = .ok events) :
      Decides job (.operation (.retireNextExpiredLease ports)) ports events

theorem Work.plan_decides {J : Type} [Serde J] {work : Work} {id : JobId} {rows : List (EventRow J)}
    {batch : List EventEnvelope} (planned : work.plan id rows = some batch) :
    ∃ stream job ports events, envelopesFromRows rows = .ok stream ∧ Job.fromEvents stream = .ok job ∧
      Decides job work ports events ∧ batch.map (·.event) = events ∧
      ∀ envelope ∈ batch, ∃ k, envelope.eventId = ports.eventId k := by
  have drawn : ∀ (ports : Ports) base correlationId causationId traceparent events,
      ∀ envelope ∈ wrapEvents ports id base correlationId causationId traceparent events,
        ∃ k, envelope.eventId = ports.eventId k := by
    intro ports base correlationId causationId traceparent events envelope member
    obtain ⟨k, _, rfl⟩ := List.mem_mapIdx.mp member
    exact ⟨k, rfl⟩
  unfold Work.plan at planned
  split at planned
  · rename_i stream decoded
    split at planned
    · rename_i job folded
      simp only at planned
      split at planned
      · split at planned
        · rename_i event granted
          cases planned
          exact ⟨stream, job, _, _, decoded, folded, .lease granted, wrapEvents_events .., drawn _ _ _ _ _ _⟩
        · cases planned
      · split at planned
        · rename_i events retired
          cases planned
          exact ⟨stream, job, _, _, decoded, folded, .expire retired, wrapEvents_events .., drawn _ _ _ _ _ _⟩
        · cases planned
      · cases planned
    · cases planned
  · cases planned

end Batches

section Turns

variable [BuildProfile]

/-- What the commit of a dispatcher's transaction does, by what it was after, and the events it commits. -/
inductive Turn (work : Work) (tables : Tables Value) (tx : Transaction Value) :
    Aim → List (JobId × JobEvent) → Prop where
  | idle (nothing : tx.writes = []) : Turn work tables tx .ended []
  | claimed {ports : Ports} {queue : QueueName} {worker : WorkerId} {ttl : Duration} {job : JobId}
      {batch : List EventEnvelope} {stored : Nat} {old new : DispatchRow} {deadline : DateTime}
      (call : work = .operation (.leaseNext ports queue worker ttl))
      (picked : tables.dispatch.lookup job = some old) (free : old.leaseId = none)
      (given : work.deadline = some deadline) (written : tx.moved job = some (some new))
      (lease : new.leaseId = some ports.leaseId) (expires : new.leaseExpiresAt = some (timestamptz deadline))
      (others : ∀ id, id ≠ job → tx.moved id = none) :
      Turn work tables tx (.planned job batch stored) [(job, .leased worker ports.leaseId deadline)]
  | retired {ports : Ports} {job : JobId} {batch : List EventEnvelope} {stored : Nat} {old : DispatchRow}
      {new : Option DispatchRow} {lease : LeaseId} {decision : JobEvent}
      (call : work = .operation (.retireNextExpiredLease ports))
      (picked : tables.dispatch.lookup job = some old) (held : old.leaseId = some lease)
      (due : old.expired (timestamptz ports.now) = true) (written : tx.moved job = some new)
      (freed : new.bind (·.leaseId) = none)
      (decides : (∃ attempt notBefore, decision = .retryScheduled attempt notBefore) ∨
        decision = .parked .retriesExhausted)
      (others : ∀ id, id ≠ job → tx.moved id = none) :
      Turn work tables tx (.planned job batch stored) [(job, .leaseExpired lease), (job, decision)]
  | beat {rows : Nat} (beat : Beat tables tx work rows) : Turn work tables tx (.beat rows) []

omit [BuildProfile] in
theorem columnsOf_leaseId {job : Job} {columns : DispatchColumns} (asked : columnsOf job = some columns) :
    columns.leaseId = job.state.held := by
  unfold columnsOf at asked
  cases state : job.state <;> rw [state] at asked <;> cases asked <;> rfl

variable {cluster : Cluster Value} {plans : Nat → Plan Value}

theorem Fenced.appended (fenced : Fenced cluster plans) {ticket : Nat} {session : Session Value}
    (found : cluster.sessions.lookup ticket = some session) (commits : (plans ticket).permits true .commit)
    {job : JobId} {batch : List EventEnvelope} {stored : Nat} (aim : (plans ticket).aim = .planned job batch stored)
    (some : session.tx.rows ≠ []) :
    ∃ final seq, foldRows (cluster.world.tables.streamRows job ++ session.tx.rows) = .some final ∧
      (∀ id, id ≠ job → session.tx.moved id = none) ∧
      (session.tx.moved job = .some (rowOf final seq) ∨
        session.tx.moved job = none ∧ rowOf final seq = none ∧
          cluster.world.tables.dispatch.lookup job = none) := by
  have placed := fenced.dispatching.placed ticket session found
  have projects := fenced.projects ticket session found
  have footprint := fenced.guarded.footprints ticket session found
  rw [aim] at footprint
  rcases (fenced.log.wrote ticket session found).commits commits.1 with nothing |
    ⟨stream, base, count, _, batched, _⟩
  · exact absurd nothing some
  · obtain ⟨final, phase⟩ := Phase.projected_of_batch commits.1 batched
    have named := footprint.1.batch stream base count batched
    subst named
    rw [Function.comp_apply, phase] at placed
    rw [phase] at projects
    obtain ⟨_, folds, only, _, absent⟩ := placed
    have id : final.id = stream := by
      refine foldRows_id folds ?_
      intro row member
      rcases List.mem_append.mp member with old | new
      · simpa [Tables.streamRows] using (List.mem_filter.mp old).2
      · exact footprint.1.rows row new
    rw [Projects, id] at projects
    obtain ⟨seq, written | ⟨untouched, none⟩⟩ := projects
    · exact ⟨final, seq, folds, only, .inl written⟩
    · exact ⟨final, seq, folds, only, .inr ⟨untouched, none, absent untouched⟩⟩

theorem Fenced.turn_planned (fenced : Fenced cluster plans) {ticket : Nat} {work : Work}
    {program : Tx Value Unit Unit} {tx : Transaction Value}
    (found : cluster.sessions.lookup ticket = some ⟨work, program, tx⟩)
    (commits : (plans ticket).permits true .commit) {job : JobId} {batch : List EventEnvelope} {stored : Nat}
    (aim : (plans ticket).aim = .planned job batch stored) :
    Turn work cluster.world.tables tx (.planned job batch stored) (decodedEvents tx.rows) := by
  have rests := fenced.rests ticket _ found
  have whole := commits.2
  rw [Rests, aim] at rests
  rw [aim] at whole
  rw [fenced.guarded.works ticket _ found] at rests
  obtain ⟨⟨row, picked, picks⟩, planned, stores⟩ := rests
  rw [show stored = batch.length from whole, List.take_length] at stores
  obtain ⟨stream, folded, ports, events, decoded, folds, decides, carried, _⟩ := Work.plan_decides planned
  have state : foldRows (cluster.world.tables.streamRows job) = some folded :=
    foldRows_eq_some.mpr ⟨stream, decoded, folds⟩
  -- the events of the batch leave no gap in their JSON, whatever was decided
  have shape : ∃ next, Job.Effect folded events next ∧ (∀ event ∈ events, event.NullFree) ∧ events ≠ [] := by
    cases decides with
    | lease granted =>
      obtain ⟨next, effect⟩ := Job.lease_effect granted
      obtain ⟨_, _, _, _, _, _, _, rfl⟩ := Job.lease_ok granted
      exact ⟨next, effect, by simp [JobEvent.NullFree], by simp⟩
    | expire retired =>
      obtain ⟨next, effect⟩ := Job.expireLease_effect retired
      obtain ⟨lease, attempt, decision, _, _, decided, rfl⟩ := Job.expireLease_ok retired
      refine ⟨next, effect, ?_, by simp⟩
      rcases Job.retryDecisionEvent_ok decided with ⟨_, _, _, _, _, _, _, rfl⟩ | ⟨_, rfl⟩ <;>
        simp [JobEvent.NullFree]
  obtain ⟨next, effect, plain, nonempty⟩ := shape
  have clean : ∀ envelope ∈ batch, envelope.event.NullFree := by
    intro envelope member
    apply plain
    rw [← carried]
    exact List.mem_map_of_mem member
  have inserted : tx.rows ≠ [] := by
    intro none
    rw [none, List.forall₂_nil_right_iff] at stores
    rw [stores, List.map_nil] at carried
    exact nonempty carried.symm
  obtain ⟨loaded, read, same⟩ := envelopesFromRows_stores stores clean
  obtain ⟨final, seq, extended, only, left⟩ := fenced.appended found commits aim inserted
  have applied := foldRows_extend decoded read folds extended
  rw [same, carried, effect.applies] at applied
  cases applied
  have committed : decodedEvents tx.rows = events.map fun event => (job, event) := by
    rw [decodedEvents_stores stores clean, ← carried, List.map_map]
    rfl
  rw [committed]
  cases decides with
  | lease granted =>
    obtain ⟨notBefore, delta, expiresAt, pending, _, converted, added, rfl⟩ := Job.lease_ok granted
    cases effect
    rcases left with written | ⟨_, none, _⟩
    · refine .claimed rfl picked ?_ ?_ written rfl rfl only
      · rw [Work.picks, DispatchRow.eligible, Bool.and_eq_true, Bool.and_eq_true] at picks
        exact Option.isNone_iff_eq_none.mp picks.1.2
      · rw [Work.deadline, converted]
        exact added
    · cases none
  | expire retired =>
    obtain ⟨lease, attempt, decision, held, _, decided, rfl⟩ := Job.expireLease_ok retired
    have leased : row.leaseId = some lease := by
      rcases fenced.dispatching.shows job with ⟨_, missing⟩ | ⟨other, shown, columns⟩
      · rw [missing] at picked
        cases picked
      · rw [state] at shown
        cases shown
        rw [picked, Option.map_some] at columns
        exact (columnsOf_leaseId columns.symm).trans held
    rcases left with written | ⟨_, _, missing⟩
    · refine .retired rfl picked leased picks written ?_ ?_ only
      · cases effect <;> rfl
      · rcases Job.retryDecisionEvent_ok decided with ⟨notBefore, _, _, _, _, _, _, rfl⟩ | ⟨_, rfl⟩
        · exact .inl ⟨attempt, notBefore, rfl⟩
        · exact .inr rfl
    · rw [missing] at picked
      cases picked

theorem Fenced.turn (fenced : Fenced cluster plans) {ticket : Nat} {work : Work} {program : Tx Value Unit Unit}
    {tx : Transaction Value} (found : cluster.sessions.lookup ticket = some ⟨work, program, tx⟩)
    (commits : (plans ticket).permits true .commit) :
    Turn work cluster.world.tables tx (plans ticket).aim (decodedEvents tx.rows) := by
  have rests := fenced.rests ticket _ found
  have footprint := fenced.guarded.footprints ticket _ found
  have aimed := commits.2
  rw [Rests, fenced.guarded.works ticket _ found] at rests
  cases aim : (plans ticket).aim with
  | planned job batch stored => exact fenced.turn_planned found commits aim
  | beat rows =>
    rw [aim] at rests footprint
    have none : tx.rows = [] := footprint.1
    rw [none]
    exact .beat rests
  | ended =>
    rw [aim] at rests
    have none : tx.writes = [] := rests commits.1
    rw [Transaction.rows, none]
    exact .idle none
  | fresh | picked | settled | beaten =>
    rw [aim] at aimed
    exact aimed.elim

end Turns

section Leases

def Tables.leaseOf {J : Type} (tables : Tables J) (id : JobId) : Option LeaseId :=
  (tables.dispatch.lookup id).bind (·.leaseId)

variable {work : Work} {tables : Tables Value} {tx : Transaction Value} {aim : Aim}
  {events : List (JobId × JobEvent)}

theorem leaseOf_unmoved {id : JobId} (unmoved : tx.moved id = none) :
    (tx.view tables).leaseOf id = tables.leaseOf id := by
  rw [Tables.leaseOf, Transaction.view_dispatch, unmoved]
  rfl

theorem leaseOf_moved {id : JobId} {row : Option DispatchRow} (moved : tx.moved id = some row) :
    (tx.view tables).leaseOf id = row.bind (·.leaseId) := by
  rw [Tables.leaseOf, Transaction.view_dispatch, moved]
  rfl

theorem Turn.leaseOf (turn : Turn work tables tx aim events) (id : JobId) :
    (tx.view tables).leaseOf id = tables.leaseOf id ∨
      (tables.leaseOf id = none ∧ ∃ worker lease deadline, (tx.view tables).leaseOf id = some lease ∧
        (id, .leased worker lease deadline) ∈ events) ∨
      ((tx.view tables).leaseOf id = none ∧ ∃ lease, tables.leaseOf id = some lease ∧
        (id, .leaseExpired lease) ∈ events) := by
  cases turn with
  | idle nothing =>
    left
    rw [Transaction.view, nothing]
    rfl
  | @claimed ports _ worker _ job _ _ _ _ deadline _ picked free _ written lease _ others =>
    by_cases here : id = job
    · subst here
      refine .inr (.inl ⟨?_, worker, ports.leaseId, deadline, ?_, List.mem_singleton_self _⟩)
      · rw [Tables.leaseOf, picked]
        exact free
      · rw [leaseOf_moved written]
        exact lease
    · exact .inl (leaseOf_unmoved (others id here))
  | @retired _ job _ _ _ _ lease _ _ picked held _ written freed _ others =>
    by_cases here : id = job
    · subst here
      refine .inr (.inr ⟨?_, lease, ?_, List.mem_cons_self⟩)
      · rw [leaseOf_moved written]
        exact freed
      · rw [Tables.leaseOf, picked]
        exact held
    · exact .inl (leaseOf_unmoved (others id here))
  | beat beat =>
    left
    cases moved : tx.moved id with
    | none => exact leaseOf_unmoved moved
    | some row =>
      obtain ⟨old, deadline, present, _, _, rfl⟩ := beat.moved id row moved
      rw [leaseOf_moved moved, Tables.leaseOf, present]
      rfl

theorem Turn.expired (turn : Turn work tables tx aim events) {id : JobId} {lease : LeaseId}
    (committed : (id, .leaseExpired lease) ∈ events) :
    (tx.view tables).leaseOf id = none ∧ ∃ ports row, work = .operation (.retireNextExpiredLease ports) ∧
      tables.dispatch.lookup id = some row ∧ row.leaseId = some lease ∧
      row.expired (timestamptz ports.now) = true := by
  cases turn with
  | idle => cases committed
  | claimed =>
    rw [List.mem_singleton] at committed
    cases committed
  | @retired ports job _ _ row _ own _ call picked held due written freed decides _ =>
    have named : (id, JobEvent.leaseExpired lease) = (job, .leaseExpired own) := by
      rcases List.mem_cons.mp committed with same | listed
      · exact same
      · rw [List.mem_singleton] at listed
        rcases decides with ⟨_, _, rfl⟩ | rfl <;> cases listed
    cases named
    exact ⟨(leaseOf_moved written).trans freed, ports, row, call, picked, held, due⟩
  | beat => cases committed

theorem Turn.deadline (turn : Turn work tables tx aim events) {id : JobId} {row : DispatchRow}
    (present : (tx.view tables).dispatch.lookup id = some row) (leased : row.leaseId ≠ none) :
    (tx.moved id = none ∧ tables.dispatch.lookup id = some row) ∨
      ∃ deadline, (tx.moved id).isSome = true ∧ work.deadline = some deadline ∧
        row.leaseExpiresAt = some (timestamptz deadline) := by
  rw [Transaction.view_dispatch] at present
  cases moved : tx.moved id with
  | none =>
    rw [moved] at present
    exact .inl ⟨rfl, present⟩
  | some value =>
    rw [moved] at present
    change value = some row at present
    subst present
    right
    cases turn with
    | idle nothing =>
      rw [Transaction.moved, nothing] at moved
      cases moved
    | @claimed _ _ _ _ job _ _ _ _ deadline _ _ _ given written _ expires others =>
      by_cases here : id = job
      · subst here
        rw [moved] at written
        cases written
        exact ⟨deadline, rfl, given, expires⟩
      · rw [others id here] at moved
        cases moved
    | @retired _ job _ _ _ _ _ _ _ _ _ _ written freed _ others =>
      by_cases here : id = job
      · subst here
        rw [moved] at written
        cases written
        exact absurd freed leased
      · rw [others id here] at moved
        cases moved
    | beat beat =>
      obtain ⟨old, deadline, _, _, given, value⟩ := beat.moved id _ moved
      cases value
      exact ⟨deadline, rfl, given, rfl⟩

end Leases

section Runs

def committedEvents {J : Type} [Serde J] (record : Record (Cluster J) Label Unit) : List (JobId × JobEvent) :=
  decodedEvents (record.after.world.tables.events.drop record.before.world.tables.events.length)

/-- The deadline that a job gets in a step: one that commits a claim or a heartbeat which wrote its row. -/
def deadlineGiven {J : Type} (record : Record (Cluster J) Label Unit) (id : JobId) : Option DateTime :=
  match record.label with
  | .advance ticket _ =>
    match record.before.sessions.lookup ticket with
    | some ⟨work, .call .commit _, tx⟩ => if (tx.moved id).isSome then work.deadline else none
    | _ => none
  | _ => none

/-- The deadline last accepted for a job; before the run, that of its row. -/
def acceptedDeadline {J : Type} (origin : Cluster J) (id : JobId) :
    List (Record (Cluster J) Label Unit) → Option DateTime
  | [] => (origin.world.tables.dispatch.lookup id).bind (·.leaseExpiresAt)
  | record :: older => (deadlineGiven record id).or (acceptedDeadline origin id older)

variable [BuildProfile]

def commitAnswer {J : Type} [Serde J] (older : List (Record (Cluster J) Label Unit))
    (record : Record (Cluster J) Label Unit) : Option Answer :=
  match record.label with
  | .advance ticket _ =>
    match pending older ticket with
    | some (.call .commit next) =>
      match next () with
      | .done (.ok answer) => answer
      | _ => none
    | _ => none
  | _ => none

/-- A run of `PostgresDispatcher` transactions and nothing else, on tables that follow the log. -/
structure DispatcherRun (origin : Cluster Value) (history : List (Record (Cluster Value) Label Unit))
    (cluster : Cluster Value) : Prop where
  quiet : ∀ ticket, origin.sessions.lookup ticket = none
  coherent : Coherent origin.world.tables
  run : Run Cluster.Step origin history cluster
  works : ∀ record ∈ history, ∀ ticket work, record.label = .start ticket work → work.ofDispatcher = true

inductive Did (older : List (Record (Cluster Value) Label Unit)) (record : Record (Cluster Value) Label Unit) :
    Prop where
  | still (tables : record.after.world.tables = record.before.world.tables)
      (silent : commitAnswer older record = none) (given : ∀ id, deadlineGiven record id = none)
  | commit {ticket : Nat} {verdict : Verdict} {work : Work} {rest : Unit → Tx Value Unit Unit}
      {tx : Transaction Value} {aim : Aim} (label : record.label = .advance ticket verdict)
      (found : record.before.sessions.lookup ticket = some ⟨work, .call .commit rest, tx⟩)
      (tables : record.after.world.tables = tx.view record.before.world.tables)
      (turn : Turn work record.before.world.tables tx aim (committedEvents record))
      (answers : ∀ answer, commitAnswer older record = some answer →
        (aim.after work (.commit : Stmt Value) ()).answers (some answer) ∧ work.replies answer = true)

variable {origin cluster : Cluster Value} {history newer older : List (Record (Cluster Value) Label Unit)}
  {record : Record (Cluster Value) Label Unit}

theorem DispatcherRun.past (run : DispatcherRun origin (newer ++ record :: older) cluster) :
    DispatcherRun origin older record.before where
  quiet := run.quiet
  coherent := run.coherent
  run := run.run.split.1
  works := fun step member => run.works step (List.mem_append_right _ (List.mem_cons_of_mem _ member))

theorem DispatcherRun.did (run : DispatcherRun origin (newer ++ record :: older) cluster) : Did older record := by
  obtain ⟨plans, following, fenced⟩ := Run.fenced run.quiet run.coherent run.past.run run.past.works
  obtain ⟨_, taken, _⟩ := run.run.split
  obtain ⟨before, label, _, after⟩ := record
  unfold Cluster.Step at taken
  cases label with
  | start ticket work =>
    simp only [Label.step] at taken
    split at taken
    · cases taken
    · cases taken
      exact .still rfl rfl fun _ => rfl
  | abort ticket =>
    simp only [Label.step, Option.some.injEq] at taken
    subst taken
    exact .still rfl rfl fun _ => rfl
  | advance ticket verdict =>
    simp only [Label.step] at taken
    split at taken
    · cases taken
    · rename_i work result tx found
      cases taken
      obtain ⟨program, due, same, _⟩ := following ticket _ found
      refine .still rfl ?_ ?_
      · cases program with
        | done result => simp only [commitAnswer, due]
        | call => cases same
      · intro id
        simp only [deadlineGiven, found]
    · rename_i work statement rest tx found
      split at taken
      · cases taken
      · cases taken
        obtain ⟨program, due, same, obeys⟩ := following ticket _ found
        obtain ⟨next, rfl, _⟩ := Program.shape_call same
        by_cases commit : statement = .commit
        · subst commit
          have events : decodedEvents tx.rows = committedEvents
              ⟨before, .advance ticket verdict, (), before.resume ticket
                { before.world with tables := tx.view before.world.tables } ⟨work, rest (), .begin⟩⟩ := by
            rw [committedEvents]
            change _ = decodedEvents ((tx.view before.world.tables).events.drop _)
            rw [Transaction.view_events, List.drop_left]
          have turn := fenced.turn found obeys.1
          rw [events] at turn
          refine .commit rfl found rfl turn ?_
          intro answer settled
          simp only [commitAnswer, due] at settled
          split at settled
          · rename_i returned ended
            have last := obeys.2 ()
            rw [ended, settled] at last
            have own : (plans ticket).work = work := fenced.guarded.works ticket _ found
            rw [← own]
            exact ⟨last.1, last.2 answer rfl⟩
          · cases settled
        · refine .still (exec_tables statement commit) ?_ ?_
          · simp only [commitAnswer, due]
            cases statement <;> first | rfl | exact absurd rfl commit
          · intro id
            simp only [deadlineGiven, found]
            cases statement <;> first | rfl | exact absurd rfl commit

theorem DispatcherRun.did_of_mem (run : DispatcherRun origin history cluster) (member : record ∈ history) :
    ∃ older, Did older record := by
  obtain ⟨newer, older, rfl⟩ := List.append_of_mem member
  exact ⟨older, run.did⟩

omit [BuildProfile] in
theorem committedEvents_still (same : record.after.world.tables = record.before.world.tables) :
    committedEvents record = [] := by
  rw [committedEvents, same, List.drop_length]
  rfl

theorem Did.leaseOf (did : Did older record) (id : JobId) :
    record.after.world.tables.leaseOf id = record.before.world.tables.leaseOf id ∨
      (record.before.world.tables.leaseOf id = none ∧ ∃ worker lease deadline,
        record.after.world.tables.leaseOf id = some lease ∧
        (id, .leased worker lease deadline) ∈ committedEvents record) ∨
      (record.after.world.tables.leaseOf id = none ∧ ∃ lease,
        record.before.world.tables.leaseOf id = some lease ∧ (id, .leaseExpired lease) ∈ committedEvents record) := by
  cases did with
  | still tables =>
    left
    rw [tables]
  | commit label found tables turn answers =>
    rw [tables]
    exact turn.leaseOf id

theorem DispatcherRun.granted {middle : List (Record (Cluster Value) Label Unit)}
    (run : DispatcherRun origin (middle ++ record :: older) cluster) {id : JobId} {lease : LeaseId}
    (before : record.after.world.tables.leaseOf id ≠ some lease)
    (after : cluster.world.tables.leaseOf id = some lease) :
    ∃ step ∈ middle, ∃ worker deadline, (id, .leased worker lease deadline) ∈ committedEvents step := by
  obtain ⟨step, member, outside, inside⟩ := Run.crossing
    (fun cluster => cluster.world.tables.leaseOf id = some lease) run.run.split.2.2 before after
  obtain ⟨_, did⟩ := run.did_of_mem (List.mem_append_left _ member)
  rcases did.leaseOf id with same | ⟨_, worker, other, deadline, under, listed⟩ | ⟨freed, _⟩
  · exact absurd (same.symm.trans inside) outside
  · rw [inside] at under
    cases under
    exact ⟨step, member, worker, deadline, listed⟩
  · rw [inside] at freed
    cases freed

theorem DispatcherRun.released {middle : List (Record (Cluster Value) Label Unit)}
    (run : DispatcherRun origin (middle ++ record :: older) cluster) {id : JobId}
    (before : record.after.world.tables.leaseOf id ≠ none) (after : cluster.world.tables.leaseOf id = none) :
    ∃ step ∈ middle, ∃ lease, (id, .leaseExpired lease) ∈ committedEvents step := by
  obtain ⟨step, member, outside, inside⟩ := Run.crossing
    (fun cluster => cluster.world.tables.leaseOf id = none) run.run.split.2.2 before after
  obtain ⟨_, did⟩ := run.did_of_mem (List.mem_append_left _ member)
  rcases did.leaseOf id with same | ⟨free, _⟩ | ⟨_, lease, _, listed⟩
  · exact absurd (same.symm.trans inside) outside
  · exact absurd free outside
  · exact ⟨step, member, lease, listed⟩

theorem Did.claimed (did : Did older record) {job : LeasedJob}
    (answer : commitAnswer older record = some (.leased (.ok (some job)))) :
    record.before.world.tables.leaseOf job.jobId = none ∧ record.after.world.tables.leaseOf job.jobId ≠ none := by
  cases did with
  | still _ silent =>
    rw [silent] at answer
    cases answer
  | commit label found tables turn answers =>
    obtain ⟨⟨batch, settled⟩, kind⟩ := answers _ answer
    rw [tables]
    generalize committedEvents record = events at turn
    cases turn with
    | idle => cases settled
    | claimed call picked free given written lease =>
      cases settled
      refine ⟨?_, ?_⟩
      · rw [Tables.leaseOf, picked]
        exact free
      · rw [leaseOf_moved written]
        exact lease.trans_ne (by simp)
    | retired call =>
      rw [call] at kind
      cases kind
    | beat => cases settled

theorem Did.expired (did : Did older record) {id : JobId} {lease : LeaseId}
    (committed : (id, .leaseExpired lease) ∈ committedEvents record) :
    record.after.world.tables.leaseOf id = none ∧ ∃ ticket verdict ports rest tx row,
      record.label = .advance ticket verdict ∧
      record.before.sessions.lookup ticket = some ⟨.operation (.retireNextExpiredLease ports), rest, tx⟩ ∧
      record.before.world.tables.dispatch.lookup id = some row ∧ row.leaseId = some lease ∧
      row.expired (timestamptz ports.now) = true := by
  cases did with
  | still tables =>
    rw [committedEvents_still tables] at committed
    cases committed
  | commit label found tables turn answers =>
    obtain ⟨freed, ports, row, rfl, held⟩ := turn.expired committed
    rw [tables]
    exact ⟨freed, _, _, ports, _, _, row, label, found, held⟩

theorem Did.beaten (did : Did older record) {ticket : Nat} {verdict : Verdict} {ports : Ports} {lease : LeaseId}
    {ttl : Duration} {program : Tx Value Unit Unit} {tx : Transaction Value}
    (label : record.label = .advance ticket verdict)
    (found : record.before.sessions.lookup ticket = some ⟨.operation (.extendLease ports lease ttl), program, tx⟩)
    (answer : commitAnswer older record = some (.extended (.ok true))) :
    ∃ id, record.before.world.tables.leaseOf id = some lease := by
  cases did with
  | still _ silent =>
    rw [silent] at answer
    cases answer
  | commit named ongoing tables turn answers =>
    rw [label] at named
    cases named
    rw [found] at ongoing
    cases ongoing
    obtain ⟨⟨rows, beaten, positive⟩, _⟩ := answers _ answer
    generalize committedEvents record = events at turn
    cases turn with
    | idle => cases beaten
    | claimed call => cases call
    | retired call => cases call
    | beat beat =>
      cases beaten
      obtain ⟨id, moved⟩ := beat.some (of_decide_eq_true positive.symm)
      obtain ⟨row, value⟩ := Option.isSome_iff_exists.mp moved
      obtain ⟨old, _, present, alive, _⟩ := beat.moved id row value
      rw [Work.beats, DispatchRow.alive, Bool.and_eq_true, decide_eq_true_eq] at alive
      refine ⟨id, ?_⟩
      rw [Tables.leaseOf, present]
      exact alive.1

theorem DispatcherRun.deadline (run : DispatcherRun origin history cluster) {id : JobId} {row : DispatchRow}
    (present : cluster.world.tables.dispatch.lookup id = some row) (leased : row.leaseId ≠ none) :
    row.leaseExpiresAt.map timestamptz = (acceptedDeadline origin id history).map timestamptz := by
  induction history generalizing cluster row with
  | nil =>
    have stays := run.run
    cases stays
    rw [acceptedDeadline, present]
    rfl
  | cons record older ih =>
    have whole : DispatcherRun origin ([] ++ record :: older) cluster := run
    have last : cluster = record.after := by
      have stays := run.run
      cases stays
      rfl
    rw [last] at present
    rw [acceptedDeadline]
    cases whole.did with
    | still tables _ given =>
      rw [tables] at present
      rw [given id, Option.none_or]
      exact ih whole.past present leased
    | @commit ticket _ work rest tx _ label found tables turn =>
      have given : deadlineGiven record id = if (tx.moved id).isSome then work.deadline else none := by
        rw [deadlineGiven, label]
        simp only [found]
      rw [tables] at present
      rw [given]
      rcases turn.deadline present leased with ⟨unmoved, before⟩ | ⟨deadline, moved, new, column⟩
      · rw [unmoved]
        exact ih whole.past before leased
      · rw [if_pos moved, new, column]
        simp only [Option.map_some, Option.some_or, timestamptz_timestamptz]

end Runs

section Waits

def Work.ports : Work → Option Ports
  | .operation (.leaseNext ports ..) | .operation (.extendLease ports ..)
  | .operation (.retireNextExpiredLease ports) => some ports
  | _ => none

def Cluster.DrawsApart {J : Type} (cluster : Cluster J) : Prop :=
  ∀ ticket other session rival ports theirs, other ≠ ticket →
    cluster.sessions.lookup ticket = some session → cluster.sessions.lookup other = some rival →
    session.work.ports = some ports → rival.work.ports = some theirs →
    ∀ i j, ports.eventId i ≠ theirs.eventId j

variable [BuildProfile] {J : Type} [Serde J] {cluster : Cluster J} {plans : Nat → Plan J}

theorem Fenced.waiting (fenced : Fenced cluster plans) {ticket : Nat} {work : Work} {statement : Stmt J}
    {rest : statement.Reply → Tx J Unit Unit} {tx : Transaction J}
    (found : cluster.sessions.lookup ticket = some ⟨work, .call statement rest, tx⟩)
    (permitted : (plans ticket).permits true statement) {view : Tables J} {others : List (Transaction J)}
    (waits : statement.waits view others = true) :
    tx = .begin ∨ ∃ job batch stored, (plans ticket).aim = .planned job batch stored := by
  have footprint := fenced.guarded.footprints ticket _ found
  have aimed := permitted.2
  have dispatcher := fenced.works ticket _ found
  rw [fenced.guarded.works ticket _ found] at aimed
  cases aim : (plans ticket).aim with
  | fresh =>
    rw [aim] at footprint
    exact .inl footprint.1
  | planned job batch stored => exact .inr ⟨job, batch, stored, rfl⟩
  | picked | beat | settled | beaten =>
    rw [aim] at aimed
    cases statement <;> first | cases waits | exact aimed.elim
  | ended =>
    rw [aim] at aimed
    cases statement with
    | deleteOutbox seqs =>
      cases work with
      | relay size => cases dispatcher
      | operation operation => cases aimed
    | _ => first | cases waits | exact aimed.elim

theorem Fenced.drawn (fenced : Fenced cluster plans) {ticket : Nat} {session : Session J}
    (found : cluster.sessions.lookup ticket = some session) {job : JobId} {batch : List EventEnvelope} {stored : Nat}
    (aim : (plans ticket).aim = .planned job batch stored) :
    ∃ ports, session.work.ports = some ports ∧
      (∀ envelope ∈ batch, ∃ k, envelope.eventId = ports.eventId k) ∧
      ∀ row ∈ session.tx.rows, row.streamId = job ∧ ∃ k, row.eventId = ports.eventId k := by
  have rests := fenced.rests ticket session found
  rw [Rests, aim, fenced.guarded.works ticket session found] at rests
  obtain ⟨_, planned, stores⟩ := rests
  obtain ⟨_, _, ports, events, _, _, decides, _, drawn⟩ := Work.plan_decides planned
  refine ⟨ports, ?_, drawn, ?_⟩
  · generalize session.work = work at decides
    cases decides <;> rfl
  · intro row member
    obtain ⟨envelope, listed, payload, _, same⟩ := exists_of_mem_right stores member
    rw [same]
    exact ⟨rfl, drawn envelope (List.mem_of_mem_take listed)⟩

theorem Fenced.passes (fenced : Fenced cluster plans) (apart : cluster.DrawsApart) {ticket other : Nat}
    {session rival : Session J} (different : other ≠ ticket)
    (found : cluster.sessions.lookup ticket = some session)
    (ongoing : cluster.sessions.lookup other = some rival) {job target : JobId} {batch envelopes : List EventEnvelope}
    {stored count : Nat} (aim : (plans ticket).aim = .planned job batch stored)
    (theirs : (plans other).aim = .planned target envelopes count) {statement : Stmt J}
    (permitted : (plans ticket).permits true statement) (view : Tables J) :
    statement.waits view [rival.tx] = false := by
  have mine := fenced.guarded.footprints ticket session found
  have dispatcher := fenced.works ticket session found
  rw [← fenced.guarded.works ticket session found] at dispatcher
  rw [aim] at mine
  have free : rival.tx.holdsRow job = false :=
    fenced.guarded.exclusive ticket other session rival different found ongoing job (mine.locks dispatcher)
  have rivals := fenced.guarded.footprints other rival ongoing
  have kind := fenced.works other rival ongoing
  rw [← fenced.guarded.works other rival ongoing] at kind
  rw [theirs] at rivals
  have distinct : target ≠ job := by
    rintro rfl
    rw [rivals.locks kind] at free
    cases free
  obtain ⟨kept, aimed⟩ := permitted
  rw [aim] at aimed
  -- the row that is projected is that of the job it appends to
  have projected : ∀ stream base size final, (plans ticket).phase = .folded stream base size final →
      final.id = job := mine.1.folded
  cases statement with
  | insertEvent columns =>
    obtain ⟨envelope, payload, here, _, rfl⟩ := aimed
    obtain ⟨ports, own, drawn, _⟩ := fenced.drawn found aim
    obtain ⟨foreign, also, _, inserted⟩ := fenced.drawn ongoing theirs
    obtain ⟨k, id⟩ := drawn envelope (List.mem_of_getElem? here)
    rw [← Bool.not_eq_true]
    intro waits
    simp only [Stmt.waits, Bool.and_eq_true, Bool.or_eq_true, List.any_eq_true, List.mem_singleton,
      exists_eq_left, decide_eq_true_eq] at waits
    obtain ⟨_, ⟨row, member, same⟩ | ⟨_, row, member, same, _⟩⟩ := waits
    · obtain ⟨_, i, number⟩ := inserted row member
      have differs := apart ticket other session rival ports foreign different found ongoing own also k i
      exact differs (id.symm.trans (same.symm.trans number))
    · exact distinct ((inserted row member).1.symm.trans same)
  | upsertPending | upsertLeased | deleteDispatch =>
    cases phase : (plans ticket).phase with
    | folded stream base size final =>
      rw [phase] at kept
      simp [Stmt.waits, kept.1, projected stream base size final phase, free]
    | _ =>
      rw [phase] at kept
      exact kept.elim
  | updateDeadline | deleteOutbox => exact aimed.elim
  | _ => rfl

/-- No two dispatchers wait for each other: one that has to wait has nothing that the other could want. -/
theorem Fenced.no_deadlock (fenced : Fenced cluster plans) {history : List (Record (Cluster J) Label Unit)}
    (following : Following (Plan.permits true) Plan.after Plan.answers history cluster plans)
    (apart : cluster.DrawsApart) {ticket other : Nat} (different : other ≠ ticket) :
    ¬ (cluster.waitsFor ticket other = true ∧ cluster.waitsFor other ticket = true) := by
  rintro ⟨waits, blocked⟩
  obtain ⟨_, statement, _, tx, rival, found, ongoing, waits⟩ := Cluster.waitsFor_iff.mp waits
  obtain ⟨_, _, _, held, session, back, here, blocked⟩ := Cluster.waitsFor_iff.mp blocked
  rw [found] at here
  cases here
  rw [ongoing] at back
  cases back
  have idle : ∀ (statement : Stmt J) view, statement.waits view [Transaction.begin] = false :=
    waits_idle rfl (fun _ => rfl) rfl
  rcases fenced.waiting found (following.permitted found) waits with rfl | ⟨job, batch, stored, aim⟩
  · rw [idle] at blocked
    cases blocked
  · rcases fenced.waiting ongoing (following.permitted ongoing) blocked with rfl | ⟨target, envelopes, count, theirs⟩
    · rw [idle] at waits
      cases waits
    · rw [fenced.passes apart different found ongoing aim theirs (following.permitted found)] at waits
      cases waits

end Waits

section Fence

def GrantedIn (steps : List (Record (Cluster Value) Label Unit)) (id : JobId) (lease : LeaseId) : Prop :=
  ∃ record ∈ steps, ∃ worker deadline, (id, .leased worker lease deadline) ∈ committedEvents record

variable [BuildProfile]

/-- Fencing of leases over all steps of a run. -/
structure DispatcherFence (origin : Cluster Value) (history : List (Record (Cluster Value) Label Unit))
    (cluster : Cluster Value) : Prop where
  claims : ∀ newer second middle first older (left right : LeasedJob),
    history = newer ++ second :: (middle ++ first :: older) →
    commitAnswer older first = some (.leased (.ok (some left))) →
    commitAnswer (middle ++ first :: older) second = some (.leased (.ok (some right))) →
    right.jobId = left.jobId →
    ∃ record ∈ middle, ∃ lease, (left.jobId, .leaseExpired lease) ∈ committedEvents record
  expiries : ∀ newer second middle first older id lease,
    history = newer ++ second :: (middle ++ first :: older) →
    (id, .leaseExpired lease) ∈ committedEvents first →
    (id, .leaseExpired lease) ∈ committedEvents second → GrantedIn middle id lease
  retirements : ∀ newer record older id lease, history = newer ++ record :: older →
    (id, .leaseExpired lease) ∈ committedEvents record →
    ∃ ticket verdict ports rest tx deadline, record.label = .advance ticket verdict ∧
      record.before.sessions.lookup ticket = some ⟨.operation (.retireNextExpiredLease ports), rest, tx⟩ ∧
      acceptedDeadline origin id older = some deadline ∧ timestamptz deadline ≤ timestamptz ports.now ∧
      (Precise [deadline, ports.now] → deadline ≤ ports.now)
  heartbeats : ∀ newer second middle first older id lease ticket verdict ports ttl rest tx alive,
    history = newer ++ second :: (middle ++ first :: older) →
    (id, .leaseExpired lease) ∈ committedEvents first → second.label = .advance ticket verdict →
    second.before.sessions.lookup ticket = some ⟨.operation (.extendLease ports lease ttl), rest, tx⟩ →
    commitAnswer (middle ++ first :: older) second = some (.extended (.ok alive)) →
    ¬ GrantedIn middle id lease →
    (∀ other, second.before.world.tables.leaseOf other = some lease → other = id) → alive = false
  waits : cluster.DrawsApart → ∀ ticket other, other ≠ ticket →
    ¬ (cluster.waitsFor ticket other = true ∧ cluster.waitsFor other ticket = true)

/-- Claims, heartbeats and retirements that run side by side, statement by statement, keep the fence. -/
theorem dispatcher_fencing {origin cluster : Cluster Value} {history : List (Record (Cluster Value) Label Unit)}
    (run : DispatcherRun origin history cluster) : DispatcherFence origin history cluster where
  claims := by
    rintro newer second middle first older left right rfl earlier later same
    obtain ⟨_, leased⟩ := run.past.did.claimed earlier
    obtain ⟨free, _⟩ := run.did.claimed later
    rw [same] at free
    exact run.past.released leased free
  expiries := by
    rintro newer second middle first older id lease rfl earlier later
    obtain ⟨freed, _⟩ := run.past.did.expired earlier
    obtain ⟨_, _, _, _, _, _, row, _, _, present, held, _⟩ := run.did.expired later
    refine run.past.granted ?_ ?_
    · rw [freed]
      simp
    · rw [Tables.leaseOf, present]
      exact held
  retirements := by
    rintro newer record older id lease rfl committed
    obtain ⟨_, ticket, verdict, ports, rest, tx, row, label, found, present, held, due⟩ :=
      run.did.expired committed
    have same := run.past.deadline present (held.trans_ne (by simp))
    rw [DispatchRow.expired, Bool.and_eq_true, Option.any_eq_true] at due
    obtain ⟨column, shown, reached⟩ := due.2
    rw [shown, Option.map_some, eq_comm, Option.map_eq_some_iff] at same
    obtain ⟨deadline, last, cut⟩ := same
    have passed : timestamptz deadline ≤ timestamptz ports.now := by
      rw [cut, ← timestamptz_timestamptz ports.now]
      exact timestamptz_mono (of_decide_eq_true reached)
    refine ⟨ticket, verdict, ports, rest, tx, deadline, label, found, last, passed, ?_⟩
    intro precise
    rw [precise deadline (by simp), precise ports.now (by simp)] at passed
    exact passed
  heartbeats := by
    rintro newer second middle first older id lease ticket verdict ports ttl rest tx alive rfl expired label found
      answer ungranted sole
    rw [← Bool.not_eq_true]
    rintro rfl
    obtain ⟨freed, _⟩ := run.past.did.expired expired
    obtain ⟨other, held⟩ := run.did.beaten label found answer
    have here := sole other held
    subst here
    refine ungranted (run.past.granted ?_ held)
    rw [freed]
    simp
  waits := by
    intro apart ticket other different
    obtain ⟨plans, following, fenced⟩ := Run.fenced run.quiet run.coherent run.run run.works
    exact fenced.no_deadlock following apart different

def Label.attemptFrom (origin : Cluster Value) (labels : List Label) :
    Option (List (Record (Cluster Value) Label Unit) × Cluster Value) :=
  Run.attempt (fun label cluster => (label.step cluster).map (·, ())) origin labels

def oneJob : Cluster Value :=
  ((Label.attempt (Label.advances 0 8 ++
    [.start 0 (.operation (.append ⟨1⟩ 0 (Sample.command.envelopes (Sample.ports 0 1))))])).map (·.2)).getD .empty

end Fence

section Samples

theorem oneJob_ready :
    let _ := BuildProfile.release
    (∀ ticket, oneJob.sessions.lookup ticket = none) ∧ Coherent oneJob.world.tables := by
  intro _
  have stored : (Label.attempt (Label.advances 0 8 ++
      [.start 0 (.operation (.append ⟨1⟩ 0 (Sample.command.envelopes (Sample.ports 0 1))))]) :
      Option (_ × Cluster Value)).isSome = true := by decide +kernel
  obtain ⟨⟨history, cluster⟩, ran⟩ := Option.isSome_iff_exists.mp stored
  have here : oneJob = cluster := by rw [oneJob, ran]; rfl
  have quiet : oneJob.sessions.entries = [] := by decide +kernel
  obtain ⟨run, labels⟩ := Label.of_attempt ran
  refine ⟨?_, ?_⟩
  · intro ticket
    rw [AList.lookup_eq_none, AList.mem_keys, AList.keys, quiet]
    exact List.not_mem_nil
  · rw [here]
    refine dispatch_follows_log run ?_
    intro record member ticket stream expected envelopes label
    have listed := List.mem_map_of_mem (f := (·.label)) member
    rw [labels, label] at listed
    simp [Label.advances] at listed
    rw [listed.2.2.2]
    simp [EnqueueCommand.envelopes, wrapEvents]

theorem dispatcherRun_of_attempt {labels : List Label} (kinds : (labels.all fun
      | .start _ work => work.ofDispatcher
      | _ => true) = true) :
    let _ := BuildProfile.release
    ∀ history cluster, Label.attemptFrom oneJob labels = some (history, cluster) →
      DispatcherRun oneJob history cluster ∧ history.map (·.label) = labels := by
  intro _ history cluster ran
  obtain ⟨run, same⟩ : Run Cluster.Step oneJob history cluster ∧ history.map (·.label) = labels := by
    refine Run.of_attempt ?_ ran
    intro label before after result taken
    simpa [Cluster.Step] using taken
  refine ⟨⟨oneJob_ready.1, oneJob_ready.2, run, ?_⟩, same⟩
  intro record member ticket work label
  have listed := List.mem_map_of_mem (f := (·.label)) member
  rw [same, label] at listed
  exact List.all_eq_true.mp kinds _ listed

/-- Connection 2 has moved the deadline from 11 s to 105 s when connection 3 looks for overdue leases at
    20 s and skips the locked row; connection 4 retires the lease at 200 s, connection 5 claims the job
    again at 300 s, and a heartbeat of the old lease comes too late. -/
def fencedLabels : List Label :=
  Label.advances 6 2 ++ [.start 6 (.operation (.extendLease (Sample.ports 301 6) ⟨2⟩ (.fromSecs 100)))] ++
    Label.advances 5 9 ++
    [.start 5 (.operation (.leaseNext (Sample.ports 300 5) Sample.queue Sample.worker (.fromSecs 10)))] ++
    Label.advances 4 12 ++ [.start 4 (.operation (.retireNextExpiredLease (Sample.ports 200 4)))] ++
    Label.advances 2 2 ++ Label.advances 3 3 ++
    [.start 3 (.operation (.retireNextExpiredLease (Sample.ports 20 3)))] ++ Label.advances 2 1 ++
    [.start 2 (.operation (.extendLease (Sample.ports 5 3) ⟨2⟩ (.fromSecs 100)))] ++ Label.advances 1 9 ++
    [.start 1 (.operation (.leaseNext (Sample.ports 1 2) Sample.queue Sample.worker (.fromSecs 10)))]

theorem dispatcher_fencing_late_heartbeat :
    let _ := BuildProfile.release
    ∃ history cluster, Label.attemptFrom oneJob fencedLabels = some (history, cluster) ∧
      (history.reverse.flatMap committedEvents).map (·.2.kind) =
        ["leased", "lease_expired", "retry_scheduled", "leased"] ∧
      DispatcherRun oneJob history cluster ∧ DispatcherFence oneJob history cluster := by
  intro _
  have seen : (Label.attemptFrom oneJob fencedLabels).map (fun ran =>
      (ran.1.reverse.flatMap committedEvents).map (·.2.kind)) =
      some ["leased", "lease_expired", "retry_scheduled", "leased"] := by decide +kernel
  rw [Option.map_eq_some_iff] at seen
  obtain ⟨⟨history, cluster⟩, ran, kinds⟩ := seen
  obtain ⟨run, _⟩ := dispatcherRun_of_attempt (by decide) history cluster ran
  exact ⟨history, cluster, ran, kinds, run, dispatcher_fencing run⟩

/-- A lease that runs until 10 s and 1800 ns, and a retirement at 10 s and 1500 ns. -/
def earlyLabels : List Label :=
  Label.advances 2 11 ++
    [.start 2 (.operation (.retireNextExpiredLease { Sample.ports 0 3 with now := Sample.finely 10 1500 }))] ++
    Label.advances 1 9 ++
    [.start 1 (.operation (.leaseNext { Sample.ports 0 2 with now := Sample.finely 0 1800 } Sample.queue Sample.worker
      (.fromSecs 10)))]

def retirementClock (cluster : Cluster Value) (ticket : Nat) : Option DateTime :=
  match cluster.sessions.lookup ticket with
  | some ⟨.operation (.retireNextExpiredLease ports), _, _⟩ => some ports.now
  | _ => none

def firstExpiry (record : Record (Cluster Value) Label Unit) : Option (JobId × LeaseId) :=
  match committedEvents record with
  | (id, .leaseExpired lease) :: _ => some (id, lease)
  | _ => none

/-- Both times are in one microsecond, so the column does not tell them apart. -/
theorem early_retirement_commits :
    let _ := BuildProfile.release
    ∃ record older cluster ports rest tx deadline, DispatcherRun oneJob (record :: older) cluster ∧
      record.label = .advance 2 .accepts ∧
      record.before.sessions.lookup 2 = some ⟨.operation (.retireNextExpiredLease ports), rest, tx⟩ ∧
      (⟨1⟩, .leaseExpired ⟨2⟩) ∈ committedEvents record ∧
      acceptedDeadline oneJob ⟨1⟩ older = some deadline ∧ ports.now < deadline := by
  intro _
  have seen : (Label.attemptFrom oneJob earlyLabels).map (fun ran => ran.1.head?.map fun record =>
      (retirementClock record.before 2, firstExpiry record, acceptedDeadline oneJob ⟨1⟩ ran.1.tail)) =
      some (some (some (Sample.finely 10 1500), some (⟨1⟩, ⟨2⟩), some (Sample.finely 10 1800))) := by decide +kernel
  rw [Option.map_eq_some_iff] at seen
  obtain ⟨⟨history, cluster⟩, ran, seen⟩ := seen
  obtain ⟨run, labels⟩ := dispatcherRun_of_attempt (by decide) history cluster ran
  cases history with
  | nil => cases seen
  | cons record older =>
    simp only [List.head?_cons, List.tail_cons, Option.map_some, Option.some.injEq, Prod.mk.injEq] at seen
    obtain ⟨clock, expiry, deadline⟩ := seen
    have label : record.label = .advance 2 .accepts := (List.cons.inj labels).1
    unfold retirementClock at clock
    split at clock
    · rename_i ports rest tx found
      rw [Option.some.injEq] at clock
      unfold firstExpiry at expiry
      split at expiry
      · rename_i id lease others events
        cases expiry
        refine ⟨record, older, cluster, ports, rest, tx, _, run, label, found, ?_, deadline, ?_⟩
        · rw [events]
          exact List.mem_cons_self
        · rw [clock]
          decide
      · cases expiry
    · cases clock

end Samples

end Koine.Postgres
