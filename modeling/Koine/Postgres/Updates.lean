import Koine.Postgres.Commits

namespace Koine.Postgres

open Library Domain Application

variable {J : Type} [Serde J] [BuildProfile]

/-! ### What a batch goes back to -/

/-- `append` inserts nothing before the batch has passed its check. -/
def Work.checks : Work → Stmt J → Prop
  | .operation (.append stream expected batch), .insertEvent _ => continues stream expected batch = true
  | _, _ => True

theorem append_checks (stream : JobId) (expected : Nat) (batch : List EventEnvelope) :
    (append stream expected batch : Tx J EventStoreError Unit).Obeys
      (fun _ => Work.checks (.operation (.append stream expected batch))) (fun _ _ _ => ()) (fun _ _ => True) () := by
  unfold append appendInTx
  rw [Program.obeys_bind, Program.obeys_bind]
  refine ⟨trivial, fun newest => ?_⟩
  simp only [Program.Obeys]
  split
  · trivial
  · rename_i same
    split
    · rename_i accepted
      rw [not_not.mp same] at accepted
      -- past the check every statement is allowed
      rw [← Program.obeys_bind]
      refine (Program.obeys_nothing _).weaken fun _ statement _ => ?_
      cases statement <;> first | exact accepted | trivial
    · trivial

theorem Work.answering_checks (work : Work) : (work.answering : Tx J Unit _).Obeys (fun _ => work.checks)
    (fun _ _ _ => ()) (fun _ _ => True) () := by
  have unchecked (free : ∀ statement : Stmt J, work.checks statement) :
      (work.answering : Tx J Unit _).Obeys (fun _ => work.checks) (fun _ _ _ => ()) (fun _ _ => True) () :=
    (Program.obeys_nothing _).weaken fun _ statement _ => free statement
  cases work with
  | relay batch => exact unchecked fun _ => trivial
  | operation operation =>
    cases operation with
    | append stream expected batch => exact ((append_checks stream expected batch).capture _).mono fun _ _ _ => trivial
    | _ => exact unchecked fun _ => trivial

def Plan.allows (plan : Plan J) (statement : Stmt J) : Prop :=
  plan.permits false statement ∧ plan.work.checks statement

theorem Work.answering_allows (work : Work) :
    (work.answering : Tx J Unit _).Obeys Plan.allows Plan.after Plan.answers work.first := by
  have keeps : Keeps false (work.answering : Tx J Unit _) (fun _ _ => True) work.phase :=
    (work.program_keeps false nofun).of_shape work.answering_shape.symm
  let read (all : Phase J × Aim × Unit × Unit) : Plan J := ⟨all.1, work, all.2.1⟩
  refine (keeps.prod (work.answering_aims.prod (work.answering_replies.prod work.answering_checks))).image read ?_ ?_ ?_
  · exact fun _ _ permitted => ⟨⟨permitted.1, permitted.2.1⟩, permitted.2.2.2⟩
  · exact fun _ _ _ => rfl
  · exact fun _ _ returned => ⟨returned.2.1, returned.2.2.1⟩

/-- The batch of a connection is its caller's, and has passed the check once a row is stored, or it follows
    from a beginning of the committed stream. -/
def Founded (tables : Tables J) (work : Work) (job : JobId) (batch : List EventEnvelope) (stored : Nat) : Prop :=
  (∃ expected, work = .operation (.append job expected batch) ∧
      (0 < stored → continues job expected batch = true)) ∨
    ∃ seen, seen <+: tables.streamRows job ∧ work.plan job seen = some batch

def Basis (tables : Tables J) (tx : Transaction J) (plan : Plan J) : Prop :=
  match plan.aim with
  | .planned job batch stored =>
    Founded tables plan.work job batch stored ∧ List.Forall₂ (Stores job) (batch.take stored) tx.rows
  | .ended => tx.rows = [] ∨ plan.phase = .closed
  | _ => True

theorem Founded.grow {tables after : Tables J} {work : Work} {job : JobId} {batch : List EventEnvelope}
    {stored : Nat} (founded : Founded tables work job batch stored)
    (grown : tables.streamRows job <+: after.streamRows job) : Founded after work job batch stored := by
  rcases founded with called | ⟨seen, begins, planned⟩
  · exact .inl called
  · exact .inr ⟨seen, begins.trans grown, planned⟩

theorem Basis.grow {tables after : Tables J} {tx : Transaction J} {plan : Plan J} (basis : Basis tables tx plan)
    (grown : ∀ stream, tables.streamRows stream <+: after.streamRows stream) : Basis after tx plan := by
  unfold Basis at basis ⊢
  split
  · rename_i job batch stored aim
    rw [aim] at basis
    exact ⟨basis.1.grow (grown job), basis.2⟩
  · rename_i aim
    rw [aim] at basis
    exact basis
  · trivial

section Step

variable {others : List (Transaction J)} {verdict : Verdict} {world : World J} {tx : Transaction J}
  {plan : Plan J}

theorem Basis.planned {phase : Phase J} {work : Work} {job : JobId} {batch : List EventEnvelope} {stored : Nat}
    (basis : Basis world.tables tx ⟨phase, work, .planned job batch stored⟩) (statement : Stmt J)
    (kept : phase.permits false statement) (aimed : (Aim.planned job batch stored).permits work statement)
    (checked : work.checks statement) (ongoing : statement ≠ .commit) :
    let ran := statement.exec others verdict world tx
    Basis world.tables ran.1.2
      ⟨phase.after statement ran.2, work, (Aim.planned job batch stored).after work statement ran.2⟩ := by
  obtain ⟨founded, stores⟩ := basis
  simp only
  cases statement with
  | commit => exact absurd rfl ongoing
  | insertEvent columns =>
    cases accepted : ((Stmt.insertEvent columns).exec others verdict world tx).2 with
    | inserted =>
      obtain ⟨envelope, payload, here, encoded, rfl⟩ := aimed
      refine ⟨?_, ?_⟩
      · rcases founded with ⟨expected, rfl, _⟩ | planned
        · exact .inl ⟨expected, rfl, fun _ => checked⟩
        · exact .inr planned
      · rw [exec_inserted accepted, List.take_add_one, here, Option.toList_some]
        exact List.rel_append stores (.cons ⟨payload, encoded, rfl⟩ .nil)
    | violates constraint =>
      cases phase with
      | writing stream base count => exact .inr rfl
      | _ => exact kept.elim
  | maxVersion | insertOutbox | loadStream | upsertPending | notifyDispatch | upsertLeased | deleteDispatch =>
    refine ⟨founded, ?_⟩
    rw [exec_rows_eq _ (by simp) (by simp)]
    exact stores
  | _ => exact aimed.elim

theorem Basis.exec (basis : Basis world.tables tx plan) (footprint : Footprint plan.work plan.phase tx plan.aim)
    (versions : ∀ stream, (world.tables.streamRows stream).map (·.version) =
      List.range' 1 (world.tables.streamRows stream).length)
    (statement : Stmt J) (allowed : plan.allows statement) (ongoing : statement ≠ .commit) :
    let ran := statement.exec others verdict world tx
    Basis world.tables ran.1.2 (plan.after statement ran.2) := by
  obtain ⟨phase, work, aim⟩ := plan
  obtain ⟨⟨kept, aimed⟩, checked⟩ := allowed
  cases aim with
  | fresh =>
    obtain ⟨rfl, _⟩ := footprint
    have none (other : ∀ columns, statement ≠ .insertEvent columns) :
        (statement.exec others verdict world .begin).1.2.rows = [] := exec_rows_eq statement ongoing other
    cases statement with
    | selectEligible queue now =>
      simp only [Plan.after]
      generalize ((Stmt.selectEligible queue now).exec others verdict world .begin).2 = reply
      cases reply with
      | none => exact .inl (none (by simp))
      | some job => trivial
    | selectExpired now =>
      simp only [Plan.after]
      generalize ((Stmt.selectExpired now).exec others verdict world .begin).2 = reply
      cases reply with
      | none => exact .inl (none (by simp))
      | some job => trivial
    | updateDeadline => trivial
    | loadStream | selectOutbox => exact .inl (none (by simp))
    | _ => exact aimed.elim
  | picked job =>
    obtain ⟨rfl, _⟩ := footprint
    cases statement with
    | loadStream stream =>
      cases aimed
      have loaded : ((Stmt.loadStream job).exec others verdict world
          { Transaction.begin with locks := [job] }).2 = world.tables.streamRows job :=
        inOrder_of_versions (versions job)
      simp only [Plan.after, Aim.after, loaded]
      split
      · rename_i batch planned
        exact ⟨.inr ⟨_, List.prefix_rfl, planned⟩, .nil⟩
      · exact .inl rfl
    | _ => exact aimed.elim
  | planned job batch stored => exact basis.planned statement kept aimed checked ongoing
  | beat rows =>
    cases statement with
    | commit => exact absurd rfl ongoing
    | _ => exact aimed.elim
  | ended =>
    rcases basis with empty | rfl
    · cases statement with
      | commit => exact absurd rfl ongoing
      | deliver | deleteOutbox =>
        refine .inl ?_
        rw [exec_rows_eq _ (by simp) (by simp)]
        exact empty
      | _ => exact aimed.elim
    · cases statement <;> exact kept.elim
  | settled | beaten => cases statement <;> exact aimed.elim

theorem Basis.closed {tables : Tables J} (allowed : plan.allows .commit) :
    Basis tables .begin (plan.after .commit ()) := by
  obtain ⟨phase, work, aim⟩ := plan
  cases aim with
  | planned | beat => trivial
  | ended => exact .inl rfl
  | _ => exact allowed.1.2.elim

end Step

/-! ### The rows that a heartbeat moves -/

def DispatchRow.Renewed (ports : Ports) (lease : LeaseId) (ttl : Duration) (old new : DispatchRow) : Prop :=
  old.alive lease (timestamptz ports.now) = true ∧ ∃ delta deadline, TimeDelta.fromStd ttl = some delta ∧
    (ports.now.add delta : Outcome DispatchError DateTime) = .ok deadline ∧
    new = { old with leaseExpiresAt := some (timestamptz deadline) }

/-- A heartbeat appends nothing, and the rows it has moved stand in the committed tables, alive under its lease
    and with another deadline. -/
def Beating (tables : Tables J) (tx : Transaction J) (plan : Plan J) : Prop :=
  ∀ ports lease ttl, plan.work = .operation (.extendLease ports lease ttl) →
    (∀ job, plan.aim ≠ .picked job) ∧ (∀ job batch stored, plan.aim ≠ .planned job batch stored) ∧
      ∀ id row, tx.moved id = some row → ∃ old new, tables.dispatch.lookup id = some old ∧ row = some new ∧
        DispatchRow.Renewed ports lease ttl old new

omit [Serde J] [BuildProfile] in
theorem Beating.frame {tables after : Tables J} {tx : Transaction J} {plan : Plan J}
    (beating : Beating tables tx plan)
    (same : ∀ id, tx.holdsRow id = true → after.dispatch.lookup id = tables.dispatch.lookup id) :
    Beating after tx plan := by
  intro ports lease ttl work
  obtain ⟨unpicked, unplanned, rows⟩ := beating ports lease ttl work
  refine ⟨unpicked, unplanned, fun id row moved => ?_⟩
  have held : tx.holdsRow id = true := Transaction.holdsRow_iff.mpr (.inr (by rw [moved]; rfl))
  rw [same id held]
  exact rows id row moved

omit [Serde J] [BuildProfile] in
theorem Transaction.moved_of_free {tx : Transaction J} {id : JobId} (free : tx.holdsRow id = false) :
    tx.moved id = none := by
  rw [← Option.not_isSome_iff_eq_none]
  intro moved
  rw [Transaction.holdsRow_iff.mpr (.inr moved)] at free
  cases free

omit [Serde J] [BuildProfile] in
theorem Beating.unmoved {tables : Tables J} {plan : Plan J} (unpicked : ∀ job, plan.aim ≠ .picked job)
    (unplanned : ∀ job batch stored, plan.aim ≠ .planned job batch stored) : Beating tables .begin plan := by
  refine fun ports lease ttl _ => ⟨unpicked, unplanned, fun id row moved => ?_⟩
  rw [Transaction.moved_begin] at moved
  cases moved

theorem Beating.closed {tables after : Tables J} {tx : Transaction J} {plan : Plan J} (beating : Beating tables tx plan)
    (allowed : plan.allows .commit) : Beating after .begin (plan.after .commit ()) := by
  obtain ⟨phase, work, aim⟩ := plan
  intro ports lease ttl same
  obtain ⟨_, unplanned, _⟩ := beating ports lease ttl same
  cases aim with
  | planned job batch stored => exact absurd rfl (unplanned job batch stored)
  | beat | ended => exact Beating.unmoved (by simp [Plan.after, Aim.after]) (by simp [Plan.after, Aim.after]) _ _ _ same
  | _ => exact allowed.1.2.elim

theorem Beating.exec {others : List (Transaction J)} {verdict : Verdict} {world : World J} {tx : Transaction J}
    {plan : Plan J} (beating : Beating world.tables tx plan)
    (footprint : Footprint plan.work plan.phase tx plan.aim) (statement : Stmt J) (allowed : plan.allows statement)
    (ongoing : statement ≠ .commit) :
    let ran := statement.exec others verdict world tx
    Beating world.tables ran.1.2 (plan.after statement ran.2) := by
  obtain ⟨phase, work, aim⟩ := plan
  obtain ⟨⟨_, aimed⟩, _⟩ := allowed
  intro ran ports lease ttl beats
  obtain ⟨unpicked, unplanned, rows⟩ := beating ports lease ttl beats
  simp only [Plan.after] at beats unpicked unplanned
  subst beats
  cases aim with
  | fresh =>
    obtain ⟨rfl, _⟩ := footprint
    cases statement with
    | updateDeadline deadline lease now =>
      obtain ⟨_, _, delta, same, rfl, converted, added⟩ := aimed
      cases same
      refine ⟨by simp [Plan.after, Aim.after], by simp [Plan.after, Aim.after], fun id row moved => ?_⟩
      obtain ⟨entry, listed, rfl, value⟩ := Transaction.moved_of_puts
        (fun old => { old with leaseExpiresAt := some (timestamptz deadline) }) rfl moved
      rw [List.mem_filter] at listed
      exact ⟨entry.2, _, AList.mem_lookup_iff.mpr listed.1, value, listed.2, delta, deadline, converted, added, rfl⟩
    | selectEligible queue now =>
      obtain ⟨_, _, _, same, _⟩ := aimed
      cases same
    | selectExpired now =>
      obtain ⟨_, same, _⟩ := aimed
      cases same
    | loadStream | selectOutbox => cases aimed
    | _ => exact aimed.elim
  | picked job => exact absurd rfl (unpicked job)
  | planned job batch stored => exact absurd rfl (unplanned job batch stored)
  | beat count =>
    cases statement with
    | commit => exact absurd rfl ongoing
    | _ => exact aimed.elim
  | ended =>
    cases statement with
    | commit => exact absurd rfl ongoing
    | deliver | deleteOutbox => cases aimed
    | _ => exact aimed.elim
  | settled | beaten => cases statement <;> exact aimed.elim

/-! ### What a commit adds to the log -/

omit [BuildProfile] in
theorem Stores.version {stream : JobId} {envelope : EventEnvelope} {row : EventRow J}
    (stores : Stores stream envelope row) : row.version = envelope.version := by
  obtain ⟨payload, _, same⟩ := stores
  rw [same]
  rfl

omit [BuildProfile] in
theorem Appending.stores_first {tables : Tables J} {tx : Transaction J} {stream : JobId} {base count : Nat}
    {batch : List EventEnvelope} (appending : Appending tables tx stream base count) (more : 0 < count)
    (stores : List.Forall₂ (Stores stream) batch tx.rows) :
    ∃ first rest, batch = first :: rest ∧ first.version = (tables.streamRows stream).length + 1 := by
  have versions := appending.versions
  obtain ⟨last, rfl⟩ := Nat.exists_eq_succ_of_ne_zero (Nat.ne_of_gt more)
  rw [List.range'_succ] at versions
  cases batch with
  | nil =>
    rw [List.forall₂_nil_left_iff.mp stores] at versions
    cases versions
  | cons first rest =>
    obtain ⟨row, rows, here, _, same⟩ := List.forall₂_cons_left_iff.mp stores
    rw [same, List.map_cons, List.cons.injEq] at versions
    refine ⟨first, rest, rfl, ?_⟩
    rw [← here.version, versions.1, appending.based more]

theorem Work.plan_first {work : Work} {id : JobId} {rows : List (EventRow J)} {first : EventEnvelope}
    {rest : List EventEnvelope} (planned : work.plan id rows = some (first :: rest)) :
    first.version = rows.length + 1 := by
  have wrapped {ports : Ports} {stream : List EventEnvelope} {job : Job} {correlationId : CorrelationId}
      {causationId : Option EventId} {traceparent : Option String} {events : List JobEvent}
      (decoded : envelopesFromRows rows = .ok stream) (folded : Job.fromEvents stream = .ok job)
      (same : wrapEvents ports id job.version correlationId causationId traceparent events = first :: rest) :
      first.version = rows.length + 1 := by
    have sequential := wrapEvents_sequential ports id job.version correlationId causationId traceparent events
    rw [same] at sequential
    rw [sequential.1, Job.fromEvents_version folded, (envelopesFromRows_eq_ok.mp decoded).length_eq]
  unfold Work.plan at planned
  split at planned
  · rename_i stream decoded
    split at planned
    · rename_i job folded
      simp only at planned
      split at planned
      · split at planned
        · exact wrapped decoded folded (Option.some.inj planned)
        · cases planned
      · split at planned
        · exact wrapped decoded folded (Option.some.inj planned)
        · cases planned
      · cases planned
    · cases planned
  · cases planned

/-- What a step does to the log: nothing, or one connection commits. Then one stream grows by the whole batch
    of the connection's work, and the work has been given, or has loaded, all that the stream held before. -/
inductive Update (record : Record (Cluster J) Label Unit) : Prop where
  | none (same : record.after.world.tables.events = record.before.world.tables.events)
  | commit (ticket : Nat) (verdict : Verdict) (session : Session J) (stream : JobId) (batch : List EventEnvelope)
      (rows : List (EventRow J)) (label : record.label = .advance ticket verdict)
      (found : record.before.sessions.lookup ticket = some session) (some : batch ≠ [])
      (stored : List.Forall₂ (Stores stream) batch rows)
      (events : record.after.world.tables.events = record.before.world.tables.events ++ rows)
      (founded : session.work =
          .operation (.append stream (record.before.world.tables.streamRows stream).length batch) ∨
        session.work.plan stream (record.before.world.tables.streamRows stream) = .some batch)

structure Updating (cluster : Cluster J) (plans : Nat → Plan J) : Prop where
  guarded : Guarded cluster plans
  log : Log cluster (Plan.phase ∘ plans)
  basis : ∀ ticket session, cluster.sessions.lookup ticket = some session →
    Basis cluster.world.tables session.tx (plans ticket)
  beating : ∀ ticket session, cluster.sessions.lookup ticket = some session →
    Beating cluster.world.tables session.tx (plans ticket)

section Cluster

variable {cluster : Cluster J} {plans : Nat → Plan J} {ticket : Nat} {session : Session J}

theorem Updating.commits (updating : Updating cluster plans)
    (found : cluster.sessions.lookup ticket = some session) (allowed : (plans ticket).allows .commit) :
    session.tx.rows = [] ∨ ∃ stream batch, batch ≠ [] ∧ List.Forall₂ (Stores stream) batch session.tx.rows ∧
      (session.work = .operation (.append stream (cluster.world.tables.streamRows stream).length batch) ∨
        session.work.plan stream (cluster.world.tables.streamRows stream) = some batch) := by
  obtain ⟨⟨kept, aimed⟩, _⟩ := allowed
  have work := updating.guarded.works ticket session found
  have footprint := updating.guarded.footprints ticket session found
  have basis := updating.basis ticket session found
  have wrote := (updating.log.wrote ticket session found).commits kept
  rw [Function.comp_apply] at wrote
  rw [← work]
  generalize plans ticket = plan at *
  obtain ⟨phase, work, aim⟩ := plan
  cases aim with
  | beat rows => exact .inl footprint.1
  | ended =>
    rcases basis with empty | rfl
    · exact .inl empty
    · exact kept.elim
  | planned job batch stored =>
    have all : stored = batch.length := aimed
    obtain ⟨founded, stores⟩ := basis
    rw [all, List.take_length] at stores
    rcases wrote with empty | ⟨stream, base, count, more, shape, appending⟩
    · exact .inl empty
    · have same : stream = job := footprint.1.batch stream base count shape
      subst same
      obtain ⟨first, rest, rfl, version⟩ := appending.stores_first more stores
      refine .inr ⟨stream, first :: rest, List.cons_ne_nil _ _, stores, ?_⟩
      rcases founded with ⟨expected, called, checked⟩ | ⟨seen, begins, planned⟩
      · left
        have continues := checked (by rw [all]; exact Nat.succ_pos _)
        have next : first.version = expected + 1 := (continues_iff.mp continues).1.1
        have same : (cluster.world.tables.streamRows stream).length = expected := by omega
        rw [same]
        exact called
      · right
        have next := Work.plan_first planned
        have same : seen = cluster.world.tables.streamRows stream := begins.eq_of_length (by omega)
        rw [← same]
        exact planned
  | _ => exact aimed.elim

theorem Updating.empty (plans : Nat → Plan J) : Updating (Cluster.empty : Cluster J) plans := by
  have closed : ∀ ticket session, (Cluster.empty : Cluster J).sessions.lookup ticket ≠ some session := by
    intro ticket session found
    cases found
  constructor
  · exact Guarded.quiet (fun _ => rfl) plans
  · exact ⟨fun _ => rfl, List.nodup_nil, fun ticket session found => absurd found (closed ticket session),
      fun ticket session found => absurd found (closed ticket session),
      fun ticket _ session _ _ found => absurd found (closed ticket session)⟩
  · exact fun ticket session found => absurd found (closed ticket session)
  · exact fun ticket session found => absurd found (closed ticket session)

theorem Updating.close (updating : Updating cluster plans) (ticket : Nat) : Updating (cluster.close ticket) plans where
  guarded := updating.guarded.close ticket
  log := updating.log.close ticket
  basis := fun other session present => updating.basis other session (lookup_close present).2
  beating := fun other session present => updating.beating other session (lookup_close present).2

theorem Updating.start (updating : Updating cluster plans) (ticket : Nat) (work : Work) :
    Updating (cluster.resume ticket cluster.world ⟨work, work.program, .begin⟩)
      (Function.update plans ticket work.first) := by
  have phases : Plan.phase ∘ Function.update plans ticket work.first =
      Function.update (Plan.phase ∘ plans) ticket work.phase := Function.comp_update _ _ _ _
  constructor
  · exact updating.guarded.start ticket work
  · rw [phases]
    exact updating.log.start ticket
  · refine each_resume plans work.first (fun plan session => Basis cluster.world.tables session.tx plan) ?_
      fun other rival _ ongoing => updating.basis other rival ongoing
    unfold Work.first Work.aim
    split
    · rename_i stream expected batch
      exact ⟨.inl ⟨expected, rfl, fun some => absurd some (Nat.lt_irrefl 0)⟩, .nil⟩
    · trivial
  · refine each_resume plans work.first (fun plan session => Beating cluster.world.tables session.tx plan) ?_
      fun other rival _ ongoing => updating.beating other rival ongoing
    intro ports lease ttl same
    exact Beating.unmoved (by simp [Work.first, show work = _ from same, Work.aim])
      (by simp [Work.first, show work = _ from same, Work.aim]) ports lease ttl same

omit [Serde J] [BuildProfile] in
theorem exec_streamRows (statement : Stmt J) (others : List (Transaction J)) (verdict : Verdict) (world : World J)
    (tx : Transaction J) (stream : JobId) :
    world.tables.streamRows stream <+: (statement.exec others verdict world tx).1.1.tables.streamRows stream := by
  by_cases commit : statement = .commit
  · subst commit
    have committed : ((Stmt.commit : Stmt J).exec others verdict world tx).1.1.tables = tx.view world.tables := rfl
    rw [committed, Transaction.view_streamRows]
    exact List.prefix_append _ _
  · have same : (statement.exec others verdict world tx).1.1.tables = world.tables := exec_tables statement commit
    exact same.symm ▸ List.prefix_rfl

theorem Updating.advance (updating : Updating cluster plans)
    (found : cluster.sessions.lookup ticket = some session) (verdict : Verdict) (statement : Stmt J)
    (allowed : (plans ticket).allows statement)
    (ready : statement.waits (session.tx.view cluster.world.tables) (cluster.others ticket) = false)
    (program : Tx J Unit Unit) :
    let ran := statement.exec (cluster.others ticket) verdict cluster.world session.tx
    Updating (cluster.resume ticket ran.1.1 ⟨session.work, program, ran.1.2⟩)
      (Function.update plans ticket ((plans ticket).after statement ran.2)) := by
  intro ran
  have phases : Plan.phase ∘ Function.update plans ticket ((plans ticket).after statement ran.2) =
      Function.update (Plan.phase ∘ plans) ticket ((plans ticket).phase.after statement ran.2) :=
    Function.comp_update _ _ _ _
  have advance : Advance false (cluster.others ticket) cluster.world session.tx (plans ticket).phase ran.1.1
      ran.1.2 ((plans ticket).phase.after statement ran.2) := Advance.of_exec statement allowed.1.1 ready
  constructor
  · exact updating.guarded.advance found verdict statement allowed.1 ready program
  · rw [phases]
    exact updating.log.advance found program advance
  · refine each_resume plans ((plans ticket).after statement ran.2)
      (fun plan session => Basis ran.1.1.tables session.tx plan) ?_ ?_
    · by_cases commit : statement = .commit
      · subst commit
        exact Basis.closed allowed
      · have same : ran.1.1.tables = cluster.world.tables := exec_tables statement commit
        rw [same]
        exact (updating.basis ticket session found).exec (updating.guarded.footprints ticket session found)
          updating.log.versions statement allowed commit
    · intro other rival _ ongoing
      exact (updating.basis other rival ongoing).grow fun stream => exec_streamRows ..
  · refine each_resume plans ((plans ticket).after statement ran.2)
      (fun plan session => Beating ran.1.1.tables session.tx plan) ?_ ?_
    · by_cases commit : statement = .commit
      · subst commit
        exact (updating.beating ticket session found).closed allowed
      · have same : ran.1.1.tables = cluster.world.tables := exec_tables statement commit
        rw [same]
        exact (updating.beating ticket session found).exec (updating.guarded.footprints ticket session found)
          statement allowed commit
    · intro other rival different ongoing
      refine (updating.beating other rival ongoing).frame fun id holds => ?_
      by_cases commit : statement = .commit
      · subst commit
        have free := updating.guarded.exclusive other ticket rival session (Ne.symm different) ongoing found id holds
        have committed : ran.1.1.tables = session.tx.view cluster.world.tables := rfl
        rw [committed, Transaction.view_dispatch, Transaction.moved_of_free free]
        rfl
      · have same : ran.1.1.tables = cluster.world.tables := exec_tables statement commit
        rw [same]

/-- A statement that a connection runs changes the log only where it commits the connection's batch. -/
theorem Updating.update (updating : Updating cluster plans)
    (found : cluster.sessions.lookup ticket = some session) (verdict : Verdict) (statement : Stmt J)
    (allowed : (plans ticket).allows statement) (program : Tx J Unit Unit) :
    let ran := statement.exec (cluster.others ticket) verdict cluster.world session.tx
    Update ⟨cluster, .advance ticket verdict, (),
      cluster.resume ticket ran.1.1 ⟨session.work, program, ran.1.2⟩⟩ := by
  intro ran
  by_cases commit : statement = .commit
  · subst commit
    have events : ran.1.1.tables.events = cluster.world.tables.events ++ session.tx.rows :=
      Transaction.view_events session.tx cluster.world.tables
    rcases updating.commits found allowed with empty | ⟨stream, batch, some, stored, founded⟩
    · rw [empty, List.append_nil] at events
      exact .none events
    · exact .commit ticket verdict session stream batch session.tx.rows rfl found some stored events founded
  · have same : ran.1.1.tables = cluster.world.tables := exec_tables statement commit
    exact .none (congrArg Tables.events same)

end Cluster

theorem Run.updating {history : List (Record (Cluster J) Label Unit)} {cluster : Cluster J}
    (run : Run Cluster.Step .empty history cluster) :
    ∃ plans, Following Plan.allows Plan.after Plan.answers history cluster plans ∧
      Updating cluster plans ∧ ∀ record ∈ history, Update record := by
  refine Run.following Work.first (fun _ => True)
    (fun history cluster plans => Updating cluster plans ∧ ∀ record ∈ history, Update record) ?_ (fun _ => rfl)
    (fun _ => (Work.relay 0).first) ⟨Updating.empty _, fun _ member => absurd member List.not_mem_nil⟩ ?_ ?_ ?_ run
    fun _ _ => trivial
  · exact fun _ _ _ work _ => work.answering_allows
  · rintro history cluster plans ticket work ⟨updating, updates⟩ _ _ _
    exact ⟨updating.start ticket work, List.forall_mem_cons.mpr ⟨.none rfl, updates⟩⟩
  · rintro history cluster plans ticket label ⟨updating, updates⟩ _
    exact ⟨updating.close ticket, List.forall_mem_cons.mpr ⟨.none rfl, updates⟩⟩
  · rintro history cluster plans ticket verdict work statement rest tx ⟨updating, updates⟩ found allowed ready
    intro ran after _
    refine ⟨updating.advance found verdict statement allowed ready _, List.forall_mem_cons.mpr ⟨?_, updates⟩⟩
    exact updating.update found verdict statement allowed _

/-- However the statements of appends, claims, retirements, heartbeats, loads and relay passes interleave, no
    update of the log is lost or half done: a step leaves the log as it is or commits one whole batch, behind
    exactly the events that the batch was decided on. -/
theorem no_update_lost {history : List (Record (Cluster J) Label Unit)} {cluster : Cluster J}
    (run : Run Cluster.Step .empty history cluster) : ∀ record ∈ history, Update record := by
  obtain ⟨_, _, _, updates⟩ := Run.updating run
  exact updates

omit [Serde J] [BuildProfile] in
theorem no_update_lost_race :
    let _ := BuildProfile.release
    ∃ (history : List (Record (Cluster TypedJson) Label Unit)) (cluster : Cluster TypedJson),
      Run Cluster.Step .empty history cluster ∧ history.map (·.label) = racingLabels ∧
      (cluster.world.tables.streamRows ⟨1⟩).length = 2 ∧ ∀ record ∈ history, Update record := by
  intro _
  have seen : (Label.attempt racingLabels : Option (_ × Cluster TypedJson)).map (fun ran =>
      (ran.2.world.tables.streamRows ⟨1⟩).length) = some 2 := by decide +kernel
  rw [Option.map_eq_some_iff] at seen
  obtain ⟨⟨history, cluster⟩, ran, seen⟩ := seen
  obtain ⟨run, labels⟩ := Label.of_attempt ran
  exact ⟨history, cluster, run, labels, seen, no_update_lost run⟩

end Koine.Postgres
