import Koine.Postgres.Locks

namespace Koine.Postgres

open Library Domain Application

section Statements

variable {J : Type} {others : List (Transaction J)} {verdict : Verdict} {world : World J} {tx : Transaction J}

theorem exec_inserted {columns : EventColumns J}
    (accepted : ((Stmt.insertEvent columns).exec others verdict world tx).2 = .inserted) :
    ((Stmt.insertEvent columns).exec others verdict world tx).1.2.rows =
      tx.rows ++ [columns.inserted (world.globalSeq + 1)] := by
  simp only [Stmt.exec] at accepted ⊢
  split at accepted
  · cases accepted
  · split at accepted
    · cases accepted
    · rename_i freshId freshVersion
      rw [if_neg freshId, if_neg freshVersion, Transaction.rows_write]
      rfl

theorem Transaction.moved_of_mem {tx : Transaction J} {id : JobId} {row : DispatchRow}
    (written : Write.put id row ∈ tx.writes) : (tx.moved id).isSome = true := by
  rw [Transaction.moved]
  have known : (none : Option (Option DispatchRow)).isSome = true ∨ Write.put id row ∈ tx.writes := .inr written
  clear written
  generalize (none : Option (Option DispatchRow)) = last at known ⊢
  generalize tx.writes = writes at known ⊢
  induction writes generalizing last with
  | nil =>
    rcases known with known | listed
    · exact known
    · cases listed
  | cons write rest ih =>
    rw [List.foldl_cons]
    apply ih
    rcases known with known | listed
    · left
      cases write <;> simp only
      case put => split <;> simp [known]
      case drop => split <;> simp [known]
      all_goals exact known
    · rcases List.mem_cons.mp listed with rfl | later
      · left
        simp
      · exact .inr later

end Statements

def Work.ofDispatcher : Work → Bool
  | .operation (.leaseNext ..) | .operation (.extendLease ..) | .operation (.retireNextExpiredLease _) => true
  | _ => false

def Work.picks : Work → DispatchRow → Bool
  | .operation (.leaseNext ports queue _ _), row => row.eligible queue (timestamptz ports.now)
  | .operation (.retireNextExpiredLease ports), row => row.expired (timestamptz ports.now)
  | _, _ => false

def Work.beats : Work → DispatchRow → Bool
  | .operation (.extendLease ports lease _), row => row.alive lease (timestamptz ports.now)
  | _, _ => false

def Work.deadline : Work → Option DateTime
  | .operation (.leaseNext ports _ _ ttl) | .operation (.extendLease ports _ ttl) =>
    (TimeDelta.fromStd ttl).bind ports.now.checkedAddSigned
  | _ => none

section Resting

variable {J : Type} [Serde J] [BuildProfile]

def Stores (stream : JobId) (envelope : EventEnvelope) (row : EventRow J) : Prop :=
  ∃ payload, Serde.encodeEvent envelope.event = .ok payload ∧
    row = (columnsFor stream envelope payload).inserted row.globalSeq

def Picked (tables : Tables J) (work : Work) (job : JobId) : Prop :=
  ∃ row, tables.dispatch.lookup job = some row ∧ work.picks row = true

structure Beat (tables : Tables J) (tx : Transaction J) (work : Work) (rows : Nat) : Prop where
  some : 0 < rows → ∃ id, (tx.moved id).isSome = true
  moved : ∀ id row, tx.moved id = .some row → ∃ old deadline, tables.dispatch.lookup id = .some old ∧
    work.beats old = true ∧ work.deadline = .some deadline ∧
    row = .some { old with leaseExpiresAt := .some (timestamptz deadline) }

/-- What a dispatcher's transaction has read is still so in the committed tables, and what it has inserted
    is the beginning of the batch that follows from it. -/
def Rests (tables : Tables J) (tx : Transaction J) (plan : Plan J) : Prop :=
  match plan.aim with
  | .picked job => Picked tables plan.work job
  | .planned job batch stored =>
    Picked tables plan.work job ∧ plan.work.plan job (tables.streamRows job) = some batch ∧
      List.Forall₂ (Stores job) (batch.take stored) tx.rows
  | .beat rows => Beat tables tx plan.work rows
  | .ended => plan.phase.permits true .commit → tx.writes = []
  | _ => True

def Projects (tx : Transaction J) : Phase J → Prop
  | .projected _ _ _ job =>
    ∃ seq, tx.moved job.id = some (rowOf job seq) ∨ (tx.moved job.id = none ∧ rowOf job seq = none)
  | _ => True

omit [Serde J] [BuildProfile] in
theorem Work.aim_ofDispatcher {work : Work} (dispatcher : work.ofDispatcher = true) : work.aim = .fresh := by
  unfold Work.ofDispatcher at dispatcher
  split at dispatcher
  · rfl
  · rfl
  · rfl
  · cases dispatcher

omit [Serde J] [BuildProfile] in
theorem Footprint.locks {work : Work} {phase : Phase J} {tx : Transaction J} {job : JobId}
    {batch : List EventEnvelope} {stored : Nat} (footprint : Footprint work phase tx (.planned job batch stored))
    (dispatcher : work.ofDispatcher = true) : tx.holdsRow job = true := by
  rcases footprint.2 with ⟨_, locked⟩ | ⟨_, planned⟩
  · exact Transaction.holdsRow_iff.mpr (.inl locked)
  · rw [Work.aim_ofDispatcher dispatcher] at planned
    cases planned

theorem Rests.frame {tables after : Tables J} {tx : Transaction J} {plan : Plan J} (rests : Rests tables tx plan)
    (dispatcher : plan.work.ofDispatcher = true) (footprint : Footprint plan.work plan.phase tx plan.aim)
    (same : ∀ id, tx.holdsRow id = true →
      after.dispatch.lookup id = tables.dispatch.lookup id ∧ after.streamRows id = tables.streamRows id) :
    Rests after tx plan := by
  obtain ⟨phase, work, aim⟩ := plan
  cases aim with
  | picked job =>
    have locked : tx.holdsRow job = true := by
      rw [footprint.1, Transaction.holdsRow_iff]
      exact .inl List.mem_cons_self
    obtain ⟨row, present, picks⟩ := rests
    exact ⟨row, (same job locked).1.trans present, picks⟩
  | planned job batch stored =>
    have locked := footprint.locks dispatcher
    obtain ⟨⟨row, present, picks⟩, planned, stores⟩ := rests
    refine ⟨⟨row, (same job locked).1.trans present, picks⟩, ?_, stores⟩
    rw [(same job locked).2]
    exact planned
  | beat rows =>
    refine ⟨rests.some, ?_⟩
    intro id row moved
    obtain ⟨old, deadline, present, rest⟩ := rests.moved id row moved
    have held : tx.holdsRow id = true := Transaction.holdsRow_iff.mpr (.inr (by rw [moved]; rfl))
    exact ⟨old, deadline, (same id held).1.trans present, rest⟩
  | fresh | settled | beaten | ended => exact rests

section Step

variable {others : List (Transaction J)} {verdict : Verdict} {world : World J} {tx : Transaction J}
  {plan : Plan J}

omit [Serde J] [BuildProfile] in
theorem select_picked {entry : (_ : JobId) × DispatchRow} {p : DispatchRow → Bool} {q : JobId → Bool}
    {le : (_ : JobId) × DispatchRow → (_ : JobId) × DispatchRow → Bool} {tables : Tables J}
    (chosen : maxBy le (tables.dispatch.entries.filter fun entry => p entry.2 && q entry.1) = some entry) :
    tables.dispatch.lookup entry.1 = some entry.2 ∧ p entry.2 = true := by
  have listed := List.mem_filter.mp (maxBy_mem chosen)
  have both := listed.2
  rw [Bool.and_eq_true] at both
  exact ⟨AList.mem_lookup_iff.mpr listed.1, both.1⟩

theorem Rests.fresh {phase : Phase J} {work : Work} (dispatcher : work.ofDispatcher = true)
    (statement : Stmt J) (aimed : Aim.permits work .fresh statement) :
    let ran := statement.exec others verdict world .begin
    Rests world.tables ran.1.2
      ⟨phase.after statement ran.2, work, Aim.after work .fresh statement ran.2⟩ := by
  simp only
  cases statement with
  | selectEligible queue now =>
    obtain ⟨ports, worker, ttl, rfl, rfl⟩ := aimed
    simp only [Stmt.exec]
    split
    · rename_i entry chosen
      exact ⟨entry.2, select_picked (p := fun row => row.eligible queue (timestamptz ports.now))
        (q := fun id => !others.any (·.holdsRow id)) chosen⟩
    · exact fun _ => rfl
  | selectExpired now =>
    obtain ⟨ports, rfl, rfl⟩ := aimed
    simp only [Stmt.exec]
    split
    · rename_i entry chosen
      exact ⟨entry.2, select_picked (p := fun row => row.expired (timestamptz ports.now))
        (q := fun id => !others.any (·.holdsRow id)) chosen⟩
    · exact fun _ => rfl
  | updateDeadline deadline lease now =>
    obtain ⟨ports, ttl, delta, rfl, rfl, converted, added⟩ := aimed
    have given : (Work.operation (.extendLease ports lease ttl)).deadline = some deadline := by
      rw [Work.deadline, converted, Option.bind_some]
      unfold DateTime.add at added
      split at added
      · rename_i sum fits
        cases added
        exact fits
      · cases added
    constructor
    · intro positive
      obtain ⟨entry, listed⟩ := List.exists_mem_of_length_pos positive
      exact ⟨entry.1, Transaction.moved_of_mem (List.mem_append_right _ (List.mem_map_of_mem listed))⟩
    · intro id row moved
      obtain ⟨entry, listed, rfl, value⟩ := Transaction.moved_of_puts
        (fun old => { old with leaseExpiresAt := some (timestamptz deadline) }) rfl moved
      rw [List.mem_filter] at listed
      exact ⟨entry.2, deadline, AList.mem_lookup_iff.mpr listed.1, listed.2, given, value⟩
  | loadStream stream =>
    rw [aimed] at dispatcher
    cases dispatcher
  | selectOutbox batch =>
    cases work with
    | relay size => cases dispatcher
    | operation operation => cases aimed
  | _ => exact aimed.elim

theorem Rests.planned {phase : Phase J} {work : Work} {job : JobId} {batch : List EventEnvelope} {stored : Nat}
    (rests : Rests world.tables tx ⟨phase, work, .planned job batch stored⟩) (statement : Stmt J)
    (kept : phase.permits true statement) (aimed : (Aim.planned job batch stored).permits work statement)
    (ongoing : statement ≠ .commit) :
    let ran := statement.exec others verdict world tx
    Rests world.tables ran.1.2
      ⟨phase.after statement ran.2, work, (Aim.planned job batch stored).after work statement ran.2⟩ := by
  obtain ⟨picked, planned, stores⟩ := rests
  simp only
  cases statement with
  | commit => exact absurd rfl ongoing
  | insertEvent columns =>
    cases accepted : ((Stmt.insertEvent columns).exec others verdict world tx).2 with
    | inserted =>
      obtain ⟨envelope, payload, here, encoded, rfl⟩ := aimed
      refine ⟨picked, planned, ?_⟩
      rw [exec_inserted accepted, List.take_add_one, here, Option.toList_some]
      exact List.rel_append stores (.cons ⟨payload, encoded, rfl⟩ .nil)
    | violates constraint =>
      intro commits
      cases phase with
      | writing stream base count => exact commits.elim
      | _ => exact kept.elim
  | maxVersion | insertOutbox | loadStream | upsertPending | notifyDispatch | upsertLeased | deleteDispatch =>
    refine ⟨picked, planned, ?_⟩
    rw [exec_rows_eq _ (by simp) (by simp)]
    exact stores
  | _ => exact aimed.elim

theorem Rests.exec (rests : Rests world.tables tx plan) (dispatcher : plan.work.ofDispatcher = true)
    (footprint : Footprint plan.work plan.phase tx plan.aim)
    (versions : ∀ stream, (world.tables.streamRows stream).map (·.version) =
      List.range' 1 (world.tables.streamRows stream).length)
    (statement : Stmt J) (permitted : plan.permits true statement) (ongoing : statement ≠ .commit) :
    let ran := statement.exec others verdict world tx
    Rests world.tables ran.1.2 (plan.after statement ran.2) := by
  obtain ⟨phase, work, aim⟩ := plan
  obtain ⟨kept, aimed⟩ := permitted
  cases aim with
  | fresh =>
    obtain ⟨rfl, _⟩ := footprint
    exact Rests.fresh dispatcher statement aimed
  | picked job =>
    obtain ⟨rfl, _⟩ := footprint
    cases statement with
    | loadStream stream =>
      cases aimed
      have loaded : ((Stmt.loadStream job).exec others verdict world
          { Transaction.begin with locks := [job] }).2 = world.tables.streamRows job :=
        inOrder_of_versions (versions job)
      simp only [Plan.after, Aim.after, loaded]
      split
      · rename_i batch planned
        exact ⟨rests, planned, .nil⟩
      · exact fun _ => rfl
    | _ => exact aimed.elim
  | planned job batch stored => exact rests.planned statement kept aimed ongoing
  | beat rows =>
    cases statement with
    | commit => exact absurd rfl ongoing
    | _ => exact aimed.elim
  | ended =>
    cases statement with
    | commit => exact absurd rfl ongoing
    | deliver | deleteOutbox =>
      cases work with
      | relay size => cases dispatcher
      | operation operation => cases aimed
    | _ => exact aimed.elim
  | settled | beaten => cases statement <;> exact aimed.elim

theorem Rests.closed {tables : Tables J} (permitted : plan.permits true .commit) :
    Rests tables .begin (plan.after .commit ()) := by
  obtain ⟨phase, work, aim⟩ := plan
  cases aim with
  | planned | beat => trivial
  | ended => exact fun _ => rfl
  | _ => exact permitted.2.elim

omit [Serde J] [BuildProfile] in
theorem Projects.put {job : Job} {row : Nat → DispatchRow} {stream : JobId} {base count : Nat}
    (shape : ∀ seq, rowOf job seq = some (row seq)) :
    Projects (upsert world tx job.id row).2 (.projected stream base count job) := by
  refine ⟨((tx.view world.tables).dispatch.lookup job.id).elim (world.dispatchSeq + 1) (·.seq), .inl ?_⟩
  rw [shape, upsert, Transaction.moved_write]
  exact if_pos rfl

theorem Projects.exec {strict : Bool} {phase : Phase J} (projects : Projects tx phase) (statement : Stmt J)
    (permitted : phase.permits strict statement)
    (unmoved : ∀ stream base count job, phase = .folded stream base count job → tx.moved job.id = none) :
    let ran := statement.exec others verdict world tx
    Projects ran.1.2 (phase.after statement ran.2) := by
  simp only
  cases phase with
  | folded stream base count job =>
    cases statement with
    | upsertPending jobId queue priority notBefore =>
      obtain ⟨rfl, rfl, rfl, state⟩ := permitted
      exact Projects.put fun seq => by rw [rowOf, state]
    | upsertLeased jobId queue priority lease worker expiresAt =>
      obtain ⟨rfl, rfl, rfl, state | state⟩ := permitted
      · exact Projects.put fun seq => by rw [rowOf, state]
      · exact Projects.put fun seq => by rw [rowOf, state]
    | deleteDispatch jobId =>
      obtain ⟨rfl, gone⟩ := permitted
      have none : rowOf job 0 = Option.none := by
        unfold rowOf
        cases state : job.state <;> simp_all [JobState.dispatchable]
      simp only [Stmt.exec]
      split
      · refine ⟨0, .inl ?_⟩
        rw [none, Transaction.moved_write]
        exact if_pos rfl
      · exact ⟨0, .inr ⟨unmoved stream base count job rfl, none⟩⟩
    | _ => exact permitted.elim
  | projected stream base count job =>
    cases statement with
    | notifyDispatch queue => exact projects
    | commit => trivial
    | _ => exact permitted.elim
  | reading => cases statement <;> first | exact permitted.elim | trivial
  | writing stream base count =>
    cases statement with
    | insertEvent columns =>
      generalize ((Stmt.insertEvent columns).exec others verdict world tx).2 = reply
      cases reply <;> trivial
    | loadStream target =>
      simp only [Phase.after]
      split <;> trivial
    | _ => exact permitted.elim
  | selected rows =>
    cases statement with
    | deliver envelopes => cases verdict <;> trivial
    | _ => exact permitted.elim
  | _ => cases statement <;> first | exact permitted.elim | trivial

end Step

/-- A cluster of dispatchers: the locks, the log and the dispatch table are in order, and every transaction
    still has in the tables what it rests on. -/
structure Fenced (cluster : Cluster J) (plans : Nat → Plan J) : Prop where
  guarded : Guarded cluster plans
  log : Log cluster (Plan.phase ∘ plans)
  dispatching : Dispatching cluster (Plan.phase ∘ plans)
  works : ∀ ticket session, cluster.sessions.lookup ticket = some session → session.work.ofDispatcher = true
  rests : ∀ ticket session, cluster.sessions.lookup ticket = some session →
    Rests cluster.world.tables session.tx (plans ticket)
  projects : ∀ ticket session, cluster.sessions.lookup ticket = some session →
    Projects session.tx (plans ticket).phase

theorem Coherent.shows {tables : Tables J} (coherent : Coherent tables) (stream : JobId) :
    Shows tables stream := by
  by_cases empty : tables.streamRows stream = []
  · exact .inl ⟨empty, coherent.rows stream empty⟩
  · obtain ⟨job, folds, present, columns⟩ := coherent.projection stream empty
    refine .inr ⟨job, folds, ?_⟩
    cases found : tables.dispatch.lookup stream with
    | some row => exact (columns row found).symm
    | none =>
      rw [found, ← columnsOf_isSome] at present
      cases asked : columnsOf job with
      | none => rfl
      | some other =>
        rw [asked] at present
        exact absurd (present.mpr rfl) (by simp)

section Steps

variable {cluster : Cluster J} {plans : Nat → Plan J}

theorem Fenced.quiet (quiet : ∀ ticket, cluster.sessions.lookup ticket = none)
    (coherent : Coherent cluster.world.tables) (plans : Nat → Plan J) : Fenced cluster plans := by
  have closed : ∀ ticket session, cluster.sessions.lookup ticket ≠ some session := by
    intro ticket session found
    rw [quiet ticket] at found
    cases found
  constructor
  · exact Guarded.quiet quiet plans
  · exact ⟨coherent.versions, coherent.ids, fun ticket session found => absurd found (closed ticket session),
      fun ticket session found => absurd found (closed ticket session),
      fun ticket _ session _ _ found => absurd found (closed ticket session)⟩
  · exact ⟨coherent.shows, fun ticket session found => absurd found (closed ticket session),
      fun ticket _ session _ _ found => absurd found (closed ticket session)⟩
  · exact fun ticket session found => absurd found (closed ticket session)
  · exact fun ticket session found => absurd found (closed ticket session)
  · exact fun ticket session found => absurd found (closed ticket session)

theorem Fenced.close (fenced : Fenced cluster plans) (ticket : Nat) : Fenced (cluster.close ticket) plans where
  guarded := fenced.guarded.close ticket
  log := fenced.log.close ticket
  dispatching := fenced.dispatching.close ticket
  works := fun other session present => fenced.works other session (lookup_close present).2
  rests := fun other session present => fenced.rests other session (lookup_close present).2
  projects := fun other session present => fenced.projects other session (lookup_close present).2

theorem Fenced.start (fenced : Fenced cluster plans) (ticket : Nat) {work : Work}
    (dispatcher : work.ofDispatcher = true) :
    Fenced (cluster.resume ticket cluster.world ⟨work, work.program, .begin⟩)
      (Function.update plans ticket work.first) := by
  have phases : Plan.phase ∘ Function.update plans ticket work.first =
      Function.update (Plan.phase ∘ plans) ticket work.phase := Function.comp_update _ _ _ _
  constructor
  · exact fenced.guarded.start ticket work
  · rw [phases]
    exact fenced.log.start ticket
  · rw [phases]
    exact fenced.dispatching.start ticket
  · exact each_resume plans work.first (fun _ session => session.work.ofDispatcher = true) dispatcher
      fun other rival _ ongoing => fenced.works other rival ongoing
  · refine each_resume plans work.first (fun plan session => Rests cluster.world.tables session.tx plan) ?_
      fun other rival _ ongoing => fenced.rests other rival ongoing
    have fresh : (work.first : Plan J).aim = .fresh := Work.aim_ofDispatcher dispatcher
    rw [Rests, fresh]
    trivial
  · refine each_resume plans work.first (fun plan session => Projects session.tx plan.phase) ?_
      fun other rival _ ongoing => fenced.projects other rival ongoing
    unfold Work.first Work.phase
    split <;> trivial

theorem Fenced.untouched (fenced : Fenced cluster plans) {ticket : Nat} {session : Session J}
    (found : cluster.sessions.lookup ticket = some session) (commits : (plans ticket).permits true .commit)
    {id : JobId} (free : session.tx.holdsRow id = false) :
    (session.tx.view cluster.world.tables).dispatch.lookup id = cluster.world.tables.dispatch.lookup id ∧
      (session.tx.view cluster.world.tables).streamRows id = cluster.world.tables.streamRows id := by
  have unmoved : session.tx.moved id = none := by
    rw [← Option.not_isSome_iff_eq_none]
    intro moved
    rw [Transaction.holdsRow_iff.mpr (.inr moved)] at free
    cases free
  have rests := fenced.rests ticket session found
  have footprint := fenced.guarded.footprints ticket session found
  have dispatcher := fenced.works ticket session found
  rw [← fenced.guarded.works ticket session found] at dispatcher
  have rows : session.tx.rows.filter (·.streamId = id) = [] := by
    rw [List.filter_eq_nil_iff]
    intro row member
    rw [decide_eq_true_eq]
    obtain ⟨permits, aimed⟩ := commits
    generalize plans ticket = plan at *
    obtain ⟨phase, work, aim⟩ := plan
    cases aim with
    | planned job batch stored =>
      rw [footprint.1.rows row member]
      rintro rfl
      rw [footprint.locks dispatcher] at free
      cases free
    | beat count =>
      have none : session.tx.rows = [] := footprint.1
      rw [none] at member
      cases member
    | ended =>
      have none : session.tx.writes = [] := rests permits
      rw [Transaction.rows, none] at member
      cases member
    | _ => exact aimed.elim
  refine ⟨?_, ?_⟩
  · rw [Transaction.view_dispatch, unmoved]
    rfl
  · rw [Transaction.view_streamRows, rows, List.append_nil]

theorem Fenced.advance (fenced : Fenced cluster plans) {ticket : Nat} {session : Session J}
    (found : cluster.sessions.lookup ticket = some session) (verdict : Verdict) (statement : Stmt J)
    (permitted : (plans ticket).permits true statement)
    (ready : statement.waits (session.tx.view cluster.world.tables) (cluster.others ticket) = false)
    (program : Tx J Unit Unit) :
    let ran := statement.exec (cluster.others ticket) verdict cluster.world session.tx
    Fenced (cluster.resume ticket ran.1.1 ⟨session.work, program, ran.1.2⟩)
      (Function.update plans ticket ((plans ticket).after statement ran.2)) := by
  intro ran
  have phases : Plan.phase ∘ Function.update plans ticket ((plans ticket).after statement ran.2) =
      Function.update (Plan.phase ∘ plans) ticket ((plans ticket).phase.after statement ran.2) :=
    Function.comp_update _ _ _ _
  have advance : Advance true (cluster.others ticket) cluster.world session.tx (plans ticket).phase ran.1.1
      ran.1.2 ((plans ticket).phase.after statement ran.2) := Advance.of_exec statement permitted.1 ready
  have dispatcher := fenced.works ticket session found
  have planned : (plans ticket).work.ofDispatcher = true := by
    rw [fenced.guarded.works ticket session found]
    exact dispatcher
  constructor
  · exact fenced.guarded.advance found verdict statement permitted ready program
  · rw [phases]
    exact fenced.log.advance found program advance
  · rw [phases]
    exact fenced.dispatching.advance fenced.log found program advance
  · exact each_resume plans ((plans ticket).after statement ran.2)
      (fun _ session => session.work.ofDispatcher = true) dispatcher
      fun other rival _ ongoing => fenced.works other rival ongoing
  · refine each_resume plans ((plans ticket).after statement ran.2)
      (fun plan session => Rests ran.1.1.tables session.tx plan) ?_ ?_
    · by_cases commit : statement = .commit
      · subst commit
        exact Rests.closed permitted
      · have same : ran.1.1.tables = cluster.world.tables := exec_tables statement commit
        rw [same]
        exact (fenced.rests ticket session found).exec planned (fenced.guarded.footprints ticket session found)
          fenced.log.versions statement permitted commit
    · intro other rival different ongoing
      have rests := fenced.rests other rival ongoing
      by_cases commit : statement = .commit
      · subst commit
        have theirs := fenced.works other rival ongoing
        rw [← fenced.guarded.works other rival ongoing] at theirs
        refine rests.frame theirs (fenced.guarded.footprints other rival ongoing) ?_
        intro id holds
        exact fenced.untouched found permitted
          (fenced.guarded.exclusive other ticket rival session (Ne.symm different) ongoing found id holds)
      · have same : ran.1.1.tables = cluster.world.tables := exec_tables statement commit
        rw [same]
        exact rests
  · refine each_resume plans ((plans ticket).after statement ran.2)
      (fun plan session => Projects session.tx plan.phase) ?_
      fun other rival _ ongoing => fenced.projects other rival ongoing
    refine (fenced.projects ticket session found).exec statement permitted.1 ?_
    intro stream base count job folded
    have placed := fenced.dispatching.placed ticket session found
    rw [Function.comp_apply, folded] at placed
    exact placed.2.2 job.id

end Steps

/-- Dispatchers started on coherent tables stay fenced, however their statements interleave. -/
theorem Run.fenced {origin cluster : Cluster J} {history : List (Record (Cluster J) Label Unit)}
    (quiet : ∀ ticket, origin.sessions.lookup ticket = none) (coherent : Coherent origin.world.tables)
    (run : Run Cluster.Step origin history cluster)
    (works : ∀ record ∈ history, ∀ ticket work, record.label = .start ticket work → work.ofDispatcher = true) :
    ∃ plans, Following (Plan.permits true) Plan.after Plan.answers history cluster plans ∧
      Fenced cluster plans := by
  refine Run.following Work.first
    (fun record => ∀ ticket work, record.label = .start ticket work → work.ofDispatcher = true)
    (fun _ cluster plans => Fenced cluster plans) ?_ quiet (fun _ => (Work.relay 0).first)
    (Fenced.quiet quiet coherent _) ?_ ?_ ?_ run works
  · intro _ _ ticket work allowed
    refine work.answering_plans ?_
    intro _
    have dispatcher := allowed ticket work rfl
    unfold Work.ofDispatcher at dispatcher
    split at dispatcher
    · rfl
    · rfl
    · rfl
    · cases dispatcher
  · intro _ _ _ ticket work fenced _ _ allowed
    exact fenced.start ticket (allowed ticket work rfl)
  · exact fun _ _ _ ticket _ fenced _ => fenced.close ticket
  · intro _ cluster plans ticket verdict work statement rest tx fenced found permitted ready
    exact fun _ => fenced.advance found verdict statement permitted ready _

end Resting

end Koine.Postgres
