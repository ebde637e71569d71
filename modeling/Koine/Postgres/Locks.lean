import Koine.Postgres.Aims

namespace Koine.Postgres

open Library Domain Application

section Statements

variable {J : Type}

theorem Transaction.holdsRow_iff {tx : Transaction J} {id : JobId} :
    tx.holdsRow id = true ↔ id ∈ tx.locks ∨ (tx.moved id).isSome = true := by
  rw [Transaction.holdsRow, Bool.or_eq_true, decide_eq_true_eq]

theorem Transaction.holdsRow_write {tx : Transaction J} {write : Write J} {id : JobId}
    (holds : (tx.write write).holdsRow id = true) :
    tx.holdsRow id = true ∨ (∃ row, write = .put id row) ∨ write = .drop id := by
  rw [Transaction.holdsRow_iff] at holds ⊢
  rcases holds with locked | moved
  · exact .inl (.inl locked)
  · rw [Transaction.moved_write] at moved
    cases write with
    | put other row =>
      by_cases same : other = id
      · exact .inr (.inl ⟨row, by rw [same]⟩)
      · exact .inl (.inr (by simpa [same] using moved))
    | drop other =>
      by_cases same : other = id
      · exact .inr (.inr (by rw [same]))
      · exact .inl (.inr (by simpa [same] using moved))
    | _ => exact .inl (.inr moved)

theorem Transaction.holdsRow_puts (tx : Transaction J) {moved : Transaction J}
    {entries : List ((_ : JobId) × DispatchRow)}
    (change : DispatchRow → DispatchRow) {id : JobId} (holds : moved.holdsRow id = true)
    (writes : moved.writes = tx.writes ++ entries.map fun entry => Write.put entry.1 (change entry.2))
    (locks : moved.locks = tx.locks) :
    tx.holdsRow id = true ∨ ∃ entry ∈ entries, entry.1 = id := by
  induction entries generalizing tx with
  | nil =>
    rw [List.map_nil, List.append_nil] at writes
    rw [Transaction.holdsRow, Transaction.moved, writes, locks] at holds
    exact .inl holds
  | cons entry rest ih =>
    rw [List.map_cons, List.append_cons] at writes
    rcases ih (tx.write (.put entry.1 (change entry.2))) writes locks with before | ⟨other, member, same⟩
    · rcases Transaction.holdsRow_write before with old | ⟨_, put⟩ | drop
      · exact .inl old
      · cases put
        exact .inr ⟨entry, List.mem_cons_self, rfl⟩
      · cases drop
    · exact .inr ⟨other, List.mem_cons_of_mem _ member, same⟩

def Stmt.takes (view : Tables J) : (statement : Stmt J) → statement.Reply → JobId → Prop
  | .upsertPending jobId .., _, id | .upsertLeased jobId .., _, id => jobId = id
  | .deleteDispatch jobId, _, id => jobId = id ∧ (view.dispatch.lookup id).isSome = true
  | .selectEligible .., picked, id | .selectExpired _, picked, id => picked = some id
  | .updateDeadline _ lease now, _, id =>
    ∃ row, view.dispatch.lookup id = some row ∧ row.alive lease (timestamptz now) = true
  | _, _, _ => False

variable {others : List (Transaction J)} {verdict : Verdict} {world : World J} {tx : Transaction J}

theorem exec_takes (statement : Stmt J) {id : JobId}
    (holds : (statement.exec others verdict world tx).1.2.holdsRow id = true) :
    tx.holdsRow id = true ∨
      statement.takes (tx.view world.tables) (statement.exec others verdict world tx).2 id := by
  cases statement with
  | maxVersion | loadStream | notifyDispatch => exact .inl holds
  | commit => cases holds
  | selectOutbox batch => exact .inl holds
  | deliver envelopes => cases verdict <;> exact .inl holds
  | insertEvent columns =>
    simp only [Stmt.exec] at holds
    split at holds
    · exact .inl holds
    · split at holds
      · exact .inl holds
      · rcases Transaction.holdsRow_write holds with before | ⟨_, put⟩ | drop
        · exact .inl before
        · cases put
        · cases drop
  | insertOutbox eventId streamId envelope =>
    rcases Transaction.holdsRow_write holds with before | ⟨_, put⟩ | drop
    · exact .inl before
    · cases put
    · cases drop
  | deleteOutbox seqs =>
    rcases Transaction.holdsRow_write holds with before | ⟨_, put⟩ | drop
    · exact .inl before
    · cases put
    · cases drop
  | upsertPending | upsertLeased =>
    rcases Transaction.holdsRow_write holds with before | ⟨_, put⟩ | drop
    · exact .inl before
    · cases put
      exact .inr rfl
    · cases drop
  | deleteDispatch jobId =>
    simp only [Stmt.exec] at holds
    split at holds
    · rename_i row present
      rcases Transaction.holdsRow_write holds with before | ⟨_, put⟩ | drop
      · exact .inl before
      · cases put
      · cases drop
        exact .inr ⟨rfl, by rw [present]; rfl⟩
    · exact .inl holds
  | selectEligible | selectExpired =>
    simp only [Stmt.exec, Stmt.takes] at holds ⊢
    split at holds
    · rw [Transaction.holdsRow_iff, List.mem_cons] at holds
      rcases holds with (here | locked) | moved
      · exact .inr (by rw [here])
      · exact .inl (Transaction.holdsRow_iff.mpr (.inl locked))
      · exact .inl (Transaction.holdsRow_iff.mpr (.inr moved))
    · exact .inl holds
  | updateDeadline deadline lease now =>
    rcases tx.holdsRow_puts (fun row => { row with leaseExpiresAt := some (timestamptz deadline) }) holds rfl
      rfl with before | ⟨entry, listed, rfl⟩
    · exact .inl before
    · rw [List.mem_filter] at listed
      exact .inr ⟨entry.2, AList.mem_lookup_iff.mpr listed.1, listed.2⟩

theorem any_holdsRow {id : JobId} :
    others.any (·.holdsRow id) = false ↔ ∀ other ∈ others, other.holdsRow id = false := by
  simp

theorem takes_free (statement : Stmt J) (ready : statement.waits (tx.view world.tables) others = false)
    {id : JobId} (takes : statement.takes (tx.view world.tables)
      (statement.exec others verdict world tx).2 id) : ∀ other ∈ others, other.holdsRow id = false := by
  cases statement with
  | upsertPending | upsertLeased =>
    cases takes
    exact any_holdsRow.mp ready
  | deleteDispatch jobId =>
    obtain ⟨rfl, present⟩ := takes
    rw [Stmt.waits, present, Bool.true_and] at ready
    exact any_holdsRow.mp ready
  | updateDeadline deadline lease now =>
    obtain ⟨row, present, alive⟩ := takes
    rw [Stmt.waits, List.any_eq_false] at ready
    have free := ready ⟨id, row⟩ (AList.mem_lookup_iff.mp present)
    rw [alive, Bool.true_and, Bool.not_eq_true] at free
    exact any_holdsRow.mp free
  | selectEligible | selectExpired =>
    simp only [Stmt.takes, Stmt.exec] at takes
    split at takes
    · rename_i entry picked
      cases takes
      have free := (List.mem_filter.mp (maxBy_mem picked)).2
      rw [Bool.and_eq_true, Bool.not_eq_true'] at free
      exact any_holdsRow.mp free.2
    · cases takes
  | _ => exact takes.elim

theorem exec_locks (statement : Stmt J) :
    (statement.exec others verdict world tx).1.2.locks =
      match statement, (statement.exec others verdict world tx).2 with
      | .selectEligible .., some id | .selectExpired _, some id => id :: tx.locks
      | .commit, _ => []
      | _, _ => tx.locks := by
  cases statement with
  | insertEvent columns =>
    simp only [Stmt.exec]
    split
    · rfl
    · split <;> rfl
  | deleteDispatch | selectEligible | selectExpired =>
    simp only [Stmt.exec]
    split <;> rfl
  | deliver => cases verdict <;> rfl
  | _ => rfl

theorem exec_tables (statement : Stmt J) (ongoing : statement ≠ .commit) :
    (statement.exec others verdict world tx).1.1.tables = world.tables := by
  cases statement with
  | commit => exact absurd rfl ongoing
  | insertEvent columns =>
    simp only [Stmt.exec]
    split
    · rfl
    · split <;> rfl
  | deleteDispatch | selectEligible | selectExpired =>
    simp only [Stmt.exec]
    split <;> rfl
  | deliver => cases verdict <;> rfl
  | _ => rfl

theorem exec_rows_eq (statement : Stmt J) (ongoing : statement ≠ .commit)
    (other : ∀ columns, statement ≠ .insertEvent columns) :
    (statement.exec others verdict world tx).1.2.rows = tx.rows := by
  cases statement with
  | commit => exact absurd rfl ongoing
  | insertEvent columns => exact absurd rfl (other columns)
  | insertOutbox | upsertPending | upsertLeased | deleteOutbox =>
    simp [Stmt.exec, upsert, Transaction.rows_write]
  | deleteDispatch jobId =>
    simp only [Stmt.exec]
    split
    · rw [Transaction.rows_write, List.append_nil]
    · rfl
  | selectEligible | selectExpired =>
    simp only [Stmt.exec]
    split <;> rfl
  | updateDeadline => simp [Stmt.exec, Transaction.rows, List.filterMap_append, List.filterMap_map]
  | deliver => cases verdict <;> rfl
  | _ => rfl

theorem exec_rows (statement : Stmt J) {row : EventRow J}
    (member : row ∈ (statement.exec others verdict world tx).1.2.rows) :
    row ∈ tx.rows ∨ ∃ columns, statement = .insertEvent columns ∧ row.streamId = columns.streamId ∧
      row.eventId = columns.eventId := by
  by_cases commit : statement = .commit
  · subst commit
    cases member
  · by_cases inserts : ∃ columns, statement = .insertEvent columns
    · obtain ⟨columns, rfl⟩ := inserts
      simp only [Stmt.exec] at member
      split at member
      · exact .inl member
      · split at member
        · exact .inl member
        · rw [Transaction.rows_write, List.mem_append, List.mem_singleton] at member
          rcases member with old | rfl
          · exact .inl old
          · exact .inr ⟨columns, rfl, rfl, rfl⟩
    · rw [exec_rows_eq statement commit (not_exists.mp inserts)] at member
      exact .inl member

theorem exec_claimed (statement : Stmt J) (only : ∀ batch, statement ≠ .selectOutbox batch)
    (none : tx.claimed = []) : (statement.exec others verdict world tx).1.2.claimed = [] := by
  cases statement with
  | selectOutbox batch => exact absurd rfl (only batch)
  | insertEvent columns =>
    simp only [Stmt.exec]
    split
    · exact none
    · split <;> exact none
  | deleteDispatch | selectEligible | selectExpired =>
    simp only [Stmt.exec]
    split <;> exact none
  | deliver => cases verdict <;> exact none
  | commit => rfl
  | _ => exact none

end Statements

section Plans

variable {J : Type} [Serde J] [BuildProfile]

/-- Where a connection stands: how far its transaction has come, and what it is after. -/
structure Plan (J : Type) where
  phase : Phase J
  work : Work
  aim : Aim

def Plan.permits (strict : Bool) (plan : Plan J) (statement : Stmt J) : Prop :=
  plan.phase.permits strict statement ∧ plan.aim.permits plan.work statement

def Plan.after (plan : Plan J) (statement : Stmt J) (reply : statement.Reply) : Plan J :=
  ⟨plan.phase.after statement reply, plan.work, plan.aim.after plan.work statement reply⟩

def Work.first (work : Work) : Plan J := ⟨work.phase, work, work.aim⟩

def Plan.answers (plan : Plan J) (answer : Option Answer) : Prop :=
  plan.aim.answers answer ∧ ∀ given, answer = some given → plan.work.replies given = true

theorem Work.answering_plans (work : Work) {strict : Bool} (kind : strict = true → work.strict = true) :
    (work.answering : Tx J Unit _).Obeys (Plan.permits strict) Plan.after Plan.answers work.first := by
  have keeps : Keeps strict (work.answering : Tx J Unit _) (fun _ _ => True) work.phase :=
    (work.program_keeps strict kind).of_shape work.answering_shape.symm
  let read (all : Phase J × Aim × Unit) : Plan J := ⟨all.1, work, all.2.1⟩
  refine (keeps.prod (work.answering_aims.prod work.answering_replies)).image read ?_ ?_ ?_
  · exact fun _ _ permitted => ⟨permitted.1, permitted.2.1⟩
  · exact fun _ _ _ => rfl
  · exact fun _ _ returned => returned.2

structure Focused (tx : Transaction J) (phase : Phase J) (job : JobId) : Prop where
  rows : ∀ row ∈ tx.rows, row.streamId = job
  holds : ∀ id, tx.holdsRow id = true → id = job
  claimed : tx.claimed = []
  batch : ∀ stream base count, phase.batch = some (stream, base, count) → stream = job
  folded : ∀ stream base count final, phase = .folded stream base count final → final.id = job

/-- What the transaction has written and locked, by what the connection is after. -/
def Footprint (work : Work) (phase : Phase J) (tx : Transaction J) : Aim → Prop
  | .fresh => tx = .begin ∧ phase.batch = none ∧ work.aim = .fresh
  | .picked job => tx = { Transaction.begin with locks := [job] } ∧ phase.batch = none ∧ work.aim = .fresh
  | .planned job _ _ => Focused tx phase job ∧
    (work.aim = .fresh ∧ job ∈ tx.locks ∨ ∃ batch, work.aim = .planned job batch 0)
  | .beat _ => tx.rows = [] ∧ tx.locks = [] ∧ tx.claimed = [] ∧ work.aim = .fresh
  | .settled .. | .beaten _ => tx = .begin
  | .ended => True

section Step

variable {strict : Bool} {others : List (Transaction J)} {verdict : Verdict} {world : World J}
  {tx : Transaction J} {phase : Phase J}

theorem Phase.batch_after {statement : Stmt J}
    (permitted : phase.permits strict statement) (reply : statement.Reply) {stream : JobId} {base count : Nat}
    (after : (phase.after statement reply).batch = some (stream, base, count)) :
    (∃ start size, phase.batch = some (stream, start, size)) ∨ statement = .maxVersion stream := by
  cases phase with
  | reading =>
    cases statement with
    | maxVersion target =>
      cases after
      exact .inr rfl
    | loadStream | selectEligible | selectExpired | updateDeadline | commit => cases after
    | _ => exact permitted.elim
  | writing target start size =>
    cases statement with
    | insertEvent columns =>
      cases reply with
      | inserted =>
        cases after
        exact .inl ⟨_, _, rfl⟩
      | violates => cases after
    | loadStream target =>
      simp only [Phase.after] at after
      split at after
      · cases after
        exact .inl ⟨_, _, rfl⟩
      · cases after
    | _ => exact permitted.elim
  | unpaired target start size columns =>
    cases statement with
    | insertOutbox =>
      cases after
      exact .inl ⟨_, _, rfl⟩
    | _ => exact permitted.elim
  | folded target start size job =>
    cases statement with
    | upsertPending | upsertLeased | deleteDispatch =>
      cases after
      exact .inl ⟨_, _, rfl⟩
    | _ => exact permitted.elim
  | projected target start size job =>
    cases statement with
    | notifyDispatch =>
      cases after
      exact .inl ⟨_, _, rfl⟩
    | commit => cases after
    | _ => exact permitted.elim
  | selected rows =>
    cases statement with
    | deliver => cases reply <;> cases after
    | _ => exact permitted.elim
  | _ => cases statement <;> first | exact permitted.elim | cases after

theorem Phase.folded_after {statement : Stmt J}
    (permitted : phase.permits strict statement) (reply : statement.Reply) {stream : JobId} {base count : Nat}
    {job : Job} (after : phase.after statement reply = .folded stream base count job) :
    phase = .writing stream base count ∧ statement = .loadStream stream := by
  cases phase with
  | reading => cases statement <;> first | exact permitted.elim | cases after
  | writing target start size =>
    cases statement with
    | insertEvent columns => cases reply <;> cases after
    | loadStream named =>
      simp only [Phase.after] at after
      split at after
      · cases after
        obtain ⟨rfl, _⟩ := permitted
        exact ⟨rfl, rfl⟩
      · cases after
    | _ => exact permitted.elim
  | selected rows =>
    cases statement with
    | deliver => cases reply <;> cases after
    | _ => exact permitted.elim
  | _ => cases statement <;> first | exact permitted.elim | cases after

theorem Focused.exec {work : Work} {job : JobId} {batch : List EventEnvelope} {stored : Nat}
    (focused : Focused tx phase job) (statement : Stmt J) (permitted : phase.permits strict statement)
    (aimed : (Aim.planned job batch stored).permits work statement) :
    Focused (statement.exec others verdict world tx).1.2
      (phase.after statement (statement.exec others verdict world tx).2) job := by
  have rows : ∀ row ∈ (statement.exec others verdict world tx).1.2.rows, row.streamId = job := by
    intro row member
    rcases exec_rows statement member with old | ⟨columns, rfl, named, _⟩
    · exact focused.rows row old
    · obtain ⟨envelope, payload, _, _, rfl⟩ := aimed
      exact named
  have holds : ∀ id, (statement.exec others verdict world tx).1.2.holdsRow id = true → id = job := by
    intro id holds
    rcases exec_takes statement holds with old | takes
    · exact focused.holds id old
    · cases statement with
      | upsertPending | upsertLeased | deleteDispatch =>
        cases phase with
        | folded stream base count final =>
          have named := focused.folded stream base count final rfl
          first
          | rw [← takes, permitted.1, named]
          | rw [← takes.1, permitted.1, named]
        | _ => exact permitted.elim
      | _ => first | exact takes.elim | exact aimed.elim
  have claimed : (statement.exec others verdict world tx).1.2.claimed = [] := by
    refine exec_claimed statement ?_ focused.claimed
    rintro size rfl
    exact aimed
  refine ⟨rows, holds, claimed, ?_, ?_⟩
  · intro stream base count after
    rcases Phase.batch_after permitted _ after with ⟨start, size, before⟩ | rfl
    · exact focused.batch stream start size before
    · exact aimed.1
  · intro stream base count final after
    obtain ⟨rfl, rfl⟩ := Phase.folded_after permitted _ after
    simp only [Phase.after] at after
    split at after
    · rename_i folds
      cases after
      have named := focused.batch stream base count rfl
      refine foldRows_id folds ?_
      intro row member
      rw [Stmt.exec, inOrder, List.mem_insertionSort, Tables.streamRows, List.mem_filter] at member
      rw [← named]
      simpa using member.2
    · cases after

theorem Aim.planned_after (work : Work) (job : JobId) (batch : List EventEnvelope) (stored : Nat)
    (statement : Stmt J) (reply : statement.Reply) :
    (∃ more, (Aim.planned job batch stored).after work statement reply = .planned job batch more) ∨
      (statement = .commit ∧ (Aim.planned job batch stored).after work statement reply = .settled job batch) ∨
      (Aim.planned job batch stored).after work statement reply = .ended := by
  cases statement with
  | insertEvent columns =>
    cases reply with
    | inserted => exact .inl ⟨_, rfl⟩
    | violates => exact .inr (.inr rfl)
  | commit => exact .inr (.inl ⟨rfl, rfl⟩)
  | _ => exact .inl ⟨_, rfl⟩

theorem Footprint.exec {work : Work} {aim : Aim} (footprint : Footprint work phase tx aim) (statement : Stmt J)
    (kept : phase.permits strict statement) (aimed : aim.permits work statement) :
    let ran := statement.exec others verdict world tx
    Footprint work (phase.after statement ran.2) ran.1.2 (aim.after work statement ran.2) := by
  simp only
  cases aim with
  | fresh =>
    obtain ⟨rfl, batch, first⟩ := footprint
    cases statement with
    | selectEligible | selectExpired =>
      cases phase with
      | reading =>
        simp only [Stmt.exec]
        split
        · exact ⟨rfl, rfl, first⟩
        · trivial
      | _ => exact kept.elim
    | updateDeadline deadline lease now =>
      refine ⟨?_, rfl, rfl, first⟩
      simp [Stmt.exec, Transaction.rows, Transaction.begin, List.filterMap_map]
    | loadStream | selectOutbox => trivial
    | _ => exact aimed.elim
  | picked job =>
    obtain ⟨rfl, batch, first⟩ := footprint
    cases statement with
    | loadStream stream =>
      simp only [Aim.after]
      split
      · refine ⟨⟨?_, ?_, rfl, ?_, ?_⟩, .inl ⟨first, List.mem_singleton_self job⟩⟩
        · intro row member
          cases member
        · intro id holds
          rcases Transaction.holdsRow_iff.mp holds with locked | moved
          · exact List.mem_singleton.mp locked
          · cases moved
        · intro target base count after
          rcases Phase.batch_after kept _ after with ⟨_, _, before⟩ | other
          · rw [batch] at before
            cases before
          · cases other
        · intro target base count final after
          obtain ⟨rfl, _⟩ := Phase.folded_after kept _ after
          cases batch
      · trivial
    | _ => exact aimed.elim
  | planned job envelopes stored =>
    obtain ⟨focused, whose⟩ := footprint
    have next : Focused (statement.exec others verdict world tx).1.2 _ job := focused.exec statement kept aimed
    rcases Aim.planned_after work job envelopes stored statement
      (statement.exec others verdict world tx).2 with ⟨more, after⟩ | ⟨rfl, after⟩ | after
    · rw [after]
      refine ⟨next, whose.imp_left ?_⟩
      rintro ⟨first, locked⟩
      refine ⟨first, ?_⟩
      rw [exec_locks]
      split
      · exact List.mem_cons_of_mem _ locked
      · exact List.mem_cons_of_mem _ locked
      · cases after
      · exact locked
    · rw [after]
      rfl
    · rw [after]
      trivial
  | beat rows =>
    cases statement with
    | commit => rfl
    | _ => exact aimed.elim
  | ended =>
    cases statement with
    | commit | deliver | deleteOutbox => trivial
    | _ => exact aimed.elim
  | settled | beaten => cases statement <;> exact aimed.elim

end Step

omit [Serde J] [BuildProfile] in
theorem Work.footprint (work : Work) : Footprint work (work.phase : Phase J) .begin work.aim := by
  cases work with
  | relay batch => exact ⟨rfl, rfl, rfl⟩
  | operation operation =>
    cases operation with
    | append stream expected batch =>
      refine ⟨⟨?_, ?_, rfl, ?_, ?_⟩, .inr ⟨batch, rfl⟩⟩
      · exact fun row member => nomatch member
      · exact fun id holds => nomatch holds
      · exact fun _ _ _ batch => nomatch batch
      · exact fun _ _ _ _ phase => nomatch phase
    | _ => exact ⟨rfl, rfl, rfl⟩

end Plans

section Cluster

variable {J : Type}

/-- The locks of the cluster: no two open transactions hold the row of one job, and each holds what its
    plan says. -/
structure Guarded (cluster : Cluster J) (plans : Nat → Plan J) : Prop where
  exclusive : ∀ ticket other session rival, other ≠ ticket →
    cluster.sessions.lookup ticket = some session → cluster.sessions.lookup other = some rival →
    ∀ id, session.tx.holdsRow id = true → rival.tx.holdsRow id = false
  works : ∀ ticket session, cluster.sessions.lookup ticket = some session → (plans ticket).work = session.work
  footprints : ∀ ticket session, cluster.sessions.lookup ticket = some session →
    Footprint (plans ticket).work (plans ticket).phase session.tx (plans ticket).aim

theorem Guarded.quiet {cluster : Cluster J} (quiet : ∀ ticket, cluster.sessions.lookup ticket = none)
    (plans : Nat → Plan J) : Guarded cluster plans where
  exclusive := by
    intro ticket other session rival _ found
    rw [quiet] at found
    cases found
  works := by
    intro ticket session found
    rw [quiet] at found
    cases found
  footprints := by
    intro ticket session found
    rw [quiet] at found
    cases found

theorem Guarded.close {cluster : Cluster J} {plans : Nat → Plan J} (guarded : Guarded cluster plans)
    (ticket : Nat) : Guarded (cluster.close ticket) plans where
  exclusive := fun first second session rival different found ongoing =>
    guarded.exclusive first second session rival different (lookup_close found).2 (lookup_close ongoing).2
  works := fun other session present => guarded.works other session (lookup_close present).2
  footprints := fun other session present => guarded.footprints other session (lookup_close present).2

theorem Guarded.resume {cluster : Cluster J} {plans : Nat → Plan J} (guarded : Guarded cluster plans)
    {ticket : Nat} {world : World J} {session : Session J} {plan : Plan J} (work : plan.work = session.work)
    (footprint : Footprint plan.work plan.phase session.tx plan.aim)
    (free : ∀ other rival, other ≠ ticket → cluster.sessions.lookup other = some rival →
      ∀ id, session.tx.holdsRow id = true → rival.tx.holdsRow id = false) :
    Guarded (cluster.resume ticket world session) (Function.update plans ticket plan) := by
  constructor
  · refine between_resume plans plan (fun _ session _ rival =>
      ∀ id, session.tx.holdsRow id = true → rival.tx.holdsRow id = false) ?_ free guarded.exclusive
    intro _ left _ right apart id holds
    by_contra other
    rw [Bool.not_eq_false] at other
    rw [apart id other] at holds
    cases holds
  · exact each_resume plans plan (fun plan session => plan.work = session.work) work
      fun other rival _ ongoing => guarded.works other rival ongoing
  · exact each_resume plans plan (fun plan session => Footprint plan.work plan.phase session.tx plan.aim)
      footprint fun other rival _ ongoing => guarded.footprints other rival ongoing

variable [Serde J] [BuildProfile]

theorem Guarded.start {cluster : Cluster J} {plans : Nat → Plan J} (guarded : Guarded cluster plans)
    (ticket : Nat) (work : Work) :
    Guarded (cluster.resume ticket cluster.world ⟨work, work.program, .begin⟩)
      (Function.update plans ticket work.first) := by
  refine guarded.resume rfl work.footprint ?_
  exact fun _ _ _ _ id holds => nomatch holds

theorem Guarded.advance {cluster : Cluster J} {plans : Nat → Plan J} (guarded : Guarded cluster plans)
    {strict : Bool} {ticket : Nat} {session : Session J}
    (found : cluster.sessions.lookup ticket = some session) (verdict : Verdict) (statement : Stmt J)
    (permitted : (plans ticket).permits strict statement)
    (ready : statement.waits (session.tx.view cluster.world.tables) (cluster.others ticket) = false)
    (program : Tx J Unit Unit) :
    let ran := statement.exec (cluster.others ticket) verdict cluster.world session.tx
    Guarded (cluster.resume ticket ran.1.1 ⟨session.work, program, ran.1.2⟩)
      (Function.update plans ticket ((plans ticket).after statement ran.2)) := by
  refine guarded.resume (guarded.works ticket session found)
    ((guarded.footprints ticket session found).exec statement permitted.1 permitted.2) ?_
  intro other rival different ongoing id holds
  rcases exec_takes statement holds with old | takes
  · exact guarded.exclusive ticket other session rival different found ongoing id old
  · exact takes_free statement ready takes rival.tx (mem_others.mpr ⟨other, rival, different, ongoing, rfl⟩)

theorem Run.guarded {history : List (Record (Cluster J) Label Unit)} {cluster : Cluster J}
    (run : Run Cluster.Step .empty history cluster) :
    ∃ plans, Following (Plan.permits false) Plan.after Plan.answers history cluster plans ∧
      Guarded cluster plans := by
  refine Run.following Work.first (fun _ => True) (fun _ cluster plans => Guarded cluster plans) ?_
    (fun _ => rfl) (fun _ => (Work.relay 0).first) (Guarded.quiet (fun _ => rfl) _) ?_ ?_ ?_ run
    fun _ _ => trivial
  · exact fun _ _ _ work _ => work.answering_plans nofun
  · exact fun _ _ _ ticket work guarded _ _ => guarded.start ticket work
  · exact fun _ _ _ ticket _ guarded _ => guarded.close ticket
  · intro _ cluster plans ticket verdict work statement rest tx guarded found permitted ready
    exact fun _ => guarded.advance found verdict statement permitted ready _

end Cluster

end Koine.Postgres
