import Koine.Postgres.Log

namespace Koine.Postgres

open Library Domain Application

section Sequence

variable {J : Type}

def Tables.outboxOf (tables : Tables J) (stream : JobId) : List (OutboxRow J) :=
  tables.outbox.filter (·.streamId = stream)

def Tables.removedOf (tables : Tables J) (stream : JobId) : List (OutboxRow J) :=
  tables.removed.filter (·.streamId = stream)

def Precedes (left right : OutboxRow J) : Prop :=
  left.outboxSeq ≠ right.outboxSeq ∧ (left.streamId = right.streamId → left.outboxSeq < right.outboxSeq)

def Phase.pending (phase : Phase J) (tx : Transaction J) : List (OutboxRow J) :=
  if phase.batch.isSome then tx.outs else []

def Distinct (left right : List (OutboxRow J)) : Prop :=
  ∀ row ∈ left, ∀ clash ∈ right, row.outboxSeq ≠ clash.outboxSeq

theorem Distinct.symm {left right : List (OutboxRow J)} (distinct : Distinct left right) :
    Distinct right left :=
  fun row member clash listed => Ne.symm (distinct clash listed row member)

/-- The numbers of the outbox: drawn from the sequence, distinct, and increasing along a stream. -/
structure Sequenced (cluster : Cluster J) (phases : Nat → Phase J) : Prop where
  ordered : cluster.world.tables.outbox.Pairwise Precedes
  drawn : ∀ row ∈ cluster.world.tables.outbox, row.outboxSeq ≤ cluster.world.outboxSeq
  pending : ∀ ticket session, cluster.sessions.lookup ticket = some session →
    (cluster.world.tables.outbox ++ (phases ticket).pending session.tx).Pairwise Precedes ∧
      ∀ row ∈ (phases ticket).pending session.tx, row.outboxSeq ≤ cluster.world.outboxSeq
  apart : ∀ ticket other session rival, other ≠ ticket →
    cluster.sessions.lookup ticket = some session → cluster.sessions.lookup other = some rival →
    Distinct ((phases ticket).pending session.tx) ((phases other).pending rival.tx)

theorem Sequenced.empty : Sequenced (Cluster.empty : Cluster J) fun _ => .closed where
  ordered := List.Pairwise.nil
  drawn := by intro row member; cases member
  pending := by intro ticket session found; cases found
  apart := by intro ticket other session rival different found; cases found

theorem Sequenced.close {cluster : Cluster J} {phases : Nat → Phase J} (sequenced : Sequenced cluster phases)
    (ticket : Nat) : Sequenced (cluster.close ticket) phases where
  ordered := sequenced.ordered
  drawn := sequenced.drawn
  pending := by
    intro other session present
    exact sequenced.pending other session (lookup_close present).2
  apart := by
    intro first second session rival different found ongoing
    exact sequenced.apart first second session rival different (lookup_close found).2 (lookup_close ongoing).2

theorem Sequenced.resume {cluster : Cluster J} {phases : Nat → Phase J}
    (sequenced : Sequenced cluster phases) {ticket : Nat} {world : World J} {session : Session J}
    {phase : Phase J} (tables : world.tables = cluster.world.tables)
    (seq : cluster.world.outboxSeq ≤ world.outboxSeq)
    (pending : (cluster.world.tables.outbox ++ phase.pending session.tx).Pairwise Precedes ∧
      ∀ row ∈ phase.pending session.tx, row.outboxSeq ≤ world.outboxSeq)
    (apart : ∀ other rival, other ≠ ticket → cluster.sessions.lookup other = some rival →
      Distinct (phase.pending session.tx) ((phases other).pending rival.tx)) :
    Sequenced (cluster.resume ticket world session) (Function.update phases ticket phase) := by
  have same : (cluster.resume ticket world session).world.tables = cluster.world.tables := tables
  have later : cluster.world.outboxSeq ≤ (cluster.resume ticket world session).world.outboxSeq := seq
  constructor
  · rw [same]
    exact sequenced.ordered
  · rw [same]
    intro row member
    exact (sequenced.drawn row member).trans later
  · rw [same]
    refine each_resume phases phase (fun phase session =>
      (cluster.world.tables.outbox ++ phase.pending session.tx).Pairwise Precedes ∧
        ∀ row ∈ phase.pending session.tx, row.outboxSeq ≤ world.outboxSeq) pending ?_
    intro other rival _ ongoing
    obtain ⟨order, bound⟩ := sequenced.pending other rival ongoing
    exact ⟨order, fun row member => (bound row member).trans seq⟩
  · exact between_resume phases phase (fun phase session next rival => Distinct (phase.pending session.tx)
      (next.pending rival.tx)) (fun _ _ _ _ => Distinct.symm) apart sequenced.apart

theorem Sequenced.resume_nothing {cluster : Cluster J} {phases : Nat → Phase J}
    (sequenced : Sequenced cluster phases) {ticket : Nat} {session : Session J} {world : World J}
    {phase : Phase J} (tables : world.tables = cluster.world.tables)
    (seq : world.outboxSeq = cluster.world.outboxSeq) (none : phase.pending session.tx = []) :
    Sequenced (cluster.resume ticket world session) (Function.update phases ticket phase) := by
  refine sequenced.resume tables seq.ge ⟨?_, ?_⟩ ?_
  · rw [none, List.append_nil]
    exact sequenced.ordered
  · rw [none]
    exact fun row member => nomatch member
  · rw [none]
    exact fun _ _ _ _ row member => nomatch member

theorem Sequenced.resume_pending {cluster : Cluster J} {phases : Nat → Phase J}
    (sequenced : Sequenced cluster phases) {ticket : Nat} {old session : Session J}
    (found : cluster.sessions.lookup ticket = some old) {world : World J} {phase : Phase J}
    (tables : world.tables = cluster.world.tables) (seq : world.outboxSeq = cluster.world.outboxSeq)
    (same : phase.pending session.tx = (phases ticket).pending old.tx) :
    Sequenced (cluster.resume ticket world session) (Function.update phases ticket phase) := by
  refine sequenced.resume tables seq.ge ?_ ?_
  · rw [same, seq]
    exact sequenced.pending ticket old found
  · intro other rival different ongoing
    rw [same]
    exact sequenced.apart ticket other old rival different found ongoing

theorem Sequenced.start {cluster : Cluster J} {phases : Nat → Phase J} (sequenced : Sequenced cluster phases)
    (ticket : Nat) {work : Work} {program : Tx J Unit Unit} :
    Sequenced (cluster.resume ticket cluster.world ⟨work, program, .begin⟩)
      (Function.update phases ticket work.phase) := by
  refine sequenced.resume_nothing rfl rfl ?_
  unfold Work.phase
  split <;> rfl

variable [Serde J]

theorem Wrote.pending {tables : Tables J} {tx : Transaction J} {phase : Phase J} (wrote : Wrote tables tx phase)
    {out : OutboxRow J} (member : out ∈ phase.pending tx) :
    ∃ stream base count, 0 < count ∧ phase.batch = some (stream, base, count) ∧
      Appending tables tx stream base count ∧ out.streamId = stream := by
  have batched : ∀ stream base count, phase.batch = some (stream, base, count) →
      (∃ row ∈ tx.rows, Pairs row out) → Appending tables tx stream base count ∧ 0 < count ∧
        out.streamId = stream := by
    intro stream base count batch ⟨row, listed, pair⟩
    have appending := wrote.appending batch
    have length := appending.length
    have some := List.length_pos_of_mem listed
    exact ⟨appending, by omega, pair.2.1.trans (appending.streams row listed)⟩
  cases phase with
  | writing stream base count | folded stream base count | projected stream base count =>
    obtain ⟨appending, some, named⟩ := batched stream base count rfl (exists_of_mem_right wrote.2 member)
    exact ⟨stream, base, count, some, rfl, appending, named⟩
  | unpaired stream base count columns =>
    obtain ⟨_, earlier, row, rows, _, _, _, pairs⟩ := wrote
    obtain ⟨paired, listed, pair⟩ := exists_of_mem_right pairs member
    obtain ⟨appending, some, named⟩ := batched stream base (count + 1) rfl
      ⟨paired, by rw [rows]; exact List.mem_append_left _ listed, pair⟩
    exact ⟨stream, base, count + 1, some, rfl, appending, named⟩
  | _ => cases member

theorem Wrote.outbox {strict : Bool} {tables : Tables J} {tx : Transaction J} {phase : Phase J}
    (wrote : Wrote tables tx phase) (commits : phase.permits strict .commit) :
    ((tx.view tables).outbox = tables.outbox ++ phase.pending tx ∧
        (tx.view tables).removed = tables.removed ∧ List.Forall₂ Pairs tx.rows (phase.pending tx)) ∨
      ∃ rows, phase = .dropped rows ∧ tx.rows = [] ∧
        (tx.view tables).outbox = tables.outbox.filter (fun row => row.outboxSeq ∉ rows.map (·.1)) ∧
        (tx.view tables).removed =
          tables.removed ++ tables.outbox.filter (fun row => row.outboxSeq ∈ rows.map (·.1)) := by
  cases phase with
  | reading =>
    have none : tx.writes = [] := wrote
    left
    rw [Transaction.view, Transaction.rows, none]
    exact ⟨(List.append_nil _).symm, rfl, .nil⟩
  | projected stream base count job =>
    obtain ⟨outbox, removed⟩ := Transaction.view_outbox wrote.1.appends tables
    exact .inl ⟨outbox, removed, wrote.2⟩
  | beaten =>
    obtain ⟨outbox, removed⟩ := Transaction.view_outbox wrote.2.2 tables
    rw [wrote.2.1] at outbox
    exact .inl ⟨outbox, removed, by rw [wrote.1]; exact .nil⟩
  | dropped rows =>
    have only : tx.writes = [.remove (rows.map (·.1))] := wrote
    right
    rw [Transaction.view, Transaction.rows, only]
    exact ⟨rows, rfl, rfl, rfl, rfl⟩
  | _ => exact commits.elim

theorem Sequenced.committed {cluster : Cluster J} {phases : Nat → Phase J} {strict : Bool}
    (sequenced : Sequenced cluster phases) (log : Log cluster phases) {ticket : Nat} {session : Session J}
    (found : cluster.sessions.lookup ticket = some session) {world : World J} {program : Tx J Unit Unit}
    (tables : world.tables = session.tx.view cluster.world.tables)
    (seq : world.outboxSeq = cluster.world.outboxSeq)
    (commits : (phases ticket).permits strict .commit) :
    Sequenced (cluster.resume ticket world ⟨session.work, program, .begin⟩)
      (Function.update phases ticket .closed) := by
  have wrote := log.wrote ticket session found
  obtain ⟨order, bound⟩ := sequenced.pending ticket session found
  have outbox := wrote.outbox commits
  rw [← tables] at outbox
  have ordered : world.tables.outbox.Pairwise Precedes := by
    rcases outbox with ⟨grown, _⟩ | ⟨rows, _, _, shrunk, _⟩
    · rw [grown]
      exact order
    · rw [shrunk]
      exact sequenced.ordered.filter _
  constructor
  · exact ordered
  · intro row member
    change row.outboxSeq ≤ world.outboxSeq
    change row ∈ world.tables.outbox at member
    rw [seq]
    rcases outbox with ⟨grown, _⟩ | ⟨rows, _, _, shrunk, _⟩
    · rw [grown, List.mem_append] at member
      exact member.elim (sequenced.drawn row) (bound row)
    · rw [shrunk] at member
      exact sequenced.drawn row (List.mem_of_mem_filter member)
  · refine each_resume phases .closed (fun (phase : Phase J) (session : Session J) =>
      (world.tables.outbox ++ phase.pending session.tx).Pairwise Precedes ∧
        ∀ row ∈ phase.pending session.tx, row.outboxSeq ≤ world.outboxSeq) ⟨?_, ?_⟩ ?_
    · exact (List.append_nil _).symm ▸ ordered
    · exact fun row member => nomatch member
    · intro other rival different ongoing
      obtain ⟨theirs, limit⟩ := sequenced.pending other rival ongoing
      rw [seq]
      refine ⟨?_, limit⟩
      rw [List.pairwise_append] at theirs ⊢
      refine ⟨ordered, theirs.2.1, ?_⟩
      intro row member clash listed
      rcases outbox with ⟨grown, _⟩ | ⟨rows, _, _, shrunk, _⟩
      · rw [grown, List.mem_append] at member
        rcases member with old | new
        · exact theirs.2.2 row old clash listed
        · -- two transactions with rows to commit are on different streams
          refine ⟨sequenced.apart ticket other session rival different found ongoing row new clash listed, ?_⟩
          intro same
          obtain ⟨stream, base, count, some, _, appending, named⟩ := wrote.pending new
          obtain ⟨target, start, size, more, batch, _, name⟩ := (log.wrote other rival ongoing).pending listed
          have away := log.streams_differ different found ongoing appending some batch more
          exact absurd (name.symm.trans (same.symm.trans named)) away
      · rw [shrunk] at member
        exact theirs.2.2 row (List.mem_of_mem_filter member) clash listed
  · exact between_resume phases .closed (fun (phase : Phase J) (session : Session J) next rival =>
      Distinct (phase.pending session.tx) (Phase.pending next (Session.tx rival)))
      (fun _ _ _ _ => Distinct.symm) (fun _ _ _ _ row member => nomatch member) sequenced.apart

omit [Serde J] in
theorem Sequenced.paired {cluster : Cluster J} {phases : Nat → Phase J}
    (sequenced : Sequenced cluster phases) {ticket : Nat} {session : Session J}
    (found : cluster.sessions.lookup ticket = some session) {world : World J} {program : Tx J Unit Unit}
    {stream : JobId} {base count : Nat} {columns : EventColumns J} {out : OutboxRow J}
    (phase : phases ticket = .unpaired stream base count columns)
    (tables : world.tables = cluster.world.tables) (seq : world.outboxSeq = cluster.world.outboxSeq + 1)
    (number : out.outboxSeq = cluster.world.outboxSeq + 1) :
    Sequenced (cluster.resume ticket world ⟨session.work, program, session.tx.write (.outbox out)⟩)
      (Function.update phases ticket (.writing stream base (count + 1))) := by
  have pending : (Phase.writing stream base (count + 1)).pending (session.tx.write (.outbox out)) =
      session.tx.outs ++ [out] := session.tx.outs_write _
  obtain ⟨order, bound⟩ := sequenced.pending ticket session found
  rw [phase] at order bound
  change (_ ++ session.tx.outs).Pairwise _ at order
  change ∀ row ∈ session.tx.outs, _ at bound
  refine sequenced.resume tables (by omega) ⟨?_, ?_⟩ ?_
  · rw [pending, ← List.append_assoc, List.pairwise_append]
    refine ⟨order, List.pairwise_singleton _ _, ?_⟩
    intro row member last listed
    rw [List.mem_singleton.mp listed]
    have below : row.outboxSeq ≤ cluster.world.outboxSeq := by
      rcases List.mem_append.mp member with old | new
      · exact sequenced.drawn row old
      · exact bound row new
    exact ⟨by omega, fun _ => by omega⟩
  · rw [pending]
    intro row member
    rcases List.mem_append.mp member with old | new
    · have below := bound row old
      omega
    · rw [List.mem_singleton.mp new]
      omega
  · rw [pending]
    intro other rival different ongoing row member clash listed
    rcases List.mem_append.mp member with old | new
    · have apart := sequenced.apart ticket other session rival different found ongoing
      rw [phase] at apart
      exact apart row old clash listed
    · have below := (sequenced.pending other rival ongoing).2 clash listed
      rw [List.mem_singleton.mp new]
      omega

theorem Sequenced.advance [BuildProfile] {cluster : Cluster J} {phases : Nat → Phase J} {strict : Bool}
    (sequenced : Sequenced cluster phases) (log : Log cluster phases) {ticket : Nat} {session : Session J}
    (found : cluster.sessions.lookup ticket = some session) {world : World J} {tx : Transaction J}
    {phase : Phase J} (program : Tx J Unit Unit)
    (advance : Advance strict (cluster.others ticket) cluster.world session.tx (phases ticket) world tx phase) :
    Sequenced (cluster.resume ticket world ⟨session.work, program, tx⟩)
      (Function.update phases ticket phase) := by
  have wrote := log.wrote ticket session found
  -- what is pending stays as long as the transaction stays an append and writes no outbox row
  have kept : ∀ next : Phase J, next.batch.isSome = (phases ticket).batch.isSome → ∀ moved : Transaction J,
      moved.outs = session.tx.outs → next.pending moved = (phases ticket).pending session.tx := by
    intro next batch moved outs
    rw [Phase.pending, Phase.pending, batch, outs]
  generalize here : phases ticket = before at advance wrote
  rw [here] at kept
  cases advance with
  | still tables seq sink writes claimed stays =>
    have outs : tx.outs = session.tx.outs := by rw [Transaction.outs, writes, Transaction.outs]
    rcases stays with rfl | rfl
    · exact sequenced.resume_pending found tables seq (here ▸ kept _ rfl tx outs)
    · exact sequenced.resume_nothing tables seq rfl
  | checked stream =>
    have none : session.tx.writes = [] := wrote
    refine sequenced.resume_nothing rfl rfl ?_
    change session.tx.outs = []
    rw [Transaction.outs, none]
    rfl
  | inserted tables seq =>
    refine sequenced.resume_pending found tables seq ?_
    rw [here]
    exact kept _ rfl _ (by rw [Transaction.outs_write, List.append_nil])
  | paired tables seq sink number => exact sequenced.paired found here tables seq number
  | folded added folds => exact sequenced.resume_pending found rfl rfl (here ▸ kept _ rfl _ rfl)
  | projected tables seq sink row =>
    refine sequenced.resume_pending found tables seq ?_
    rw [here]
    refine kept _ rfl tx ?_
    rcases row with ⟨written, rfl, _⟩ | ⟨rfl, _⟩ | ⟨rfl, _⟩
    · rw [Transaction.outs_write, List.append_nil]
    · rw [Transaction.outs_write, List.append_nil]
    · rfl
  | committed tables seq sink commits =>
    rw [← here] at commits
    exact sequenced.committed log found tables seq commits
  | delivered received tables seq decoded sink answer =>
    rcases answer with ⟨_, rfl⟩ | rfl
    · exact sequenced.resume_nothing tables seq rfl
    · exact sequenced.resume_nothing tables seq rfl
  | beaten | selected | dropped => exact sequenced.resume_nothing rfl rfl rfl

end Sequence

end Koine.Postgres
