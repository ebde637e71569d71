import Koine.Library.Lists
import Koine.Postgres.Advance

namespace Koine.Postgres

open Library Domain Application

section Invariant

variable {J : Type}

/-- A transaction that has inserted the `count` versions after `base` into `stream`; from the first
    insert on `base` is the length of the committed stream. -/
structure Appending (tables : Tables J) (tx : Transaction J) (stream : JobId) (base count : Nat) : Prop where
  appends : tx.AppendsOnly
  streams : ∀ row ∈ tx.rows, row.streamId = stream
  versions : tx.rows.map (·.version) = List.range' (base + 1) count
  reached : base ≤ (tables.streamRows stream).length
  based : 0 < count → (tables.streamRows stream).length = base

def Pairs [Serde J] (row : EventRow J) (out : OutboxRow J) : Prop :=
  out.eventId = row.eventId ∧ out.streamId = row.streamId ∧
    Carries out.envelope row.eventId row.streamId row.version

def Phase.batch : Phase J → Option (JobId × Nat × Nat)
  | .writing stream base count | .folded stream base count _ | .projected stream base count _ =>
    some (stream, base, count)
  | .unpaired stream base count _ => some (stream, base, count + 1)
  | _ => none

def Wrote [Serde J] (tables : Tables J) (tx : Transaction J) : Phase J → Prop
  | .reading | .draining | .selected _ | .handed _ => tx.writes = []
  | .writing stream base count | .folded stream base count _ | .projected stream base count _ =>
    Appending tables tx stream base count ∧ List.Forall₂ Pairs tx.rows tx.outs
  | .unpaired stream base count columns =>
    Appending tables tx stream base (count + 1) ∧ ∃ earlier row, tx.rows = earlier ++ [row] ∧
      row.eventId = columns.eventId ∧ row.streamId = stream ∧ row.version = columns.version ∧
      List.Forall₂ Pairs earlier tx.outs
  | .beaten => tx.rows = [] ∧ tx.outs = [] ∧ tx.AppendsOnly
  | .dropped rows => tx.writes = [.remove (rows.map (·.1))]
  | .closed => True

/-- Two transactions hold no key of `events` in common. -/
def Apart (left right : Transaction J) : Prop :=
  ∀ row ∈ left.rows, ∀ rival ∈ right.rows, row.eventId ≠ rival.eventId ∧
    ¬ (row.streamId = rival.streamId ∧ row.version = rival.version)

/-- The committed log is dense and its ids are unique; open transactions extend it without clashes. -/
structure Log [Serde J] (cluster : Cluster J) (phases : Nat → Phase J) : Prop where
  versions : ∀ stream, (cluster.world.tables.streamRows stream).map (·.version) =
    List.range' 1 (cluster.world.tables.streamRows stream).length
  ids : (cluster.world.tables.events.map (·.eventId)).Nodup
  wrote : ∀ ticket session, cluster.sessions.lookup ticket = some session →
    Wrote cluster.world.tables session.tx (phases ticket)
  fresh : ∀ ticket session, cluster.sessions.lookup ticket = some session →
    ((cluster.world.tables.events ++ session.tx.rows).map (·.eventId)).Nodup
  apart : ∀ ticket other session rival, other ≠ ticket →
    cluster.sessions.lookup ticket = some session → cluster.sessions.lookup other = some rival →
    Apart session.tx rival.tx

theorem Apart.symm {left right : Transaction J} (apart : Apart left right) : Apart right left := by
  intro row member rival listed
  obtain ⟨ids, keys⟩ := apart rival listed row member
  exact ⟨Ne.symm ids, fun same => keys ⟨same.1.symm, same.2.symm⟩⟩

theorem Apart.of_rows_nil {left right : Transaction J} (none : left.rows = []) : Apart left right := by
  intro row member
  rw [none] at member
  cases member

theorem Appending.length {tables : Tables J} {tx : Transaction J} {stream : JobId} {base count : Nat}
    (appending : Appending tables tx stream base count) : tx.rows.length = count := by
  have lengths := congrArg List.length appending.versions
  simpa using lengths

theorem Appending.first {tables : Tables J} {tx : Transaction J} {stream : JobId} {base count : Nat}
    (appending : Appending tables tx stream base count) (some : 0 < count) :
    ∃ row ∈ tx.rows, row.streamId = stream ∧ row.version = (tables.streamRows stream).length + 1 := by
  have listed : base + 1 ∈ tx.rows.map (·.version) := by
    rw [appending.versions, List.mem_range'_1]
    omega
  obtain ⟨row, member, version⟩ := List.mem_map.mp listed
  exact ⟨row, member, appending.streams row member, by rw [version, appending.based some]⟩

theorem Appending.filter {tables : Tables J} {tx : Transaction J} {stream : JobId} {base count : Nat}
    (appending : Appending tables tx stream base count) (other : JobId) :
    tx.rows.filter (·.streamId = other) = if other = stream then tx.rows else [] := by
  split
  · rename_i same
    rw [List.filter_eq_self]
    intro row member
    simp [appending.streams row member, same]
  · rename_i different
    rw [List.filter_eq_nil_iff]
    intro row member
    simp [appending.streams row member, Ne.symm different]

variable [Serde J]

theorem Wrote.appending {tables : Tables J} {tx : Transaction J} {phase : Phase J} {stream : JobId}
    {base count : Nat} (wrote : Wrote tables tx phase) (batch : phase.batch = some (stream, base, count)) :
    Appending tables tx stream base count := by
  cases phase with
  | writing | folded | projected | unpaired =>
    cases batch
    exact wrote.1
  | _ => cases batch

theorem Wrote.frame {tables after : Tables J} {tx : Transaction J} {phase : Phase J}
    (wrote : Wrote tables tx phase)
    (grow : ∀ stream, (tables.streamRows stream).length ≤ (after.streamRows stream).length)
    (same : ∀ stream base count, phase.batch = some (stream, base, count) → 0 < count →
      (after.streamRows stream).length = (tables.streamRows stream).length) :
    Wrote after tx phase := by
  have moved : ∀ stream base count, phase.batch = some (stream, base, count) →
      Appending after tx stream base count := by
    intro stream base count batch
    have old := wrote.appending batch
    exact ⟨old.appends, old.streams, old.versions, old.reached.trans (grow stream),
      fun some => (same stream base count batch some).trans (old.based some)⟩
  cases phase with
  | writing | folded | projected | unpaired => exact ⟨moved _ _ _ rfl, wrote.2⟩
  | _ => exact wrote

theorem Log.streams_differ {cluster : Cluster J} {phases : Nat → Phase J} (log : Log cluster phases)
    {ticket other : Nat} {session rival : Session J} (different : other ≠ ticket)
    (found : cluster.sessions.lookup ticket = some session)
    (ongoing : cluster.sessions.lookup other = some rival) {stream target : JobId} {base start count size : Nat}
    (left : Appending cluster.world.tables session.tx stream base count) (some : 0 < count)
    (right : (phases other).batch = .some (target, start, size)) (more : 0 < size) : target ≠ stream := by
  intro same
  subst same
  obtain ⟨row, member, named, version⟩ := left.first some
  obtain ⟨clash, listed, name, number⟩ := ((log.wrote other rival ongoing).appending right).first more
  obtain ⟨_, keys⟩ := log.apart ticket other session rival different found ongoing row member clash listed
  exact keys ⟨named.trans name.symm, version.trans number.symm⟩

theorem Log.empty : Log (Cluster.empty : Cluster J) fun _ => .closed where
  versions := by intro stream; rfl
  ids := List.nodup_nil
  wrote := by intro ticket session found; cases found
  fresh := by intro ticket session found; cases found
  apart := by intro ticket other session rival different found; cases found

theorem Log.close {cluster : Cluster J} {phases : Nat → Phase J} (log : Log cluster phases) (ticket : Nat) :
    Log (cluster.close ticket) phases where
  versions := log.versions
  ids := log.ids
  wrote := by
    intro other session present
    exact log.wrote other session (lookup_close present).2
  fresh := by
    intro other session present
    exact log.fresh other session (lookup_close present).2
  apart := by
    intro first second session rival different found ongoing
    exact log.apart first second session rival different (lookup_close found).2 (lookup_close ongoing).2

theorem Log.resume {cluster : Cluster J} {phases : Nat → Phase J} (log : Log cluster phases) {ticket : Nat}
    {world : World J} {session : Session J} {phase : Phase J} (tables : world.tables = cluster.world.tables)
    (wrote : Wrote cluster.world.tables session.tx phase)
    (fresh : ((cluster.world.tables.events ++ session.tx.rows).map (·.eventId)).Nodup)
    (apart : ∀ other rival, other ≠ ticket → cluster.sessions.lookup other = some rival →
      Apart session.tx rival.tx) :
    Log (cluster.resume ticket world session) (Function.update phases ticket phase) := by
  have same : (cluster.resume ticket world session).world.tables = cluster.world.tables := tables
  constructor
  · rw [same]
    exact log.versions
  · rw [same]
    exact log.ids
  · rw [same]
    exact each_resume phases phase (fun phase session => Wrote cluster.world.tables session.tx phase) wrote
      fun other rival _ ongoing => log.wrote other rival ongoing
  · rw [same]
    exact each_resume phases phase (fun _ session =>
        ((cluster.world.tables.events ++ session.tx.rows).map (·.eventId)).Nodup) fresh
      fun other rival _ ongoing => log.fresh other rival ongoing
  · exact between_resume phases phase (fun _ session _ rival => Apart session.tx rival.tx)
      (fun _ _ _ _ => Apart.symm) apart log.apart

theorem Log.resume_rows {cluster : Cluster J} {phases : Nat → Phase J} (log : Log cluster phases)
    {ticket : Nat} {old session : Session J} (found : cluster.sessions.lookup ticket = some old)
    {world : World J} {phase : Phase J} (tables : world.tables = cluster.world.tables)
    (rows : session.tx.rows = old.tx.rows) (wrote : Wrote cluster.world.tables session.tx phase) :
    Log (cluster.resume ticket world session) (Function.update phases ticket phase) := by
  refine log.resume tables wrote ?_ ?_
  · rw [rows]
    exact log.fresh ticket old found
  · intro other rival different ongoing
    unfold Apart
    rw [rows]
    exact log.apart ticket other old rival different found ongoing

theorem Log.start {cluster : Cluster J} {phases : Nat → Phase J} (log : Log cluster phases) (ticket : Nat)
    {work : Work} {program : Tx J Unit Unit} :
    Log (cluster.resume ticket cluster.world ⟨work, program, .begin⟩)
      (Function.update phases ticket work.phase) := by
  refine log.resume rfl ?_ ?_ fun _ _ _ _ => Apart.of_rows_nil rfl
  · unfold Work.phase
    split <;> rfl
  · simpa [Transaction.begin, Transaction.rows] using log.ids

theorem Log.inserted {cluster : Cluster J} {phases : Nat → Phase J} (log : Log cluster phases)
    {ticket : Nat} {session : Session J} (found : cluster.sessions.lookup ticket = some session)
    {world : World J} {program : Tx J Unit Unit} {stream : JobId} {base count : Nat}
    {columns : EventColumns J} {row : EventRow J} (phase : phases ticket = .writing stream base count)
    (tables : world.tables = cluster.world.tables) (eventId : row.eventId = columns.eventId)
    (streamId : row.streamId = stream) (version : row.version = base + count + 1)
    (number : columns.version = base + count + 1)
    (freshId : (session.tx.view cluster.world.tables).hasEventId columns.eventId = false)
    (freshVersion : (session.tx.view cluster.world.tables).hasVersion stream (base + count + 1) = false)
    (free : ∀ other ∈ cluster.others ticket, ∀ rival ∈ other.rows, rival.eventId ≠ columns.eventId ∧
      ¬ (rival.streamId = stream ∧ rival.version = base + count + 1)) :
    Log (cluster.resume ticket world ⟨session.work, program, session.tx.write (.event row)⟩)
      (Function.update phases ticket (.unpaired stream base count columns)) := by
  have written : (session.tx.write (.event row)).rows = session.tx.rows ++ [row] :=
    Transaction.rows_write _ _
  have kept : (session.tx.write (.event row)).outs = session.tx.outs := by
    rw [Transaction.outs_write, List.append_nil]
  rw [Tables.hasEventId_eq_false, Transaction.view_events] at freshId
  rw [Tables.hasVersion_eq_false, Transaction.view_events] at freshVersion
  have wrote := log.wrote ticket session found
  rw [phase] at wrote
  obtain ⟨old, pairs⟩ := wrote
  -- the version is taken unless the committed stream ends exactly where the transaction began
  have based : (cluster.world.tables.streamRows stream).length = base := by
    rcases Nat.eq_zero_or_pos count with zero | some
    · subst zero
      by_contra longer
      have reached := old.reached
      have listed : base + 1 ∈ (cluster.world.tables.streamRows stream).map (·.version) := by
        rw [log.versions, List.mem_range'_1]
        omega
      obtain ⟨taken, member, equal⟩ := List.mem_map.mp listed
      rw [Tables.streamRows, List.mem_filter] at member
      exact freshVersion taken (List.mem_append_left _ member.1) ⟨by simpa using member.2, equal⟩
    · exact old.based some
  refine log.resume tables ⟨?_, session.tx.rows, row, written, eventId, streamId, ?_, ?_⟩ ?_ ?_
  · refine ⟨?_, ?_, ?_, old.reached, fun _ => based⟩
    · intro seqs listed
      rcases List.mem_append.mp listed with listed | listed
      · exact old.appends seqs listed
      · simp at listed
    · rw [written]
      intro other member
      rcases List.mem_append.mp member with member | member
      · exact old.streams other member
      · rw [List.mem_singleton.mp member]
        exact streamId
    · rw [written, List.map_append, old.versions, List.map_singleton, version,
        show base + count + 1 = base + 1 + 1 * count by omega, ← List.range'_concat]
  · rw [version, number]
  · rw [kept]
    exact pairs
  · rw [written, ← List.append_assoc, List.map_append, List.nodup_append]
    refine ⟨log.fresh ticket session found, List.nodup_singleton _, ?_⟩
    intro id listed other member
    rw [List.map_singleton, List.mem_singleton] at member
    obtain ⟨taken, present, rfl⟩ := List.mem_map.mp listed
    rw [member, eventId]
    exact freshId taken present
  · intro other rival different ongoing inserted member clash listed
    rw [written] at member
    rcases List.mem_append.mp member with member | member
    · exact log.apart ticket other session rival different found ongoing inserted member clash listed
    · rw [List.mem_singleton.mp member]
      obtain ⟨ids, keys⟩ := free rival.tx (mem_others.mpr ⟨other, rival, different, ongoing, rfl⟩) clash listed
      rw [eventId, streamId, version]
      exact ⟨Ne.symm ids, fun same => keys ⟨same.1.symm, same.2.symm⟩⟩

theorem Wrote.commits {strict : Bool} {tables : Tables J} {tx : Transaction J} {phase : Phase J}
    (wrote : Wrote tables tx phase) (commits : phase.permits strict .commit) :
    tx.rows = [] ∨ ∃ stream base count, 0 < count ∧ phase.batch = some (stream, base, count) ∧
      Appending tables tx stream base count := by
  have nil : tx.writes = [] → tx.rows = [] := by
    intro none
    rw [Transaction.rows, none]
    rfl
  cases phase with
  | reading => exact .inl (nil wrote)
  | projected stream base count job =>
    rcases Nat.eq_zero_or_pos count with zero | some
    · have length := wrote.1.length
      rw [zero] at length
      exact .inl (List.eq_nil_of_length_eq_zero length)
    · exact .inr ⟨stream, base, count, some, rfl, wrote.1⟩
  | beaten => exact .inl wrote.1
  | dropped rows =>
    left
    rw [Transaction.rows, wrote]
    rfl
  | _ => exact commits.elim

theorem Log.committed_streamRows {cluster : Cluster J} {phases : Nat → Phase J} {strict : Bool}
    (log : Log cluster phases) {ticket : Nat} {session : Session J}
    (found : cluster.sessions.lookup ticket = some session)
    (commits : (phases ticket).permits strict .commit) :
    (∀ stream, (session.tx.view cluster.world.tables).streamRows stream =
        cluster.world.tables.streamRows stream) ∧ session.tx.rows = [] ∨
      ∃ stream base count, 0 < count ∧ (phases ticket).batch = some (stream, base, count) ∧
        Appending cluster.world.tables session.tx stream base count ∧
        ∀ other, (session.tx.view cluster.world.tables).streamRows other =
          cluster.world.tables.streamRows other ++ if other = stream then session.tx.rows else [] := by
  rcases (log.wrote ticket session found).commits commits with none | ⟨stream, base, count, some, batch,
    appending⟩
  · refine .inl ⟨?_, none⟩
    intro stream
    rw [Transaction.view_streamRows, none, List.filter_nil, List.append_nil]
  · refine .inr ⟨stream, base, count, some, batch, appending, ?_⟩
    intro other
    rw [Transaction.view_streamRows, appending.filter]

theorem Log.committed {cluster : Cluster J} {phases : Nat → Phase J} {strict : Bool}
    (log : Log cluster phases) {ticket : Nat} {session : Session J}
    (found : cluster.sessions.lookup ticket = some session) {world : World J} {program : Tx J Unit Unit}
    (tables : world.tables = session.tx.view cluster.world.tables)
    (commits : (phases ticket).permits strict .commit) :
    Log (cluster.resume ticket world ⟨session.work, program, .begin⟩)
      (Function.update phases ticket .closed) := by
  have events : world.tables.events = cluster.world.tables.events ++ session.tx.rows := by
    rw [tables, Transaction.view_events]
  have unique : (world.tables.events.map (·.eventId)).Nodup := by
    rw [events]
    exact log.fresh ticket session found
  have streams := log.committed_streamRows found commits
  rw [← tables] at streams
  constructor
  · intro stream
    change (world.tables.streamRows stream).map _ = List.range' 1 (world.tables.streamRows stream).length
    rcases streams with ⟨same, _⟩ | ⟨target, base, count, some, _, appending, grown⟩
    · rw [same]
      exact log.versions stream
    · rw [grown]
      split
      · rename_i here
        subst here
        rw [List.map_append, List.length_append, log.versions, appending.versions, appending.based some,
          appending.length, ← List.range'_append_1, Nat.add_comm base 1]
      · rw [List.append_nil]
        exact log.versions stream
  · exact unique
  · refine each_resume phases .closed (fun phase session => Wrote world.tables session.tx phase) trivial ?_
    intro other rival different present
    refine (log.wrote other rival present).frame ?_ ?_
    · intro stream
      rcases streams with ⟨same, _⟩ | ⟨target, base, count, some, _, appending, grown⟩
      · rw [same]
      · rw [grown, List.length_append]
        omega
    · intro stream start size batch more
      rcases streams with ⟨same, _⟩ | ⟨target, base, count, some, _, appending, grown⟩
      · rw [same]
      · have away := log.streams_differ different found present appending some batch more
        rw [grown, if_neg away, List.append_nil]
  · refine each_resume phases .closed (fun (_ : Phase J) (session : Session J) =>
      ((world.tables.events ++ session.tx.rows).map (·.eventId)).Nodup) ?_ ?_
    · simpa [Transaction.begin, Transaction.rows] using unique
    · intro other rival different present
      have mine := log.fresh ticket session found
      have theirs := log.fresh other rival present
      rw [events, List.map_append, List.nodup_append]
      rw [List.map_append, List.nodup_append] at theirs
      refine ⟨mine, theirs.2.1, ?_⟩
      intro id listed clash member
      obtain ⟨row, place, rfl⟩ := List.mem_map.mp listed
      rcases List.mem_append.mp place with old | new
      · exact theirs.2.2 _ (List.mem_map_of_mem old) clash member
      · obtain ⟨inserted, own, rfl⟩ := List.mem_map.mp member
        exact (log.apart ticket other session rival different found present row new inserted own).1
  · exact between_resume phases .closed (fun _ session _ rival => Apart session.tx rival.tx)
      (fun _ _ _ _ => Apart.symm) (fun _ _ _ _ => Apart.of_rows_nil rfl) log.apart

omit [Serde J] in
theorem Appending.of_rows {tables : Tables J} {tx moved : Transaction J} {stream : JobId}
    {base count : Nat} (appending : Appending tables tx stream base count) (rows : moved.rows = tx.rows)
    (appends : moved.AppendsOnly) : Appending tables moved stream base count :=
  ⟨appends, by rw [rows]; exact appending.streams, by rw [rows]; exact appending.versions,
    appending.reached, appending.based⟩

omit [Serde J] in
theorem Transaction.AppendsOnly.write {tx : Transaction J} (appends : tx.AppendsOnly) {write : Write J}
    (other : ∀ seqs, write ≠ .remove seqs) : (tx.write write).AppendsOnly := by
  intro seqs listed
  rcases List.mem_append.mp listed with listed | listed
  · exact appends seqs listed
  · exact other seqs (List.mem_singleton.mp listed).symm

theorem Wrote.of_writes {tables : Tables J} {tx moved : Transaction J} {phase : Phase J}
    (wrote : Wrote tables tx phase) (same : moved.writes = tx.writes) : Wrote tables moved phase := by
  have rows : moved.rows = tx.rows := by rw [Transaction.rows, same, Transaction.rows]
  have outs : moved.outs = tx.outs := by rw [Transaction.outs, same, Transaction.outs]
  have only : tx.AppendsOnly → moved.AppendsOnly := by
    unfold Transaction.AppendsOnly
    rw [same]
    exact id
  cases phase with
  | reading | draining | selected | handed | dropped => exact same.trans wrote
  | writing | folded | projected =>
    refine ⟨wrote.1.of_rows rows (only wrote.1.appends), ?_⟩
    rw [rows, outs]
    exact wrote.2
  | unpaired =>
    refine ⟨wrote.1.of_rows rows (only wrote.1.appends), ?_⟩
    rw [rows, outs]
    exact wrote.2
  | beaten => exact ⟨rows.trans wrote.1, outs.trans wrote.2.1, only wrote.2.2⟩
  | closed => trivial

/-- Every advance of a transaction keeps the log dense and free of clashes. -/
theorem Log.advance [BuildProfile] {cluster : Cluster J} {phases : Nat → Phase J} {strict : Bool}
    (log : Log cluster phases) {ticket : Nat} {session : Session J}
    (found : cluster.sessions.lookup ticket = some session) {world : World J} {tx : Transaction J}
    {phase : Phase J} (program : Tx J Unit Unit)
    (advance : Advance strict (cluster.others ticket) cluster.world session.tx (phases ticket) world tx phase) :
    Log (cluster.resume ticket world ⟨session.work, program, tx⟩) (Function.update phases ticket phase) := by
  have wrote := log.wrote ticket session found
  generalize here : phases ticket = before at advance wrote
  cases advance with
  | still tables seq sink writes claimed stays =>
    have rows : tx.rows = session.tx.rows := by rw [Transaction.rows, writes, Transaction.rows]
    rcases stays with rfl | rfl
    · exact log.resume_rows found tables rows (wrote.of_writes writes)
    · exact log.resume_rows found tables rows trivial
  | checked stream =>
    have none : session.tx.writes = [] := wrote
    have rows : session.tx.rows = [] := by rw [Transaction.rows, none]; rfl
    have outs : session.tx.outs = [] := by rw [Transaction.outs, none]; rfl
    have newest : ((((session.tx.view cluster.world.tables).streamRows stream).map
        (·.version)).max?.getD 0) = (cluster.world.tables.streamRows stream).length := by
      rw [Transaction.view_streamRows, rows, List.filter_nil, List.append_nil, log.versions, max_range']
    refine log.resume_rows found rfl rfl ⟨⟨?_, ?_, ?_, newest.le, fun some => absurd some (by omega)⟩, ?_⟩
    · intro seqs listed
      rw [none] at listed
      cases listed
    · intro row member
      rw [rows] at member
      cases member
    · rw [rows]
      rfl
    · rw [rows, outs]
      exact .nil
  | inserted tables seq sink eventId streamId version number freshId freshVersion free =>
    exact log.inserted found here tables eventId streamId version number freshId freshVersion free
  | paired tables seq sink number eventId streamId carries =>
    rename_i stream base count columns out
    obtain ⟨appending, earlier, row, rows, id, name, version, pairs⟩ := wrote
    have same : (session.tx.write (.outbox out)).rows = session.tx.rows := by
      rw [Transaction.rows_write, List.append_nil]
    refine log.resume_rows found tables same ⟨appending.of_rows same (appending.appends.write (by simp)), ?_⟩
    rw [same, rows, Transaction.outs_write]
    refine List.rel_append pairs (.cons ⟨?_, ?_, ?_⟩ .nil)
    · rw [eventId, id]
    · rw [streamId, name]
    · rw [id, name, version]
      exact carries
  | folded added folds => exact log.resume_rows found rfl rfl wrote
  | projected tables seq sink row =>
    rename_i stream base count job
    have kept : ∀ write : Write J, (∀ event, write ≠ .event event) → (∀ out, write ≠ .outbox out) →
        (∀ seqs, write ≠ .remove seqs) →
        (session.tx.write write).rows = session.tx.rows ∧
          Wrote cluster.world.tables (session.tx.write write) (.projected stream base count job) := by
      intro write event out remove
      have rows : (session.tx.write write).rows = session.tx.rows := by
        rw [Transaction.rows_write]
        cases write <;> simp_all
      have outs : (session.tx.write write).outs = session.tx.outs := by
        rw [Transaction.outs_write]
        cases write <;> simp_all
      refine ⟨rows, wrote.1.of_rows rows (wrote.1.appends.write remove), ?_⟩
      rw [rows, outs]
      exact wrote.2
    rcases row with ⟨written, rfl, _⟩ | ⟨rfl, _⟩ | ⟨rfl, _⟩
    · obtain ⟨rows, after⟩ := kept (.put job.id written) (by simp) (by simp) (by simp)
      exact log.resume_rows found tables rows after
    · obtain ⟨rows, after⟩ := kept (.drop job.id) (by simp) (by simp) (by simp)
      exact log.resume_rows found tables rows after
    · exact log.resume_rows found tables rfl wrote
  | beaten present writes claimed =>
    have none : session.tx.writes = [] := wrote
    rw [none, List.nil_append] at writes
    have rows : tx.rows = [] := by
      rw [Transaction.rows, writes, List.filterMap_map, List.filterMap_eq_nil_iff]
      intro entry _
      rfl
    have outs : tx.outs = [] := by
      rw [Transaction.outs, writes, List.filterMap_map, List.filterMap_eq_nil_iff]
      intro entry _
      rfl
    refine log.resume_rows found rfl ?_ ⟨rows, outs, ?_⟩
    · rw [rows, Transaction.rows, none]
      rfl
    · intro seqs listed
      rw [writes, List.mem_map] at listed
      obtain ⟨entry, _, same⟩ := listed
      cases same
  | committed tables seq sink commits =>
    rw [← here] at commits
    exact log.committed found tables commits
  | selected chosen batch rows writes =>
    have none : session.tx.writes = [] := wrote
    have same : tx.rows = session.tx.rows := by rw [Transaction.rows, writes, Transaction.rows]
    exact log.resume_rows found rfl same (writes.trans none)
  | delivered received tables seq decoded sink answer =>
    rcases answer with ⟨_, rfl⟩ | rfl
    · exact log.resume_rows found tables rfl wrote
    · exact log.resume_rows found tables rfl trivial
  | dropped =>
    rename_i rows
    have none : session.tx.writes = [] := wrote
    refine log.resume_rows found rfl ?_ ?_
    · rw [Transaction.rows_write, List.append_nil]
    · change (session.tx.writes ++ _) = _
      rw [none]
      rfl

end Invariant

end Koine.Postgres
