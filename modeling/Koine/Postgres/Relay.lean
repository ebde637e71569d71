import Koine.Postgres.Outbox

namespace Koine.Postgres

open Library Domain Application

section Deliveries

variable {J : Type} [Serde J]

/-- The versions of a stream in the order in which the sink first saw them. -/
def firstDeliveries (delivered : List EventEnvelope) (stream : JobId) : List Nat :=
  ((delivered.filter (·.streamId = stream)).map (·.version)).eraseDups

/-- What the sink was handed for an outbox row. -/
def Sent (out : OutboxRow J) (envelope : EventEnvelope) : Prop :=
  Serde.decodeEnvelope out.envelope = .ok envelope

theorem decodeOutbox_sent {chosen : List (OutboxRow J)} {envelopes : List EventEnvelope}
    (decoded : decodeOutbox (chosen.map fun row => (row.outboxSeq, row.envelope)) = .ok envelopes) :
    List.Forall₂ Sent chosen envelopes := by
  induction chosen generalizing envelopes with
  | nil =>
    cases decoded
    exact .nil
  | cons out rest ih =>
    rw [List.map_cons, decodeOutbox] at decoded
    cases opened : (Serde.decodeEnvelope out.envelope : Except String EventEnvelope) with
    | error message =>
      rw [opened] at decoded
      cases decoded
    | ok envelope =>
      rw [opened] at decoded
      obtain ⟨_, same, decoded⟩ := Outcome.bind_eq_ok.mp decoded
      cases same
      obtain ⟨later, loaded, decoded⟩ := Outcome.bind_eq_ok.mp decoded
      cases decoded
      exact .cons opened (ih loaded)

theorem Pairs.sent {event : EventRow J} {out : OutboxRow J} {envelope : EventEnvelope}
    (pair : Pairs event out) (sent : Sent out envelope) :
    envelope.eventId = event.eventId ∧ envelope.streamId = event.streamId ∧
      envelope.version = event.version := by
  obtain ⟨_, _, original, encoded, eventId, streamId, version⟩ := pair
  obtain ⟨sameId, sameStream, sameVersion⟩ := Serde.decoded_ids original out.envelope envelope encoded sent
  exact ⟨sameId.trans eventId, sameStream.trans streamId, sameVersion.trans version⟩

theorem sent_versions {events : List (EventRow J)} {outs : List (OutboxRow J)}
    {envelopes : List EventEnvelope} (pairs : List.Forall₂ Pairs events outs)
    (sent : List.Forall₂ Sent outs envelopes) : envelopes.map (·.version) = events.map (·.version) := by
  induction pairs generalizing envelopes with
  | nil =>
    cases sent
    rfl
  | cons pair rest ih =>
    cases sent with
    | cons first later => rw [List.map_cons, List.map_cons, ih later, (pair.sent first).2.2]

theorem sent_filter {outs : List (OutboxRow J)} {envelopes : List EventEnvelope}
    (sent : List.Forall₂ Sent outs envelopes) (paired : ∀ out ∈ outs, ∃ event, Pairs event out)
    (stream : JobId) :
    List.Forall₂ Sent (outs.filter (·.streamId = stream)) (envelopes.filter (·.streamId = stream)) := by
  induction sent with
  | nil => exact .nil
  | cons first later ih =>
    rename_i out envelope outs envelopes
    rw [List.forall_mem_cons] at paired
    obtain ⟨event, pair⟩ := paired.1
    have same : envelope.streamId = out.streamId := (pair.sent first).2.1.trans pair.2.1.symm
    rw [List.filter_cons, List.filter_cons, same]
    split
    · exact .cons first (ih paired.2)
    · exact ih paired.2

/-- The log, the outbox and what the sink has seen: every stream's events have had their outbox rows
    in order, and the sink has first seen its versions in order and at least as far as rows are
    removed. -/
structure Deliveries (world : World J) : Prop where
  paired : ∀ stream, List.Forall₂ Pairs (world.tables.streamRows stream)
    (world.tables.removedOf stream ++ world.tables.outboxOf stream)
  known : ∀ envelope ∈ world.delivered, ∃ event ∈ world.tables.events, event.eventId = envelope.eventId ∧
    event.streamId = envelope.streamId ∧ event.version = envelope.version
  firsts : ∀ stream, ∃ count, firstDeliveries world.delivered stream = List.range' 1 count ∧
    (world.tables.removedOf stream).length ≤ count

def Heads (tables : Tables J) (chosen : List (OutboxRow J)) : Prop :=
  ∀ stream, chosen.filter (·.streamId = stream) <+: tables.outboxOf stream

omit [Serde J] in
theorem Heads.take {tables : Tables J} {chosen : List (OutboxRow J)} (heads : Heads tables chosen)
    (received : Nat) : Heads tables (chosen.take received) :=
  fun stream => ((List.take_prefix received chosen).filter _).trans (heads stream)

omit [Serde J] in
theorem Heads.mem {tables : Tables J} {chosen : List (OutboxRow J)} (heads : Heads tables chosen)
    {out : OutboxRow J} (member : out ∈ chosen) : out ∈ tables.outboxOf out.streamId :=
  (heads out.streamId).subset (List.mem_filter.mpr ⟨member, by simp⟩)

theorem Deliveries.pairs {world : World J} (deliveries : Deliveries world) {out : OutboxRow J}
    (member : out ∈ world.tables.outboxOf out.streamId) : ∃ event ∈ world.tables.events, Pairs event out := by
  obtain ⟨event, listed, pair⟩ := exists_of_mem_right (deliveries.paired out.streamId)
    (List.mem_append_right _ member)
  exact ⟨event, List.mem_of_mem_filter listed, pair⟩

theorem Deliveries.sent_stream {world : World J} (deliveries : Deliveries world)
    (versions : ∀ stream, (world.tables.streamRows stream).map (·.version) =
      List.range' 1 (world.tables.streamRows stream).length)
    {chosen : List (OutboxRow J)} {envelopes : List EventEnvelope} (heads : Heads world.tables chosen)
    (sent : List.Forall₂ Sent chosen envelopes) (stream : JobId) :
    (envelopes.filter (·.streamId = stream)).map (·.version) =
      List.range' ((world.tables.removedOf stream).length + 1)
        (chosen.filter (·.streamId = stream)).length := by
  have filtered := sent_filter sent (fun out member => by
    obtain ⟨event, _, pair⟩ := deliveries.pairs (heads.mem member)
    exact ⟨event, pair⟩) stream
  obtain ⟨rest, split⟩ := heads stream
  have paired := deliveries.paired stream
  have whole := paired.length_eq
  rw [← split] at paired
  have tail := List.forall₂_drop_append _ _ _ paired
  rw [← split, List.length_append, List.length_append] at whole
  have left : (world.tables.streamRows stream).length - (world.tables.removedOf stream).length =
      (chosen.filter (·.streamId = stream)).length + rest.length := by omega
  rw [sent_versions (List.forall₂_take_append _ _ _ tail) filtered, List.map_take, List.map_drop, versions,
    List.drop_range', left, ← List.range'_append_1, List.take_left' List.length_range', Nat.mul_one,
    Nat.add_comm]

theorem Deliveries.deliver {world after : World J} (deliveries : Deliveries world)
    (versions : ∀ stream, (world.tables.streamRows stream).map (·.version) =
      List.range' 1 (world.tables.streamRows stream).length)
    {chosen : List (OutboxRow J)} {envelopes : List EventEnvelope} (heads : Heads world.tables chosen)
    (sent : List.Forall₂ Sent chosen envelopes) (tables : after.tables = world.tables)
    (sink : after.delivered = world.delivered ++ envelopes) :
    Deliveries after ∧ ∀ stream, (after.tables.removedOf stream).length +
      (chosen.filter (·.streamId = stream)).length ≤ (firstDeliveries after.delivered stream).length := by
  have reaches : ∀ stream, ∃ count, firstDeliveries after.delivered stream = List.range' 1 count ∧
      (world.tables.removedOf stream).length + (chosen.filter (·.streamId = stream)).length ≤ count := by
    intro stream
    obtain ⟨count, firsts, reached⟩ := deliveries.firsts stream
    refine ⟨max count ((world.tables.removedOf stream).length +
      (chosen.filter (·.streamId = stream)).length), ?_, le_max_right _ _⟩
    rw [firstDeliveries, sink, List.filter_append, List.map_append,
      deliveries.sent_stream versions heads sent]
    exact eraseDups_append_range' firsts reached
  refine ⟨⟨?_, ?_, ?_⟩, ?_⟩
  · rw [tables]
    exact deliveries.paired
  · rw [sink, tables]
    intro envelope member
    rcases List.mem_append.mp member with old | new
    · exact deliveries.known envelope old
    · obtain ⟨out, listed, decoded⟩ := exists_of_mem_right sent new
      obtain ⟨event, present, pair⟩ := deliveries.pairs (heads.mem listed)
      obtain ⟨eventId, streamId, version⟩ := pair.sent decoded
      exact ⟨event, present, eventId.symm, streamId.symm, version.symm⟩
  · rw [tables]
    intro stream
    obtain ⟨count, firsts, reached⟩ := reaches stream
    exact ⟨count, firsts, by omega⟩
  · rw [tables]
    intro stream
    obtain ⟨count, firsts, reached⟩ := reaches stream
    rw [firsts, List.length_range']
    exact reached

omit [Serde J] in
theorem eq_of_outboxSeq {rows : List (OutboxRow J)} (ordered : rows.Pairwise Precedes)
    {left right : OutboxRow J} (first : left ∈ rows) (second : right ∈ rows)
    (same : left.outboxSeq = right.outboxSeq) : left = right := by
  have distinct : (rows.map (·.outboxSeq)).Nodup := List.pairwise_map.mpr (ordered.imp (·.1))
  exact List.inj_on_of_nodup_map distinct first second same

omit [Serde J] in
/-- The rows a pass reads head the outbox of every stream, whatever the batch size. -/
theorem heads_of_select {tables : Tables J} (ordered : tables.outbox.Pairwise Precedes) (batch : Nat) :
    Heads tables ((tables.outbox.insertionSort fun left right => left.outboxSeq ≤ right.outboxSeq).take
      batch) := by
  have total : Std.Total fun left right : OutboxRow J => left.outboxSeq ≤ right.outboxSeq :=
    ⟨fun left right => Nat.le_total _ _⟩
  have trans : IsTrans (OutboxRow J) fun left right => left.outboxSeq ≤ right.outboxSeq :=
    ⟨fun _ _ _ => Nat.le_trans⟩
  intro stream
  have increasing : (tables.outboxOf stream).Pairwise fun left right => left.outboxSeq ≤ right.outboxSeq := by
    refine (ordered.filter _).imp_of_mem ?_
    intro left right first second precedes
    have named := (List.mem_filter.mp first).2
    have name := (List.mem_filter.mp second).2
    rw [decide_eq_true_eq] at named name
    exact Nat.le_of_lt (precedes.2 (named.trans name.symm))
  have sorted := (List.pairwise_insertionSort (fun left right : OutboxRow J =>
    left.outboxSeq ≤ right.outboxSeq) tables.outbox).filter fun row => decide (row.streamId = stream)
  have same := (List.perm_insertionSort (fun left right : OutboxRow J =>
    left.outboxSeq ≤ right.outboxSeq) tables.outbox).filter fun row => decide (row.streamId = stream)
  have equal := same.eq_of_pairwise (fun left right first second below above =>
    eq_of_outboxSeq ordered (List.mem_of_mem_filter (same.subset first)) (List.mem_of_mem_filter second)
      (Nat.le_antisymm below above)) sorted increasing
  rw [Tables.outboxOf, ← equal]
  exact (List.take_prefix batch _).filter _

omit [Serde J] in
theorem Heads.removed {tables : Tables J} {chosen : List (OutboxRow J)} (heads : Heads tables chosen)
    (ordered : tables.outbox.Pairwise Precedes) (stream : JobId) :
    (tables.outbox.filter fun row => row.outboxSeq ∈ chosen.map (·.outboxSeq)).filter
        (·.streamId = stream) = chosen.filter (·.streamId = stream) ∧
      chosen.filter (·.streamId = stream) ++
        ((tables.outbox.filter fun row => row.outboxSeq ∉ chosen.map (·.outboxSeq)).filter
          (·.streamId = stream)) = tables.outboxOf stream := by
  obtain ⟨rest, split⟩ := heads stream
  have listed : ∀ row ∈ chosen.filter (·.streamId = stream), row.outboxSeq ∈ chosen.map (·.outboxSeq) :=
    fun row member => List.mem_map_of_mem (List.mem_of_mem_filter member)
  have unlisted : ∀ row ∈ rest, row.outboxSeq ∉ chosen.map (·.outboxSeq) := by
    intro row member taken
    obtain ⟨twin, picked, same⟩ := List.mem_map.mp taken
    have here : row ∈ tables.outboxOf stream := split ▸ List.mem_append_right _ member
    have equal := eq_of_outboxSeq ordered (List.mem_of_mem_filter (heads.mem picked))
      (List.mem_of_mem_filter here) same
    subst equal
    have apart : (chosen.filter (·.streamId = stream) ++ rest).Pairwise Precedes :=
      split ▸ ordered.filter _
    have named := (List.mem_filter.mp here).2
    exact ((List.pairwise_append.mp apart).2.2 twin (List.mem_filter.mpr ⟨picked, named⟩) twin member).1 rfl
  have swap : ∀ keep : OutboxRow J → Bool, (tables.outbox.filter keep).filter (·.streamId = stream) =
      (chosen.filter (·.streamId = stream)).filter keep ++ rest.filter keep := by
    intro keep
    rw [← List.filter_append, split, Tables.outboxOf, List.filter_filter, List.filter_filter]
    exact List.filter_congr fun row _ => Bool.and_comm _ _
  rw [swap, swap]
  constructor
  · have kept : (chosen.filter (·.streamId = stream)).filter
        (fun row => row.outboxSeq ∈ chosen.map (·.outboxSeq)) = chosen.filter (·.streamId = stream) :=
      List.filter_eq_self.mpr fun row member => decide_eq_true (listed row member)
    have none : rest.filter (fun row => row.outboxSeq ∈ chosen.map (·.outboxSeq)) = [] :=
      List.filter_eq_nil_iff.mpr fun row member => by simpa using unlisted row member
    rw [kept, none, List.append_nil]
  · have none : (chosen.filter (·.streamId = stream)).filter
        (fun row => row.outboxSeq ∉ chosen.map (·.outboxSeq)) = [] :=
      List.filter_eq_nil_iff.mpr fun row member => by simpa using listed row member
    have kept : rest.filter (fun row => row.outboxSeq ∉ chosen.map (·.outboxSeq)) = rest :=
      List.filter_eq_self.mpr fun row member => decide_eq_true (unlisted row member)
    rw [none, kept, List.nil_append]
    exact split

def Phase.relays : Phase J → Bool
  | .draining | .selected _ | .handed _ | .dropped _ => true
  | _ => false

/-- What the batch of a relay pass owes to the outbox, and once delivered to the sink. -/
def Chosen (world : World J) : Phase J → Prop
  | .selected rows => ∃ chosen, rows = chosen.map (fun row => (row.outboxSeq, row.envelope)) ∧
      Heads world.tables chosen
  | .handed rows | .dropped rows => ∃ chosen, rows = chosen.map (fun row => (row.outboxSeq, row.envelope)) ∧
      Heads world.tables chosen ∧ ∀ stream, (world.tables.removedOf stream).length +
        (chosen.filter (·.streamId = stream)).length ≤ (firstDeliveries world.delivered stream).length
  | _ => True

structure Relaying (cluster : Cluster J) (phases : Nat → Phase J) : Prop where
  deliveries : Deliveries cluster.world
  solo : ∀ ticket other session rival, other ≠ ticket →
    cluster.sessions.lookup ticket = some session → cluster.sessions.lookup other = some rival →
    session.work.isRelay = false ∨ rival.work.isRelay = false
  ordinary : ∀ ticket session, cluster.sessions.lookup ticket = some session →
    session.work.isRelay = false → session.tx.claimed = [] ∧ (phases ticket).relays = false
  chosen : ∀ ticket session, cluster.sessions.lookup ticket = some session →
    Chosen cluster.world (phases ticket)

omit [Serde J] in
theorem chosen_of_relays {world : World J} {phase : Phase J} (ordinary : phase.relays = false) :
    Chosen world phase := by
  cases phase with
  | selected | handed | dropped => cases ordinary
  | _ => trivial

omit [Serde J] in
theorem Heads.grow {tables after : Tables J} {chosen : List (OutboxRow J)} (heads : Heads tables chosen)
    {more : List (OutboxRow J)} (outbox : after.outbox = tables.outbox ++ more) : Heads after chosen := by
  intro stream
  rw [Tables.outboxOf, outbox, List.filter_append]
  exact (heads stream).trans (List.prefix_append _ _)

omit [Serde J] in
theorem Chosen.grow {world after : World J} {phase : Phase J} (chosen : Chosen world phase)
    {more : List (OutboxRow J)} (outbox : after.tables.outbox = world.tables.outbox ++ more)
    (removed : after.tables.removed = world.tables.removed) (sink : after.delivered = world.delivered) :
    Chosen after phase := by
  cases phase with
  | selected rows =>
    obtain ⟨chosen, shape, heads⟩ := chosen
    exact ⟨chosen, shape, heads.grow outbox⟩
  | handed rows | dropped rows =>
    obtain ⟨chosen, shape, heads, reached⟩ := chosen
    refine ⟨chosen, shape, heads.grow outbox, ?_⟩
    rw [sink]
    unfold Tables.removedOf
    rw [removed]
    exact reached
  | _ => trivial

theorem Relaying.empty : Relaying (Cluster.empty : Cluster J) fun _ => .closed where
  deliveries :=
    { paired := fun _ => .nil
      known := fun _ member => nomatch member
      firsts := fun _ => ⟨0, rfl, le_rfl⟩ }
  solo := by intro ticket other session rival different found; cases found
  ordinary := by intro ticket session found; cases found
  chosen := by intro ticket session found; cases found

theorem Relaying.close {cluster : Cluster J} {phases : Nat → Phase J} (relaying : Relaying cluster phases)
    (ticket : Nat) : Relaying (cluster.close ticket) phases where
  deliveries := relaying.deliveries
  solo := by
    intro first second session rival different found ongoing
    exact relaying.solo first second session rival different (lookup_close found).2 (lookup_close ongoing).2
  ordinary := by
    intro other session present
    exact relaying.ordinary other session (lookup_close present).2
  chosen := by
    intro other session present
    exact relaying.chosen other session (lookup_close present).2

theorem Relaying.start {cluster : Cluster J} {phases : Nat → Phase J} (relaying : Relaying cluster phases)
    (ticket : Nat) {work : Work} {program : Tx J Unit Unit}
    (solo : work.isRelay = true → ∀ other session, cluster.sessions.lookup other = some session →
      session.work.isRelay = false) :
    Relaying (cluster.resume ticket cluster.world ⟨work, program, .begin⟩)
      (Function.update phases ticket work.phase) where
  deliveries := relaying.deliveries
  solo := by
    refine between_resume phases work.phase (fun (_ : Phase J) (session : Session J) _ rival =>
      session.work.isRelay = false ∨ (Session.work rival).isRelay = false) (fun _ _ _ _ => Or.symm) ?_
      relaying.solo
    intro other rival _ ongoing
    by_cases relay : work.isRelay = true
    · exact .inr (solo relay other rival ongoing)
    · exact .inl (by simpa using relay)
  ordinary := by
    refine each_resume phases work.phase (fun (phase : Phase J) (session : Session J) =>
      session.work.isRelay = false → session.tx.claimed = [] ∧ phase.relays = false) ?_
      fun other rival _ ongoing => relaying.ordinary other rival ongoing
    intro operation
    refine ⟨rfl, ?_⟩
    change work.isRelay = false at operation
    rw [Work.phase, operation]
    rfl
  chosen := by
    refine each_resume phases work.phase (fun (phase : Phase J) (_ : Session J) =>
      Chosen cluster.world phase) ?_ fun other rival _ ongoing => relaying.chosen other rival ongoing
    unfold Work.phase
    split <;> trivial

theorem Relaying.resume {cluster : Cluster J} {phases : Nat → Phase J} (relaying : Relaying cluster phases)
    {ticket : Nat} {session : Session J} (found : cluster.sessions.lookup ticket = some session)
    {world : World J} {tx : Transaction J} {phase : Phase J} {program : Tx J Unit Unit}
    (deliveries : Deliveries world)
    (ordinary : session.work.isRelay = false → tx.claimed = [] ∧ phase.relays = false)
    (here : Chosen world phase)
    (rest : ∀ other rival, other ≠ ticket → cluster.sessions.lookup other = some rival →
      Chosen world (phases other)) :
    Relaying (cluster.resume ticket world ⟨session.work, program, tx⟩)
      (Function.update phases ticket phase) where
  deliveries := deliveries
  solo := between_resume phases phase (fun (_ : Phase J) (session : Session J) _ rival =>
      session.work.isRelay = false ∨ (Session.work rival).isRelay = false) (fun _ _ _ _ => Or.symm)
    (fun other rival different ongoing => relaying.solo ticket other session rival different found ongoing)
    relaying.solo
  ordinary := each_resume phases phase (fun (phase : Phase J) (session : Session J) =>
      session.work.isRelay = false → session.tx.claimed = [] ∧ phase.relays = false) ordinary
    fun other rival _ ongoing => relaying.ordinary other rival ongoing
  chosen := each_resume phases phase (fun (phase : Phase J) (_ : Session J) => Chosen world phase) here rest

theorem Relaying.alone {cluster : Cluster J} {phases : Nat → Phase J} (relaying : Relaying cluster phases)
    {ticket : Nat} {session : Session J} (found : cluster.sessions.lookup ticket = some session)
    (relays : (phases ticket).relays = true) :
    session.work.isRelay = true ∧ ∀ other rival, other ≠ ticket →
      cluster.sessions.lookup other = some rival →
      rival.tx.claimed = [] ∧ ∀ world, Chosen world (phases other) := by
  have relay : session.work.isRelay = true := by
    by_contra operation
    rw [Bool.not_eq_true] at operation
    rw [(relaying.ordinary ticket session found operation).2] at relays
    cases relays
  refine ⟨relay, ?_⟩
  intro other rival different ongoing
  rcases relaying.solo ticket other session rival different found ongoing with operation | operation
  · rw [relay] at operation
    cases operation
  · obtain ⟨unclaimed, ordinary⟩ := relaying.ordinary other rival ongoing operation
    exact ⟨unclaimed, fun _ => chosen_of_relays ordinary⟩

theorem Deliveries.appended {world after : World J} (deliveries : Deliveries world) {tx : Transaction J}
    {more : List (OutboxRow J)} (tables : after.tables = tx.view world.tables)
    (sink : after.delivered = world.delivered) (pairs : List.Forall₂ Pairs tx.rows more)
    (outbox : after.tables.outbox = world.tables.outbox ++ more)
    (removed : after.tables.removed = world.tables.removed) : Deliveries after := by
  refine ⟨?_, ?_, ?_⟩
  · intro stream
    have added : List.Forall₂ Pairs (tx.rows.filter (·.streamId = stream))
        (more.filter (·.streamId = stream)) :=
      List.rel_filter (fun row out pair => by simp [pair.2.1]) pairs
    rw [Tables.removedOf, removed, Tables.outboxOf, outbox, tables, Transaction.view_streamRows,
      List.filter_append, ← List.append_assoc]
    exact List.rel_append (deliveries.paired stream) added
  · rw [sink]
    intro envelope member
    obtain ⟨event, listed, ids⟩ := deliveries.known envelope member
    rw [tables, Transaction.view_events]
    exact ⟨event, List.mem_append_left _ listed, ids⟩
  · rw [sink]
    intro stream
    rw [Tables.removedOf, removed]
    exact deliveries.firsts stream

theorem Deliveries.dropped {world after : World J} (deliveries : Deliveries world) {tx : Transaction J}
    {chosen : List (OutboxRow J)} (ordered : world.tables.outbox.Pairwise Precedes)
    (heads : Heads world.tables chosen)
    (reached : ∀ stream, (world.tables.removedOf stream).length +
      (chosen.filter (·.streamId = stream)).length ≤ (firstDeliveries world.delivered stream).length)
    (tables : after.tables = tx.view world.tables) (sink : after.delivered = world.delivered)
    (none : tx.rows = [])
    (outbox : after.tables.outbox =
      world.tables.outbox.filter fun row => row.outboxSeq ∉ chosen.map (·.outboxSeq))
    (removed : after.tables.removed = world.tables.removed ++
      world.tables.outbox.filter fun row => row.outboxSeq ∈ chosen.map (·.outboxSeq)) :
    Deliveries after := by
  have events : after.tables.events = world.tables.events := by
    rw [tables, Transaction.view_events, none, List.append_nil]
  have gone : ∀ stream, after.tables.removedOf stream =
      world.tables.removedOf stream ++ chosen.filter (·.streamId = stream) := by
    intro stream
    rw [Tables.removedOf, removed, List.filter_append, (heads.removed ordered stream).1, Tables.removedOf]
  refine ⟨?_, ?_, ?_⟩
  · intro stream
    have left := (heads.removed ordered stream).2
    rw [← outbox] at left
    change _ ++ after.tables.outboxOf stream = _ at left
    rw [gone, List.append_assoc, left, Tables.streamRows, events]
    exact deliveries.paired stream
  · rw [sink, events]
    exact deliveries.known
  · rw [sink]
    intro stream
    obtain ⟨count, firsts, _⟩ := deliveries.firsts stream
    have far := reached stream
    rw [firsts, List.length_range'] at far
    refine ⟨count, firsts, ?_⟩
    rw [gone, List.length_append]
    exact far

theorem Relaying.committed {cluster : Cluster J} {phases : Nat → Phase J} {strict : Bool}
    (relaying : Relaying cluster phases) (log : Log cluster phases) (sequenced : Sequenced cluster phases)
    {ticket : Nat} {session : Session J} (found : cluster.sessions.lookup ticket = some session)
    {world : World J} {program : Tx J Unit Unit}
    (tables : world.tables = session.tx.view cluster.world.tables)
    (sink : world.delivered = cluster.world.delivered)
    (commits : (phases ticket).permits strict .commit) :
    Relaying (cluster.resume ticket world ⟨session.work, program, .begin⟩)
      (Function.update phases ticket .closed) := by
  have outbox := (log.wrote ticket session found).outbox commits
  rw [← tables] at outbox
  rcases outbox with ⟨grown, same, pairs⟩ | ⟨rows, phase, none, shrunk, removed⟩
  · refine relaying.resume found (relaying.deliveries.appended tables sink pairs grown same)
      (fun _ => ⟨rfl, rfl⟩) trivial ?_
    intro other rival _ ongoing
    exact (relaying.chosen other rival ongoing).grow grown same sink
  · have own := relaying.chosen ticket session found
    have alone := relaying.alone found (by rw [phase]; rfl)
    rw [phase] at own
    obtain ⟨chosen, rfl, heads, reached⟩ := own
    rw [List.map_map] at shrunk removed
    refine relaying.resume found
      (relaying.deliveries.dropped sequenced.ordered heads reached tables sink none shrunk removed)
      (fun _ => ⟨rfl, rfl⟩) trivial ?_
    intro other rival different ongoing
    exact (alone.2 other rival different ongoing).2 world

theorem Advance.ordinary [BuildProfile] {strict : Bool} {others : List (Transaction J)}
    {world after : World J} {tx moved : Transaction J} {phase next : Phase J}
    (advance : Advance strict others world tx phase after moved next) (unclaimed : tx.claimed = [])
    (ordinary : phase.relays = false) : moved.claimed = [] ∧ next.relays = false := by
  cases advance with
  | still _ _ _ _ claimed stays =>
    refine ⟨claimed.trans unclaimed, ?_⟩
    rcases stays with rfl | rfl
    · exact ordinary
    · rfl
  | projected _ _ _ row =>
    refine ⟨?_, rfl⟩
    rcases row with ⟨written, rfl, _⟩ | ⟨rfl, _⟩ | ⟨rfl, _⟩ <;> exact unclaimed
  | beaten _ _ claimed => exact ⟨claimed.trans unclaimed, rfl⟩
  | committed => exact ⟨rfl, rfl⟩
  | checked | inserted | paired | folded => exact ⟨unclaimed, rfl⟩
  | selected | delivered | dropped => cases ordinary

theorem Relaying.resume_same {cluster : Cluster J} {phases : Nat → Phase J}
    (relaying : Relaying cluster phases) {ticket : Nat} {session : Session J}
    (found : cluster.sessions.lookup ticket = some session) {world : World J} {tx : Transaction J}
    {phase : Phase J} {program : Tx J Unit Unit} (tables : world.tables = cluster.world.tables)
    (sink : world.delivered = cluster.world.delivered)
    (ordinary : session.work.isRelay = false → tx.claimed = [] ∧ phase.relays = false)
    (here : Chosen cluster.world phase) :
    Relaying (cluster.resume ticket world ⟨session.work, program, tx⟩)
      (Function.update phases ticket phase) := by
  have outbox : world.tables.outbox = cluster.world.tables.outbox ++ [] := by rw [tables, List.append_nil]
  have removed : world.tables.removed = cluster.world.tables.removed := by rw [tables]
  refine relaying.resume found ⟨?_, ?_, ?_⟩ ordinary (here.grow outbox removed sink) ?_
  · rw [tables]
    exact relaying.deliveries.paired
  · rw [tables, sink]
    exact relaying.deliveries.known
  · rw [tables, sink]
    exact relaying.deliveries.firsts
  · intro other rival _ ongoing
    exact (relaying.chosen other rival ongoing).grow outbox removed sink

theorem Relaying.delivered {cluster : Cluster J} {phases : Nat → Phase J}
    (relaying : Relaying cluster phases) (log : Log cluster phases) {ticket : Nat} {session : Session J}
    (found : cluster.sessions.lookup ticket = some session) {world : World J} {program : Tx J Unit Unit}
    {rows : List (Nat × J)} {envelopes : List EventEnvelope} {phase : Phase J} {received : Nat}
    (here : phases ticket = .selected rows) (tables : world.tables = cluster.world.tables)
    (decoded : decodeOutbox rows = .ok envelopes)
    (sink : world.delivered = cluster.world.delivered ++ envelopes.take received)
    (answer : (envelopes.length ≤ received ∧ phase = .handed rows) ∨ phase = .closed) :
    Relaying (cluster.resume ticket world ⟨session.work, program, session.tx⟩)
      (Function.update phases ticket phase) := by
  have own := relaying.chosen ticket session found
  obtain ⟨relay, alone⟩ := relaying.alone found (by rw [here]; rfl)
  rw [here] at own
  obtain ⟨chosen, rfl, heads⟩ := own
  have sent := decodeOutbox_sent decoded
  have versions := log.versions
  -- whatever part of the batch the sink took in, it heads the streams as well
  obtain ⟨deliveries, reached⟩ := relaying.deliveries.deliver versions (heads.take received)
    (List.forall₂_take received sent) tables sink
  refine relaying.resume found deliveries ?_ ?_ fun other rival different ongoing =>
    (alone other rival different ongoing).2 world
  · intro operation
    rw [relay] at operation
    cases operation
  · rcases answer with ⟨whole, rfl⟩ | rfl
    · have all : chosen.take received = chosen := List.take_of_length_le (sent.length_eq ▸ whole)
      rw [all] at reached
      refine ⟨chosen, rfl, ?_, reached⟩
      rw [tables]
      exact heads
    · trivial

theorem Relaying.advance [BuildProfile] {cluster : Cluster J} {phases : Nat → Phase J} {strict : Bool}
    (relaying : Relaying cluster phases) (log : Log cluster phases) (sequenced : Sequenced cluster phases)
    {ticket : Nat} {session : Session J} (found : cluster.sessions.lookup ticket = some session)
    {world : World J} {tx : Transaction J} {phase : Phase J} (program : Tx J Unit Unit)
    (advance : Advance strict (cluster.others ticket) cluster.world session.tx (phases ticket) world tx phase) :
    Relaying (cluster.resume ticket world ⟨session.work, program, tx⟩)
      (Function.update phases ticket phase) := by
  have ordinary : session.work.isRelay = false → tx.claimed = [] ∧ phase.relays = false := by
    intro operation
    obtain ⟨unclaimed, kind⟩ := relaying.ordinary ticket session found operation
    exact advance.ordinary unclaimed kind
  have wrote := log.wrote ticket session found
  have own := relaying.chosen ticket session found
  generalize here : phases ticket = before at advance wrote own
  cases advance with
  | still tables seq sink writes claimed stays =>
    rcases stays with rfl | rfl
    · exact relaying.resume_same found tables sink ordinary own
    · exact relaying.resume_same found tables sink ordinary trivial
  | inserted tables seq sink => exact relaying.resume_same found tables sink ordinary trivial
  | paired tables seq sink => exact relaying.resume_same found tables sink ordinary trivial
  | projected tables seq sink => exact relaying.resume_same found tables sink ordinary trivial
  | checked | folded | beaten => exact relaying.resume_same found rfl rfl ordinary trivial
  | committed tables seq sink commits =>
    rw [← here] at commits
    exact relaying.committed log sequenced found tables sink commits
  | selected chosen batch rows writes =>
    refine relaying.resume_same found rfl rfl ordinary ⟨chosen, rfl, ?_⟩
    have none : session.tx.writes = [] := wrote
    have unlocked : ∀ row ∈ cluster.world.tables.outbox,
        (!(cluster.others ticket).any fun other => row.outboxSeq ∈ other.claimed) = true := by
      intro row _
      rw [Bool.not_eq_true', List.any_eq_false]
      intro other listed
      obtain ⟨number, rival, different, ongoing, rfl⟩ := mem_others.mp listed
      have free := ((relaying.alone found (by rw [here]; rfl)).2 number rival different ongoing).1
      rw [free]
      simp
    rw [rows, Transaction.view, none, List.foldl_nil, List.filter_eq_self.mpr unlocked]
    exact heads_of_select sequenced.ordered batch
  | delivered received tables seq decoded sink answer =>
    exact relaying.delivered log found here tables decoded sink answer
  | dropped => exact relaying.resume_same found rfl rfl ordinary own

theorem Deliveries.event {world : World J} (deliveries : Deliveries world)
    (versions : ∀ stream, (world.tables.streamRows stream).map (·.version) =
      List.range' 1 (world.tables.streamRows stream).length)
    {event : EventRow J} (member : event ∈ world.tables.events) :
    (∃ out ∈ world.tables.outbox, Pairs event out) ∨
      ∃ envelope ∈ world.delivered, envelope.eventId = event.eventId ∧
        envelope.streamId = event.streamId ∧ envelope.version = event.version := by
  have listed : event ∈ world.tables.streamRows event.streamId := List.mem_filter.mpr ⟨member, by simp⟩
  have paired := deliveries.paired event.streamId
  have length := paired.length_eq
  rw [List.length_append] at length
  rw [← List.take_append_drop (world.tables.removedOf event.streamId).length
    (world.tables.streamRows event.streamId), List.mem_append] at listed
  rcases listed with gone | waiting
  · right
    obtain ⟨count, firsts, reached⟩ := deliveries.firsts event.streamId
    have early : event.version ∈ List.range' 1 (world.tables.removedOf event.streamId).length := by
      have taken := List.mem_map_of_mem gone (f := (·.version))
      rw [List.map_take, versions, length, ← List.range'_append_1, List.take_left' List.length_range'] at taken
      exact taken
    have seen : event.version ∈ firstDeliveries world.delivered event.streamId := by
      rw [List.mem_range'_1] at early
      rw [firsts, List.mem_range'_1]
      omega
    rw [firstDeliveries, List.mem_eraseDups] at seen
    obtain ⟨envelope, delivered, version⟩ := List.mem_map.mp seen
    obtain ⟨arrived, named⟩ := List.mem_filter.mp delivered
    rw [decide_eq_true_eq] at named
    -- the delivered envelope is of a committed event, and a stream has one event of each version
    obtain ⟨twin, present, eventId, streamId, number⟩ := deliveries.known envelope arrived
    have unique : ((world.tables.streamRows event.streamId).map (·.version)).Nodup := by
      rw [versions]
      exact List.nodup_range'
    have same : twin = event := by
      refine List.inj_on_of_nodup_map unique (List.mem_filter.mpr ⟨present, ?_⟩) (List.mem_of_mem_take gone)
        (number.trans version)
      rw [decide_eq_true_eq, streamId, named]
    subst same
    exact ⟨envelope, arrived, eventId.symm, streamId.symm, number.symm⟩
  · left
    obtain ⟨out, place, pair⟩ := exists_of_mem_right
      (List.forall₂_drop_append _ _ _ paired).flip waiting
    exact ⟨out, List.mem_of_mem_filter place, pair⟩

/-- Whatever appends and relay passes do to each other, with one relay pass at a time: every
    committed event is in the outbox or was delivered, only committed events are delivered, and the
    first deliveries of a stream are its versions in order. -/
theorem relay_loses_nothing [BuildProfile] {history : List (Record (Cluster J) Label Unit)}
    {cluster : Cluster J} (run : Run Cluster.Step .empty history cluster)
    (single : ∀ record ∈ history, ∀ ticket batch, record.label = .start ticket (.relay batch) →
      ∀ other session, record.before.sessions.lookup other = some session →
        session.work.isRelay = false) :
    (∀ event ∈ cluster.world.tables.events,
      (∃ out ∈ cluster.world.tables.outbox, Pairs event out) ∨
        ∃ envelope ∈ cluster.world.delivered, envelope.eventId = event.eventId ∧
          envelope.streamId = event.streamId ∧ envelope.version = event.version) ∧
      (∀ envelope ∈ cluster.world.delivered, ∃ event ∈ cluster.world.tables.events,
        event.eventId = envelope.eventId ∧ event.streamId = envelope.streamId ∧
          event.version = envelope.version) ∧
      ∀ stream, ∃ count, firstDeliveries cluster.world.delivered stream = List.range' 1 count := by
  obtain ⟨phases, log, sequenced, relaying⟩ := Run.phases false
    (fun before work => work.isRelay = true → ∀ other session,
      before.sessions.lookup other = some session → session.work.isRelay = false)
    (fun cluster phases => Log cluster phases ∧ Sequenced cluster phases ∧ Relaying cluster phases)
    (fun _ _ _ contradiction => nomatch contradiction) ⟨Log.empty, Sequenced.empty, Relaying.empty⟩
    (fun cluster phases ticket work ⟨log, sequenced, relaying⟩ _ solo =>
      ⟨log.start ticket, sequenced.start ticket, relaying.start ticket solo⟩)
    (fun cluster phases ticket ⟨log, sequenced, relaying⟩ =>
      ⟨log.close ticket, sequenced.close ticket, relaying.close ticket⟩)
    (fun cluster phases ticket session world tx phase program ⟨log, sequenced, relaying⟩ found advance =>
      ⟨log.advance found program advance, sequenced.advance log found program advance,
        relaying.advance log sequenced found program advance⟩)
    run (by
      intro record member ticket work label relay
      cases work with
      | operation operation => cases relay
      | relay batch => exact single record member ticket batch label)
  refine ⟨fun event member => relaying.deliveries.event log.versions member, relaying.deliveries.known, ?_⟩
  intro stream
  obtain ⟨count, firsts, _⟩ := relaying.deliveries.firsts stream
  exact ⟨count, firsts⟩

end Deliveries

/-- The first append draws the smaller outbox number and commits last; a relay pass in between
    crashes after its delivery. -/
def outOfOrderLabels : List Label :=
  Label.advances 3 4 ++ [.start 3 (.relay 10)] ++ Label.advances 0 4 ++ [.abort 2] ++ Label.advances 2 2 ++
    [.start 2 (.relay 10)] ++ Label.advances 1 7 ++ Label.advances 0 3 ++
    [.start 1 (.operation (.append ⟨2⟩ 0 (Sample.command.envelopes (Sample.ports 0 2)))),
      .start 0 (.operation (.append ⟨1⟩ 0 (Sample.command.envelopes (Sample.ports 0 1))))]

theorem relay_loses_nothing_out_of_order :
    let _ := BuildProfile.release
    ∃ (history : List (Record (Cluster TypedJson) Label Unit)) (cluster : Cluster TypedJson),
      Run Cluster.Step .empty history cluster ∧ history.map (·.label) = outOfOrderLabels ∧
      cluster.world.delivered.map (·.streamId) = [⟨2⟩, ⟨1⟩, ⟨2⟩] ∧
      ∀ stream, ∃ count, firstDeliveries cluster.world.delivered stream = List.range' 1 count := by
  intro _
  have seen : (Label.attempt outOfOrderLabels : Option (_ × Cluster TypedJson)).map (fun ran =>
      (ran.1.all fun record =>
        match record.label with
        | .start _ (.relay _) => record.before.sessions.entries.all fun entry => !entry.2.work.isRelay
        | _ => true, ran.2.world.delivered.map (·.streamId))) = some (true, [⟨2⟩, ⟨1⟩, ⟨2⟩]) := by
    decide +kernel
  rw [Option.map_eq_some_iff] at seen
  obtain ⟨⟨history, cluster⟩, ran, seen⟩ := seen
  rw [Prod.mk.injEq, List.all_eq_true] at seen
  obtain ⟨run, labels⟩ := Label.of_attempt ran
  refine ⟨history, cluster, run, labels, seen.2, (relay_loses_nothing run ?_).2.2⟩
  intro record member ticket batch label other session ongoing
  have single := seen.1 record member
  rw [label, List.all_eq_true] at single
  simpa using single ⟨other, session⟩ (AList.mem_lookup_iff.mp ongoing)

end Koine.Postgres
