import Koine.Memory.Index
import Koine.Postgres.Alone

namespace Koine.Postgres

open Library Domain Application Memory

section Precision

def instants : JobState → List DateTime
  | .pending notBefore => notBefore.toList
  | .leased _ _ expiresAt | .running _ _ expiresAt => [expiresAt]
  | _ => []

variable [BuildProfile]

theorem apply_precise {job next : Job} {event : JobEvent} (accepted : job.apply event = (next, .ok ()))
    (old : Precise (instants job.state)) (new : Precise (times event)) : Precise (instants next.state) := by
  unfold Job.apply at accepted
  split at accepted
  case h_6 | h_7 =>
    split at accepted
    · cases accepted
      exact fun time member => nomatch member
    · cases accepted
  all_goals cases accepted
  all_goals simp_all [instants, times, Precise]

theorem foldRest_precise {job result : Job} {batch : List EventEnvelope}
    (folded : job.foldRest batch = .ok result) (old : Precise (instants job.state))
    (new : ∀ envelope ∈ batch, Precise (times envelope.event)) : Precise (instants result.state) := by
  induction batch generalizing job with
  | nil =>
    cases folded
    exact old
  | cons envelope rest ih =>
    obtain ⟨_, next, accepted, later⟩ := Job.foldRest_cons_ok.mp folded
    rw [List.forall_mem_cons] at new
    exact ih later (apply_precise accepted old new.1) new.2

theorem fromEvents_precise {stream : List EventEnvelope} {job : Job}
    (folded : Job.fromEvents stream = .ok job) (precise : ∀ envelope ∈ stream, Precise (times envelope.event)) :
    Precise (instants job.state) := by
  cases stream with
  | nil => cases folded
  | cons first rest =>
    rw [List.forall_mem_cons] at precise
    obtain ⟨queue, payload, priority, policy, notBefore, event, _, later⟩ := Job.fromEvents_cons_ok.mp folded
    refine foldRest_precise later ?_ precise.2
    have opened := precise.1
    rw [event] at opened
    exact opened

end Precision

section Relation

variable {J : Type} [Serde J]

def rowFor (entry : DispatchEntry) (seq : Nat) : DispatchRow where
  queue := entry.queue
  priority := entry.priority
  seq
  notBefore := entry.notBefore
  leaseId := entry.lease.map (·.lease)
  workerId := entry.lease.map (·.worker)
  leaseExpiresAt := entry.lease.map (·.expiresAt)

def Tables.rank (tables : Tables J) (id : JobId) : Nat := (tables.dispatch.lookup id).elim 0 (·.seq)

/-- The two stores hold the same streams and the same dispatch entries, in the same order. -/
structure Related (inner : Inner) (tables : Tables J) : Prop where
  streams : ∀ id, envelopesFromRows (inOrder (tables.streamRows id)) = .ok (inner.stream id)
  dispatch : ∀ id, tables.dispatch.lookup id = (inner.index.lookup id).map (rowFor · (tables.rank id))
  order : ∀ left right first second, inner.index.lookup left = some first →
    inner.index.lookup right = some second → (first.seq ≤ second.seq ↔ tables.rank left ≤ tables.rank right)

def DistinctIds (inner : Inner) : Prop :=
  ∀ left right (i j : Nat) (a b : EventEnvelope), (inner.stream left)[i]? = some a → (inner.stream right)[j]? = some b →
    a.eventId = b.eventId → left = right ∧ i = j

variable [BuildProfile]

structure Twinned (inner : Inner) (world : World J) : Prop where
  consistent : inner.Consistent
  decoded : ∀ id, envelopesFromRows (world.tables.streamRows id) = .ok (inner.stream id)
  dispatch : ∀ id, world.tables.dispatch.lookup id =
    (inner.index.lookup id).map (rowFor · (world.tables.rank id))
  order : ∀ left right first second, inner.index.lookup left = some first →
    inner.index.lookup right = some second →
    (first.seq ≤ second.seq ↔ world.tables.rank left ≤ world.tables.rank right)
  drawn : ∀ id, world.tables.rank id ≤ world.dispatchSeq
  ids : (world.tables.events.map (·.eventId)).Nodup
  fits : ∀ id, ∀ envelope ∈ inner.stream id, Fits J envelope

theorem numbered {inner : Inner} (consistent : inner.Consistent) (id : JobId) :
    Job.Sequential 0 (inner.stream id) := by
  unfold Inner.stream
  cases stored : inner.streams.lookup id with
  | none => trivial
  | some stream =>
    obtain ⟨job, folded, _⟩ := consistent.folds id stream stored
    exact Job.fromEvents_sequential folded

theorem Twinned.related {inner : Inner} {world : World J} (twinned : Twinned inner world) :
    Related inner world.tables where
  streams := by
    intro id
    rw [inOrder_of_versions (decoded_versions (twinned.decoded id) (numbered twinned.consistent id))]
    exact twinned.decoded id
  dispatch := twinned.dispatch
  order := twinned.order

theorem Twinned.empty : Twinned Inner.empty (World.empty : World J) where
  consistent := Inner.Consistent.empty
  decoded := fun _ => rfl
  dispatch := fun _ => rfl
  order := by intro left right first second found; cases found
  drawn := fun _ => le_rfl
  ids := List.nodup_nil
  fits := by intro id envelope member; cases member

theorem Twinned.reordered {inner shuffled : Inner} {world : World J} (twinned : Twinned inner world)
    (order : inner.Reordered shuffled) : Twinned shuffled world where
  consistent := twinned.consistent.reorder order
  decoded := by simpa only [order.stream] using twinned.decoded
  dispatch := by simpa only [order.index] using twinned.dispatch
  order := by simpa only [order.index] using twinned.order
  drawn := twinned.drawn
  ids := twinned.ids
  fits := by simpa only [order.stream] using twinned.fits

theorem Twinned.rolledBack {inner : Inner} {world after : World J} (twinned : Twinned inner world)
    (tables : after.tables = world.tables) (seq : world.dispatchSeq ≤ after.dispatchSeq) :
    Twinned inner after where
  consistent := twinned.consistent
  decoded := by rw [tables]; exact twinned.decoded
  dispatch := by rw [tables]; exact twinned.dispatch
  order := by rw [tables]; exact twinned.order
  drawn := by rw [tables]; exact fun id => (twinned.drawn id).trans seq
  ids := by rw [tables]; exact twinned.ids
  fits := twinned.fits

omit [Serde J] [BuildProfile] in
theorem rowOf_entryOf {job : Job} (precise : Precise (instants job.state)) (seq number : Nat) :
    rowOf job seq = (entryOf job number).map (rowFor · seq) := by
  unfold rowOf entryOf
  cases state : job.state with
  | pending notBefore =>
    rw [state] at precise
    cases notBefore with
    | none => rfl
    | some time =>
      have sharp : timestamptz time = time := precise time (by simp [instants])
      simp [rowFor, sharp]
  | leased worker lease expiresAt | running worker lease expiresAt =>
    rw [state] at precise
    have sharp : timestamptz expiresAt = expiresAt := precise expiresAt (by simp [instants])
    simp [rowFor, sharp]
  | _ => rfl

theorem Twinned.fresh {inner after : Inner} {world : World J} (twinned : Twinned inner world)
    {stream : JobId} {batch : List EventEnvelope} {job : Job} (effects : Appended inner after stream batch job)
    (distinct : DistinctIds after) :
    (world.tables.events.map (·.eventId) ++ batch.map (·.eventId)).Nodup := by
  have self : after.stream stream = inner.stream stream ++ batch := by
    rw [Inner.stream, effects.stream_self]
    rfl
  have same : ∀ id, id ≠ stream → after.stream id = inner.stream id := by
    intro id different
    rw [Inner.stream, effects.stream_other id different, Inner.stream]
  have placed : ∀ j b, batch[j]? = some b → (after.stream stream)[(inner.stream stream).length + j]? = some b := by
    intro j b present
    rw [self, List.getElem?_append_right (by omega), Nat.add_sub_cancel_left]
    exact present
  rw [List.nodup_append]
  refine ⟨twinned.ids, ?_, ?_⟩
  · rw [List.nodup_iff_getElem?_ne_getElem?]
    intro i j below bound clash
    rw [List.length_map] at bound
    rw [List.getElem?_map, List.getElem?_map, List.getElem?_eq_getElem bound,
      List.getElem?_eq_getElem (by omega), Option.map_some, Option.map_some, Option.some.injEq] at clash
    obtain ⟨_, equal⟩ := distinct stream stream _ _ _ _ (placed i _ (List.getElem?_eq_getElem (by omega)))
      (placed j _ (List.getElem?_eq_getElem bound)) clash
    omega
  · intro id listed other member clash
    obtain ⟨row, present, rfl⟩ := List.mem_map.mp listed
    obtain ⟨new, added, rfl⟩ := List.mem_map.mp member
    obtain ⟨j, bound, place⟩ := List.getElem_of_mem added
    have stored : row ∈ world.tables.streamRows row.streamId := List.mem_filter.mpr ⟨present, by simp⟩
    obtain ⟨old, kept, read⟩ := exists_of_mem_right (envelopesFromRows_eq_ok.mp
      (twinned.decoded row.streamId)).flip stored
    obtain ⟨i, below, here⟩ := List.getElem_of_mem kept
    have before : (after.stream row.streamId)[i]? = some old := by
      by_cases own : row.streamId = stream
      · rw [own, self, List.getElem?_append_left (own ▸ below), ← own, List.getElem?_eq_getElem below, here]
      · rw [same _ own, List.getElem?_eq_getElem below, here]
    obtain ⟨named, equal⟩ := distinct row.streamId stream i _ old new before
      (placed j new (by rw [List.getElem?_eq_getElem bound, place]))
      ((envelopeFromRow_ids read).1.symm.trans clash)
    rw [named] at below
    omega

def committed (state : World J × Transaction J) : World J :=
  { state.1 with tables := state.2.view state.1.tables }

theorem Twinned.appended_stream {inner after : Inner} {world : World J} (twinned : Twinned inner world)
    {stream : JobId} {batch : List EventEnvelope} {job : Job} {last : World J × Transaction J}
    (effects : Appended inner after stream batch job) (saved : Saved world last stream batch job) (id : JobId) :
    envelopesFromRows ((committed last).tables.streamRows id) = .ok (after.stream id) := by
  obtain ⟨rows, read, events⟩ := saved.events
  have streams := decoded_map (fun row envelope read => (envelopeFromRow_ids read).2.1) read
  have named : ∀ row ∈ rows, row.streamId = stream := by
    intro row member
    have listed : row.streamId ∈ batch.map (·.streamId) := streams ▸ List.mem_map_of_mem member
    obtain ⟨envelope, present, same⟩ := List.mem_map.mp listed
    rw [← same]
    exact after.keyed stream _ effects.stream_self envelope (List.mem_append_right _ present)
  have split : (committed last).tables.streamRows id =
      world.tables.streamRows id ++ rows.filter (·.streamId = id) := by
    change List.filter _ (last.2.view last.1.tables).events = _
    rw [events, List.filter_append]
    rfl
  rw [split]
  by_cases here : id = stream
  · subst here
    have all : rows.filter (·.streamId = id) = rows :=
      List.filter_eq_self.mpr fun row member => by simpa using named row member
    have self : after.stream id = inner.stream id ++ batch := by
      rw [Inner.stream, effects.stream_self]
      rfl
    rw [all, self]
    exact envelopesFromRows_append (twinned.decoded id) read
  · have none : rows.filter (·.streamId = id) = [] := by
      rw [List.filter_eq_nil_iff]
      intro row member
      simpa [named row member] using Ne.symm here
    have same : after.stream id = inner.stream id := by
      rw [Inner.stream, effects.stream_other id here, Inner.stream]
    rw [none, List.append_nil, same]
    exact twinned.decoded id

omit [Serde J] [BuildProfile] in
theorem rank_of_lookup {tables : Tables J} {id : JobId} {row : DispatchRow}
    (found : tables.dispatch.lookup id = some row) : tables.rank id = row.seq := by
  rw [Tables.rank, found]
  rfl

theorem Twinned.appended_order {inner after : Inner} {world : World J} (twinned : Twinned inner world)
    {stream : JobId} {batch : List EventEnvelope} {job : Job} {last : World J × Transaction J}
    (effects : Appended inner after stream batch job) (saved : Saved world last stream batch job)
    (self : (committed last).tables.dispatch.lookup stream =
      (after.index.lookup stream).map (rowFor · (world.rankFor stream)))
    {entry other : DispatchEntry} {id : JobId} (present : after.index.lookup stream = some entry)
    (different : id ≠ stream) (found : after.index.lookup id = some other) :
    (entry.seq ≤ other.seq ↔ (committed last).tables.rank stream ≤ (committed last).tables.rank id) ∧
      (other.seq ≤ entry.seq ↔ (committed last).tables.rank id ≤ (committed last).tables.rank stream) := by
  have rank : (committed last).tables.rank stream = world.rankFor stream := by
    rw [present] at self
    rw [rank_of_lookup self]
    rfl
  have kept : (committed last).tables.rank id = world.tables.rank id := by
    have same := saved.other id different
    change (committed last).tables.dispatch.lookup id = _ at same
    rw [Tables.rank, same, Tables.rank]
  have before := effects.index_other id different
  rw [found] at before
  have seq : entry.seq = inner.seqFor stream := by
    rw [effects.index_self] at present
    exact entryOf_seq present
  rw [rank, kept, seq]
  cases old : inner.index.lookup stream with
  | some mine =>
    have row := twinned.dispatch stream
    rw [old] at row
    have rankFor : world.rankFor stream = world.tables.rank stream := by
      rw [World.rankFor, Tables.rank, row]
      rfl
    have seqFor : inner.seqFor stream = mine.seq := by rw [Inner.seqFor, old]
    rw [rankFor, seqFor]
    exact ⟨twinned.order _ _ _ _ old before.symm, twinned.order _ _ _ _ before.symm old⟩
  | none =>
    have row := twinned.dispatch stream
    rw [old] at row
    have rankFor : world.rankFor stream = world.dispatchSeq + 1 := by
      rw [World.rankFor, row]
      rfl
    have seqFor : inner.seqFor stream = inner.seq + 1 := by rw [Inner.seqFor, old]
    have below := twinned.consistent.seq_le _ _ before.symm
    have drawn := twinned.drawn id
    rw [rankFor, seqFor]
    omega

theorem Twinned.appended {inner after : Inner} {world : World J} (twinned : Twinned inner world)
    {stream : JobId} {batch : List EventEnvelope} {job : Job} {last : World J × Transaction J}
    (effects : Appended inner after stream batch job) (saved : Saved world last stream batch job)
    (distinct : DistinctIds after) (fits : ∀ id, ∀ envelope ∈ after.stream id, Fits J envelope) :
    Twinned after (committed last) := by
  have precise : Precise (instants job.state) := by
    have self : after.stream stream = inner.stream stream ++ batch := by
      rw [Inner.stream, effects.stream_self]
      rfl
    refine fromEvents_precise effects.folded ?_
    rw [← self]
    exact fun envelope member => (fits stream envelope member).times
  have self : (committed last).tables.dispatch.lookup stream =
      (after.index.lookup stream).map (rowFor · (world.rankFor stream)) := by
    rw [effects.index_self, ← rowOf_entryOf precise]
    exact saved.self
  have other : ∀ id, id ≠ stream → (committed last).tables.dispatch.lookup id =
      world.tables.dispatch.lookup id := saved.other
  refine ⟨twinned.consistent.appended effects, twinned.appended_stream effects saved, ?_, ?_, ?_, ?_, fits⟩
  · intro id
    by_cases here : id = stream
    · subst here
      rw [self]
      cases present : after.index.lookup id with
      | none => rfl
      | some entry =>
        rw [present] at self
        rw [rank_of_lookup self]
        rfl
    · have rank : (committed last).tables.rank id = world.tables.rank id := by
        rw [Tables.rank, other id here, Tables.rank]
      rw [other id here, effects.index_other id here, rank]
      exact twinned.dispatch id
  · intro left right first second foundLeft foundRight
    by_cases hereLeft : left = stream
    · by_cases hereRight : right = stream
      · subst hereLeft hereRight
        rw [foundLeft] at foundRight
        cases foundRight
        exact iff_of_true le_rfl le_rfl
      · subst hereLeft
        exact (twinned.appended_order effects saved self foundLeft hereRight foundRight).1
    · by_cases hereRight : right = stream
      · subst hereRight
        exact (twinned.appended_order effects saved self foundRight hereLeft foundLeft).2
      · rw [effects.index_other left hereLeft] at foundLeft
        rw [effects.index_other right hereRight] at foundRight
        rw [Tables.rank, other left hereLeft, Tables.rank, other right hereRight]
        exact twinned.order left right first second foundLeft foundRight
  · intro id
    change _ ≤ last.1.dispatchSeq
    have limit : world.rankFor stream ≤ world.dispatchSeq + 1 := by
      have bound := twinned.drawn stream
      unfold Tables.rank at bound
      unfold World.rankFor
      cases old : world.tables.dispatch.lookup stream with
      | none => exact le_rfl
      | some row =>
        rw [old] at bound
        exact bound.trans (Nat.le_succ _)
    by_cases here : id = stream
    · subst here
      have row := saved.self
      change (committed last).tables.dispatch.lookup id = _ at row
      rcases saved.drawn with drawn | ⟨_, none⟩
      · rw [drawn, Tables.rank, self]
        cases after.index.lookup id with
        | none => exact Nat.zero_le _
        | some entry => exact limit
      · rw [Tables.rank, row, none]
        exact Nat.zero_le _
    · rw [Tables.rank, other id here]
      have bound := twinned.drawn id
      rcases saved.drawn with drawn | ⟨kept, _⟩
      · rw [drawn]
        exact bound.trans (Nat.le_succ _)
      · rw [kept]
        exact bound
  · change ((last.2.view last.1.tables).events.map _).Nodup
    obtain ⟨rows, read, events⟩ := saved.events
    rw [events, List.map_append, decoded_map (fun row envelope read => (envelopeFromRow_ids read).1) read]
    exact twinned.fresh effects distinct

end Relation

end Koine.Postgres
