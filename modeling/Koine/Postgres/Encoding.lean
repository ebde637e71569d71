import Koine.Domain.Json
import Koine.Postgres.Outbox
import Koine.Postgres.Serial

namespace Koine.Postgres

open Library Domain Application

section Batches

variable {J : Type} [Serde J] [BuildProfile]

structure Batch where
  stream : JobId
  expectedVersion : Nat
  envelopes : List EventEnvelope

/-- A transaction that had written nothing when it called `append_in_tx`, and then committed. -/
def Writes (before : World J) (batch : Batch) (job : Job) (after : World J) : Prop :=
  ∃ tx state, tx.writes = [] ∧
    (appendInTx batch.stream batch.expectedVersion batch.envelopes).run Stmt.alone (before, tx) = (state, .ok job) ∧
    after = committed state

def appendedTo (stream : JobId) : List (Record (World J) Batch Job) → List EventEnvelope
  | [] => []
  | record :: older =>
    appendedTo stream older ++ if record.label.stream = stream then record.label.envelopes else []

def lastJob (stream : JobId) (history : List (Record (World J) Batch Job)) : Option Job :=
  (history.find? (·.label.stream = stream)).map (·.result)

omit [Serde J] [BuildProfile] in
theorem mem_appendedTo {stream : JobId} {history : List (Record (World J) Batch Job)} {envelope : EventEnvelope}
    (member : envelope ∈ appendedTo stream history) : ∃ record ∈ history, envelope ∈ record.label.envelopes := by
  induction history with
  | nil => cases member
  | cons record older ih =>
    rcases List.mem_append.mp member with before | new
    · obtain ⟨other, listed, present⟩ := ih before
      exact ⟨other, List.mem_cons_of_mem _ listed, present⟩
    · split at new
      · exact ⟨record, List.mem_cons_self, new⟩
      · cases new

/-- The rows and the outbox rows of a stream are those that `appended` is written as. -/
structure Holds (world : World J) (stream : JobId) (appended : List EventEnvelope) : Prop where
  named : ∀ envelope ∈ appended, envelope.streamId = stream
  encoded : List.Forall₂ (Encodes stream) appended (world.tables.streamRows stream)
  wrapped : List.Forall₂ (Wraps stream) appended (world.tables.outboxOf stream)

omit [BuildProfile] in
theorem Writes.outboxOf {before after : World J} {stream : JobId} {batch : List EventEnvelope}
    {outs : List (OutboxRow J)} (wrapped : List.Forall₂ (Wraps stream) batch outs)
    (outbox : after.tables.outbox = before.tables.outbox ++ outs) (id : JobId) :
    after.tables.outboxOf id = before.tables.outboxOf id ++ if stream = id then outs else [] := by
  have named : ∀ out ∈ outs, out.streamId = stream := by
    intro out member
    obtain ⟨envelope, _, json, _, same⟩ := exists_of_mem_right wrapped member
    rw [same]
  rw [Tables.outboxOf, outbox, List.filter_append, Tables.outboxOf]
  congr 1
  split
  · rename_i here
    exact List.filter_eq_self.mpr fun out member => by simpa [named out member] using here
  · rename_i other
    exact List.filter_eq_nil_iff.mpr fun out member => by simpa [named out member] using other

theorem Writes.holds {before after : World J} {batch : Batch} {job : Job} (step : Writes before batch job after)
    {id : JobId} {appended : List EventEnvelope} (holds : Holds before id appended) :
    Holds after id (appended ++ if batch.stream = id then batch.envelopes else []) := by
  obtain ⟨tx, state, clean, ran, rfl⟩ := step
  obtain ⟨_, _, _, _, accepted, _⟩ := appendInTx_stages clean ran
  obtain ⟨rows, outs, grown, encoded, wrapped, outbox⟩ := appendInTx_ok clean ran
  have queued := Writes.outboxOf wrapped outbox id
  by_cases here : batch.stream = id
  · subst here
    rw [if_pos rfl] at queued ⊢
    refine ⟨?_, ?_, ?_⟩
    · intro envelope member
      rcases List.mem_append.mp member with old | new
      · exact holds.named envelope old
      · exact (continues_iff.mp accepted).2 envelope new
    · rw [grown.streamRows_self]
      exact List.rel_append holds.encoded encoded
    · rw [queued]
      exact List.rel_append holds.wrapped wrapped
  · rw [if_neg here, List.append_nil] at queued ⊢
    refine ⟨holds.named, ?_, ?_⟩
    · rw [grown.streamRows_other (Ne.symm here)]
      exact holds.encoded
    · rw [queued]
      exact holds.wrapped

theorem Writes.derived {before after : World J} {batch : Batch} {job : Job} (step : Writes before batch job after)
    (derived : Derived before) : Derived after := by
  obtain ⟨tx, state, clean, ran, rfl⟩ := step
  obtain ⟨rows, _, grown, _⟩ := appendInTx_ok clean ran
  exact grown.derived derived

variable {history : List (Record (World J) Batch Job)} {world : World J}

theorem Run.holds (run : Run Writes .empty history world) (stream : JobId) :
    Holds world stream (appendedTo stream history) := by
  induction run with
  | refl => exact ⟨fun _ member => (List.not_mem_nil member).elim, .nil, .nil⟩
  | step run taken ih => exact taken.holds ih

theorem Run.written (run : Run Writes .empty history world) : Derived world :=
  Run.invariant Derived .empty (fun _ _ _ _ derived step => Writes.derived step derived) run

theorem Run.lastJob (run : Run Writes .empty history world) {stream : JobId} {job : Job}
    (last : lastJob stream history = some job) : foldRows (world.tables.streamRows stream) = some job := by
  induction run with
  | refl => cases last
  | @step _ _ _ batch _ run taken ih =>
    have derived := (taken.derived (Run.written run)).versions stream
    obtain ⟨tx, state, clean, ran, rfl⟩ := taken
    obtain ⟨rows, _, grown, _⟩ := appendInTx_ok clean ran
    by_cases here : batch.stream = stream
    · subst here
      rw [Postgres.lastJob, List.find?_cons_of_pos (by simp)] at last
      cases last
      have folds := grown.folds
      rw [inOrder_of_versions derived] at folds
      exact folds
    · rw [Postgres.lastJob, List.find?_cons_of_neg (by simpa using here)] at last
      rw [grown.streamRows_other (Ne.symm here)]
      exact ih last

end Batches

/-- `serde_json`, whose `u64` holds every version. -/
instance : Serde Value where
  encodeEvent event := .ok event.serialize
  decodeEvent := JobEvent.deserialize
  encodeEnvelope envelope :=
    if envelope.version < 2 ^ 64 then .ok envelope.serialize else .error "version exceeds u64"
  decodeEnvelope := EventEnvelope.deserialize
  decoded_ids := by
    intro envelope json decoded encoded read
    split at encoded
    · rename_i fits
      cases encoded
      rw [envelope.deserialize_serialize fits] at read
      cases read
      exact ⟨rfl, rfl, rfl⟩
    · cases encoded

section Values

theorem Encodes.read {envelope : EventEnvelope} {row : EventRow Value}
    (encodes : Encodes envelope.streamId envelope row)
    (precise : timestamptz envelope.recordedAt = envelope.recordedAt) :
    envelopeFromRow row = .ok envelope.restored := by
  obtain ⟨payload, encoded, _, _, same⟩ := encodes
  cases encoded
  have event : (Serde.decodeEvent envelope.event.serialize : Except String JobEvent) = .ok envelope.event.restored :=
    envelope.event.deserialize_serialize
  rw [same, envelopeFromRow]
  simp only [EventColumns.inserted, columnsFor, event, precise]
  rfl

theorem Encodes.tag {stream : JobId} {envelope : EventEnvelope} {row : EventRow Value}
    (encodes : Encodes stream envelope row) : typeTag row.payload = .ok envelope.event.kind := by
  obtain ⟨payload, encoded, _, _, same⟩ := encodes
  cases encoded
  rw [same]
  exact envelope.event.typeTag_serialize

theorem Wraps.read {stream : JobId} {envelope : EventEnvelope} {out : OutboxRow Value}
    (wraps : Wraps stream envelope out) : EventEnvelope.deserialize out.envelope = .ok envelope.restored := by
  obtain ⟨json, wrapped, same⟩ := wraps
  rw [same]
  change (if envelope.version < 2 ^ 64 then Except.ok envelope.serialize else _) = _ at wrapped
  split at wrapped
  · rename_i fits
    cases wrapped
    exact envelope.deserialize_serialize fits
  · cases wrapped

theorem decodeOutbox_eq_ok {J : Type} [Serde J] {outs : List (OutboxRow J)} {envelopes : List EventEnvelope}
    (read : List.Forall₂ (fun envelope out => Serde.decodeEnvelope out.envelope = .ok envelope) envelopes outs) :
    decodeOutbox (outs.map fun out => (out.outboxSeq, out.envelope)) = .ok envelopes := by
  induction read with
  | nil => rfl
  | cons first rest ih =>
    rw [List.map_cons, decodeOutbox]
    simp only [first, ih]
    rfl

structure ReadsBack (world : World Value) (stream : JobId) (appended : List EventEnvelope) : Prop where
  rows : (world.tables.streamRows stream).map envelopeFromRow = appended.map .ok
  outbox : decodeOutbox ((world.tables.outboxOf stream).map fun out => (out.outboxSeq, out.envelope)) = .ok appended
  tags : (world.tables.streamRows stream).map (fun row => typeTag row.payload) =
    appended.map fun envelope => .ok envelope.event.kind

section Reading

variable {world : World Value} {stream : JobId} {appended : List EventEnvelope}

theorem Holds.read (holds : Holds world stream appended)
    (precise : ∀ envelope ∈ appended, timestamptz envelope.recordedAt = envelope.recordedAt) :
    List.Forall₂ (fun envelope row => envelopeFromRow row = .ok envelope.restored) appended
      (world.tables.streamRows stream) := by
  have both : ∀ envelope ∈ appended, envelope.streamId = stream ∧
      timestamptz envelope.recordedAt = envelope.recordedAt := fun envelope member =>
    ⟨holds.named envelope member, precise envelope member⟩
  refine ((List.forall₂_and_left _ _).mpr ⟨both, holds.encoded⟩).imp ?_
  rintro envelope row ⟨⟨rfl, precise⟩, encodes⟩
  exact encodes.read precise

/-- The rows come back as `restored` says, so the stream reads back exactly where that changes nothing. -/
theorem Holds.readsBack_iff (holds : Holds world stream appended)
    (precise : ∀ envelope ∈ appended, timestamptz envelope.recordedAt = envelope.recordedAt) :
    ReadsBack world stream appended ↔ ∀ envelope ∈ appended, envelope.event.NullFree := by
  have rows : appended.map (fun envelope => .ok envelope.restored) =
      (world.tables.streamRows stream).map envelopeFromRow :=
    map_eq_of_forall₂ (holds.read precise) fun envelope row read => read.symm
  constructor
  · intro reads envelope member
    have same := List.map_inj_left.mp (rows.trans reads.rows) envelope member
    exact EventEnvelope.restored_eq_iff.mp (Outcome.ok.inj same)
  · intro plain
    have restored : ∀ envelope ∈ appended, envelope.restored = envelope := fun envelope member =>
      EventEnvelope.restored_eq_iff.mpr (plain envelope member)
    refine ⟨?_, ?_, ?_⟩
    · rw [← rows]
      exact List.map_congr_left fun envelope member => congrArg _ (restored envelope member)
    · refine decodeOutbox_eq_ok (((List.forall₂_and_left _ _).mpr ⟨restored, holds.wrapped⟩).imp ?_)
      intro envelope out ⟨same, wraps⟩
      exact wraps.read.trans (congrArg _ same)
    · exact (map_eq_of_forall₂ holds.encoded fun envelope row encodes => encodes.tag.symm).symm

variable [BuildProfile]

theorem ReadsBack.loads (reads : ReadsBack world stream appended) (derived : Derived world) {job : Job}
    (folds : foldRows (world.tables.streamRows stream) = some job) :
    EventStore.load world stream = .ok appended ∧ Job.fromEvents appended = .ok job := by
  have decoded : envelopesFromRows (world.tables.streamRows stream) = .ok appended := by
    have each := reads.rows
    rw [← List.forall₂_eq_eq_eq, List.forall₂_map_left_iff, List.forall₂_map_right_iff] at each
    exact envelopesFromRows_eq_ok.mpr each
  obtain ⟨envelopes, read, folded⟩ := foldRows_eq_some.mp folds
  rw [decoded] at read
  cases read
  refine ⟨?_, folded⟩
  have some : (world.tables.streamRows stream).isEmpty = false := by
    cases rows : world.tables.streamRows stream with
    | nil =>
      rw [rows] at folds
      cases folds
    | cons => rfl
  rw [load_alone (derived.versions stream), some, if_neg Bool.false_ne_true, decoded]

end Reading

variable [BuildProfile]

/-- What was appended to a stream is read back from the rows and from the outbox, under its own tags, and loads and
    folds to the job the last append returned, exactly where no event of it holds a `Some(null)`. -/
theorem appended_events_read_back {history : List (Record (World Value) Batch Job)} {world : World Value}
    (run : Run Writes .empty history world)
    (precise : ∀ record ∈ history, ∀ envelope ∈ record.label.envelopes,
      timestamptz envelope.recordedAt = envelope.recordedAt) (stream : JobId) :
    (ReadsBack world stream (appendedTo stream history) ∧
      ∀ job, lastJob stream history = some job →
        EventStore.load world stream = .ok (appendedTo stream history) ∧
          Job.fromEvents (appendedTo stream history) = .ok job) ↔
      ∀ envelope ∈ appendedTo stream history, envelope.event.NullFree := by
  have each : ∀ envelope ∈ appendedTo stream history, timestamptz envelope.recordedAt = envelope.recordedAt := by
    intro envelope member
    obtain ⟨record, listed, present⟩ := mem_appendedTo member
    exact precise record listed envelope present
  rw [← (Run.holds run stream).readsBack_iff each]
  refine and_iff_left_of_imp ?_
  intro reads job last
  exact reads.loads (Run.written run) (Run.lastJob run last)

def Batch.store (batch : Batch) (world : World Value) : Option (World Value × Job) :=
  match (appendInTx batch.stream batch.expectedVersion batch.envelopes).run Stmt.alone (world, .begin) with
  | (state, .ok job) => some (committed state, job)
  | _ => none

theorem Batch.store_writes {batch : Batch} {before after : World Value} {job : Job}
    (stored : batch.store before = some (after, job)) : Writes before batch job after := by
  unfold Batch.store at stored
  split at stored
  · rename_i state result ran
    cases stored
    exact ⟨.begin, state, rfl, ran, rfl⟩
  · cases stored

def repairedBatch (payload : Option Value) : Batch where
  stream := ⟨1⟩
  expectedVersion := 0
  envelopes := wrapEvents (Sample.ports 0 1) ⟨1⟩ 0 ⟨1⟩ none none
    [.enqueued Sample.queue (.string "first") ⟨0⟩ ⟨3, .fromSecs 1, .fromSecs 10⟩ none,
      .parked .nonRetryableError, .repaired payload "again"]

omit [BuildProfile] in
theorem mem_repairedBatch {payload : Option Value} {envelope : EventEnvelope}
    (member : envelope ∈ (repairedBatch payload).envelopes) (plain : payload ≠ some .null) :
    timestamptz envelope.recordedAt = envelope.recordedAt ∧ envelope.event.NullFree := by
  have precise : timestamptz (Sample.instant 0) = Sample.instant 0 := by decide
  simp only [repairedBatch, wrapEvents, List.mapIdx_cons, List.mapIdx_nil, List.mem_cons, List.not_mem_nil,
    or_false] at member
  rcases member with rfl | rfl | rfl
  · exact ⟨precise, trivial⟩
  · exact ⟨precise, trivial⟩
  · exact ⟨precise, plain⟩

omit [BuildProfile] in
theorem appended_events_read_back_repaired :
    let _ := BuildProfile.release
    ∃ (history : List (Record (World Value) Batch Job)) (world : World Value) (job : Job),
      Run Writes .empty history world ∧ history.map (·.label) = [repairedBatch (some (.bool true))] ∧
      lastJob ⟨1⟩ history = some job ∧ ReadsBack world ⟨1⟩ (appendedTo ⟨1⟩ history) ∧
      EventStore.load world ⟨1⟩ = .ok (appendedTo ⟨1⟩ history) ∧
      Job.fromEvents (appendedTo ⟨1⟩ history) = .ok job := by
  intro _
  have accepted : ((repairedBatch (some (.bool true))).store .empty).isSome = true := by decide +kernel
  obtain ⟨⟨world, job⟩, stored⟩ := Option.isSome_iff_exists.mp accepted
  have run := Run.step .refl (Batch.store_writes stored)
  have plain : (some (.bool true) : Option Value) ≠ some .null := by simp
  obtain ⟨reads, loads⟩ := (appended_events_read_back run
    (by simpa using fun envelope member => (mem_repairedBatch member plain).1) ⟨1⟩).mpr
    fun envelope member => (mem_repairedBatch member plain).2
  exact ⟨_, world, job, run, rfl, rfl, reads, loads job rfl⟩

def foldedPayload (envelopes : List EventEnvelope) : Option Value :=
  match Job.fromEvents envelopes with
  | .ok job => some job.payload
  | .err _ | .panic => none

def readBackText (batch : Batch) : Option String :=
  (batch.store .empty).bind fun stored =>
    match EventStore.load stored.1 ⟨1⟩ with
    | .ok loaded =>
      match foldedPayload loaded with
      | some (.string text) => some text
      | _ => none
    | .err _ | .panic => none

omit [BuildProfile] in
theorem null_payload_is_lost :
    let _ := BuildProfile.release
    ∃ (history : List (Record (World Value) Batch Job)) (world : World Value) (loaded : List EventEnvelope),
      Run Writes .empty history world ∧ history.map (·.label) = [repairedBatch (some .null)] ∧
      EventStore.load world ⟨1⟩ = .ok loaded ∧ foldedPayload loaded = some (.string "first") ∧
      foldedPayload (appendedTo ⟨1⟩ history) = some .null := by
  intro _
  have seen : readBackText (repairedBatch (some .null)) = some "first" := by decide +kernel
  rw [readBackText, Option.bind_eq_some_iff] at seen
  obtain ⟨⟨world, job⟩, stored, seen⟩ := seen
  split at seen
  · rename_i loaded loads
    split at seen
    · rename_i text folds
      cases seen
      exact ⟨_, world, loaded, .step .refl (Batch.store_writes stored), rfl, loads, folds, rfl⟩
    · cases seen
  · cases seen
  · cases seen

end Values

end Koine.Postgres
