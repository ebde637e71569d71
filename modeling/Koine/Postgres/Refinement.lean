import Koine.Memory.Refinement
import Koine.Postgres.Calls

namespace Koine.Postgres

open Library Domain Application Formal

/-! ### What is read back -/

theorem Stores.restored {stream : JobId} {envelope : EventEnvelope} {row : EventRow Value}
    (stores : Stores stream envelope row) :
    ∃ read, envelopeFromRow row = .ok read ∧ read.event = envelope.event.restored ∧ read.streamId = stream ∧
      read.version = envelope.version := by
  obtain ⟨payload, encoded, same⟩ := stores
  cases encoded
  have decoded : Serde.decodeEvent row.payload = .ok envelope.event.restored := by
    rw [same]
    exact envelope.event.deserialize_serialize
  have read : envelopeFromRow row = .ok ⟨row.eventId, row.streamId, row.version, row.recordedAt, row.correlationId,
      row.causationId, row.traceparent, row.schemaVersion, envelope.event.restored⟩ := by
    rw [envelopeFromRow, decoded]
    rfl
  refine ⟨_, read, rfl, ?_, ?_⟩
  · rw [same]
    rfl
  · rw [same]
    rfl

theorem envelopesFromRows_restored {stream : JobId} {batch : List EventEnvelope} {rows : List (EventRow Value)}
    (stores : List.Forall₂ (Stores stream) batch rows) :
    ∃ read, envelopesFromRows rows = .ok read ∧
      read.map (·.event) = (batch.map (·.event)).map JobEvent.restored := by
  induction stores with
  | nil => exact ⟨[], rfl, rfl⟩
  | cons stored rest ih =>
    obtain ⟨later, loaded, events⟩ := ih
    obtain ⟨first, here, event, _⟩ := stored.restored
    refine ⟨first :: later, ?_, ?_⟩
    · rw [envelopesFromRows, here, loaded]
      rfl
    · rw [List.map_cons, List.map_cons, List.map_cons, event, events]

theorem stores_filter {stream : JobId} {batch : List EventEnvelope} {rows : List (EventRow Value)}
    (stores : List.Forall₂ (Stores stream) batch rows) (id : JobId) :
    rows.filter (·.streamId = id) = if id = stream then rows else [] := by
  have named : ∀ row ∈ rows, row.streamId = stream := by
    intro row member
    obtain ⟨_, _, payload, _, same⟩ := exists_of_mem_right stores member
    rw [same]
    rfl
  split
  · rename_i same
    rw [List.filter_eq_self]
    intro row member
    simp [named row member, same]
  · rename_i different
    rw [List.filter_eq_nil_iff]
    intro row member
    simp [named row member, Ne.symm different]

theorem sequential_of_versions {envelopes : List EventEnvelope} {base : Nat}
    (versions : envelopes.map (·.version) = List.range' (base + 1) envelopes.length) :
    Job.Sequential base envelopes := by
  induction envelopes generalizing base with
  | nil => trivial
  | cons envelope rest ih =>
    rw [List.map_cons, List.length_cons, List.range'_succ, List.cons.injEq] at versions
    exact ⟨versions.1, ih versions.2⟩

variable [BuildProfile]

theorem Effect.restored {job next : Job} {events : List JobEvent} (effect : Job.Effect job events next) :
    Job.Effect job (events.map JobEvent.restored) next := by
  cases effect with
  | leased worker lease expiresAt state => exact .leased worker lease expiresAt state
  | started state => exact .started state
  | succeeded result state => exact .succeeded (withoutNull result) state
  | failedRetry error attempt notBefore state succ below => exact .failedRetry error attempt notBefore state succ below
  | failedParked error attempt reason state succ cause => exact .failedParked error attempt reason state succ cause
  | expiredRetry attempt notBefore held succ below => exact .expiredRetry attempt notBefore held succ below
  | expiredParked attempt held succ exhausted => exact .expiredParked attempt held succ exhausted
  | cancelled reason live => exact .cancelled reason live
  | lateAck worker lease reported => exact .lateAck worker lease reported

/-! ### What a step does to the log of one job -/

inductive Logged (id : JobId) (before after : Tables Value) : Prop where
  | still (same : after.streamRows id = before.streamRows id)
  | opened (ports : Ports) (cmd : EnqueueCommand) (rows : List (EventRow Value)) (named : ports.jobId = id)
      (fresh : before.streamRows id = []) (stored : List.Forall₂ (Stores id) (cmd.envelopes ports) rows)
      (grown : after.streamRows id = rows)
  | moved (stream batch : List EventEnvelope) (job next : Job) (rows : List (EventRow Value))
      (decoded : envelopesFromRows (before.streamRows id) = .ok stream) (folded : Job.fromEvents stream = .ok job)
      (effect : Job.Effect job (batch.map (·.event)) next) (stored : List.Forall₂ (Stores id) batch rows)
      (grown : after.streamRows id = before.streamRows id ++ rows)

theorem Run.logged {older : Past} {before after : Cluster Value} {label : Label} {result : Unit}
    (run : Run Cluster.Step .empty older before) (served : Served older)
    (taken : Cluster.Step before label result after) (id : JobId) :
    Logged id before.world.tables after.world.tables := by
  obtain ⟨_, _, _, updates⟩ := Run.updating (.step run taken)
  have update : Update ⟨before, label, result, after⟩ := updates _ List.mem_cons_self
  cases update with
  | none same => exact .still (streamRows_congr same id)
  | commit ticket verdict session stream batch rows label found some stored events founded =>
    simp only at label found events founded
    have grown : after.world.tables.streamRows id =
        before.world.tables.streamRows id ++ if id = stream then rows else [] := by
      rw [Tables.streamRows, events, List.filter_append, stores_filter stored]
      rfl
    by_cases here : id = stream
    · subst here
      rw [if_pos rfl] at grown
      rcases founded with called | planned
      · have issues := Run.backed run served ticket session found id _ batch called
        generalize length : (before.world.tables.streamRows id).length = expected at issues
        cases issues with
        | enqueue ports cmd valid =>
          have fresh := List.eq_nil_of_length_eq_zero length
          rw [fresh, List.nil_append] at grown
          exact .opened ports cmd rows rfl fresh stored grown
        | @call _ ports loaded reply commanded was command =>
          obtain ⟨seen, begins, decoded, folded⟩ := was
          have size : seen.length = loaded.stream.length := (envelopesFromRows_eq_ok.mp decoded).length_eq
          rw [Job.fromEvents_version folded] at length
          have whole : seen = before.world.tables.streamRows loaded.job.id := begins.eq_of_length (by omega)
          rw [whole] at decoded
          obtain ⟨next, effect⟩ := Call.command_effect command
          have carried : (loaded.envelopes ports commanded).map (·.event) = commanded := wrapEvents_events ..
          rw [← carried] at effect
          exact .moved _ _ _ next rows decoded folded effect stored grown
      · obtain ⟨stream, job, ports, decided, decoded, folded, decides, carried, _⟩ := Work.plan_decides planned
        have effect : ∃ next, Job.Effect job decided next := by
          generalize session.work = work at decides
          cases decides with
          | lease granted => exact Job.lease_effect granted
          | expire retired => exact Job.expireLease_effect retired
        obtain ⟨next, effect⟩ := effect
        rw [← carried] at effect
        exact .moved stream batch job next rows decoded folded effect stored grown
    · rw [if_neg here, List.append_nil] at grown
      exact .still grown

/-! ### The run and the lease protocol -/

def renewals (id : JobId) (history : Past) : Nat := history.countP fun record => (renewed id record).isSome

def Tables.view (tables : Tables Value) (id : JobId) (heartbeats : Nat) : Option View :=
  match envelopesFromRows (tables.streamRows id) with
  | .ok stream =>
    match Job.fromEvents stream with
    | .ok job => viewOf heartbeats (Memory.ledgerOf stream) job
    | _ => none
  | _ => none

def views (id : JobId) : Past → List View
  | [] => []
  | record :: older => (record.after.world.tables.view id (renewals id (record :: older))).toList ++ views id older

theorem fold_stored {old rows : List (EventRow Value)} {stream batch : List EventEnvelope} {job next : Job} {id : JobId}
    (decoded : envelopesFromRows old = .ok stream) (folded : Job.fromEvents stream = .ok job)
    (effect : Job.Effect job (batch.map (·.event)) next) (stored : List.Forall₂ (Stores id) batch rows)
    (dense : (old ++ rows).map (·.version) = List.range' 1 (old ++ rows).length) :
    ∃ read, envelopesFromRows (old ++ rows) = .ok (stream ++ read) ∧
      read.map (·.event) = (batch.map (·.event)).map JobEvent.restored ∧
      Job.fromEvents (stream ++ read) = .ok next := by
  obtain ⟨read, loaded, events⟩ := envelopesFromRows_restored stored
  have whole := envelopesFromRows_append decoded loaded
  refine ⟨read, whole, events, ?_⟩
  have sequential : Job.Sequential 0 (stream ++ read) := by
    apply sequential_of_versions
    rw [← decoded_map (fun row envelope here => (envelopeFromRow_ids here).2.2) whole, dense,
      (envelopesFromRows_eq_ok.mp whole).length_eq]
  have behind := (Job.sequential_append.mp sequential).2
  rw [Nat.zero_add, ← Job.fromEvents_version folded] at behind
  rw [Job.fromEvents_extend folded, Job.foldRest_eq_applyEvents behind, events]
  exact (Effect.restored effect).applies

theorem views_cons {id : JobId} {record : Record (Cluster Value) Label Unit} {older : Past}
    {stream : List EventEnvelope} {job : Job} {view : View}
    (decoded : envelopesFromRows (record.after.world.tables.streamRows id) = .ok stream)
    (folded : Job.fromEvents stream = .ok job)
    (shown : viewOf (renewals id (record :: older)) (Memory.ledgerOf stream) job = some view) :
    views id (record :: older) = view :: views id older := by
  simp only [views, Tables.view, decoded, folded, shown, Option.toList_some, List.singleton_append]

theorem Served.strict {history : Past} (served : Served history) : Strict history := by
  induction history with
  | nil => exact fun _ member => absurd member List.not_mem_nil
  | cons record older ih =>
    refine List.forall_mem_cons.mpr ⟨fun ticket work label => ?_, ih served.2⟩
    have issues := served.1 ticket work label
    cases work with
    | relay batch => rfl
    | operation operation =>
      cases operation with
      | append stream expected batch =>
        cases issues stream expected batch rfl with
        | enqueue ports cmd valid => rfl
        | @call call ports loaded reply events was command =>
          obtain ⟨next, effect⟩ := Call.command_effect command
          cases effect <;> rfl
      | _ => rfl

theorem Run.views_nil {history : Past} {cluster : Cluster Value} {id : JobId}
    (run : Run Cluster.Step .empty history cluster) (strict : Strict history)
    (empty : cluster.world.tables.streamRows id = []) : views id history = [] ∧ renewals id history = 0 := by
  induction run with
  | refl => exact ⟨rfl, rfl⟩
  | @step older before after label result run taken ih =>
    have earlier : before.world.tables.streamRows id = [] := by
      have grown := Run.streams_grow (.step .refl taken) id
      rw [empty] at grown
      exact List.prefix_nil.mp grown
    obtain ⟨seen, counted⟩ := ih (fun record member => strict record (List.mem_cons_of_mem _ member)) earlier
    have quiet : renewed id ⟨before, label, result, after⟩ = none := by
      cases beat : renewed id ⟨before, label, result, after⟩ with
      | none => rfl
      | some given =>
        obtain ⟨job, folds, _⟩ := (Run.renewal (.step run taken) strict List.mem_cons_self beat).held
        simp only [earlier] at folds
        cases folds
    refine ⟨?_, ?_⟩
    · simp only [views, seen, List.append_nil, Tables.view, empty]
      rfl
    · rw [renewals, List.countP_cons_of_neg (by simp [quiet])]
      exact counted

omit [BuildProfile] in
theorem ledgerOf_append (stream read : List EventEnvelope) :
    Memory.ledgerOf (stream ++ read) = (Memory.ledgerOf stream).recordAll (read.map (·.event)) := by
  simp only [Memory.ledgerOf, Ledger.recordAll, List.map_append, List.foldl_append]

theorem opened_stored {ports : Ports} {cmd : EnqueueCommand} {rows : List (EventRow Value)} {id : JobId}
    (stored : List.Forall₂ (Stores id) (cmd.envelopes ports) rows) :
    ∃ stream, envelopesFromRows rows = .ok stream ∧ Memory.ledgerOf stream = .empty ∧
      Job.fromEvents stream =
        .ok (Job.opened id cmd.queue cmd.payload cmd.priority cmd.retryPolicy cmd.notBefore) := by
  have single : cmd.envelopes ports = [_] := rfl
  rw [single, List.forall₂_cons_left_iff] at stored
  obtain ⟨row, rest, first, none, rfl⟩ := stored
  rw [List.forall₂_nil_left_iff.mp none]
  obtain ⟨read, here, event, named, version⟩ := first.restored
  have decoded : envelopesFromRows [row] = .ok [read] := by
    rw [envelopesFromRows, here]
    rfl
  refine ⟨[read], decoded, ?_, ?_⟩
  · change Ledger.empty.record read.event = .empty
    rw [event]
    rfl
  · cases read
    simp only at event named version
    subst event named version
    rfl

theorem Run.shadow {history : Past} {cluster : Cluster Value} {id : JobId} {stream : List EventEnvelope} {job : Job}
    {constants : Constants} (run : Run Cluster.Step .empty history cluster) (served : Served history)
    (decoded : envelopesFromRows (cluster.world.tables.streamRows id) = .ok stream)
    (folded : Job.fromEvents stream = .ok job) (suits : Suits constants job.retryPolicy)
    (beats : renewals id history ≤ constants.maxHeartbeats) :
    Shadow constants (renewals id history) (Memory.ledgerOf stream) job (views id history) := by
  induction run generalizing stream job with
  | refl =>
    cases decoded
    cases folded
  | @step older before after label result run taken ih =>
    have counted : renewals id (⟨before, label, result, after⟩ :: older) =
        renewals id older + if (renewed id ⟨before, label, result, after⟩).isSome then 1 else 0 := List.countP_cons ..
    -- each case ends with the new view in front of the older ones
    suffices next : ∃ view,
        viewOf (renewals id (⟨before, label, result, after⟩ :: older)) (Memory.ledgerOf stream) job = some view ∧
        Shadow constants (renewals id (⟨before, label, result, after⟩ :: older)) (Memory.ledgerOf stream) job
          (view :: views id older) by
      obtain ⟨view, shown, shadow⟩ := next
      rw [views_cons decoded folded shown]
      exact shadow
    cases beat : renewed id ⟨before, label, result, after⟩ with
    | some given =>
      have renewal := Run.renewal (.step run taken) served.strict List.mem_cons_self beat
      have same : after.world.tables.streamRows id = before.world.tables.streamRows id :=
        streamRows_congr renewal.log id
      obtain ⟨holder, folds, held⟩ := renewal.held
      rw [beat, Option.isSome_some, if_pos rfl] at counted
      rw [counted] at beats ⊢
      rw [same] at decoded
      have current := foldRows_eq_some.mpr ⟨stream, decoded, folded⟩
      simp only at folds
      rw [current] at folds
      cases folds
      exact (ih served.2 decoded folded suits (Nat.le_of_succ_le beats)).renewed suits.ttl beats held
    | none =>
      rw [beat, Option.isSome_none, if_neg Bool.false_ne_true, Nat.add_zero] at counted
      rw [counted] at beats ⊢
      cases Run.logged run served.2 taken id with
      | still same =>
        rw [same] at decoded
        exact (ih served.2 decoded folded suits beats).unmoved
      | opened ports cmd rows named fresh stored grown =>
        obtain ⟨seen, none⟩ := Run.views_nil run served.2.strict fresh
        obtain ⟨opened, read, ledger, opens⟩ := opened_stored stored
        rw [grown, read] at decoded
        cases decoded
        rw [opens] at folded
        cases folded
        rw [seen, none, ledger]
        exact Shadow.opened constants
      | moved old batch was next rows earlier folds effect stored grown =>
        have dense := Run.dense (.step run taken) id
        rw [grown] at decoded dense
        obtain ⟨read, whole, events, final⟩ := fold_stored earlier folds effect stored dense
        rw [whole] at decoded
        cases decoded
        rw [final] at folded
        cases folded
        rw [Memory.Effect.policy effect] at suits
        rw [ledgerOf_append, events]
        exact (ih served.2 earlier folds suits beats).effect suits (Effect.restored effect)

/-- However the statements of the connections interleave, the committed log of a job goes through changes that a
    run of the checked lease protocol goes through, as long as nothing appends but the use cases. -/
theorem logs_follow_lease_protocol {history : Past} {cluster : Cluster Value} {id : JobId} {job : Job}
    {constants : Constants} (run : Run Cluster.Step .empty history cluster) (served : Served history)
    (folded : foldRows (cluster.world.tables.streamRows id) = some job) (suits : Suits constants job.retryPolicy)
    (beats : renewals id history ≤ constants.maxHeartbeats) :
    ∃ path vars, Run (Vars.Step constants) .init path vars ∧
      SameChanges (views id history) (Run.seen Vars.view .init path) := by
  obtain ⟨stream, decoded, folded⟩ := foldRows_eq_some.mp folded
  obtain ⟨vars, ⟨path, _, _, follows, same⟩, _⟩ := Run.shadow run served decoded folded suits beats
  exact ⟨path, vars, follows, same⟩

theorem Served.of_labels {history : Past} {labels : List Label} (same : history.map (·.label) = labels)
    (issued : ∀ label ∈ labels, ∀ ticket work, label = .start ticket work → work.Issues fun _ => False) :
    Served history := by
  induction history generalizing labels with
  | nil => trivial
  | cons record older ih =>
    subst same
    rw [List.map_cons, List.forall_mem_cons] at issued
    refine ⟨fun ticket work label => ?_, ih rfl issued.2⟩
    exact (issued.1 ticket work label).mono fun _ none => none.elim

def expiredLabels : List Label :=
  Label.advances 4 12 ++ [.start 4 (.operation (.retireNextExpiredLease (Sample.ports 40 5)))] ++
    Label.advances 3 3 ++ [.start 3 (.operation (.extendLease (Sample.ports 2 4) ⟨2⟩ (.fromSecs 20)))] ++
    Label.advances 1 8 ++ Label.advances 2 1 ++
    [.start 2 (.operation (.leaseNext (Sample.ports 1 3) Sample.queue Sample.worker (.fromSecs 10)))] ++
    Label.advances 1 1 ++
    [.start 1 (.operation (.leaseNext (Sample.ports 1 2) Sample.queue Sample.worker (.fromSecs 10)))] ++
    Label.advances 0 8 ++
    [.start 0 (.operation (.append ⟨1⟩ 0 (Sample.command.envelopes (Sample.ports 0 1))))]

omit [BuildProfile] in
theorem logs_follow_lease_protocol_expired :
    let _ := BuildProfile.release
    ∃ (history : Past) (cluster : Cluster Value), Run Cluster.Step .empty history cluster ∧
      history.map (·.label) = expiredLabels ∧ renewals ⟨1⟩ history = 1 ∧
      ((views ⟨1⟩ history).map (·.state)).destutter (· ≠ ·) = [.pending, .leased, .pending] ∧
      ∃ path vars, Run (Vars.Step Formal.checked) .init path vars ∧
        SameChanges (views ⟨1⟩ history) (Run.seen Vars.view .init path) := by
  intro _
  have seen : (Label.attempt expiredLabels : Option (Past × Cluster Value)).map (fun ran =>
      (renewals ⟨1⟩ ran.1, ((views ⟨1⟩ ran.1).map (·.state)).destutter (· ≠ ·),
        (foldRows (ran.2.world.tables.streamRows ⟨1⟩)).map (·.retryPolicy.maxAttempts.toNat))) =
      some (1, [.pending, .leased, .pending], some Formal.checked.maxAttempts) := by decide +kernel
  rw [Option.map_eq_some_iff] at seen
  obtain ⟨⟨history, cluster⟩, ran, seen⟩ := seen
  rw [Prod.mk.injEq, Prod.mk.injEq, Option.map_eq_some_iff] at seen
  obtain ⟨beats, states, job, folded, attempts⟩ := seen
  obtain ⟨run, labels⟩ := Label.of_attempt ran
  refine ⟨history, cluster, run, labels, beats, states, ?_⟩
  have served : Served history := by
    refine Served.of_labels labels ?_
    rintro label member ticket work rfl stream expected batch rfl
    simp only [expiredLabels, Label.advances, List.mem_append, List.mem_replicate, List.mem_singleton, reduceCtorEq,
      and_false, false_or, or_false, Label.start.injEq, Work.operation.injEq, Operation.append.injEq] at member
    obtain ⟨rfl, rfl, rfl, rfl⟩ := member
    exact .enqueue (Sample.ports 0 1) Sample.command rfl
  exact logs_follow_lease_protocol run served folded
    ⟨attempts.symm, by decide, by decide, by decide⟩ (by rw [beats]; decide)

end Koine.Postgres
