import Koine.Postgres.Calls

namespace Koine.Postgres

open Library Domain Application

variable {J : Type} [Serde J] [BuildProfile]

/-! ### What a connection has committed when it answers -/

def Aim.Unsettled (aim : Aim) : Prop := ∀ job batch, aim ≠ .settled job batch

omit [Serde J] [BuildProfile] in
theorem ended_unsettled : Aim.ended.Unsettled := nofun

section Appends

variable {work : Work} {id : JobId} {batch : List EventEnvelope}

def Inserts (id : JobId) (batch : List EventEnvelope) {ε α : Type} (aim : Aim) (result : Outcome ε α) : Prop :=
  aim.Unsettled ∧ ∀ value, result = .ok value → aim = .planned id batch batch.length

omit [BuildProfile] in
theorem Inserts.planned {ε α : Type} {stored : Nat} (failure : Outcome ε α) (failed : ∀ value, failure ≠ .ok value) :
    Inserts id batch (.planned id batch stored) failure :=
  ⟨nofun, fun value same => absurd same (failed value)⟩

omit [BuildProfile] in
theorem Inserts.failed {ε α : Type} {stored : Nat} (error : ε) :
    Inserts id batch (.planned id batch stored) (.err error : Outcome ε α) := .planned _ nofun

omit [BuildProfile] in
theorem Inserts.all {ε α : Type} (result : Outcome ε α) : Inserts id batch (.planned id batch batch.length) result :=
  ⟨nofun, fun _ _ => rfl⟩

theorem insertEnvelopes_ends (expected : Nat) {before rest : List EventEnvelope} (split : batch = before ++ rest) :
    (insertEnvelopes id expected rest : Tx J EventStoreError Unit).Ends (Aim.after work) (Inserts id batch)
      (.planned id batch before.length) := by
  induction rest generalizing before with
  | nil =>
    rw [List.append_nil] at split
    subst split
    exact .all _
  | cons envelope rest ih =>
    unfold insertEnvelopes
    refine .of_done Inserts.planned fun payload _ => ?_
    split
    · exact .failed _
    · split
      · exact .failed _
      · refine Program.ends_issue.mpr fun outcome => ?_
        cases outcome with
        | violates constraint => cases constraint <;> exact ⟨ended_unsettled, by rintro _ ⟨⟩⟩
        | inserted =>
          refine Program.Ends.of_done Inserts.planned fun json _ => ?_
          refine Program.ends_issue.mpr fun _ => ?_
          have more := @ih (before ++ [envelope]) (by rw [split, List.append_assoc]; rfl)
          rw [List.length_append] at more
          exact more

theorem projectInTx_ends (job : Job) :
    (projectInTx job : Tx J EventStoreError Unit).Ends (Aim.after work) (Inserts id batch)
      (.planned id batch batch.length) := by
  unfold projectInTx
  cases job.state with
  | pending notBefore => exact fun _ _ => .all _
  | _ => exact fun _ => .all _

theorem appendInTx_ends (expected : Nat) :
    (appendInTx id expected batch : Tx J EventStoreError Job).Ends (Aim.after work) (Inserts id batch)
      (.planned id batch 0) := by
  unfold appendInTx
  refine Program.ends_issue.mpr fun newest => ?_
  simp only
  split
  · exact .failed _
  · split
    · refine .bind ((insertEnvelopes_ends expected (List.nil_append batch).symm).mono ?_)
      intro aim result inserts
      refine ⟨fun _ ok => ?_, fun _ failure failed => ⟨inserts.1, fun value same => absurd same (failed value)⟩⟩
      rw [inserts.2 _ ok]
      refine .bind (Program.ends_issue.mpr fun rows => ⟨fun stream _ => ?_, fun _ => Inserts.planned⟩)
      refine .of_done Inserts.planned fun job _ => ?_
      refine .bind ((projectInTx_ends job).mono fun aim result inserts => ?_)
      refine ⟨fun _ ok => ?_, fun _ failure failed => ⟨inserts.1, fun value same => absurd same (failed value)⟩⟩
      rw [inserts.2 _ ok]
      exact .all _
    · exact .failed _

end Appends

theorem append_ends (stream : JobId) (expected : Nat) (batch : List EventEnvelope) :
    (append stream expected batch : Tx J EventStoreError Unit).Ends
      (Aim.after (.operation (.append stream expected batch)))
      (fun aim result => (∀ value, result = .ok value → aim = .settled stream batch) ∧
        ((∀ value, result ≠ .ok value) → aim.Unsettled)) (.planned stream batch 0) := by
  unfold append
  refine .bind ((appendInTx_ends expected).mono ?_)
  refine fun aim result inserts => ⟨fun job ok => ?_, fun _ failure failed => ?_⟩
  · rw [inserts.2 _ ok]
    exact fun _ => ⟨fun _ _ => rfl, fun failed => absurd rfl (failed ())⟩
  · exact ⟨fun value same => absurd same (failed value), fun _ => inserts.1⟩

theorem picked_unsettled (work : Work) (id stream : JobId) (rows : List (EventRow J)) :
    (Aim.after work (.picked id) (.loadStream stream : Stmt J) rows).Unsettled := by
  intro job batch same
  simp only [Aim.after] at same
  split at same <;> cases same

def Grants (ports : Ports) (worker : WorkerId) (aim : Aim) (result : Outcome DispatchError (Option LeasedJob)) :
    Prop :=
  (∀ job, result = .ok (some job) → job.lease = ports.leaseId ∧ ∃ envelope,
      aim = .settled job.jobId [envelope] ∧ envelope.event = .leased worker ports.leaseId job.expiresAt) ∧
    ((∀ job, result ≠ .ok (some job)) → aim.Unsettled)

omit [Serde J] [BuildProfile] in
theorem Grants.failed {ports : Ports} {worker : WorkerId} {aim : Aim} (unsettled : aim.Unsettled)
    (failure : Outcome DispatchError (Option LeasedJob)) (none : ∀ value, failure ≠ .ok value) :
    Grants ports worker aim failure :=
  ⟨fun _ same => absurd same (none _), fun _ => unsettled⟩

theorem claim_ends (ports : Ports) (queue : QueueName) (worker : WorkerId) (ttl : Duration) :
    (claim ports queue worker ttl : Tx J DispatchError _).Ends
      (Aim.after (.operation (.leaseNext ports queue worker ttl))) (Grants ports worker) .fresh := by
  unfold claim
  refine Program.ends_issue.mpr fun picked => ?_
  cases picked with
  | none =>
    refine ⟨fun job same => ?_, fun _ => ended_unsettled⟩
    cases same
  | some id =>
    refine .bind (.mapErr (Program.ends_issue.mpr fun rows => ?_))
    have loaded := picked_unsettled (.operation (.leaseNext ports queue worker ttl)) id id rows
    refine ⟨fun stream decoded => ?_, fun _ => Grants.failed loaded⟩
    refine .of_done (Grants.failed loaded) fun job folded => ?_
    refine .of_done (Grants.failed loaded) fun event granted => ?_
    simp only [foldStream, Outcome.mapErr_eq_ok] at decoded folded granted
    simp only
    split
    · rename_i first
      refine .bind (.mapErr ?_)
      simp only [Aim.after, Work.plan, decoded, folded, granted]
      refine (appendInTx_ends _).mono fun aim result inserts => ⟨fun final ok => ?_, fun _ => Grants.failed inserts.1⟩
      rw [Outcome.mapErr_eq_ok] at ok
      rw [inserts.2 _ ok]
      refine Program.ends_issue.mpr fun _ => ⟨?_, fun none => absurd rfl (none _)⟩
      rintro _ ⟨⟩
      obtain ⟨_, _, expiresAt, _, _, _, _, rfl⟩ := Job.lease_ok granted
      cases first
      exact ⟨rfl, _, rfl, rfl⟩
    · exact Grants.failed loaded _ (by intro value same; cases same)

/-- The expiry of a lease, and the retry or the parking that is decided for the job at the time. -/
def Expiry (ports : Ports) (first second : EventEnvelope) : Prop :=
  ∃ (job : Job) (lease : LeaseId) (attempt : UInt32), job.state.held = some lease ∧
    u32Succ job.attempt = some attempt ∧ first.event = .leaseExpired lease ∧
    job.retryDecisionEvent attempt ports.now ports.jitterSeed = .ok second.event

def Retires (ports : Ports) (aim : Aim) (result : Outcome DispatchError (Option JobId)) : Prop :=
  (∀ id, result = .ok (some id) → ∃ first second, aim = .settled id [first, second] ∧ Expiry ports first second) ∧
    ((∀ id, result ≠ .ok (some id)) → aim.Unsettled)

omit [Serde J] in
theorem Retires.failed {ports : Ports} {aim : Aim} (unsettled : aim.Unsettled)
    (failure : Outcome DispatchError (Option JobId)) (none : ∀ value, failure ≠ .ok value) :
    Retires ports aim failure :=
  ⟨fun _ same => absurd same (none _), fun _ => unsettled⟩

theorem retireOne_ends (ports : Ports) :
    (retireOne ports : Tx J DispatchError _).Ends (Aim.after (.operation (.retireNextExpiredLease ports)))
      (Retires ports) .fresh := by
  unfold retireOne
  refine Program.ends_issue.mpr fun picked => ?_
  cases picked with
  | none =>
    refine Program.ends_issue.mpr fun _ => ⟨fun job same => ?_, fun _ => ended_unsettled⟩
    cases same
  | some id =>
    refine .bind (.mapErr (Program.ends_issue.mpr fun rows => ?_))
    have loaded := picked_unsettled (.operation (.retireNextExpiredLease ports)) id id rows
    refine ⟨fun stream decoded => ?_, fun _ => Retires.failed loaded⟩
    refine .of_done (Retires.failed loaded) fun job folded => ?_
    refine .of_done (Retires.failed loaded) fun events retired => ?_
    simp only [Outcome.mapErr_eq_ok] at decoded folded retired
    refine .bind (.mapErr ?_)
    simp only [Aim.after, Work.plan, decoded, folded, retired]
    refine (appendInTx_ends _).mono fun aim result inserts => ⟨fun final ok => ?_, fun _ => Retires.failed inserts.1⟩
    rw [Outcome.mapErr_eq_ok] at ok
    rw [inserts.2 _ ok]
    refine Program.ends_issue.mpr fun _ => ⟨?_, fun none => absurd rfl (none _)⟩
    rintro _ ⟨⟩
    obtain ⟨lease, attempt, decision, held, next, decided, rfl⟩ := Job.expireLease_ok retired
    exact ⟨_, _, rfl, job, lease, attempt, held, next, rfl, decided⟩

theorem extendLease_ends (ports : Ports) (lease : LeaseId) (ttl : Duration) :
    (extendLease ports lease ttl : Tx J DispatchError Bool).Ends
      (Aim.after (.operation (.extendLease ports lease ttl))) (fun aim _ => aim.Unsettled) .fresh := by
  unfold extendLease
  split
  · exact fun _ _ => Aim.noConfusion
  · refine .of_done (fun _ _ _ _ => Aim.noConfusion) fun deadline _ => ?_
    exact fun _ _ _ _ => Aim.noConfusion

theorem load_ends (stream : JobId) : (load stream : Tx J EventStoreError _).Ends
    (Aim.after (.operation (.load stream))) (fun aim _ => aim.Unsettled) .fresh := by
  unfold load
  refine Program.ends_issue.mpr fun rows => ?_
  split
  · exact ended_unsettled
  · exact ended_unsettled

def Work.tells (work : Work) (aim : Aim) (answer : Answer) : Prop :=
  match work, answer with
  | .operation (.append stream _ batch), .appended (.ok _) => aim = .settled stream batch
  | .operation (.leaseNext ports _ worker _), .leased (.ok (some job)) => job.lease = ports.leaseId ∧ ∃ envelope,
    aim = .settled job.jobId [envelope] ∧ envelope.event = .leased worker ports.leaseId job.expiresAt
  | .operation (.retireNextExpiredLease ports), .retired (.ok (some id)) => ∃ first second,
    aim = .settled id [first, second] ∧ Expiry ports first second
  | _, _ => aim.Unsettled

theorem Work.answering_ends (work : Work) : (work.answering : Tx J Unit _).Ends (Aim.after work)
    (fun aim result => ∀ answer, result = .ok (some answer) → work.tells aim answer) work.aim := by
  cases work with
  | relay batch =>
    refine ((Program.ends_any (fun _ _ => trivial) (relayOnce batch) _).capture _).mono ?_
    rintro aim _ ⟨result, rfl, _⟩ _ ⟨⟩
  | operation operation =>
    cases operation with
    | append stream expected batch =>
      refine ((append_ends stream expected batch).capture _).mono ?_
      rintro aim _ ⟨result, rfl, committed, unsettled⟩ _ ⟨⟩
      cases result with
      | ok value => exact committed value rfl
      | err error | panic => exact unsettled (by rintro _ ⟨⟩)
    | load stream =>
      refine ((load_ends stream).capture _).mono ?_
      rintro aim _ ⟨result, rfl, unsettled⟩ _ ⟨⟩
      exact unsettled
    | leaseNext ports queue worker ttl =>
      refine ((claim_ends ports queue worker ttl).capture _).mono ?_
      rintro aim _ ⟨result, rfl, granted, unsettled⟩ _ ⟨⟩
      cases result with
      | err error | panic => exact unsettled (by rintro _ ⟨⟩)
      | ok claimed =>
        cases claimed with
        | none => exact unsettled (by rintro _ ⟨⟩)
        | some job => exact granted job rfl
    | extendLease ports lease ttl =>
      refine ((extendLease_ends ports lease ttl).capture _).mono ?_
      rintro aim _ ⟨result, rfl, unsettled⟩ _ ⟨⟩
      exact unsettled
    | retireNextExpiredLease ports =>
      refine ((retireOne_ends ports).capture _).mono ?_
      rintro aim _ ⟨result, rfl, retired, unsettled⟩ _ ⟨⟩
      cases result with
      | err error | panic => exact unsettled (by rintro _ ⟨⟩)
      | ok picked =>
        cases picked with
        | none => exact unsettled (by rintro _ ⟨⟩)
        | some id => exact retired id rfl

theorem ends_plan {program : Tx J Unit (Option Answer)} {work : Work} {aim : Aim}
    {post : Aim → Outcome Unit (Option Answer) → Prop} (ends : program.Ends (Aim.after work) post aim)
    (phase : Phase J) :
    program.Ends Plan.after (fun plan result => plan.work = work ∧ post plan.aim result) ⟨phase, work, aim⟩ := by
  induction program generalizing phase aim with
  | done result => exact ⟨rfl, ends⟩
  | call statement next ih => exact fun reply => ih reply (ends reply) _

def Plan.tells (plan : Plan J) (answer : Option Answer) : Prop :=
  plan.answers answer ∧ ∀ given, answer = some given → plan.work.tells plan.aim given

theorem Work.answering_tells (work : Work) :
    (work.answering : Tx J Unit _).Obeys Plan.allows Plan.after Plan.tells work.first := by
  refine work.answering_allows.and_ends ((ends_plan work.answering_ends work.phase).mono ?_)
  rintro plan _ ⟨same, tells⟩ answer rfl given rfl
  rw [same]
  exact tells given rfl

/-! ### What it has committed on the way -/

section Turns

omit [Serde J] [BuildProfile]

/-- The steps of the connection that has the ticket now, newest first. -/
def turn : List (Record (Cluster J) Label Unit) → Nat → List (Record (Cluster J) Label Unit)
  | [], _ => []
  | record :: older, ticket =>
    if record.label.ticket = ticket then
      match record.label with
      | .start .. => [record]
      | _ => record :: turn older ticket
    else turn older ticket

def added (record : Record (Cluster J) Label Unit) : List (EventRow J) :=
  record.after.world.tables.events.drop record.before.world.tables.events.length

def gained (steps : List (Record (Cluster J) Label Unit)) : List (EventRow J) := steps.flatMap added

theorem added_eq {record : Record (Cluster J) Label Unit} {rows : List (EventRow J)}
    (events : record.after.world.tables.events = record.before.world.tables.events ++ rows) : added record = rows := by
  rw [added, events, List.drop_left]

theorem turn_other {record : Record (Cluster J) Label Unit} {ticket : Nat} (other : record.label.ticket ≠ ticket)
    (older : List (Record (Cluster J) Label Unit)) : turn (record :: older) ticket = turn older ticket := if_neg other

end Turns

theorem Aim.after_settled {work : Work} {aim : Aim} {statement : Stmt J} {reply : statement.Reply} {job : JobId}
    {batch : List EventEnvelope} (settled : aim.after work statement reply = .settled job batch) :
    statement = .commit ∧ ∃ stored, aim = .planned job batch stored := by
  unfold Aim.after at settled
  split at settled
  case h_7 =>
    cases settled
    exact ⟨rfl, _, rfl⟩
  all_goals first | cases settled | (split at settled <;> cases settled)

/-- The batch is the caller's, or what a dispatcher plans for a stream it has loaded. -/
def Work.Intends (J : Type) [Serde J] (work : Work) (job : JobId) (batch : List EventEnvelope) : Prop :=
  (∃ expected, work = .operation (.append job expected batch)) ∨
    ∃ seen : List (EventRow J), work.plan job seen = some batch

/-- The log has grown by the batch that a connection has settled, and by nothing else of its. -/
def Gained (steps : List (Record (Cluster J) Label Unit)) (work : Work) : Aim → Prop
  | .settled job batch => work.Intends J job batch ∧ List.Forall₂ (Stores job) batch (gained steps)
  | _ => gained steps = []

theorem Gained.unsettled {steps : List (Record (Cluster J) Label Unit)} {work : Work} {aim : Aim}
    (kept : Gained steps work aim) (unsettled : aim.Unsettled) : gained steps = [] := by
  cases aim with
  | settled job batch => exact absurd rfl (unsettled job batch)
  | _ => exact kept

theorem Gained.of_unsettled {steps : List (Record (Cluster J) Label Unit)} {work : Work} {aim : Aim}
    (nothing : gained steps = []) (unsettled : aim.Unsettled) : Gained steps work aim := by
  cases aim with
  | settled job batch => exact absurd rfl (unsettled job batch)
  | _ => exact nothing

omit [BuildProfile] in
theorem Plan.allows.unsettled {plan : Plan J} {statement : Stmt J} (allowed : plan.allows statement) :
    plan.aim.Unsettled := by
  intro job batch same
  have aimed := allowed.1.2
  rw [same] at aimed
  cases statement <;> exact aimed.elim

section Cluster

variable {cluster : Cluster J} {plans : Nat → Plan J} {ticket : Nat} {session : Session J}

theorem Gained.advance {steps : List (Record (Cluster J) Label Unit)} (updating : Updating cluster plans)
    (found : cluster.sessions.lookup ticket = some session) (verdict : Verdict) (statement : Stmt J)
    (allowed : (plans ticket).allows statement) (before : Gained steps (plans ticket).work (plans ticket).aim)
    (program : Tx J Unit Unit) :
    let ran := statement.exec (cluster.others ticket) verdict cluster.world session.tx
    Gained (⟨cluster, .advance ticket verdict, (), cluster.resume ticket ran.1.1 ⟨session.work, program, ran.1.2⟩⟩ ::
      steps) (plans ticket).work ((plans ticket).after statement ran.2).aim := by
  intro ran
  have nothing := before.unsettled allowed.unsettled
  by_cases commit : statement = .commit
  · subst commit
    have rows : gained (⟨cluster, .advance ticket verdict, (), cluster.resume ticket ran.1.1
        ⟨session.work, program, ran.1.2⟩⟩ :: steps) = session.tx.rows := by
      rw [gained, List.flatMap_cons, ← gained, nothing, List.append_nil]
      exact added_eq (Transaction.view_events session.tx cluster.world.tables)
    obtain ⟨⟨kept, aimed⟩, _⟩ := allowed
    have footprint := updating.guarded.footprints ticket session found
    have basis := updating.basis ticket session found
    generalize plans ticket = plan at kept aimed footprint basis ⊢
    obtain ⟨phase, work, aim⟩ := plan
    cases aim with
    | beat count => exact rows.trans footprint.1
    | ended =>
      rcases basis with empty | rfl
      · exact rows.trans empty
      · exact kept.elim
    | planned job batch stored =>
      have all : stored = batch.length := aimed
      obtain ⟨founded, stores⟩ := basis
      rw [all, List.take_length, ← rows] at stores
      exact ⟨founded.imp (fun ⟨expected, same, _⟩ => ⟨expected, same⟩) (fun ⟨seen, _, same⟩ => ⟨seen, same⟩), stores⟩
    | _ => exact aimed.elim
  · have same : ran.1.1.tables = cluster.world.tables := exec_tables statement commit
    refine .of_unsettled ?_ ?_
    · rw [gained, List.flatMap_cons, ← gained, nothing, List.append_nil]
      refine added_eq ?_
      rw [List.append_nil]
      exact congrArg Tables.events same
    · intro job batch settled
      exact commit (Aim.after_settled settled).1

def Renews (steps : List (Record (Cluster J) Label Unit)) (ports : Ports) (lease : LeaseId) (ttl : Duration) : Prop :=
  ∃ record ∈ steps, ∃ id, renewed id record = some (ports, lease, ttl)

def Counts (steps : List (Record (Cluster J) Label Unit)) (tx : Transaction J) (plan : Plan J) : Prop :=
  ∀ ports lease ttl, plan.work = .operation (.extendLease ports lease ttl) →
    match plan.aim with
    | .fresh => ¬ Renews steps ports lease ttl
    | .beat rows => ¬ Renews steps ports lease ttl ∧ (0 < rows ↔ ∃ id, (tx.moved id).isSome = true)
    | .beaten rows => 0 < rows ↔ Renews steps ports lease ttl
    | _ => False

omit [Serde J] [BuildProfile] in
theorem renewed_open {record : Record (Cluster J) Label Unit} {verdict : Verdict} {work : Work} {statement : Stmt J}
    {rest : statement.Reply → Tx J Unit Unit} {tx : Transaction J} (label : record.label = .advance ticket verdict)
    (found : record.before.sessions.lookup ticket = some ⟨work, .call statement rest, tx⟩)
    (ongoing : statement ≠ .commit) (id : JobId) : renewed id record = none := by
  cases beat : renewed id record with
  | none => rfl
  | some given =>
    obtain ⟨other, _, _, _, _, same, held, _⟩ := renewed_eq_some beat
    rw [label] at same
    cases same
    rw [found] at held
    cases held
    exact absurd rfl ongoing

omit [Serde J] [BuildProfile] in
theorem renewed_commit {record : Record (Cluster J) Label Unit} {verdict : Verdict} {ports : Ports} {lease : LeaseId}
    {ttl : Duration} {rest : Unit → Tx J Unit Unit} {tx : Transaction J}
    (label : record.label = .advance ticket verdict)
    (found : record.before.sessions.lookup ticket =
      some ⟨.operation (.extendLease ports lease ttl), .call .commit rest, tx⟩) (id : JobId) :
    renewed id record = some (ports, lease, ttl) ↔ (tx.moved id).isSome = true := by
  simp only [renewed, label, found]
  split_ifs with moved <;> simp [moved]

theorem Counts.advance {steps : List (Record (Cluster J) Label Unit)} {work : Work} {statement : Stmt J}
    {rest : statement.Reply → Tx J Unit Unit} {tx : Transaction J} (updating : Updating cluster plans)
    (found : cluster.sessions.lookup ticket = some ⟨work, .call statement rest, tx⟩) (verdict : Verdict)
    (allowed : (plans ticket).allows statement) (counts : Counts steps tx (plans ticket)) (after : Cluster J) :
    let ran := statement.exec (cluster.others ticket) verdict cluster.world tx
    Counts (⟨cluster, .advance ticket verdict, (), after⟩ :: steps) ran.1.2
      ((plans ticket).after statement ran.2) := by
  intro ran ports lease ttl beats
  have same := updating.guarded.works ticket _ found
  have footprint := updating.guarded.footprints ticket _ found
  have before := counts ports lease ttl beats
  obtain ⟨⟨_, aimed⟩, _⟩ := allowed
  have still (ongoing : statement ≠ .commit) (unmoved : ¬ Renews steps ports lease ttl) :
      ¬ Renews (⟨cluster, .advance ticket verdict, (), after⟩ :: steps) ports lease ttl := by
    rintro ⟨record, member, id, beat⟩
    rcases List.mem_cons.mp member with rfl | earlier
    · rw [renewed_open rfl found ongoing id] at beat
      cases beat
    · exact unmoved ⟨record, earlier, id, beat⟩
  generalize plans ticket = plan at aimed footprint before beats same ⊢
  obtain ⟨phase, planned, aim⟩ := plan
  simp only [Plan.after] at beats same before ⊢
  subst beats
  cases aim with
  | fresh =>
    cases statement with
    | updateDeadline deadline target now =>
      refine ⟨still (by rintro ⟨⟩) before, ?_⟩
      obtain ⟨rfl, _⟩ := footprint
      have writes : ran.1.2.writes = (cluster.world.tables.dispatch.entries.filter fun entry =>
          entry.2.alive target (timestamptz now)).map fun entry =>
            Write.put entry.1 { entry.2 with leaseExpiresAt := some (timestamptz deadline) } := rfl
      constructor
      · intro some
        obtain ⟨entry, listed⟩ : ∃ entry, entry ∈ cluster.world.tables.dispatch.entries.filter fun entry =>
          entry.2.alive target (timestamptz now) := List.exists_mem_of_length_pos some
        have written := List.mem_map_of_mem (f := fun entry : (_ : JobId) × DispatchRow =>
          (Write.put entry.1 { entry.2 with leaseExpiresAt := Option.some (timestamptz deadline) } : Write J)) listed
        rw [← writes] at written
        exact ⟨entry.1, Transaction.moved_of_mem written⟩
      · rintro ⟨id, moved⟩
        obtain ⟨row, moved⟩ := Option.isSome_iff_exists.mp moved
        obtain ⟨entry, listed, _⟩ := Transaction.moved_of_puts
          (fun old => { old with leaseExpiresAt := Option.some (timestamptz deadline) }) writes moved
        exact List.length_pos_of_mem listed
    | selectEligible queue now =>
      obtain ⟨_, _, _, impossible, _⟩ := aimed
      cases impossible
    | selectExpired now =>
      obtain ⟨_, impossible, _⟩ := aimed
      cases impossible
    | loadStream | selectOutbox => cases aimed
    | _ => exact aimed.elim
  | beat rows =>
    cases statement with
    | commit =>
      subst same
      show 0 < rows ↔ _
      rw [before.2]
      constructor
      · rintro ⟨id, moved⟩
        exact ⟨_, List.mem_cons_self, id, (renewed_commit rfl found id).mpr moved⟩
      · rintro ⟨record, member, id, beat⟩
        rcases List.mem_cons.mp member with rfl | earlier
        · exact ⟨id, (renewed_commit rfl found id).mp beat⟩
        · exact absurd ⟨record, earlier, id, beat⟩ before.1
    | _ => exact aimed.elim
  | beaten => cases statement <;> exact aimed.elim
  | _ => exact before.elim

end Cluster

omit [Serde J] [BuildProfile] in
theorem Work.aim_unsettled (work : Work) : work.aim.Unsettled := by
  unfold Work.aim
  split <;> nofun

theorem Run.turns {history : List (Record (Cluster J) Label Unit)} {cluster : Cluster J}
    (run : Run Cluster.Step .empty history cluster) :
    ∃ plans, Following Plan.allows Plan.after Plan.tells history cluster plans ∧ Updating cluster plans ∧
      ∀ ticket session, cluster.sessions.lookup ticket = some session →
        Gained (turn history ticket) (plans ticket).work (plans ticket).aim ∧
          Counts (turn history ticket) session.tx (plans ticket) := by
  refine Run.following Work.first (fun _ => True)
    (fun history cluster plans => Updating cluster plans ∧
      ∀ ticket session, cluster.sessions.lookup ticket = some session →
        Gained (turn history ticket) (plans ticket).work (plans ticket).aim ∧
          Counts (turn history ticket) session.tx (plans ticket))
    ?_ (fun _ => rfl) (fun _ => (Work.relay 0).first) ⟨Updating.empty _, ?_⟩ ?_ ?_ ?_ run fun _ _ => trivial
  · exact fun _ _ _ work _ => work.answering_tells
  · intro ticket session found
    cases found
  · rintro history cluster plans ticket work ⟨updating, kept⟩ _ _ _
    refine ⟨updating.start ticket work, fun other session present => ?_⟩
    rcases lookup_resume present with ⟨rfl, rfl⟩ | ⟨different, before⟩
    · rw [Function.update_self]
      let record : Record (Cluster J) Label Unit :=
        ⟨cluster, .start other work, (), cluster.resume other cluster.world ⟨work, work.program, .begin⟩⟩
      have here : turn (record :: history) other = [record] := if_pos rfl
      have nothing : gained [record] = [] := by
        rw [gained, List.flatMap_singleton]
        exact added_eq (List.append_nil _).symm
      rw [here]
      refine ⟨.of_unsettled nothing work.aim_unsettled, fun ports lease ttl beats => ?_⟩
      have fresh : (work.first : Plan J).aim = .fresh := by
        rw [Work.first, show work = _ from beats]
        rfl
      rw [fresh]
      rintro ⟨record, member, id, beat⟩
      cases List.mem_singleton.mp member
      cases beat
    · rw [Function.update_of_ne different, turn_other (Ne.symm different)]
      exact kept other session before
  · rintro history cluster plans ticket label ⟨updating, kept⟩ closes
    refine ⟨updating.close ticket, fun other session present => ?_⟩
    obtain ⟨different, before⟩ := lookup_close present
    have step : label.ticket = ticket := by
      rcases closes with rfl | ⟨verdict, rfl⟩ <;> rfl
    rw [turn_other (step.trans_ne (Ne.symm different))]
    exact kept other session before
  · rintro history cluster plans ticket verdict work statement rest tx ⟨updating, kept⟩ found allowed ready
    intro ran after _
    refine ⟨updating.advance found verdict statement allowed ready _, fun other session present => ?_⟩
    rcases lookup_resume present with ⟨rfl, rfl⟩ | ⟨different, before⟩
    · obtain ⟨gained, counts⟩ := kept other _ found
      have here : turn (⟨cluster, .advance other verdict, (), after⟩ :: history) other =
          ⟨cluster, .advance other verdict, (), after⟩ :: turn history other := if_pos rfl
      rw [Function.update_self, here]
      exact ⟨gained.advance updating found verdict statement allowed _, counts.advance updating found verdict allowed _⟩
    · rw [Function.update_of_ne different, turn_other (Ne.symm different)]
      exact kept other session before

/-- What a caller is told is what its connection has committed. -/
def Honest (work : Work) (answer : Answer) (steps : List (Record (Cluster J) Label Unit)) : Prop :=
  match work, answer with
  | .operation (.append stream _ batch), .appended (.ok _) => List.Forall₂ (Stores stream) batch (gained steps)
  | .operation (.leaseNext ports _ worker _), .leased (.ok (some job)) => job.lease = ports.leaseId ∧
    ∃ envelope row, gained steps = [row] ∧ Stores job.jobId envelope row ∧
      envelope.event = .leased worker job.lease job.expiresAt
  | .operation (.retireNextExpiredLease ports), .retired (.ok (some id)) => ∃ first second,
    List.Forall₂ (Stores id) [first, second] (gained steps) ∧ Expiry ports first second
  | .operation (.extendLease ports lease ttl), .extended (.ok alive) =>
    gained steps = [] ∧ (alive = true ↔ Renews steps ports lease ttl)
  | _, _ => gained steps = []

theorem Honest.of_tells {steps : List (Record (Cluster J) Label Unit)} {tx : Transaction J} {plan : Plan J}
    {answer : Answer} (kept : Gained steps plan.work plan.aim) (counts : Counts steps tx plan)
    (aimed : plan.aim.answers (some answer)) (told : plan.work.tells plan.aim answer) :
    Honest plan.work answer steps := by
  obtain ⟨phase, work, aim⟩ := plan
  -- where no batch has been settled there is nothing in the log
  cases work with
  | relay batch => exact kept.unsettled told
  | operation operation =>
    cases operation with
    | load stream => exact kept.unsettled told
    | append stream expected batch =>
      cases answer with
      | appended result =>
        cases result with
        | ok value =>
          have settled : aim = .settled stream batch := told
          subst settled
          exact kept.2
        | err | panic => exact kept.unsettled told
      | _ => exact kept.unsettled told
    | leaseNext ports queue worker ttl =>
      cases answer with
      | leased result =>
        rcases result with (_ | job) | _ | _
        · exact kept.unsettled told
        · obtain ⟨lease, envelope, rfl, event⟩ := told
          obtain ⟨row, rows, stored, none, same⟩ := List.forall₂_cons_left_iff.mp kept.2
          rw [List.forall₂_nil_left_iff.mp none] at same
          exact ⟨lease, envelope, row, same, stored, lease ▸ event⟩
        · exact kept.unsettled told
        · exact kept.unsettled told
      | _ => exact kept.unsettled told
    | retireNextExpiredLease ports =>
      cases answer with
      | retired result =>
        rcases result with (_ | id) | _ | _
        · exact kept.unsettled told
        · obtain ⟨first, second, rfl, expiry⟩ := told
          exact ⟨first, second, kept.2, expiry⟩
        · exact kept.unsettled told
        · exact kept.unsettled told
      | _ => exact kept.unsettled told
    | extendLease ports lease ttl =>
      cases answer with
      | extended result =>
        cases result with
        | ok alive =>
          obtain ⟨rows, rfl, rfl⟩ := aimed
          refine ⟨kept, ?_⟩
          rw [decide_eq_true_eq]
          exact counts ports lease ttl rfl
        | err | panic => exact kept.unsettled told
      | _ => exact kept.unsettled told

/-- What a connection that breaks off leaves behind: nothing where a statement failed or `COMMIT` did, and nothing or
    all of its batch where only the answer to `COMMIT` was lost. -/
def Broken (session : Session J) (steps : List (Record (Cluster J) Label Unit)) : Prop :=
  match session.program with
  | .call _ _ => gained steps = []
  | .done _ => gained steps = [] ∨
    ∃ job batch, session.work.Intends J job batch ∧ List.Forall₂ (Stores job) batch (gained steps)

theorem Gained.broken {session : Session J} {steps : List (Record (Cluster J) Label Unit)} {plan : Plan J}
    {program : Tx J Unit (Option Answer)} (kept : Gained steps plan.work plan.aim) (same : plan.work = session.work)
    (shape : program.shape = session.program.shape) (obeys : program.Obeys Plan.allows Plan.after Plan.tells plan) :
    Broken session steps := by
  unfold Broken
  split
  · rename_i statement next running
    rw [running] at shape
    cases program with
    | done result => cases shape
    | call other rest => exact kept.unsettled obeys.1.unsettled
  · cases aim : plan.aim with
    | settled job batch =>
      rw [aim] at kept
      exact .inr ⟨job, batch, same ▸ kept.1, kept.2⟩
    | _ =>
      rw [aim] at kept
      exact .inl kept

def answeredLabels : List Label :=
  Label.advances 1 7 ++ Label.advances 2 2 ++
    [.start 2 (.operation (.leaseNext (Sample.ports 1 3) Sample.queue Sample.worker (.fromSecs 10)))] ++
    Label.advances 1 1 ++
    [.start 1 (.operation (.leaseNext (Sample.ports 1 2) Sample.queue Sample.worker (.fromSecs 10)))] ++
    Label.advances 0 8 ++
    [.start 0 (.operation (.append ⟨1⟩ 0 (Sample.command.envelopes (Sample.ports 0 1))))]

/-- An append whose `COMMIT` took effect but was answered with an error. -/
example :
    let _ := BuildProfile.release
    (Label.attempt (.abort 0 :: (Label.advances 0 8 ++
      [.start 0 (.operation (.append ⟨1⟩ 0 (Sample.command.envelopes (Sample.ports 0 1))))])) :
        Option (_ × Cluster TypedJson)).map (fun ran => (gained (turn ran.1 0)).length) = some 1 := by
  decide +kernel

end Koine.Postgres
