import Koine.Postgres.Renewals

namespace Koine.Postgres

open Library Domain Application

section Loads

variable {J : Type} [Serde J] [BuildProfile]

abbrev Sight (J : Type) := Work × Option (List (EventRow J))

namespace Sight

def permits (sight : Sight J) (statement : Stmt J) : Prop :=
  ∀ id, sight.1 = .operation (.load id) → statement = .loadStream id ∧ sight.2 = none

def after : Sight J → (statement : Stmt J) → statement.Reply → Sight J
  | (.operation (.load id), _), .loadStream _, rows => (.operation (.load id), some rows)
  | sight, _, _ => sight

def answers (sight : Sight J) (answer : Option Answer) : Prop :=
  ∀ stream, answer = some (.loaded (.ok stream)) →
    ∃ id rows, sight = (.operation (.load id), some rows) ∧ envelopesFromRows rows = .ok stream

omit [Serde J] [BuildProfile] in
theorem after_work (sight : Sight J) (statement : Stmt J) (reply : statement.Reply) :
    (sight.after statement reply).1 = sight.1 := by
  unfold after
  split <;> rfl

end Sight

omit [BuildProfile] in
theorem load_sights (id : JobId) : (load id : Tx J EventStoreError _).Obeys Sight.permits Sight.after
    (fun sight stream => ∃ rows, sight = (.operation (.load id), some rows) ∧ envelopesFromRows rows = .ok stream)
    (.operation (.load id), none) := by
  unfold load
  rw [Program.obeys_bind]
  refine ⟨?_, fun rows => ?_⟩
  · rintro other ⟨⟩
    exact ⟨rfl, rfl⟩
  · simp only [Program.Obeys]
    split
    · trivial
    · rw [Program.obeys_done]
      exact fun stream decoded => ⟨rows, rfl, decoded⟩

theorem Work.answering_sights (work : Work) :
    (work.answering : Tx J Unit _).Obeys Sight.permits Sight.after Sight.answers (work, none) := by
  have other (unread : ∀ id, work ≠ .operation (.load id)) :
      (work.answering : Tx J Unit _).Obeys Sight.permits Sight.after Sight.answers (work, none) := by
    refine work.answering_replies.image (fun _ => (work, none)) ?_ ?_ ?_
    · exact fun _ _ _ id same => absurd same (unread id)
    · intro _ statement reply
      cases work with
      | relay batch => rfl
      | operation operation =>
        cases operation with
        | load id => exact absurd rfl (unread id)
        | _ => rfl
    · intro _ answer replies stream loaded
      have kind := replies _ loaded
      cases work with
      | relay batch => cases kind
      | operation operation =>
        cases operation with
        | load id => exact absurd rfl (unread id)
        | _ => cases kind
  cases work with
  | relay batch => exact other (by simp)
  | operation operation =>
    cases operation with
    | load id =>
      refine ((load_sights id).capture _).mono ?_
      rintro sight _ ⟨result, rfl, read⟩ stream loaded
      obtain ⟨rows, same, decoded⟩ := read stream (by simpa using loaded)
      exact ⟨id, rows, same, decoded⟩
    | _ => exact other (by simp)

def Reads (cluster : Cluster J) (sights : Nat → Sight J) : Prop :=
  ∀ ticket session, cluster.sessions.lookup ticket = some session → session.work = (sights ticket).1 ∧
    ∀ id, session.work = .operation (.load id) → session.tx = .begin ∧
      ∀ rows, (sights ticket).2 = some rows → rows <+: cluster.world.tables.streamRows id

theorem Run.dense {history : List (Record (Cluster J) Label Unit)} {cluster : Cluster J}
    (run : Run Cluster.Step .empty history cluster) (stream : JobId) :
    (cluster.world.tables.streamRows stream).map (·.version) =
      List.range' 1 (cluster.world.tables.streamRows stream).length := by
  obtain ⟨plans, _, updating, _⟩ := Run.updating run
  exact updating.log.versions stream

theorem Run.sights {history : List (Record (Cluster J) Label Unit)} {cluster : Cluster J}
    (run : Run Cluster.Step .empty history cluster) :
    ∃ sights, Following Sight.permits Sight.after Sight.answers history cluster sights ∧ Reads cluster sights := by
  refine Run.following (fun work => (work, none))
    (fun record => ∀ stream, (record.before.world.tables.streamRows stream).map (·.version) =
      List.range' 1 (record.before.world.tables.streamRows stream).length)
    (fun _ cluster sights => Reads cluster sights) ?_ (fun _ => rfl) (fun _ => (.relay 0, none)) ?_ ?_ ?_ ?_ run ?_
  · exact fun _ _ _ work _ => work.answering_sights
  · intro ticket session found
    cases found
  · intro _ cluster sights ticket work reads _ after _
    refine each_resume sights (work, none) (fun sight session => session.work = sight.1 ∧
      ∀ id, session.work = .operation (.load id) → session.tx = .begin ∧
        ∀ rows, sight.2 = some rows → rows <+: cluster.world.tables.streamRows id) ?_ ?_
    · exact ⟨rfl, fun id _ => ⟨rfl, nofun⟩⟩
    · exact fun other rival _ ongoing => reads other rival ongoing
  · exact fun _ _ _ ticket _ reads _ other session present => reads other session (lookup_close present).2
  · intro _ cluster sights ticket verdict work statement rest tx reads found permitted _ ran after dense
    obtain ⟨same, begins⟩ := reads ticket _ found
    refine each_resume sights _ (fun sight session => session.work = sight.1 ∧
      ∀ id, session.work = .operation (.load id) → session.tx = .begin ∧
        ∀ rows, sight.2 = some rows → rows <+: ran.1.1.tables.streamRows id) ?_ ?_
    · refine ⟨by rw [Sight.after_work]; exact same, fun id loads => ?_⟩
      obtain ⟨rfl, blank⟩ := permitted id (same.symm.trans loads)
      have started : tx = .begin := (begins id loads).1
      have read : ran.2 = cluster.world.tables.streamRows id := by
        subst started
        exact inOrder_of_versions (dense id)
      refine ⟨started, fun rows seen => ?_⟩
      have unread : sights ticket = (.operation (.load id), none) := Prod.ext (same.symm.trans loads) blank
      have shown : Sight.after (sights ticket) (.loadStream id) ran.2 = (.operation (.load id), some ran.2) := by
        rw [unread]
        rfl
      rw [shown, read] at seen
      cases seen
      exact List.prefix_rfl
    · intro other rival _ ongoing
      obtain ⟨kind, seen⟩ := reads other rival ongoing
      refine ⟨kind, fun id loads => ⟨(seen id loads).1, fun rows read => ?_⟩⟩
      exact ((seen id loads).2 rows read).trans (exec_streamRows ..)
  · intro record member
    obtain ⟨_, older, _, past, _⟩ := run.of_mem member
    exact Run.dense past

omit [Serde J] [BuildProfile] in
theorem lookup_resume_none {cluster : Cluster J} {ticket other : Nat} {world : World J} {session : Session J}
    (closed : (cluster.resume other world session).sessions.lookup ticket = none) :
    other ≠ ticket ∧ cluster.sessions.lookup ticket = none := by
  by_cases same : ticket = other
  · subst same
    rw [Cluster.resume, AList.lookup_insert] at closed
    cases closed
  · rw [Cluster.resume, AList.lookup_insert_ne same] at closed
    exact ⟨Ne.symm same, closed⟩

theorem Run.pending_closed {history : List (Record (Cluster J) Label Unit)} {cluster : Cluster J} {ticket : Nat}
    (run : Run Cluster.Step .empty history cluster) (closed : cluster.sessions.lookup ticket = none) :
    pending history ticket = none := by
  induction run with
  | refl => rfl
  | @step older before after label result run taken ih =>
    have onResume {other : Nat} {world : World J} {session : Session J} (named : label.ticket = other)
        (same : after = before.resume other world session) :
        pending (⟨before, label, result, after⟩ :: older) ticket = none := by
      rw [same] at closed
      obtain ⟨different, free⟩ := lookup_resume_none closed
      rw [pending_other (named.trans_ne different)]
      exact ih free
    have apart {other : Nat} (different : other ≠ ticket) (named : label.ticket = other)
        (same : after = before.close other) : pending (⟨before, label, result, after⟩ :: older) ticket = none := by
      rw [same, Cluster.close, AList.lookup_erase_ne (Ne.symm different)] at closed
      rw [pending_other (named.trans_ne different)]
      exact ih closed
    unfold Cluster.Step at taken
    cases label with
    | start other work =>
      simp only [Label.step] at taken
      split at taken
      · cases taken
      · exact onResume rfl (Option.some.inj taken).symm
    | abort other =>
      by_cases same : other = ticket
      · exact if_pos same
      · exact apart same rfl (Option.some.inj taken).symm
    | advance other verdict =>
      simp only [Label.step] at taken
      split at taken
      · cases taken
      · rename_i work outcome tx found
        by_cases same : other = ticket
        · -- a program that has returned has no statement to resume at
          obtain ⟨_, following, _⟩ := Run.guarded run
          obtain ⟨program, due, shape, _⟩ := following other _ found
          subst same
          cases program with
          | done result => simp only [pending, if_true, due, Option.bind_some, resumed]
          | call statement next => cases shape
        · exact apart same rfl (Option.some.inj taken).symm
      · split at taken
        · cases taken
        · exact onResume rfl (Option.some.inj taken).symm

def answerOf (older : List (Record (Cluster J) Label Unit)) (record : Record (Cluster J) Label Unit) :
    Option Answer :=
  match pending (record :: older) record.label.ticket with
  | some (.done (.ok answer)) => answer
  | _ => none

theorem Run.loaded {older : List (Record (Cluster J) Label Unit)} {record : Record (Cluster J) Label Unit}
    {cluster : Cluster J} {stream : List EventEnvelope} (run : Run Cluster.Step .empty (record :: older) cluster)
    (answer : answerOf older record = some (.loaded (.ok stream))) :
    ∃ id rows, rows <+: cluster.world.tables.streamRows id ∧ envelopesFromRows rows = .ok stream := by
  unfold answerOf at answer
  split at answer
  · rename_i given due
    cases found : cluster.sessions.lookup record.label.ticket with
    | none =>
      rw [Run.pending_closed run found] at due
      cases due
    | some session =>
      obtain ⟨sights, following, reads⟩ := Run.sights run
      obtain ⟨program, same, _, obeys⟩ := following _ _ found
      rw [due] at same
      cases same
      obtain ⟨id, rows, sight, decoded⟩ := obeys stream answer
      obtain ⟨work, begins⟩ := reads _ _ found
      rw [sight] at work begins
      exact ⟨id, rows, (begins id work).2 rows rfl, decoded⟩
  · cases answer

theorem Cluster.Step.works {before after : Cluster J} {label : Label} {result : Unit} {ticket : Nat}
    {session : Session J} (taken : Cluster.Step before label result after)
    (found : after.sessions.lookup ticket = some session) :
    (∃ old, before.sessions.lookup ticket = some old ∧ session.work = old.work) ∨
      label = .start ticket session.work := by
  unfold Cluster.Step at taken
  cases label with
  | start other work =>
    simp only [Label.step] at taken
    split at taken
    · cases taken
    · cases taken
      rcases lookup_resume found with ⟨rfl, rfl⟩ | ⟨_, present⟩
      · exact .inr rfl
      · exact .inl ⟨session, present, rfl⟩
  | abort other =>
    cases taken
    exact .inl ⟨session, (lookup_close found).2, rfl⟩
  | advance other verdict =>
    simp only [Label.step] at taken
    split at taken
    · cases taken
    · cases taken
      exact .inl ⟨session, (lookup_close found).2, rfl⟩
    · rename_i here
      split at taken
      · cases taken
      · cases taken
        rcases lookup_resume found with ⟨rfl, rfl⟩ | ⟨_, present⟩
        · exact .inl ⟨_, here, rfl⟩
        · exact .inl ⟨session, present, rfl⟩

theorem Run.streams_grow {start cluster : Cluster J} {history : List (Record (Cluster J) Label Unit)}
    (run : Run Cluster.Step start history cluster) (stream : JobId) :
    start.world.tables.streamRows stream <+: cluster.world.tables.streamRows stream := by
  refine Run.invariant (fun state : Cluster J =>
    start.world.tables.streamRows stream <+: state.world.tables.streamRows stream) List.prefix_rfl ?_ run
  intro before label _ after grown taken
  refine grown.trans ?_
  unfold Cluster.Step at taken
  cases label with
  | start ticket work =>
    simp only [Label.step] at taken
    split at taken
    · cases taken
    · cases taken
      exact List.prefix_rfl
  | abort ticket =>
    cases taken
    exact List.prefix_rfl
  | advance ticket verdict =>
    simp only [Label.step] at taken
    split at taken
    · cases taken
    · cases taken
      exact List.prefix_rfl
    · split at taken
      · cases taken
      · cases taken
        exact exec_streamRows ..

end Loads

section Calls

variable [BuildProfile]

abbrev Past := List (Record (Cluster Value) Label Unit)

/-- The appends of the use cases: a new job, or what the command of a call gives on a stream that it was given. -/
inductive Issues (given : Loaded → Prop) : JobId → Nat → List EventEnvelope → Prop where
  | enqueue (ports : Ports) (cmd : EnqueueCommand) (valid : validatePolicy cmd.retryPolicy = .ok ()) :
      Issues given ports.jobId 0 (cmd.envelopes ports)
  | call {call : Call} {ports : Ports} {loaded : Loaded} {reply : Reply} {events : List JobEvent}
      (was : given loaded) (command : call.command ports loaded.job = .ok (reply, events)) :
      Issues given loaded.job.id loaded.job.version (loaded.envelopes ports events)

def Given (older : Past) (loaded : Loaded) : Prop :=
  ∃ newer record past, older = newer ++ record :: past ∧
    answerOf past record = some (.loaded (.ok loaded.stream)) ∧ Job.fromEvents loaded.stream = .ok loaded.job

def Begins (tables : Tables Value) (loaded : Loaded) : Prop :=
  ∃ rows, rows <+: tables.streamRows loaded.job.id ∧ envelopesFromRows rows = .ok loaded.stream ∧
    Job.fromEvents loaded.stream = .ok loaded.job

def Work.Issues (given : Loaded → Prop) (work : Work) : Prop :=
  ∀ stream expected batch, work = .operation (.append stream expected batch) →
    Postgres.Issues given stream expected batch

/-- Nothing appends but the use cases. -/
def Served : Past → Prop
  | [] => True
  | record :: older =>
    (∀ ticket work, record.label = .start ticket work → work.Issues (Given older)) ∧ Served older

theorem Work.Issues.mono {work : Work} {given other : Loaded → Prop} (issues : work.Issues given)
    (weaker : ∀ loaded, given loaded → other loaded) : work.Issues other := by
  intro stream expected batch same
  cases issues stream expected batch same with
  | enqueue ports cmd valid => exact .enqueue ports cmd valid
  | call was command => exact .call (weaker _ was) command

omit [BuildProfile] in
theorem mem_streamRows {tables : Tables Value} {stream : JobId} {row : EventRow Value}
    (member : row ∈ tables.streamRows stream) : row.streamId = stream := by
  rw [Tables.streamRows, List.mem_filter, decide_eq_true_eq] at member
  exact member.2

theorem Given.begins {older : Past} {loaded : Loaded} {cluster : Cluster Value}
    (run : Run Cluster.Step .empty older cluster) (given : Given older loaded) :
    Begins cluster.world.tables loaded := by
  obtain ⟨newer, record, past, rfl, answer, folded⟩ := given
  obtain ⟨before, taken, later⟩ := run.split
  have upto : Run Cluster.Step .empty (record :: past) record.after := .step before taken
  obtain ⟨id, rows, begins, decoded⟩ := Run.loaded upto answer
  have same : loaded.job.id = id := by
    refine foldRows_id (foldRows_eq_some.mpr ⟨_, decoded, folded⟩) ?_
    exact fun row member => mem_streamRows (begins.subset member)
  refine ⟨rows, ?_, decoded, folded⟩
  rw [same]
  exact begins.trans (Run.streams_grow later id)

theorem Run.backed {history : Past} {cluster : Cluster Value} (run : Run Cluster.Step .empty history cluster)
    (served : Served history) : ∀ ticket session, cluster.sessions.lookup ticket = some session →
      session.work.Issues (Begins cluster.world.tables) := by
  induction run with
  | refl =>
    intro ticket session found
    cases found
  | @step older before after label result run taken ih =>
    intro ticket session found
    have grown (stream : JobId) : before.world.tables.streamRows stream <+: after.world.tables.streamRows stream :=
      Run.streams_grow (.step .refl taken) stream
    have issues : session.work.Issues (Begins before.world.tables) := by
      rcases taken.works found with ⟨old, present, same⟩ | started
      · rw [same]
        exact ih served.2 ticket old present
      · exact (served.1 ticket session.work started).mono fun _ given => given.begins run
    refine issues.mono ?_
    rintro loaded ⟨rows, begins, rest⟩
    exact ⟨rows, begins.trans (grown _), rest⟩

end Calls

end Koine.Postgres
