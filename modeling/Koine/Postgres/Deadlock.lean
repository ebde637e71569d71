import Koine.Postgres.Locks

namespace Koine.Postgres

open Library Domain Application

section Waiting

variable {J : Type}

def Cluster.waitsFor (cluster : Cluster J) (ticket other : Nat) : Bool :=
  match cluster.sessions.lookup ticket, cluster.sessions.lookup other with
  | some ⟨_, .call statement _, tx⟩, some rival => statement.waits (tx.view cluster.world.tables) [rival.tx]
  | _, _ => false

theorem Cluster.waitsFor_iff {cluster : Cluster J} {ticket other : Nat} :
    cluster.waitsFor ticket other = true ↔ ∃ work statement rest tx rival,
      cluster.sessions.lookup ticket = some ⟨work, .call statement rest, tx⟩ ∧
      cluster.sessions.lookup other = some rival ∧
      statement.waits (tx.view cluster.world.tables) [rival.tx] = true := by
  unfold Cluster.waitsFor
  constructor
  · intro waits
    split at waits
    · rename_i work statement rest tx rival found ongoing
      exact ⟨work, statement, rest, tx, rival, found, ongoing, waits⟩
    · cases waits
  · rintro ⟨work, statement, rest, tx, rival, found, ongoing, waits⟩
    rw [found, ongoing]
    exact waits

theorem Stmt.waits_iff {statement : Stmt J} {view : Tables J} {others : List (Transaction J)} :
    statement.waits view others = true ↔ ∃ other ∈ others, statement.waits view [other] = true := by
  cases statement with
  | insertEvent columns =>
    simp only [Stmt.waits, Bool.and_eq_true, Bool.or_eq_true, List.any_eq_true, List.mem_singleton,
      exists_eq_left]
    constructor
    · rintro ⟨fresh, ⟨other, listed, clash⟩ | ⟨free, other, listed, clash⟩⟩
      · exact ⟨other, listed, fresh, .inl clash⟩
      · exact ⟨other, listed, fresh, .inr ⟨free, clash⟩⟩
    · rintro ⟨other, listed, fresh, clash | ⟨free, clash⟩⟩
      · exact ⟨fresh, .inl ⟨other, listed, clash⟩⟩
      · exact ⟨fresh, .inr ⟨free, other, listed, clash⟩⟩
  | upsertPending | upsertLeased | deleteOutbox => simp [Stmt.waits]
  | deleteDispatch jobId =>
    simp only [Stmt.waits, Bool.and_eq_true, List.any_eq_true, List.mem_singleton, exists_eq_left]
    constructor
    · rintro ⟨present, other, listed, holds⟩
      exact ⟨other, listed, present, holds⟩
    · rintro ⟨other, listed, present, holds⟩
      exact ⟨present, other, listed, holds⟩
  | updateDeadline deadline lease now =>
    simp only [Stmt.waits, Bool.and_eq_true, List.any_eq_true, List.mem_singleton, exists_eq_left]
    constructor
    · rintro ⟨entry, member, alive, other, listed, holds⟩
      exact ⟨other, listed, entry, member, alive, holds⟩
    · rintro ⟨other, listed, entry, member, alive, holds⟩
      exact ⟨entry, member, alive, other, listed, holds⟩
  | _ => simp [Stmt.waits]

theorem waits_idle {tx : Transaction J} (rows : tx.rows = []) (holds : ∀ id, tx.holdsRow id = false)
    (claimed : tx.claimed = []) (statement : Stmt J) (view : Tables J) : statement.waits view [tx] = false := by
  cases statement <;> simp [Stmt.waits, rows, holds, claimed]

def Cluster.inserting (cluster : Cluster J) (ticket : Nat) (job : JobId) : Bool :=
  (cluster.sessions.lookup ticket).any fun session => session.tx.rows.any (·.streamId = job)

def Cluster.locking (cluster : Cluster J) (ticket : Nat) (job : JobId) : Bool :=
  (cluster.sessions.lookup ticket).any fun session => decide (job ∈ session.tx.locks)

/-- Of an append and a dispatcher on one job, the append starts to insert only while the dispatcher does not
    have the row, and the dispatcher locks the row only while the append has inserted nothing. -/
def Orderly (ack dispatcher : Nat) (job : JobId) (record : Record (Cluster J) Label Unit) : Prop :=
  (record.before.inserting ack job = false → record.after.inserting ack job = true →
    record.before.locking dispatcher job = false) ∧
  (record.before.locking dispatcher job = false → record.after.locking dispatcher job = true →
    record.before.inserting ack job = false)

instance (ack dispatcher : Nat) (job : JobId) (record : Record (Cluster J) Label Unit) :
    Decidable (Orderly ack dispatcher job record) := inferInstanceAs (Decidable (_ ∧ _))

variable [Serde J] [BuildProfile]

theorem waitsFor_of_blocked {cluster : Cluster J} {ticket : Nat} {verdict : Verdict} {session : Session J}
    (found : cluster.sessions.lookup ticket = some session)
    (blocked : (Label.advance ticket verdict).step cluster = none) :
    ∃ other, other ≠ ticket ∧ cluster.waitsFor ticket other = true := by
  obtain ⟨work, program, tx⟩ := session
  simp only [Label.step, found] at blocked
  cases program with
  | done result => cases blocked
  | call statement rest =>
    simp only at blocked
    split at blocked
    · rename_i waits
      obtain ⟨tx', listed, clash⟩ := Stmt.waits_iff.mp waits
      obtain ⟨other, rival, different, ongoing, rfl⟩ := mem_others.mp listed
      exact ⟨other, different, Cluster.waitsFor_iff.mpr ⟨work, statement, rest, tx, rival, found, ongoing, clash⟩⟩
    · cases blocked

theorem Cluster.Step.lookup_other {before after : Cluster J} {label : Label} {result : Unit}
    (taken : Cluster.Step before label result after) {other : Nat} (different : label.ticket ≠ other) :
    after.sessions.lookup other = before.sessions.lookup other := by
  unfold Cluster.Step at taken
  cases label with
  | start ticket work =>
    simp only [Label.step] at taken
    split at taken
    · cases taken
    · cases taken
      exact AList.lookup_insert_ne (Ne.symm different)
  | abort ticket =>
    cases taken
    exact AList.lookup_erase_ne (Ne.symm different)
  | advance ticket verdict =>
    simp only [Label.step] at taken
    split at taken
    · cases taken
    · cases taken
      exact AList.lookup_erase_ne (Ne.symm different)
    · split at taken
      · cases taken
      · cases taken
        exact AList.lookup_insert_ne (Ne.symm different)

theorem not_inserting_and_locking {ack dispatcher : Nat} {job : JobId} (apart : ack ≠ dispatcher)
    {history : List (Record (Cluster J) Label Unit)} {cluster : Cluster J}
    (run : Run Cluster.Step .empty history cluster)
    (orderly : ∀ record ∈ history, Orderly ack dispatcher job record) :
    ¬ (cluster.inserting ack job = true ∧ cluster.locking dispatcher job = true) := by
  induction run with
  | refl => exact fun both => nomatch both.1
  | step run taken ih =>
    rename_i older before after label result
    rw [List.forall_mem_cons] at orderly
    obtain ⟨⟨inserts, locks⟩, orderly⟩ := orderly
    rintro ⟨inserting, locking⟩
    cases inserted : before.inserting ack job with
    | true =>
      have free : before.locking dispatcher job = false := by
        rw [← Bool.not_eq_true]
        exact fun locked => ih orderly ⟨inserted, locked⟩
      have nothing := locks free locking
      simp only [inserted, Bool.true_eq_false] at nothing
    | false =>
      have free : before.locking dispatcher job = false := inserts inserted inserting
      -- the step would have to be one of both connections
      have mine : label.ticket = ack := by
        by_contra other
        rw [Cluster.inserting, taken.lookup_other other, ← Cluster.inserting, inserted] at inserting
        cases inserting
      have theirs : label.ticket = dispatcher := by
        by_contra other
        rw [Cluster.locking, taken.lookup_other other, ← Cluster.locking, free] at locking
        cases locking
      exact apart (mine.symm.trans theirs)

/-- The transactions that lock a dispatch row first and append to its stream afterwards. -/
def Work.dispatches : Work → Bool
  | .operation (.leaseNext ..) | .operation (.retireNextExpiredLease _) => true
  | _ => false

def Work.appendsTo : Work → Option JobId
  | .operation (.append stream ..) => some stream
  | _ => none

omit [BuildProfile] in
theorem Guarded.append {cluster : Cluster J} {plans : Nat → Plan J} (guarded : Guarded cluster plans)
    {ticket : Nat} {work : Work} {statement : Stmt J} {rest : statement.Reply → Tx J Unit Unit}
    {tx : Transaction J} (found : cluster.sessions.lookup ticket = some ⟨work, .call statement rest, tx⟩)
    {job : JobId} (appends : work.appendsTo = some job) (permitted : (plans ticket).permits false statement)
    {others : List (Transaction J)}
    (waits : statement.waits (tx.view cluster.world.tables) others = true) :
    Focused tx (plans ticket).phase job := by
  have footprint := guarded.footprints ticket _ found
  have aimed := permitted.2
  rw [guarded.works ticket _ found] at footprint aimed
  obtain ⟨expected, batch, rfl⟩ : ∃ expected batch, work = .operation (.append job expected batch) := by
    unfold Work.appendsTo at appends
    split at appends
    · cases appends
      exact ⟨_, _, rfl⟩
    · cases appends
  generalize (plans ticket).aim = aim at footprint aimed
  cases aim with
  | planned target envelopes stored =>
    obtain ⟨focused, ⟨first, _⟩ | ⟨_, first⟩⟩ := footprint
    · cases first
    · cases first
      exact focused
  | fresh => exact nomatch footprint.2.2
  | picked => exact nomatch footprint.2.2
  | beat => exact nomatch footprint.2.2.2
  | settled | beaten => cases statement <;> exact aimed.elim
  | ended =>
    cases statement with
    | commit => cases waits
    | deliver | deleteOutbox => cases aimed
    | _ => exact aimed.elim

/-- A claim or a retirement does not wait for an append to the job whose row it has locked, if the run was
    orderly; so the two never wait for each other. -/
theorem ack_dispatcher_no_deadlock {history : List (Record (Cluster J) Label Unit)} {cluster : Cluster J}
    (run : Run Cluster.Step .empty history cluster) {ack dispatcher : Nat} {job : JobId}
    {mine theirs : Session J} (appends : cluster.sessions.lookup ack = some mine)
    (acks : mine.work.appendsTo = some job) (found : cluster.sessions.lookup dispatcher = some theirs)
    (dispatches : theirs.work.dispatches = true)
    (same : job ∈ theirs.tx.locks) (orderly : ∀ record ∈ history, Orderly ack dispatcher job record) :
    ¬ (cluster.waitsFor ack dispatcher = true ∧ cluster.waitsFor dispatcher ack = true) := by
  obtain ⟨plans, following, guarded⟩ := Run.guarded run
  have apart : ack ≠ dispatcher := by
    rintro rfl
    rw [appends] at found
    cases found
    unfold Work.dispatches at dispatches
    unfold Work.appendsTo at acks
    split at dispatches <;> simp_all
  rintro ⟨waits, blocked⟩
  obtain ⟨work, statement, rest, tx, rival, running, _, waits⟩ := Cluster.waitsFor_iff.mp waits
  rw [appends] at running
  cases running
  have focused := guarded.append appends acks (following.permitted appends) waits
  have locked : theirs.tx.holdsRow job = true := Transaction.holdsRow_iff.mpr (.inl same)
  have inserted : tx.rows = [] := by
    rw [List.eq_nil_iff_forall_not_mem]
    intro row member
    refine not_inserting_and_locking apart run orderly ⟨?_, ?_⟩
    · rw [Cluster.inserting, appends, Option.any_some, List.any_eq_true]
      exact ⟨row, member, by simpa using focused.rows row member⟩
    · rw [Cluster.locking, found, Option.any_some, decide_eq_true_eq]
      exact same
  have holds : ∀ id, tx.holdsRow id = false := by
    intro id
    rw [← Bool.not_eq_true]
    intro holds
    have free := guarded.exclusive ack dispatcher _ theirs (Ne.symm apart) appends found id holds
    rw [focused.holds id holds, locked] at free
    cases free
  obtain ⟨_, waiting, _, _, _, _, ongoing, blocked⟩ := Cluster.waitsFor_iff.mp blocked
  rw [appends] at ongoing
  cases ongoing
  rw [waits_idle inserted holds focused.claimed] at blocked
  cases blocked

end Waiting

def cancelAgainstClaim (before during : List Label) : List Label :=
  during ++ [.start 2 (.operation (.leaseNext (Sample.ports 1 2) Sample.queue Sample.worker (.fromSecs 10)))] ++
    before ++
    [.start 1 (.operation (.append ⟨1⟩ 1
      (wrapEvents (Sample.ports 1 3) ⟨1⟩ 1 ⟨1⟩ none none [.cancelled none])))] ++
    Label.advances 0 8 ++
    [.start 0 (.operation (.append ⟨1⟩ 0 (Sample.command.envelopes (Sample.ports 0 1))))]

/-- The cancellation has read the version when the claim takes the row and inserts its event: it waits for
    the claim, and the claim for nobody. -/
theorem ack_dispatcher_no_deadlock_late_ack :
    let _ := BuildProfile.release
    ∃ (history : List (Record (Cluster TypedJson) Label Unit)) (cluster : Cluster TypedJson),
      Run Cluster.Step .empty history cluster ∧
      history.map (·.label) = cancelAgainstClaim (Label.advances 1 1) (Label.advances 2 4) ∧
      cluster.waitsFor 1 2 = true ∧ ¬ (cluster.waitsFor 1 2 = true ∧ cluster.waitsFor 2 1 = true) := by
  intro _
  have seen : (Label.attempt (cancelAgainstClaim (Label.advances 1 1) (Label.advances 2 4)) :
      Option (_ × Cluster TypedJson)).map (fun ran =>
        ((ran.2.sessions.lookup 1).map (·.work.appendsTo),
          (ran.2.sessions.lookup 2).map (fun session =>
            (session.work.dispatches, decide (⟨1⟩ ∈ session.tx.locks))),
          ran.2.waitsFor 1 2, decide (∀ record ∈ ran.1, Orderly 1 2 ⟨1⟩ record))) =
      some (some (some ⟨1⟩), some (true, true), true, true) := by decide +kernel
  rw [Option.map_eq_some_iff] at seen
  obtain ⟨⟨history, cluster⟩, ran, seen⟩ := seen
  obtain ⟨run, labels⟩ := Label.of_attempt ran
  simp only [Prod.mk.injEq, Option.map_eq_some_iff, decide_eq_true_eq] at seen
  obtain ⟨⟨mine, appends, acks⟩, ⟨theirs, found, dispatches, same⟩, waits, orderly⟩ := seen
  exact ⟨history, cluster, run, labels, waits,
    ack_dispatcher_no_deadlock run appends acks found dispatches same orderly⟩

/-- The cancellation has inserted its event when the claim takes the row: the claim waits for that event,
    and the cancellation for the row. -/
theorem cancel_and_claim_deadlock :
    let _ := BuildProfile.release
    ∃ (history : List (Record (Cluster TypedJson) Label Unit)) (cluster : Cluster TypedJson),
      Run Cluster.Step .empty history cluster ∧
      history.map (·.label) = cancelAgainstClaim (Label.advances 1 2) (Label.advances 1 2 ++ Label.advances 2 3) ∧
      cluster.locking 2 ⟨1⟩ = true ∧ cluster.waitsFor 1 2 = true ∧ cluster.waitsFor 2 1 = true := by
  intro _
  have seen : (Label.attempt (cancelAgainstClaim (Label.advances 1 2) (Label.advances 1 2 ++ Label.advances 2 3)) :
      Option (_ × Cluster TypedJson)).map (fun ran => (ran.2.locking 2 ⟨1⟩, ran.2.waitsFor 1 2, ran.2.waitsFor 2 1)) =
      some (true, true, true) := by decide +kernel
  rw [Option.map_eq_some_iff] at seen
  obtain ⟨⟨history, cluster⟩, ran, seen⟩ := seen
  obtain ⟨run, labels⟩ := Label.of_attempt ran
  rw [Prod.mk.injEq, Prod.mk.injEq] at seen
  exact ⟨history, cluster, run, labels, seen⟩

end Koine.Postgres
