import Koine.Library.Broadcast
import Koine.Postgres.Updates

namespace Koine.Postgres

open Library Domain Application

section Notices

variable {J : Type} [Serde J] [BuildProfile]

/-! ### Every pending row is announced -/

/-- The queue of a pending row that has been written and not announced yet. -/
abbrev Owed := Option QueueName

namespace Owed

def permits (owed : Owed) (statement : Stmt J) : Prop :=
  ∀ queue, owed = some queue → statement = .notifyDispatch queue

def after : Owed → (statement : Stmt J) → statement.Reply → Owed
  | _, .upsertPending _ queue _ _, _ => some queue
  | _, .notifyDispatch _, _ => none
  | owed, _, _ => owed

omit [Serde J] [BuildProfile] in
theorem free (statement : Stmt J) : permits none statement := nofun

end Owed

def Settles {ε α : Type} (program : Tx J ε α) : Prop :=
  program.Obeys Owed.permits Owed.after (fun owed _ => owed = none) none

omit [BuildProfile] in
theorem insertEnvelopes_settles (stream : JobId) (expected : Nat) (envelopes : List EventEnvelope) :
    Settles (insertEnvelopes stream expected envelopes : Tx J EventStoreError Unit) := by
  induction envelopes with
  | nil => rfl
  | cons envelope rest ih =>
    unfold insertEnvelopes
    rw [Settles, Program.obeys_bind, Program.obeys_done]
    intro payload _
    split
    · trivial
    · split
      · trivial
      · rw [Program.obeys_bind]
        refine ⟨Owed.free _, fun outcome => ?_⟩
        cases outcome with
        | violates constraint => cases constraint <;> trivial
        | inserted =>
          change Program.Obeys _ _ _ (_ >>= _) _
          rw [Program.obeys_bind, Program.obeys_done]
          intro json _
          rw [Program.obeys_bind]
          exact ⟨Owed.free _, fun _ => ih⟩

omit [Serde J] [BuildProfile] in
theorem projectInTx_settles (job : Job) : Settles (projectInTx job : Tx J EventStoreError Unit) := by
  unfold projectInTx
  cases job.state with
  | pending notBefore =>
    rw [Settles, Program.obeys_bind]
    refine ⟨Owed.free _, fun _ => ⟨?_, fun _ => rfl⟩⟩
    rintro queue ⟨⟩
    rfl
  | _ => exact ⟨Owed.free _, fun _ => rfl⟩

omit [BuildProfile] in
theorem loadInTx_settles (stream : JobId) : Settles (loadInTx stream : Tx J EventStoreError _) := by
  unfold loadInTx
  rw [Settles, Program.obeys_bind]
  refine ⟨Owed.free _, fun rows => ?_⟩
  simp only [Program.obeys_done]
  exact fun _ _ _ _ => rfl

theorem appendInTx_settles (stream : JobId) (expected : Nat) (envelopes : List EventEnvelope) :
    Settles (appendInTx stream expected envelopes : Tx J EventStoreError Job) := by
  unfold appendInTx
  rw [Settles, Program.obeys_bind]
  refine ⟨Owed.free _, fun newest => ?_⟩
  simp only [Program.Obeys]
  split
  · trivial
  · split
    · rw [Program.obeys_bind]
      refine (insertEnvelopes_settles stream expected envelopes).mono ?_
      rintro _ _ rfl
      rw [Program.obeys_bind]
      refine (loadInTx_settles stream).mono ?_
      rintro _ loaded rfl
      simp only [Program.obeys_bind, Program.obeys_done]
      exact fun job _ => (projectInTx_settles job).mono fun _ _ settled => settled
    · trivial

theorem append_settles (stream : JobId) (expected : Nat) (envelopes : List EventEnvelope) :
    Settles (append stream expected envelopes : Tx J EventStoreError Unit) := by
  unfold append
  rw [Settles, Program.obeys_bind]
  refine (appendInTx_settles stream expected envelopes).mono ?_
  rintro _ _ rfl
  exact ⟨Owed.free _, fun _ => rfl⟩

theorem claim_settles (ports : Ports) (queue : QueueName) (worker : WorkerId) (ttl : Duration) :
    Settles (claim ports queue worker ttl : Tx J DispatchError (Option LeasedJob)) := by
  unfold claim
  rw [Settles, Program.obeys_bind]
  refine ⟨Owed.free _, fun picked => ?_⟩
  simp only [Program.Obeys]
  cases picked with
  | none => rfl
  | some jobId =>
    simp only
    rw [Program.obeys_bind, Program.obeys_mapErr]
    refine (loadInTx_settles jobId).mono ?_
    rintro _ stream rfl
    simp only [Program.obeys_bind, Program.obeys_done]
    intro job _ event _
    split
    · rw [Program.obeys_bind, Program.obeys_mapErr]
      refine (appendInTx_settles jobId job.version _).mono ?_
      rintro _ folded rfl
      rw [Program.obeys_bind]
      exact ⟨Owed.free _, fun _ => rfl⟩
    · trivial

theorem retireOne_settles (ports : Ports) : Settles (retireOne ports : Tx J DispatchError (Option JobId)) := by
  unfold retireOne
  rw [Settles, Program.obeys_bind]
  refine ⟨Owed.free _, fun picked => ?_⟩
  simp only [Program.Obeys]
  cases picked with
  | none =>
    simp only
    rw [Program.obeys_bind]
    exact ⟨Owed.free _, fun _ => rfl⟩
  | some jobId =>
    simp only
    rw [Program.obeys_bind, Program.obeys_mapErr]
    refine (loadInTx_settles jobId).mono ?_
    rintro _ stream rfl
    simp only [Program.obeys_bind, Program.obeys_done]
    intro job _ events _
    rw [Program.obeys_mapErr]
    refine (appendInTx_settles jobId job.version _).mono ?_
    rintro _ folded rfl
    exact ⟨Owed.free _, fun _ => rfl⟩

omit [Serde J] [BuildProfile] in
theorem extendLease_settles (ports : Ports) (lease : LeaseId) (ttl : Duration) :
    Settles (extendLease ports lease ttl : Tx J DispatchError Bool) := by
  unfold extendLease
  split
  · trivial
  · rw [Settles, Program.obeys_bind, Program.obeys_done]
    intro deadline _
    rw [Program.obeys_bind]
    refine ⟨Owed.free _, fun updated => ?_⟩
    simp only [Program.Obeys]
    rw [Program.obeys_bind]
    exact ⟨Owed.free _, fun _ => rfl⟩

omit [BuildProfile] in
theorem load_settles (stream : JobId) : Settles (load stream : Tx J EventStoreError _) := by
  unfold load
  rw [Settles, Program.obeys_bind]
  refine ⟨Owed.free _, fun rows => ?_⟩
  simp only [Program.Obeys]
  split
  · trivial
  · rw [Program.obeys_done]
    exact fun _ _ => rfl

omit [BuildProfile] in
theorem relayOnce_settles (batch : Nat) : Settles (relayOnce batch : Tx J RelayError Nat) := by
  unfold relayOnce
  rw [Settles, Program.obeys_bind]
  refine ⟨Owed.free _, fun rows => ?_⟩
  simp only [Program.Obeys]
  split
  · rfl
  · rw [Program.obeys_bind, Program.obeys_done]
    intro envelopes _
    rw [Program.obeys_bind]
    refine ⟨Owed.free _, fun answer => ?_⟩
    simp only [Program.Obeys]
    cases answer with
    | error error => trivial
    | ok value =>
      simp only
      rw [Program.obeys_bind]
      refine ⟨Owed.free _, fun _ => ?_⟩
      simp only [Program.Obeys]
      rw [Program.obeys_bind]
      exact ⟨Owed.free _, fun _ => rfl⟩

theorem Work.answering_settles (work : Work) :
    (work.answering : Tx J Unit _).Obeys Owed.permits Owed.after (fun _ _ => True) none := by
  have captured {ε α : Type} {program : Tx J ε α} (settles : Settles program)
      (wrap : Outcome ε α → Option Answer) :
      (program.capture wrap).Obeys Owed.permits Owed.after (fun _ _ => True) none :=
    (settles.capture wrap).mono fun _ _ _ => trivial
  cases work with
  | relay batch => exact captured (relayOnce_settles batch) _
  | operation operation =>
    cases operation with
    | append stream expected envelopes => exact captured (append_settles stream expected envelopes) _
    | load stream => exact captured (load_settles stream) _
    | leaseNext ports queue worker ttl => exact captured (claim_settles ports queue worker ttl) _
    | extendLease ports lease ttl => exact captured (extendLease_settles ports lease ttl) _
    | retireNextExpiredLease ports => exact captured (retireOne_settles ports) _

/-- What a step does to the announcements that wait for their transactions to commit, and those that a commit
    sends out. Two alike in one transaction are one. -/
def announce (cluster : Cluster J) (label : Label) (notices : Nat → List String) :
    (Nat → List String) × List String :=
  match label with
  | .start ticket _ | .abort ticket => (Function.update notices ticket [], [])
  | .advance ticket _ =>
    match cluster.sessions.lookup ticket with
    | some ⟨_, .call (.notifyDispatch queue) _, _⟩ =>
      (Function.update notices ticket ((notices ticket).insert queue.value), [])
    | some ⟨_, .call .commit _, _⟩ => (Function.update notices ticket [], notices ticket)
    | some ⟨_, .done _, _⟩ => (Function.update notices ticket [], [])
    | _ => (notices, [])

def noticed : List (Record (Cluster J) Label Unit) → Nat → List String
  | [], _ => []
  | record :: older, ticket => (announce record.before record.label (noticed older)).1 ticket

omit [Serde J] [BuildProfile] in
theorem announce_other {cluster : Cluster J} {label : Label} {notices : Nat → List String} {ticket : Nat}
    (other : label.ticket ≠ ticket) : (announce cluster label notices).1 ticket = notices ticket := by
  cases label with
  | start stepping | abort stepping => exact Function.update_of_ne (Ne.symm other) ..
  | advance stepping verdict =>
    simp only [announce]
    split <;> first | exact Function.update_of_ne (Ne.symm other) .. | rfl

def Told (history : List (Record (Cluster J) Label Unit)) (cluster : Cluster J) (owes : Nat → Owed) : Prop :=
  ∀ ticket session, cluster.sessions.lookup ticket = some session → ∀ id row, .put id row ∈ session.tx.writes →
    row.leaseId = none → row.queue.value ∈ noticed history ticket ∨ owes ticket = some row.queue

omit [Serde J] [BuildProfile] in
theorem announce_keeps {cluster : Cluster J} {ticket : Nat} {verdict : Verdict} {work : Work} {statement : Stmt J}
    {rest : statement.Reply → Tx J Unit Unit} {tx : Transaction J}
    (found : cluster.sessions.lookup ticket = some ⟨work, .call statement rest, tx⟩) (ongoing : statement ≠ .commit)
    (notices : Nat → List String) :
    notices ticket ⊆ (announce cluster (.advance ticket verdict) notices).1 ticket := by
  intro payload waiting
  simp only [announce, found]
  cases statement with
  | commit => exact absurd rfl ongoing
  | notifyDispatch queue =>
    simp only [Function.update_self]
    exact List.mem_insert_of_mem waiting
  | _ => exact waiting

omit [Serde J] [BuildProfile] in
theorem exec_puts {others : List (Transaction J)} {verdict : Verdict} {world : World J} {tx : Transaction J}
    (statement : Stmt J) {id : JobId} {row : DispatchRow}
    (written : .put id row ∈ (statement.exec others verdict world tx).1.2.writes) (pending : row.leaseId = none) :
    .put id row ∈ tx.writes ∨ ∃ priority notBefore, statement = .upsertPending id row.queue priority notBefore := by
  cases statement with
  | maxVersion | notifyDispatch | loadStream | selectOutbox => exact .inl written
  | commit => exact absurd written List.not_mem_nil
  | insertEvent columns =>
    simp only [Stmt.exec] at written
    split at written
    · exact .inl written
    · split at written
      · exact .inl written
      · simpa [Transaction.write] using written
  | insertOutbox | deleteOutbox => simpa [Stmt.exec, Transaction.write] using written
  | upsertPending jobId queue priority notBefore =>
    rcases List.mem_append.mp written with earlier | here
    · exact .inl earlier
    · obtain ⟨rfl, rfl⟩ := Write.put.inj (List.mem_singleton.mp here)
      exact .inr ⟨priority, notBefore, rfl⟩
  | upsertLeased jobId queue priority lease worker expiresAt =>
    rcases List.mem_append.mp written with earlier | here
    · exact .inl earlier
    · obtain ⟨rfl, rfl⟩ := Write.put.inj (List.mem_singleton.mp here)
      cases pending
  | deleteDispatch jobId =>
    simp only [Stmt.exec] at written
    split at written
    · simpa [Transaction.write] using written
    · exact .inl written
  | selectEligible | selectExpired =>
    simp only [Stmt.exec] at written
    split at written <;> exact .inl written
  | deliver => cases verdict <;> exact .inl written
  | updateDeadline deadline lease now =>
    rcases List.mem_append.mp written with earlier | here
    · exact .inl earlier
    · obtain ⟨entry, listed, same⟩ := List.mem_map.mp here
      obtain ⟨rfl, rfl⟩ := Write.put.inj same
      have alive := (List.mem_filter.mp listed).2
      rw [DispatchRow.alive, Bool.and_eq_true, decide_eq_true_eq] at alive
      rw [alive.1] at pending
      cases pending

theorem Run.told {history : List (Record (Cluster J) Label Unit)} {cluster : Cluster J}
    (run : Run Cluster.Step .empty history cluster) :
    ∃ owes, Following Owed.permits Owed.after (fun _ _ => True) history cluster owes ∧ Told history cluster owes := by
  refine Run.following (fun _ => none) (fun _ => True) Told ?_ (fun _ => rfl) (fun _ => none) ?_ ?_ ?_ ?_ run
    fun _ _ => trivial
  · exact fun _ _ _ work _ => work.answering_settles
  · intro ticket session found
    cases found
  · intro history cluster owes ticket work told _ _ _ other session present id row written
    rcases lookup_resume present with ⟨rfl, rfl⟩ | ⟨different, before⟩
    · exact absurd written List.not_mem_nil
    · rw [Function.update_of_ne different, noticed, announce_other (Ne.symm different)]
      exact told other session before id row written
  · intro history cluster owes ticket label told closes other session present id row written
    obtain ⟨different, before⟩ := lookup_close present
    have step : label.ticket = ticket := by
      rcases closes with rfl | ⟨verdict, rfl⟩ <;> rfl
    rw [noticed, announce_other (step.trans_ne (Ne.symm different))]
    exact told other session before id row written
  · intro history cluster owes ticket verdict work statement rest tx told found permitted _ ran _ _ other session
      present id row written pending
    rcases lookup_resume present with ⟨rfl, rfl⟩ | ⟨different, before⟩
    · rw [Function.update_self, noticed]
      by_cases commit : statement = .commit
      · subst commit
        exact absurd written List.not_mem_nil
      · have kept : noticed history other ⊆ (announce cluster (.advance other verdict) (noticed history)).1 other :=
          announce_keeps found commit _
        rcases exec_puts statement written pending with earlier | ⟨priority, notBefore, rfl⟩
        · rcases told other _ found id row earlier pending with waiting | owed
          · exact .inl (kept waiting)
          · -- what is owed is announced by this very statement
            obtain rfl := permitted _ owed
            refine .inl ?_
            simp only [announce, found, Function.update_self]
            exact List.mem_insert_self
        · exact .inr rfl
    · rw [Function.update_of_ne different, noticed, announce_other (Ne.symm different)]
      exact told other session before id row written pending

omit [Serde J] [BuildProfile] in
theorem Transaction.put_of_moved {tx : Transaction J} {id : JobId} {row : DispatchRow}
    (moved : tx.moved id = some (some row)) : .put id row ∈ tx.writes := by
  unfold Transaction.moved at moved
  generalize tx.writes = writes at moved ⊢
  induction writes using List.reverseRecOn with
  | nil => cases moved
  | append_singleton writes last ih =>
    rw [List.foldl_append, List.foldl_cons, List.foldl_nil] at moved
    rw [List.mem_append, List.mem_singleton]
    cases last with
    | put other changed =>
      simp only at moved
      split at moved
      · rename_i here
        cases moved
        exact .inr (by rw [here])
      · exact .inl (ih moved)
    | drop other =>
      simp only at moved
      split at moved
      · cases moved
      · exact .inl (ih moved)
    | _ => exact .inl (ih moved)

/-- The step leaves the queue a row without a lease that was not there before. -/
def Opens (before after : Tables J) (queue : QueueName) : Prop :=
  ∃ id row, after.dispatch.lookup id = some row ∧ row.leaseId = none ∧ row.queue = queue ∧
    before.dispatch.lookup id ≠ some row

theorem Run.announces {history : List (Record (Cluster J) Label Unit)} {cluster after : Cluster J} {label : Label}
    {queue : QueueName} (run : Run Cluster.Step .empty history cluster) (taken : label.step cluster = some after)
    (opens : Opens cluster.world.tables after.world.tables queue) :
    queue.value ∈ (announce cluster label (noticed history)).2 := by
  obtain ⟨id, row, present, pending, rfl, new⟩ := opens
  obtain ⟨owes, following, told⟩ := Run.told run
  cases label with
  | start ticket work =>
    simp only [Label.step] at taken
    split at taken <;> cases taken
    exact absurd present new
  | abort ticket =>
    cases taken
    exact absurd present new
  | advance ticket verdict =>
    simp only [Label.step] at taken
    split at taken
    · cases taken
    · cases taken
      exact absurd present new
    · rename_i work statement rest tx found
      split at taken
      · cases taken
      · cases taken
        by_cases commit : statement = .commit
        · subst commit
          have settled := following.permitted found
          simp only [announce, found]
          have moved : tx.moved id = some (some row) := by
            have view : (tx.view cluster.world.tables).dispatch.lookup id = some row := present
            rw [Transaction.view_dispatch] at view
            cases moved : tx.moved id with
            | none =>
              rw [moved] at view
              exact absurd view new
            | some written =>
              rw [moved] at view
              exact congrArg some view
          rcases told ticket _ found id row (Transaction.put_of_moved moved) pending with waiting | owed
          · exact waiting
          · cases settled _ owed
        · have same : (statement.exec (cluster.others ticket) verdict cluster.world tx).1.1.tables =
              cluster.world.tables := exec_tables statement commit
          simp only [Cluster.resume, same] at present
          exact absurd present new

end Notices

/-! ### From a commit to the waiting streams -/

def notificationBuffer : Nat := 1024

structure Wait where
  queue : QueueName
  receiver : Nat

/-- The database with the hub: what is on the listener's connection, the fan-out, and the calls of `wait`. -/
structure Signalling (J : Type) where
  cluster : Cluster J
  notices : Nat → List String
  incoming : List String
  listening : Bool
  notifications : Broadcast String notificationBuffer
  waits : Nat → Option Wait

def Signalling.new {J : Type} : Signalling J :=
  ⟨.empty, fun _ => [], [], true, .new String notificationBuffer, fun _ => none⟩

/-- `recv` is one pass of the loop in `wait`, `leave` its timeout or the end of the stream that calls it. -/
inductive Signal where
  | database (label : Label)
  | notify (queue : QueueName)
  | fanOut
  | disconnect
  | reconnect
  | wait (id : Nat) (queue : QueueName)
  | recv (id : Nat)
  | leave (id : Nat)

inductive Noticed where
  | nothing
  | sent (payload : String)
  | woken
  | passed
deriving DecidableEq

variable {J : Type} [Serde J] [BuildProfile]

/-- What is committed while the listener is away is lost to it. -/
def Signalling.hear (signalling : Signalling J) (payloads : List String) : Signalling J :=
  if signalling.listening then { signalling with incoming := signalling.incoming ++ payloads } else signalling

/-- One pass of the loop in `wait`: the call goes on with another receiver, returns, or has nothing to read. -/
def Wait.pass (waiting : Wait) (notifications : Broadcast String notificationBuffer) :
    Option (Option Wait × Noticed) :=
  match notifications.recv waiting.receiver with
  | (.message payload, receiver) =>
    if payload = waiting.queue.value then some (none, .woken) else some (some { waiting with receiver }, .passed)
  | (.lagged _, _) | (.closed, _) => some (none, .woken)
  | (.empty, _) => none

def Signal.step (signal : Signal) (signalling : Signalling J) : Option (Signalling J × Noticed) :=
  match signal with
  | .database label => do
    let cluster ← label.step signalling.cluster
    let (notices, committed) := announce signalling.cluster label signalling.notices
    some ({ signalling.hear committed with cluster, notices }, .nothing)
  | .notify queue => some (signalling.hear [queue.value], .nothing)
  | .fanOut =>
    match signalling.incoming with
    | [] => none
    | payload :: incoming =>
      some ({ signalling with incoming, notifications := signalling.notifications.send payload }, .sent payload)
  | .disconnect => some ({ signalling with incoming := [], listening := false }, .nothing)
  | .reconnect => some ({ signalling with listening := true }, .nothing)
  | .wait id queue =>
    match signalling.waits id with
    | some _ => none
    | none =>
      let subscribed : Wait := ⟨queue, signalling.notifications.sent⟩
      some ({ signalling with waits := Function.update signalling.waits id (some subscribed) }, .nothing)
  | .recv id => do
    let waiting ← signalling.waits id
    let (left, noticed) ← waiting.pass signalling.notifications
    some ({ signalling with waits := Function.update signalling.waits id left }, noticed)
  | .leave id => some ({ signalling with waits := Function.update signalling.waits id none }, .nothing)

def Signalling.Step (before : Signalling J) (signal : Signal) (noticed : Noticed) (after : Signalling J) : Prop :=
  signal.step before = some (after, noticed)

abbrev SignalLog (J : Type) := List (Record (Signalling J) Signal Noticed)

omit [Serde J] [BuildProfile] in
theorem Wait.pass_some {waiting next : Wait} {notifications : Broadcast String notificationBuffer} {noticed : Noticed}
    (passed : waiting.pass notifications = some (some next, noticed)) :
    ∃ payload, notifications.recv waiting.receiver = (.message payload, next.receiver) ∧
      payload ≠ waiting.queue.value ∧ next.queue = waiting.queue := by
  unfold Wait.pass at passed
  split at passed
  · rename_i payload receiver read
    split_ifs at passed with same
    · cases passed
    · rw [Option.some.injEq, Prod.mk.injEq, Option.some.injEq] at passed
      rw [← passed.1]
      exact ⟨payload, read, same, rfl⟩
  all_goals cases passed

namespace Signalling

theorem Run.database {log : SignalLog J} {signalling : Signalling J} (run : Run Signalling.Step .new log signalling) :
    ∃ history, Run Cluster.Step .empty history signalling.cluster ∧ signalling.notices = noticed history := by
  induction run with
  | refl => exact ⟨[], .refl, rfl⟩
  | @step older before after signal noticed run taken ih =>
    obtain ⟨history, inner, same⟩ := ih
    have hears (payloads : List String) : (before.hear payloads).cluster = before.cluster ∧
        (before.hear payloads).notices = before.notices := by
      unfold hear
      split <;> exact ⟨rfl, rfl⟩
    unfold Step Signal.step at taken
    cases signal with
    | database label =>
      simp only [Option.bind_eq_bind, Option.bind_eq_some_iff] at taken
      obtain ⟨cluster, ran, taken⟩ := taken
      cases taken
      refine ⟨⟨before.cluster, label, (), cluster⟩ :: history, .step inner ran, ?_⟩
      funext ticket
      rw [Postgres.noticed, ← same]
    | notify queue =>
      cases taken
      rw [(hears _).1, (hears _).2]
      exact ⟨history, inner, same⟩
    | fanOut | wait =>
      simp only at taken
      split at taken <;> cases taken
      exact ⟨history, inner, same⟩
    | recv id =>
      simp only [Option.bind_eq_bind, Option.bind_eq_some_iff] at taken
      obtain ⟨waiting, _, _, _, taken⟩ := taken
      cases taken
      exact ⟨history, inner, same⟩
    | disconnect | reconnect | leave =>
      cases taken
      exact ⟨history, inner, same⟩

omit [Serde J] [BuildProfile] in
theorem hear_waits (signalling : Signalling J) (payloads : List String) :
    (signalling.hear payloads).waits = signalling.waits ∧
      (signalling.hear payloads).notifications = signalling.notifications := by
  unfold hear
  split <;> exact ⟨rfl, rfl⟩

inductive Sees (id : Nat) (before : Signalling J) : Signal → Noticed → Signalling J → Prop where
  | apart {signal : Signal} {noticed : Noticed} {after : Signalling J} (other : signal ≠ .recv id)
      (quiet : signal ≠ .fanOut) (waits : after.waits id = before.waits id)
      (notifications : after.notifications = before.notifications) : Sees id before signal noticed after
  | fanned {payload : String} {after : Signalling J} (line : before.incoming = payload :: after.incoming)
      (waits : after.waits id = before.waits id)
      (notifications : after.notifications = before.notifications.send payload) :
      Sees id before .fanOut (.sent payload) after
  | subscribed {queue : QueueName} {after : Signalling J} (free : before.waits id = none)
      (waits : after.waits id = some ⟨queue, before.notifications.sent⟩)
      (notifications : after.notifications = before.notifications) : Sees id before (.wait id queue) .nothing after
  | passed {waiting next : Wait} {payload : String} {noticed : Noticed} {after : Signalling J}
      (found : before.waits id = some waiting) (waits : after.waits id = some next)
      (read : before.notifications.recv waiting.receiver = (.message payload, next.receiver))
      (other : payload ≠ waiting.queue.value) (queue : next.queue = waiting.queue)
      (notifications : after.notifications = before.notifications) : Sees id before (.recv id) noticed after
  | left {signal : Signal} {noticed : Noticed} {after : Signalling J} (waits : after.waits id = none) :
      Sees id before signal noticed after

theorem Step.sees {before after : Signalling J} {signal : Signal} {noticed : Noticed}
    (taken : Step before signal noticed after) (id : Nat) : Sees id before signal noticed after := by
  unfold Step Signal.step at taken
  cases signal with
  | database label =>
    simp only [Option.bind_eq_bind, Option.bind_eq_some_iff] at taken
    obtain ⟨cluster, _, taken⟩ := taken
    cases taken
    exact .apart nofun nofun (congrFun (hear_waits ..).1 id) (hear_waits ..).2
  | notify queue =>
    cases taken
    exact .apart nofun nofun (congrFun (hear_waits ..).1 id) (hear_waits ..).2
  | fanOut =>
    simp only at taken
    split at taken
    · cases taken
    · rename_i line
      cases taken
      exact .fanned line rfl rfl
  | disconnect | reconnect =>
    cases taken
    exact .apart nofun nofun rfl rfl
  | wait other queue =>
    simp only at taken
    split at taken
    · cases taken
    · rename_i free
      cases taken
      by_cases same : id = other
      · subst same
        exact .subscribed free (Function.update_self ..) rfl
      · exact .apart nofun nofun (Function.update_of_ne same ..) rfl
  | leave other =>
    cases taken
    by_cases same : id = other
    · subst same
      exact .left (Function.update_self ..)
    · exact .apart nofun nofun (Function.update_of_ne same ..) rfl
  | recv other =>
    simp only [Option.bind_eq_bind, Option.bind_eq_some_iff] at taken
    obtain ⟨waiting, found, ⟨left, _⟩, passed, taken⟩ := taken
    cases taken
    by_cases same : id = other
    · subst same
      cases left with
      | none => exact .left (Function.update_self ..)
      | some next =>
        obtain ⟨payload, read, different, queue⟩ := Wait.pass_some passed
        exact .passed found (Function.update_self ..) read different queue rfl
    · refine .apart ?_ nofun (Function.update_of_ne same ..) rfl
      rintro ⟨⟩
      exact same rfl

theorem Step.line {before after : Signalling J} {signal : Signal} {noticed : Noticed}
    (taken : Step before signal noticed after) (listening : before.listening = true) (kept : signal ≠ .disconnect) :
    after.listening = true ∧ ((signal ≠ .fanOut ∧ before.incoming <+: after.incoming) ∨
      signal = .fanOut ∧ ∃ payload, noticed = .sent payload ∧ before.incoming = payload :: after.incoming) := by
  have hears (payloads : List String) : (before.hear payloads).listening = true ∧
      before.incoming <+: (before.hear payloads).incoming := by
    unfold hear
    rw [if_pos listening]
    exact ⟨listening, List.prefix_append ..⟩
  unfold Step Signal.step at taken
  cases signal with
  | database label =>
    simp only [Option.bind_eq_bind, Option.bind_eq_some_iff] at taken
    obtain ⟨cluster, _, taken⟩ := taken
    cases taken
    exact ⟨(hears _).1, .inl ⟨nofun, (hears _).2⟩⟩
  | notify queue =>
    cases taken
    exact ⟨(hears _).1, .inl ⟨nofun, (hears _).2⟩⟩
  | fanOut =>
    simp only at taken
    split at taken
    · cases taken
    · rename_i line
      cases taken
      exact ⟨listening, .inr ⟨rfl, _, rfl, line⟩⟩
  | disconnect => exact absurd rfl kept
  | reconnect =>
    cases taken
    exact ⟨rfl, .inl ⟨nofun, List.prefix_rfl⟩⟩
  | wait =>
    simp only at taken
    split at taken <;> cases taken
    exact ⟨listening, .inl ⟨nofun, List.prefix_rfl⟩⟩
  | recv =>
    simp only [Option.bind_eq_bind, Option.bind_eq_some_iff] at taken
    obtain ⟨_, _, _, _, taken⟩ := taken
    cases taken
    exact ⟨listening, .inl ⟨nofun, List.prefix_rfl⟩⟩
  | leave =>
    cases taken
    exact ⟨listening, .inl ⟨nofun, List.prefix_rfl⟩⟩

theorem Run.behind {log : SignalLog J} {signalling : Signalling J} (run : Run Signalling.Step .new log signalling)
    {id : Nat} {waiting : Wait} (found : signalling.waits id = some waiting) :
    waiting.receiver ≤ signalling.notifications.sent := by
  refine run.invariant (fun signalling : Signalling J => ∀ waiting, signalling.waits id = some waiting →
    waiting.receiver ≤ signalling.notifications.sent) ?_ ?_ waiting found
  · intro waiting found
    cases found
  intro before signal noticed after kept taken waiting found
  cases taken.sees id with
  | apart _ _ waits notifications =>
    rw [notifications]
    exact kept waiting (waits ▸ found)
  | fanned _ waits notifications =>
    rw [notifications]
    exact Nat.le_succ_of_le (kept waiting (waits ▸ found))
  | subscribed _ waits notifications =>
    rw [waits] at found
    cases found
    rw [notifications]
  | passed _ waits read _ _ notifications =>
    rw [waits] at found
    cases found
    obtain ⟨next, _, before, _⟩ := Broadcast.recv_message read
    rw [next, notifications]
    exact before
  | left waits =>
    rw [waits] at found
    cases found

def fanOuts (log : SignalLog J) : Nat := log.countP fun record => match record.label with
  | .fanOut => true
  | _ => false

def passes (id : Nat) (log : SignalLog J) : Nat := log.countP fun record => match record.label with
  | .recv other => other = id
  | _ => false

def Stays (id : Nat) (log : SignalLog J) : Prop := ∀ record ∈ log, (record.after.waits id).isSome = true

omit [Serde J] [BuildProfile] in
theorem passes_cons {id : Nat} {record : Record (Signalling J) Signal Noticed} {older : SignalLog J}
    (other : record.label ≠ .recv id) : passes id (record :: older) = passes id older := by
  refine List.countP_cons_of_neg ?_
  split
  · rename_i label
    simp only [decide_eq_true_eq]
    rintro rfl
    exact other label
  · nofun

theorem Run.queue {origin signalling : Signalling J} {log : SignalLog J} {id : Nat} {waiting : Wait}
    (run : Run Signalling.Step origin log signalling) (found : origin.waits id = some waiting) (stays : Stays id log) :
    ∃ now, signalling.waits id = some now ∧ now.queue = waiting.queue := by
  induction run with
  | refl => exact ⟨waiting, found, rfl⟩
  | @step older before after signal noticed run taken ih =>
    obtain ⟨here, earlier⟩ := List.forall_mem_cons.mp stays
    obtain ⟨now, kept, same⟩ := ih earlier
    cases taken.sees id with
    | apart _ _ waits _ | fanned _ waits _ => exact ⟨now, waits.trans kept, same⟩
    | subscribed free =>
      rw [kept] at free
      cases free
    | passed found waits _ _ queue _ =>
      rw [kept] at found
      cases found
      exact ⟨_, waits, queue.trans same⟩
    | left waits =>
      simp only [waits] at here
      cases here

theorem Run.reads {origin signalling : Signalling J} {log : SignalLog J} {id position : Nat} {waiting : Wait}
    (run : Run Signalling.Step origin log signalling) (found : origin.waits id = some waiting)
    (sent : origin.notifications.Sent position waiting.queue.value) (before : waiting.receiver ≤ position)
    (stays : Stays id log) :
    ∃ now, signalling.waits id = some now ∧ now.queue = waiting.queue ∧
      signalling.notifications.Sent position waiting.queue.value ∧ now.receiver ≤ position ∧
      (passes id log = 0 ∨ position + passes id log < now.receiver + notificationBuffer) := by
  induction run with
  | refl => exact ⟨waiting, found, rfl, sent, before, .inl rfl⟩
  | @step older before after signal noticed run taken ih =>
    obtain ⟨here, earlier⟩ := List.forall_mem_cons.mp stays
    obtain ⟨now, kept, same, sent, behind, bound⟩ := ih earlier
    cases taken.sees id with
    | apart other _ waits notifications =>
      rw [passes_cons other, notifications]
      exact ⟨now, waits.trans kept, same, sent, behind, bound⟩
    | fanned _ waits notifications =>
      rw [passes_cons (show Signal.fanOut ≠ .recv id from nofun), notifications]
      exact ⟨now, waits.trans kept, same, sent.send _, behind, bound⟩
    | subscribed free =>
      rw [kept] at free
      cases free
    | passed found waits read other queue notifications =>
      rw [kept] at found
      cases found
      have counted : passes id (⟨before, .recv id, noticed, after⟩ :: older) = passes id older + 1 :=
        List.countP_cons_of_pos (decide_eq_true rfl)
      have onward := sent.passed behind read (same ▸ other)
      obtain ⟨next, reached, _, _⟩ := Broadcast.recv_message read
      have room := before.notifications.sent_le
      have inside := sent.1
      rw [notifications]
      refine ⟨_, waits, queue.trans same, sent, onward, .inr ?_⟩
      omega
    | left waits =>
      simp only [waits] at here
      cases here

theorem Run.forwards {origin signalling : Signalling J} {log : SignalLog J} {ahead behind : List String}
    {payload : String} (run : Run Signalling.Step origin log signalling) (listening : origin.listening = true)
    (line : origin.incoming = ahead ++ payload :: behind) (kept : ∀ record ∈ log, record.label ≠ .disconnect) :
    signalling.listening = true ∧
      ((∃ front back, signalling.incoming = front ++ payload :: back ∧ front.length + fanOuts log = ahead.length) ∨
        ∃ later delivery earlier, log = later ++ delivery :: earlier ∧ delivery.label = .fanOut ∧
          delivery.result = .sent payload) := by
  induction run with
  | refl => exact ⟨listening, .inl ⟨ahead, behind, line, rfl⟩⟩
  | @step older before after signal noticed run taken ih =>
    obtain ⟨here, earlier⟩ := List.forall_mem_cons.mp kept
    obtain ⟨listening, waiting | ⟨later, delivery, first, rfl, label, sent⟩⟩ := ih earlier
    · obtain ⟨still, line⟩ := taken.line listening here
      refine ⟨still, ?_⟩
      obtain ⟨front, back, held, count⟩ := waiting
      rcases line with ⟨other, more, grown⟩ | ⟨rfl, popped, rfl, line⟩
      · have counted : fanOuts (⟨before, signal, noticed, after⟩ :: older) = fanOuts older := by
          refine List.countP_cons_of_neg ?_
          cases signal with
          | fanOut => exact absurd rfl other
          | _ => nofun
        refine .inl ⟨front, back ++ more, ?_, counted ▸ count⟩
        rw [← grown, held, List.append_assoc, List.cons_append]
      · have counted : fanOuts (⟨before, .fanOut, .sent popped, after⟩ :: older) = fanOuts older + 1 :=
          List.countP_cons_of_pos rfl
        rw [held] at line
        cases front with
        | nil =>
          rw [List.nil_append, List.cons.injEq] at line
          exact .inr ⟨[], _, older, rfl, rfl, by rw [line.1]⟩
        | cons first front =>
          rw [List.cons_append, List.cons.injEq] at line
          refine .inl ⟨front, back, line.2.symm, ?_⟩
          rw [counted, ← count, List.length_cons]
          omega
    · obtain ⟨still, _⟩ := taken.line listening here
      exact ⟨still, .inr ⟨_ :: later, delivery, first, rfl, label, sent⟩⟩

def Announces (before : Signalling J) (signal : Signal) (queue : QueueName) : Prop :=
  ∃ label, signal = .database label ∧ queue.value ∈ (announce before.cluster label before.notices).2

theorem Run.opened {log : SignalLog J} {before after : Signalling J} {signal : Signal} {noticed : Noticed}
    {queue : QueueName} (run : Run Signalling.Step .new log before) (taken : Step before signal noticed after)
    (opens : Opens before.cluster.world.tables after.cluster.world.tables queue) :
    Announces before signal queue ∧ (before.listening = true →
      after.listening = true ∧ queue.value ∈ after.incoming ∧ after.waits = before.waits) := by
  obtain ⟨history, inner, same⟩ := Run.database run
  have closed (kept : after.cluster = before.cluster) : False := by
    obtain ⟨id, row, present, _, _, new⟩ := opens
    rw [kept] at present
    exact new present
  unfold Step Signal.step at taken
  cases signal with
  | database label =>
    simp only [Option.bind_eq_bind, Option.bind_eq_some_iff] at taken
    obtain ⟨cluster, ran, taken⟩ := taken
    cases taken
    have announced := Run.announces inner ran opens
    rw [← same] at announced
    refine ⟨⟨label, rfl, announced⟩, fun listening => ?_⟩
    simp only [hear, if_pos listening]
    exact ⟨listening, List.mem_append_right _ announced, trivial⟩
  | notify queue =>
    cases taken
    exact (closed (by unfold hear; split <;> rfl)).elim
  | fanOut | wait =>
    simp only at taken
    split at taken <;> cases taken
    exact (closed rfl).elim
  | recv =>
    simp only [Option.bind_eq_bind, Option.bind_eq_some_iff] at taken
    obtain ⟨_, _, _, _, taken⟩ := taken
    cases taken
    exact (closed rfl).elim
  | disconnect | reconnect | leave =>
    cases taken
    exact (closed rfl).elim

end Signalling

open Signalling

/-- No wake-up is lost behind a commit that opens a job: it announces the queue, and a call that waits for it is still
    waiting only until the listener has fanned out what was on its connection, and from then on for less than a
    buffer of passes through its loop, none of which has to wait. -/
theorem opened_job_wakes_waiters {newer older : SignalLog J} {record : Record (Signalling J) Signal Noticed}
    {signalling : Signalling J} {queue : QueueName}
    (run : Run Signalling.Step .new (newer ++ record :: older) signalling)
    (opens : Opens record.before.cluster.world.tables record.after.cluster.world.tables queue) :
    Announces record.before record.label queue ∧
    ∀ id waiting, record.before.waits id = some waiting → waiting.queue = queue → record.before.listening = true →
      (∀ later ∈ newer, later.label ≠ .disconnect) → Stays id newer →
      fanOuts newer < record.after.incoming.length ∨
        ∃ later delivery earlier, newer = later ++ delivery :: earlier ∧ delivery.label = .fanOut ∧
          delivery.result = .sent queue.value ∧ passes id later < notificationBuffer ∧
          ∃ now, signalling.waits id = some now ∧ (now.pass signalling.notifications).isSome = true := by
  obtain ⟨past, taken, future⟩ := run.split
  obtain ⟨announces, heard⟩ := Run.opened past taken opens
  refine ⟨announces, ?_⟩
  rintro id waiting waits rfl listening kept stays
  obtain ⟨listening, announced, same⟩ := heard listening
  obtain ⟨ahead, behind, line⟩ := List.append_of_mem announced
  rw [← same] at waits
  obtain ⟨_, ⟨front, _, _, count⟩ | ⟨later, delivery, earlier, rfl, label, sent⟩⟩ :=
    Run.forwards future listening line kept
  · refine .inl ?_
    rw [line, List.length_append, List.length_cons]
    omega
  · refine .inr ⟨later, delivery, earlier, rfl, label, sent, ?_⟩
    have whole := run
    rw [List.append_assoc, List.cons_append] at whole
    obtain ⟨before, fanned, after⟩ := whole.split
    obtain ⟨_, _, between⟩ := before.split
    obtain ⟨waited, found, queue⟩ := Run.queue between waits fun record member =>
      stays record (List.mem_append_right _ (List.mem_cons_of_mem _ member))
    have reached := Run.behind before found
    have step := fanned.sees id
    rw [label, sent] at step
    cases step with
    | apart _ quiet => exact absurd rfl quiet
    | left gone =>
      have here := stays delivery (List.mem_append_right _ List.mem_cons_self)
      rw [gone] at here
      cases here
    | fanned _ waits notifications =>
      rw [← queue] at notifications
      have staying : Stays id later := fun record member => stays record (List.mem_append_left _ member)
      obtain ⟨now, still, _, inside, next, bound⟩ := Run.reads after (waits.trans found)
        (notifications ▸ Broadcast.sent_send ..) reached staying
      refine ⟨by unfold notificationBuffer at bound ⊢; omega, now, still, ?_⟩
      have ready := inside.ready next
      unfold Wait.pass
      split
      · split_ifs <;> rfl
      · rfl
      · rfl
      · rename_i empty
        rw [empty] at ready
        exact absurd rfl ready

def wakingSignals : List Signal :=
  [.recv 7, .fanOut, .fanOut] ++ (Label.advances 0 7).map .database ++
    [.database (.start 0 (.operation (.append ⟨1⟩ 0 (Sample.command.envelopes (Sample.ports 0 1))))),
      .notify ⟨"other", by decide⟩, .wait 7 Sample.queue]

omit [Serde J] [BuildProfile] in
theorem opened_job_wakes_waiters_enqueued :
    let _ := BuildProfile.release
    ∃ (newer older : SignalLog TypedJson) (record : Record (Signalling TypedJson) Signal Noticed)
      (signalling : Signalling TypedJson),
      Run Signalling.Step .new (newer ++ record :: older) signalling ∧
      Opens record.before.cluster.world.tables record.after.cluster.world.tables Sample.queue ∧
      Announces record.before record.label Sample.queue ∧
      ∃ later delivery earlier, newer = later ++ delivery :: earlier ∧ delivery.result = .sent Sample.queue.value ∧
        passes 7 later < notificationBuffer ∧
        ∃ now, signalling.waits 7 = some now ∧ (now.pass signalling.notifications).isSome = true := by
  intro _
  have seen : (Run.attempt Signal.step (.new : Signalling TypedJson) wakingSignals).map (fun ran =>
      ((ran.1.take 3).all fun record => (record.after.waits 7).isSome, fanOuts (ran.1.take 3),
        (ran.1[3]?).any fun record => record.before.listening && decide (record.after.incoming.length = 2) &&
          (record.before.waits 7).any (fun waiting => decide (waiting.queue = Sample.queue)) &&
          (record.before.cluster.world.tables.dispatch.lookup ⟨1⟩).isNone &&
          (record.after.cluster.world.tables.dispatch.lookup ⟨1⟩).any fun row =>
            row.leaseId.isNone && decide (row.queue = Sample.queue))) = some (true, 2, true) := by decide +kernel
  rw [Option.map_eq_some_iff] at seen
  obtain ⟨⟨log, signalling⟩, ran, seen⟩ := seen
  simp only [Prod.mk.injEq, Option.any_eq_true, Bool.and_eq_true, decide_eq_true_eq, Option.isNone_iff_eq_none] at seen
  obtain ⟨stays, fans, record, here, ⟨⟨⟨listening, line⟩, waiting, waits, queue⟩, missing⟩, row, present, free,
    named⟩ := seen
  obtain ⟨run, labels⟩ := Run.of_attempt (fun _ _ _ _ taken => (taken : Signalling.Step _ _ _ _)) ran
  have split : log = log.take 3 ++ record :: log.drop 4 := by
    obtain ⟨bound, same⟩ := List.getElem?_eq_some_iff.mp here
    rw [← same, List.getElem_cons_drop, List.take_append_drop]
  have kept : ∀ later ∈ log.take 3, later.label ≠ .disconnect := by
    intro later member
    have listed := List.mem_map_of_mem (f := (·.label)) member
    rw [List.map_take, labels] at listed
    rcases List.mem_cons.mp listed with same | listed
    · rw [same]
      rintro ⟨⟩
    · rw [(List.mem_pair.mp listed).elim id id]
      rintro ⟨⟩
  rw [split] at run
  have opens : Opens record.before.cluster.world.tables record.after.cluster.world.tables Sample.queue :=
    ⟨⟨1⟩, row, present, free, named, by rw [missing]; exact (Option.some_ne_none row).symm⟩
  obtain ⟨announces, wakes⟩ := opened_job_wakes_waiters run opens
  rcases wakes 7 waiting waits queue listening kept (List.all_eq_true.mp stays) with
    early | ⟨later, delivery, earlier, same, _, sent, rest⟩
  · omega
  · exact ⟨_, _, record, signalling, run, opens, announces, later, delivery, earlier, same, sent, rest⟩

end Koine.Postgres
