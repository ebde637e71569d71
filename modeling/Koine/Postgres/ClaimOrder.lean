import Koine.Postgres.Ranks
import Koine.Postgres.Rebuild

namespace Koine.Postgres

open Library Domain Application

section Matching

variable {J : Type}

/-- The same log and the same dispatch rows, with numbers that order the rows alike, but for jobs set apart. -/
structure Matched (apart : JobId → JobId → Prop) (left right : Tables J) (top bound : Nat) : Prop where
  events : left.events = right.events
  columns : ∀ id, (left.dispatch.lookup id).map DispatchRow.columns =
    (right.dispatch.lookup id).map DispatchRow.columns
  order : ∀ id ∈ left.dispatch, ∀ other ∈ left.dispatch, ¬ apart id other →
    (left.rank id < left.rank other ↔ right.rank id < right.rank other)
  left : Ranked left top
  right : Ranked right bound

section

variable {left right : Tables J} {top bound : Nat} {apart : JobId → JobId → Prop}

theorem Matched.mono (matched : Matched apart left right top bound) {higher upper : Nat} (above : top ≤ higher)
    (beyond : bound ≤ upper) : Matched apart left right higher upper where
  events := matched.events
  columns := matched.columns
  order := matched.order
  left := matched.left.mono above
  right := matched.right.mono beyond

theorem Matched.mem_iff (matched : Matched apart left right top bound) (id : JobId) :
    id ∈ left.dispatch ↔ id ∈ right.dispatch := by
  rw [← AList.lookup_isSome, ← AList.lookup_isSome, ← Option.isSome_map (f := DispatchRow.columns),
    matched.columns, Option.isSome_map]

theorem Matched.rows (matched : Matched apart left right top bound) {id : JobId} {row : DispatchRow}
    (present : left.dispatch.lookup id = some row) :
    ∃ other, right.dispatch.lookup id = some other ∧ other.columns = row.columns := by
  have same := matched.columns id
  rw [present, Option.map_some, eq_comm, Option.map_eq_some_iff] at same
  exact same

theorem Matched.rows_back (matched : Matched apart left right top bound) {id : JobId} {row : DispatchRow}
    (present : right.dispatch.lookup id = some row) :
    ∃ other, left.dispatch.lookup id = some other ∧ other.columns = row.columns := by
  have same := matched.columns id
  rw [present, Option.map_some, Option.map_eq_some_iff] at same
  exact same

section Upsert

variable {id : JobId} {row : Nat → DispatchRow} (numbered : ∀ seq, (row seq).seq = seq) {drawn : Nat}

include numbered

theorem Matched.put (matched : Matched apart left right top bound)
    (same : ∀ seq other, (row seq).columns = (row other).columns) :
    Matched apart (Write.apply left (.put id (row ((left.dispatch.lookup id).elim (top + 1) (·.seq)))))
      (Write.apply right (.put id (row ((right.dispatch.lookup id).elim (bound + 1) (·.seq)))))
      (top + 1) (bound + 1) where
  events := matched.events
  columns := by
    intro other
    simp only [Write.apply]
    by_cases here : other = id
    · subst here
      rw [AList.lookup_insert, AList.lookup_insert, Option.map_some, Option.map_some, same]
    · rw [AList.lookup_insert_ne here, AList.lookup_insert_ne here]
      exact matched.columns other
  order := by
    intro first one second two near
    rw [mem_put] at one two
    by_cases known : id ∈ left.dispatch
    · have old : ∀ other, other = id ∨ other ∈ left.dispatch → other ∈ left.dispatch := by
        rintro other (rfl | member)
        · exact known
        · exact member
      have there := (matched.mem_iff id).mp known
      rw [rank_upsert_old numbered known, rank_upsert_old numbered known, rank_upsert_old numbered there,
        rank_upsert_old numbered there]
      exact matched.order first (old first one) second (old second two) near
    · have above : ∀ other ∈ left.dispatch, left.rank other < top + 1 ∧ right.rank other < bound + 1 := by
        intro other member
        exact ⟨Nat.lt_succ_of_le (matched.left.below other member),
          Nat.lt_succ_of_le (matched.right.below other ((matched.mem_iff other).mp member))⟩
      have absent := mt (matched.mem_iff id).mpr known
      rw [rank_upsert_new numbered known, rank_upsert_new numbered known, rank_upsert_new numbered absent,
        rank_upsert_new numbered absent]
      by_cases here : first = id <;> by_cases there : second = id
      · simp [here, there]
      · have bounds := above second (two.resolve_left there)
        simp only [here, there, if_true, if_false]
        omega
      · have bounds := above first (one.resolve_left here)
        simp only [here, there, if_true, if_false]
        omega
      · simp only [here, there, if_false]
        exact matched.order first (one.resolve_left here) second (two.resolve_left there) near
  left := matched.left.put numbered
  right := matched.right.put numbered

end Upsert

theorem Matched.drop (matched : Matched apart left right top bound) (id : JobId) :
    Matched apart (Write.apply left (.drop id)) (Write.apply right (.drop id)) top bound where
  events := matched.events
  columns := by
    intro other
    simp only [Write.apply]
    by_cases here : other = id
    · subst here
      rw [AList.lookup_erase, AList.lookup_erase]
    · rw [AList.lookup_erase_ne here, AList.lookup_erase_ne here]
      exact matched.columns other
  order := by
    intro first one second two near
    have here : ∀ other, other ∈ (Write.apply left (.drop id)).dispatch →
        other ∈ (Write.apply right (.drop id)).dispatch := by
      intro other member
      obtain ⟨away, listed⟩ := AList.mem_erase.mp member
      exact AList.mem_erase.mpr ⟨away, (matched.mem_iff other).mp listed⟩
    rw [(rank_drop one).2, (rank_drop two).2, (rank_drop (here first one)).2, (rank_drop (here second two)).2]
    exact matched.order first (rank_drop one).1 second (rank_drop two).1 near
  left := matched.left.drop id
  right := matched.right.drop id

theorem Matched.record (matched : Matched apart left right top bound) (row : EventRow J) :
    Matched apart (Write.apply left (.event row)) (Write.apply right (.event row)) top bound where
  events := by
    simp only [Write.apply]
    rw [matched.events]
  columns := matched.columns
  order := matched.order
  left := ⟨matched.left.below, matched.left.distinct⟩
  right := ⟨matched.right.below, matched.right.distinct⟩

theorem Matched.outbox (matched : Matched apart left right top bound) (out other : OutboxRow J) :
    Matched apart (Write.apply left (.outbox out)) (Write.apply right (.outbox other)) top bound where
  events := matched.events
  columns := matched.columns
  order := matched.order
  left := ⟨matched.left.below, matched.left.distinct⟩
  right := ⟨matched.right.below, matched.right.distinct⟩

theorem eligible_of_columns {row other : DispatchRow} (same : row.columns = other.columns) (queue : QueueName)
    (now : DateTime) : row.eligible queue now = other.eligible queue now := by
  have factors : ∀ row : DispatchRow, row.eligible queue now =
      (row.columns.queue = queue && row.columns.leaseId.isNone && row.columns.notBefore.all (· ≤ now)) :=
    fun _ => rfl
  rw [factors, factors, same]

theorem priority_eq {left right : Priority} (same : left.value.toInt = right.value.toInt) : left = right := by
  cases left
  cases right
  exact congrArg _ (Int16.toInt_inj.mp same)

def Rivals (row rival : DispatchRow) : Prop := row.queue = rival.queue ∧ row.priority = rival.priority

theorem Rivals.symm {row rival : DispatchRow} (rivals : Rivals row rival) : Rivals rival row :=
  ⟨rivals.1.symm, rivals.2.symm⟩

theorem Rivals.trans {row rival other : DispatchRow} (first : Rivals row rival) (second : Rivals rival other) :
    Rivals row other :=
  ⟨first.1.trans second.1, first.2.trans second.2⟩

def Tables.Compares (tables : Tables J) (apart : JobId → JobId → Prop) : Prop :=
  ∀ id other row rival, tables.dispatch.lookup id = some row → tables.dispatch.lookup other = some rival →
    Rivals row rival → ¬ apart id other

theorem DispatchRow.eligible_queue {row : DispatchRow} {queue : QueueName} {now : DateTime}
    (eligible : row.eligible queue now = true) : row.queue = queue := by
  simp only [DispatchRow.eligible, Bool.and_eq_true, decide_eq_true_eq] at eligible
  exact eligible.1.1

theorem Matched.pick (matched : Matched apart left right top bound) (compares : left.Compares apart)
    (queue : QueueName) (now : DateTime) : left.pick queue now = right.pick queue now := by
  cases first : left.pick queue now with
  | none =>
    rw [eq_comm, pick_eq_none]
    rw [pick_eq_none] at first
    intro id row present
    obtain ⟨other, found, same⟩ := matched.rows_back present
    rw [← eligible_of_columns same]
    exact first id other found
  | some id =>
    obtain ⟨row, present, eligible, greatest⟩ := pick_eq_some first
    obtain ⟨new, shown, same⟩ := matched.rows present
    cases second : right.pick queue now with
    | none =>
      rw [pick_eq_none] at second
      have refused := second id new shown
      rw [eligible_of_columns same, eligible] at refused
      cases refused
    | some other =>
      obtain ⟨next, seen, chosen, most⟩ := pick_eq_some second
      obtain ⟨rival, found, equal⟩ := matched.rows_back seen
      have free : rival.eligible queue now = true := by
        rw [eligible_of_columns equal]
        exact chosen
      have lower := claimLe_iff.mp (greatest other rival found free)
      have upper := claimLe_iff.mp (most id new shown (by rw [eligible_of_columns same]; exact eligible))
      have priority : new.priority = row.priority := congrArg DispatchColumns.priority same
      have level : rival.priority = next.priority := congrArg DispatchColumns.priority equal
      -- equal priorities, and each side has the other job's number no lower than its own choice's
      have one : id ∈ left.dispatch := mem_dispatch.mpr ⟨_, present⟩
      have two : other ∈ left.dispatch := mem_dispatch.mpr ⟨_, found⟩
      rw [priority] at upper
      rw [level] at lower
      have value : row.priority.value.toInt = rival.priority.value.toInt := by
        rw [level]
        omega
      have near : ¬ apart id other := compares id other row rival present found
        ⟨(DispatchRow.eligible_queue eligible).trans (DispatchRow.eligible_queue free).symm, priority_eq value⟩
      have order := matched.order id one other two near
      rw [rank_of_lookup present, rank_of_lookup found, rank_of_lookup shown, rank_of_lookup seen] at order
      have tied : left.rank id = left.rank other := by
        rw [rank_of_lookup present, rank_of_lookup found]
        omega
      rw [matched.left.distinct id one other two tied]

end

end Matching

section Simulation

variable {J : Type}

/-- Two connections, each alone with its database, that cannot be told apart by claims. -/
structure Alike (apart : JobId → JobId → Prop) (left right : World J × Transaction J) : Prop where
  tables : Matched apart left.1.tables right.1.tables left.1.dispatchSeq right.1.dispatchSeq
  view : Matched apart (left.2.view left.1.tables) (right.2.view right.1.tables) left.1.dispatchSeq
    right.1.dispatchSeq
  globalSeq : left.1.globalSeq = right.1.globalSeq

def Stmt.claims (first : Bool) : Stmt J → Bool
  | .selectEligible .. => first
  | .commit => true
  | statement => statement.appends

variable {apart : JobId → JobId → Prop}

theorem Alike.upsert {left right : World J × Transaction J} (alike : Alike apart left right) (id : JobId)
    {row : Nat → DispatchRow} (numbered : ∀ seq, (row seq).seq = seq)
    (same : ∀ seq other, (row seq).columns = (row other).columns) :
    Alike apart (upsert left.1 left.2 id row) (upsert right.1 right.2 id row) where
  tables := alike.tables.mono (Nat.le_succ _) (Nat.le_succ _)
  view := by
    simp only [Postgres.upsert, Transaction.view_write]
    exact alike.view.put numbered same
  globalSeq := alike.globalSeq

theorem Alike.insertEvent {left right : World J × Transaction J} (alike : Alike apart left right)
    (columns : EventColumns J) :
    ((Stmt.insertEvent columns).alone left).2 = ((Stmt.insertEvent columns).alone right).2 ∧
      Alike apart ((Stmt.insertEvent columns).alone left).1 ((Stmt.insertEvent columns).alone right).1 := by
  have ids : (left.2.view left.1.tables).hasEventId columns.eventId =
      (right.2.view right.1.tables).hasEventId columns.eventId := by
    rw [Tables.hasEventId, alike.view.events, Tables.hasEventId]
  have versions : (left.2.view left.1.tables).hasVersion columns.streamId columns.version =
      (right.2.view right.1.tables).hasVersion columns.streamId columns.version := by
    rw [Tables.hasVersion, alike.view.events, Tables.hasVersion]
  simp only [Stmt.alone, Stmt.exec, ids, versions, alike.globalSeq]
  by_cases taken : (right.2.view right.1.tables).hasEventId columns.eventId = true
  · rw [if_pos taken, if_pos taken]
    exact ⟨rfl, alike.tables, alike.view, rfl⟩
  · rw [if_neg taken, if_neg taken]
    by_cases used : (right.2.view right.1.tables).hasVersion columns.streamId columns.version = true
    · rw [if_pos used, if_pos used]
      exact ⟨rfl, alike.tables, alike.view, rfl⟩
    · rw [if_neg used, if_neg used]
      refine ⟨rfl, alike.tables, ?_, rfl⟩
      simp only [Transaction.view_write]
      exact alike.view.record _

theorem Alike.step {statement : Stmt J} {first : Bool} (claims : statement.claims first = true)
    {left right : World J × Transaction J} (alike : Alike apart left right)
    (compares : first = true → (left.2.view left.1.tables).Compares apart) :
    (statement.alone left).2 = (statement.alone right).2 ∧
      Alike apart (statement.alone left).1 (statement.alone right).1 := by
  have rows : ∀ stream,
      (left.2.view left.1.tables).streamRows stream = (right.2.view right.1.tables).streamRows stream :=
    fun stream => streamRows_congr alike.view.events stream
  cases statement with
  | maxVersion stream => exact ⟨by simp only [Stmt.alone, Stmt.exec, rows], alike⟩
  | loadStream stream => exact ⟨by simp only [Stmt.alone, Stmt.exec, rows], alike⟩
  | insertEvent columns => exact alike.insertEvent columns
  | insertOutbox eventId streamId envelope =>
    refine ⟨rfl, alike.tables, ?_, alike.globalSeq⟩
    simp only [Stmt.alone, Stmt.exec, Transaction.view_write]
    exact alike.view.outbox _ _
  | upsertPending id queue priority notBefore =>
    refine ⟨rfl, ?_⟩
    simp only [Stmt.alone, Stmt.exec]
    exact alike.upsert id (fun _ => rfl) fun _ _ => rfl
  | upsertLeased id queue priority lease worker expiresAt =>
    refine ⟨rfl, ?_⟩
    simp only [Stmt.alone, Stmt.exec]
    exact alike.upsert id (fun _ => rfl) fun _ _ => rfl
  | notifyDispatch queue => exact ⟨rfl, alike⟩
  | deleteDispatch id =>
    refine ⟨rfl, ?_⟩
    have both := alike.view.mem_iff id
    rw [← AList.lookup_isSome, ← AList.lookup_isSome] at both
    simp only [Stmt.alone, Stmt.exec]
    cases here : (left.2.view left.1.tables).dispatch.lookup id <;>
      cases there : (right.2.view right.1.tables).dispatch.lookup id <;>
        simp only [here, there, Option.isSome_none, Option.isSome_some, Bool.false_eq_true, iff_false, iff_true,
          not_true_eq_false] at both
    · exact alike
    · refine ⟨alike.tables, ?_, alike.globalSeq⟩
      simp only [Transaction.view_write]
      exact alike.view.drop id
  | selectEligible queue now =>
    have picked := alike.view.pick (compares claims) queue (timestamptz now)
    simp only [Tables.pick] at picked
    simp only [Stmt.alone, Stmt.exec, List.any_nil, Bool.not_false, Bool.and_true]
    split <;> split <;> simp_all
    · exact ⟨alike.tables, alike.view, alike.globalSeq⟩
  | commit => exact ⟨rfl, alike.view, alike.view, alike.globalSeq⟩
  | _ => cases claims

section Claims

variable [Serde J] [BuildProfile]

abbrev OnlyClaims {ε α : Type} (program : Tx J ε α) (first : Bool) : Prop :=
  program.Obeys (fun first statement => statement.claims first = true) (fun _ _ _ => false) (fun _ _ => True) first

omit [Serde J] [BuildProfile] in
theorem OnlyAppends.onlyClaims {ε α : Type} {program : Tx J ε α} (only : OnlyAppends program) :
    OnlyClaims program false := by
  refine only.image (fun _ => false) ?_ (fun _ _ _ => rfl) fun _ _ => id
  intro _ statement appends
  cases statement <;> first | rfl | exact appends

theorem claim_onlyClaims (ports : Ports) (queue : QueueName) (worker : WorkerId) (ttl : Duration) :
    OnlyClaims (claim ports queue worker ttl : Tx J DispatchError _) true := by
  unfold claim
  rw [OnlyClaims, Program.obeys_bind]
  refine ⟨rfl, ?_⟩
  intro picked
  simp only [Program.Obeys]
  cases picked with
  | none => trivial
  | some id =>
    rw [Program.obeys_bind, Program.obeys_mapErr, loadInTx, Program.obeys_bind]
    refine ⟨rfl, ?_⟩
    intro rows
    simp only [Program.obeys_done, Program.obeys_bind]
    intro _ _ stream _ job _ event _
    split
    · rw [Program.obeys_bind, Program.obeys_mapErr]
      refine (appendInTx_onlyAppends id _ _).onlyClaims.mono ?_
      intro _ folded _
      rw [Program.obeys_bind]
      exact ⟨rfl, fun _ => trivial⟩
    · trivial

def drain (world : World J) : List (Ports × QueueName × WorkerId × Duration) →
    List (Outcome DispatchError (Option LeasedJob))
  | [] => []
  | (ports, queue, worker, ttl) :: rest =>
    let (after, answer) := Dispatcher.leaseNext world ports queue worker ttl
    answer :: drain after rest

def Tables.Apart (tables : Tables J) (id other : JobId) : Prop :=
  ∃ job rival, foldRows (tables.streamRows id) = some job ∧ foldRows (tables.streamRows other) = some rival ∧
    (job.queue, job.priority) ≠ (rival.queue, rival.priority)

omit [BuildProfile] in
theorem envelopesFromRows_split {front back : List (EventRow J)} {first whole : List EventEnvelope}
    (decoded : envelopesFromRows front = .ok first) (read : envelopesFromRows (front ++ back) = .ok whole) :
    ∃ rest, whole = first ++ rest := by
  induction front generalizing first whole with
  | nil =>
    cases decoded
    exact ⟨whole, rfl⟩
  | cons row front ih =>
    obtain ⟨envelope, here, decoded⟩ := Outcome.bind_eq_ok.mp decoded
    obtain ⟨envelopes, later, same⟩ := Outcome.bind_eq_ok.mp decoded
    cases same
    obtain ⟨other, again, read⟩ := Outcome.bind_eq_ok.mp read
    obtain ⟨others, rest, same⟩ := Outcome.bind_eq_ok.mp read
    cases same
    rw [here] at again
    cases again
    obtain ⟨tail, rfl⟩ := ih later rest
    exact ⟨tail, rfl⟩

theorem foldRows_identity {rows more : List (EventRow J)} {job final : Job} (folds : foldRows rows = some job)
    (longer : foldRows (rows ++ more) = some final) : Job.SameIdentity job final := by
  obtain ⟨envelopes, decoded, folded⟩ := foldRows_eq_some.mp folds
  obtain ⟨whole, read, extended⟩ := foldRows_eq_some.mp longer
  obtain ⟨rest, rfl⟩ := envelopesFromRows_split decoded read
  rw [Job.fromEvents_extend folded] at extended
  exact (Job.foldRest_version extended).2

theorem Derived.kind {world : World J} (derived : Derived world) {id : JobId} {row : DispatchRow}
    (present : world.tables.dispatch.lookup id = some row) :
    ∃ job, foldRows (world.tables.streamRows id) = some job ∧ row.queue = job.queue ∧ row.priority = job.priority := by
  rcases derived.shows id with ⟨_, missing⟩ | ⟨job, folds, columns⟩
  · rw [present] at missing
    cases missing
  · refine ⟨job, folds, ?_⟩
    rw [present, Option.map_some] at columns
    unfold columnsOf at columns
    split at columns <;> simp only [Option.some.injEq, DispatchRow.columns, DispatchColumns.mk.injEq,
      reduceCtorEq] at columns
    · exact ⟨columns.1, columns.2.1⟩
    · exact ⟨columns.1, columns.2.1⟩
    · exact ⟨columns.1, columns.2.1⟩

theorem Derived.apart_iff {world : World J} (derived : Derived world) {id other : JobId} {row rival : DispatchRow}
    (present : world.tables.dispatch.lookup id = some row) (found : world.tables.dispatch.lookup other = some rival) :
    world.tables.Apart id other ↔ ¬ Rivals row rival := by
  obtain ⟨mine, folded, queue, priority⟩ := derived.kind present
  obtain ⟨theirs, refolded, name, level⟩ := derived.kind found
  rw [Rivals, queue, priority, name, level, ← Prod.mk.injEq]
  constructor
  · rintro ⟨job, opposed, folds, refolds, different⟩
    rw [folded] at folds
    rw [refolded] at refolds
    cases folds
    cases refolds
    exact different
  · exact fun different => ⟨mine, theirs, folded, refolded, different⟩

theorem Derived.compares {world : World J} (derived : Derived world) :
    world.tables.Compares world.tables.Apart :=
  fun _ _ _ _ present found rivals parted => (derived.apart_iff present found).mp parted rivals

theorem Moves.keeps_apart {before after : World J} (moves : Moves before after) (derived : Derived before)
    {id other : JobId} (parted : before.tables.Apart id other) : after.tables.Apart id other := by
  have kept : ∀ {id job}, foldRows (before.tables.streamRows id) = some job →
      ∃ final, foldRows (after.tables.streamRows id) = some final ∧ Job.SameIdentity job final := by
    intro id job folds
    cases moves with
    | still tables => exact ⟨job, by rw [tables]; exact folds, .refl job⟩
    | beaten events => exact ⟨job, by rw [streamRows_congr events]; exact folds, .refl job⟩
    | grown stream rows final grown =>
      by_cases here : id = stream
      · subst here
        have refolds := grown.folds
        rw [inOrder_of_versions (grown.versions_self (derived.versions id)), grown.streamRows_self] at refolds
        exact ⟨final, by rw [grown.streamRows_self]; exact refolds, foldRows_identity folds refolds⟩
      · exact ⟨job, by rw [grown.streamRows_other here]; exact folds, .refl job⟩
  obtain ⟨job, rival, folds, refolds, different⟩ := parted
  obtain ⟨final, folded, _, queue, priority, _⟩ := kept folds
  obtain ⟨last, refolded, _, name, level, _⟩ := kept refolds
  exact ⟨final, last, folded, refolded, by rw [queue, priority, name, level]; exact different⟩

omit [Serde J] [BuildProfile] in
theorem Matched.weaken {left right : Tables J} {top bound : Nat} {other : JobId → JobId → Prop}
    (matched : Matched apart left right top bound) (more : ∀ id rival, apart id rival → other id rival) :
    Matched other left right top bound where
  events := matched.events
  columns := matched.columns
  order := fun id one rival two near => matched.order id one rival two (mt (more id rival) near)
  left := matched.left
  right := matched.right

theorem drain_alike {left right : World J} (derived : Derived left)
    (alike : Alike left.tables.Apart (left, .begin) (right, .begin))
    (claims : List (Ports × QueueName × WorkerId × Duration)) : drain left claims = drain right claims := by
  induction claims generalizing left right with
  | nil => rfl
  | cons call rest ih =>
    obtain ⟨ports, queue, worker, ttl⟩ := call
    let related (first : Bool) (here there : World J × Transaction J) : Prop :=
      Alike left.tables.Apart here there ∧ (first = true → (here.2.view here.1.tables).Compares left.tables.Apart)
    have initial : related true (left, .begin) (right, .begin) := ⟨alike, fun _ => derived.compares⟩
    obtain ⟨answer, _, onward, _⟩ := (claim_onlyClaims ports queue worker ttl).run_related Stmt.alone related
      (fun _ _ _ _ claims both => by
        obtain ⟨reply, next⟩ := both.1.step claims both.2
        exact ⟨reply, next, by rintro ⟨⟩⟩) initial
    have moves : Moves left ((claim ports queue worker ttl).run Stmt.alone (left, .begin)).1.1 :=
      claim_moves left ports queue worker ttl
    have tables := onward.tables.weaken fun id rival => moves.keeps_apart derived
    rw [drain, drain]
    simp only [Dispatcher.leaseNext, World.transact]
    rw [answer, ih (moves.derived derived) ⟨tables, tables, onward.globalSeq⟩]

end Claims

end Simulation

section Order

variable {J : Type} [Serde J] [BuildProfile]

/-- A job comes back into the dispatch table, or enters it later than its stream begins, behind a row of its queue
    and priority whose stream begins after its own. -/
def Reenters (before after : World J) : Prop :=
  ∃ id other row rival, before.tables.streamRows id ≠ [] ∧ before.tables.dispatch.lookup id = none ∧
    after.tables.dispatch.lookup id = some row ∧ before.tables.dispatch.lookup other = some rival ∧
    Rivals row rival ∧ before.tables.firstSeq id < before.tables.firstSeq other

/-- The rows of the log are numbered upwards, the dispatch rows are numbered apart and, where no job
    came back behind another, in the order in which the streams begin. -/
structure Aligned (world : World J) : Prop where
  numbers : (world.tables.events.map (·.globalSeq)).Pairwise (· < ·)
  bound : ∀ row ∈ world.tables.events, row.globalSeq ≤ world.globalSeq
  ranked : Ranked world.tables world.dispatchSeq
  order : ∀ id other row rival, world.tables.dispatch.lookup id = some row →
    world.tables.dispatch.lookup other = some rival → Rivals row rival →
    (world.tables.rank id < world.tables.rank other ↔ world.tables.firstSeq id < world.tables.firstSeq other)

omit [Serde J] [BuildProfile] in
theorem firstSeq_eq {tables : Tables J} (numbers : (tables.events.map (·.globalSeq)).Pairwise (· < ·))
    {id : JobId} {row : EventRow J} {rest : List (EventRow J)} (begins : tables.streamRows id = row :: rest) :
    tables.firstSeq id = row.globalSeq := by
  have sorted : ((tables.streamRows id).map (·.globalSeq)).Pairwise (· < ·) :=
    numbers.sublist (List.filter_sublist.map _)
  rw [begins, List.map_cons, List.pairwise_cons] at sorted
  have least : ((tables.streamRows id).map (·.globalSeq)).min? = some row.globalSeq := by
    rw [begins, List.map_cons, List.min?_eq_some_iff]
    refine ⟨List.mem_cons_self, ?_⟩
    intro number listed
    rcases List.mem_cons.mp listed with rfl | later
    · exact le_rfl
    · exact (sorted.1 number later).le
  rw [Tables.firstSeq, least]
  rfl

omit [Serde J] [BuildProfile] in
theorem first_row {tables : Tables J} (numbers : (tables.events.map (·.globalSeq)).Pairwise (· < ·)) {id : JobId}
    (known : tables.streamRows id ≠ []) :
    ∃ row ∈ tables.events, row.streamId = id ∧ tables.firstSeq id = row.globalSeq := by
  obtain ⟨row, rest, begins⟩ := List.exists_cons_of_ne_nil known
  have member : row ∈ tables.streamRows id := begins ▸ List.mem_cons_self
  rw [Tables.streamRows, List.mem_filter] at member
  exact ⟨row, member.1, by simpa using member.2, firstSeq_eq numbers begins⟩

omit [Serde J] [BuildProfile] in
theorem firstSeq_injective {tables : Tables J} (numbers : (tables.events.map (·.globalSeq)).Pairwise (· < ·))
    {id other : JobId} (known : tables.streamRows id ≠ []) (seen : tables.streamRows other ≠ [])
    (same : tables.firstSeq id = tables.firstSeq other) : id = other := by
  obtain ⟨row, listed, named, first⟩ := first_row numbers known
  obtain ⟨rival, present, called, begins⟩ := first_row numbers seen
  have nodup : (tables.events.map (·.globalSeq)).Nodup := numbers.imp fun less => less.ne
  have equal := List.inj_on_of_nodup_map nodup listed present (by rw [← first, ← begins, same])
  rw [← named, ← called, equal]

section Growth

variable {before after : World J} {stream : JobId} {rows : List (EventRow J)} {job : Job}

theorem Grown.numbered (grown : Grown before after stream rows job) (aligned : Aligned before) :
    (after.tables.events.map (·.globalSeq)).Pairwise (· < ·) ∧
      ∀ row ∈ after.tables.events, row.globalSeq ≤ after.globalSeq := by
  have added : ∀ row ∈ rows, before.globalSeq < row.globalSeq ∧ row.globalSeq ≤ after.globalSeq := by
    intro row member
    have listed : row.globalSeq ∈ rows.map (·.globalSeq) := List.mem_map_of_mem member
    rw [grown.numbers, List.mem_range'_1] at listed
    rw [grown.globalSeq]
    omega
  rw [grown.events, List.map_append]
  refine ⟨List.pairwise_append.mpr ⟨aligned.numbers, ?_, ?_⟩, ?_⟩
  · rw [grown.numbers]
    exact List.pairwise_lt_range'
  · intro number old other new
    obtain ⟨row, member, rfl⟩ := List.mem_map.mp old
    obtain ⟨rival, listed, rfl⟩ := List.mem_map.mp new
    exact (aligned.bound row member).trans_lt (added rival listed).1
  · intro row member
    rcases List.mem_append.mp member with old | new
    · have bound := aligned.bound row old
      have above := grown.globalSeq
      omega
    · exact (added row new).2

theorem Grown.order_other (grown : Grown before after stream rows job) {id : JobId} (away : id ≠ stream)
    (member : id ∈ after.tables.dispatch) :
    id ∈ before.tables.dispatch ∧ after.tables.rank id = before.tables.rank id ∧
      after.tables.firstSeq id = before.tables.firstSeq id := by
  have same := grown.other id away
  rw [← AList.lookup_isSome] at member ⊢
  rw [same] at member
  refine ⟨member, ?_, ?_⟩
  · rw [Tables.rank, same, Tables.rank]
  · rw [Tables.firstSeq, grown.streamRows_other away, Tables.firstSeq]

theorem Grown.first_known (grown : Grown before after stream rows job) (aligned : Aligned before)
    (known : before.tables.streamRows stream ≠ []) : after.tables.firstSeq stream = before.tables.firstSeq stream := by
  obtain ⟨row, rest, begins⟩ := List.exists_cons_of_ne_nil known
  have longer : after.tables.streamRows stream = row :: (rest ++ rows) := by
    rw [grown.streamRows_self, begins]
    rfl
  rw [firstSeq_eq (grown.numbered aligned).1 longer, firstSeq_eq aligned.numbers begins]

theorem Grown.rivals (grown : Grown before after stream rows job) (derived : Derived before) {old row : DispatchRow}
    (was : before.tables.dispatch.lookup stream = some old)
    (present : after.tables.dispatch.lookup stream = some row) : Rivals old row := by
  obtain ⟨first, folds, queue, priority⟩ := derived.kind was
  obtain ⟨last, refolds, name, level⟩ := (grown.derived derived).kind present
  rw [grown.streamRows_self] at refolds
  obtain ⟨_, same, height, _⟩ := foldRows_identity folds refolds
  exact ⟨by rw [queue, name, same], by rw [priority, level, height]⟩

theorem Grown.order_known (grown : Grown before after stream rows job) (aligned : Aligned before)
    (derived : Derived before) (known : before.tables.streamRows stream ≠ []) (stays : ¬ Reenters before after)
    {other : JobId} {row rival : DispatchRow} (away : other ≠ stream)
    (present : after.tables.dispatch.lookup stream = some row)
    (found : after.tables.dispatch.lookup other = some rival) (rivals : Rivals row rival) :
    (after.tables.rank stream < after.tables.rank other ↔
        after.tables.firstSeq stream < after.tables.firstSeq other) ∧
      (after.tables.rank other < after.tables.rank stream ↔
        after.tables.firstSeq other < after.tables.firstSeq stream) := by
  obtain ⟨listed, rank, first⟩ := grown.order_other away (mem_dispatch.mpr ⟨_, found⟩)
  have rivalBefore := found
  rw [grown.other other away] at rivalBefore
  rw [rank, first, grown.first_known aligned known]
  cases was : before.tables.dispatch.lookup stream with
  | some old =>
    have same : after.tables.rank stream = before.tables.rank stream := by
      rw [rank_of_lookup present, rank_of_lookup was]
      rw [grown.self, World.rankFor, was] at present
      exact rowOf_seq present
    have kind := grown.rivals derived was present
    have rivals : Rivals old rival := kind.trans rivals
    rw [same]
    exact ⟨aligned.order _ _ _ _ was rivalBefore rivals, aligned.order _ _ _ _ rivalBefore was rivals.symm⟩
  | none =>
    have top : after.tables.rank stream = before.dispatchSeq + 1 := by
      rw [rank_of_lookup present]
      rw [grown.self, World.rankFor, was] at present
      exact rowOf_seq present
    have below := aligned.ranked.below other listed
    have behind : ¬ before.tables.firstSeq stream < before.tables.firstSeq other :=
      fun less => stays ⟨stream, other, row, rival, known, was, present, rivalBefore, rivals, less⟩
    have seen : before.tables.streamRows other ≠ [] := fun none =>
      AList.lookup_eq_none.mp (derived.missing none) listed
    have apart : before.tables.firstSeq stream ≠ before.tables.firstSeq other :=
      fun same => away (firstSeq_injective aligned.numbers known seen same).symm
    rw [top]
    omega

theorem Grown.order_new (grown : Grown before after stream rows job) (aligned : Aligned before)
    (derived : Derived before) (unknown : before.tables.streamRows stream = []) :
    (∀ row, after.tables.dispatch.lookup stream = some row → row.seq = before.dispatchSeq + 1) ∧
      before.globalSeq < after.tables.firstSeq stream := by
  constructor
  · intro row shown
    rw [grown.self, World.rankFor, derived.missing unknown] at shown
    exact rowOf_seq shown
  · have begins : after.tables.streamRows stream = rows := by
      rw [grown.streamRows_self, unknown, List.nil_append]
    cases rows with
    | nil =>
      have folds := grown.folds
      rw [begins] at folds
      cases folds
    | cons row rest =>
      rw [firstSeq_eq (grown.numbered aligned).1 begins]
      have numbers := grown.numbers
      rw [List.map_cons, List.length_cons, List.range'_succ, List.cons.injEq] at numbers
      omega

theorem Grown.order_stream (grown : Grown before after stream rows job) (aligned : Aligned before)
    (derived : Derived before) (stays : ¬ Reenters before after)
    {other : JobId} {row rival : DispatchRow} (away : other ≠ stream)
    (present : after.tables.dispatch.lookup stream = some row)
    (found : after.tables.dispatch.lookup other = some rival) (rivals : Rivals row rival) :
    (after.tables.rank stream < after.tables.rank other ↔
        after.tables.firstSeq stream < after.tables.firstSeq other) ∧
      (after.tables.rank other < after.tables.rank stream ↔
        after.tables.firstSeq other < after.tables.firstSeq stream) := by
  by_cases unknown : before.tables.streamRows stream = []
  · obtain ⟨number, begins⟩ := grown.order_new aligned derived unknown
    obtain ⟨listed, rank, first⟩ := grown.order_other away (mem_dispatch.mpr ⟨_, found⟩)
    have seen : before.tables.streamRows other ≠ [] := fun none =>
      AList.lookup_eq_none.mp (derived.missing none) listed
    obtain ⟨old, logged, _, begun⟩ := first_row aligned.numbers seen
    have low := aligned.ranked.below other listed
    have early := aligned.bound old logged
    have top := number row present
    rw [rank_of_lookup present, rank, first]
    omega
  · exact grown.order_known aligned derived unknown stays away present found rivals

theorem Grown.aligned (grown : Grown before after stream rows job) (aligned : Aligned before)
    (derived : Derived before) (stays : ¬ Reenters before after) : Aligned after := by
  obtain ⟨numbers, bound⟩ := grown.numbered aligned
  refine ⟨numbers, bound, grown.ranked aligned.ranked, ?_⟩
  intro id other row rival present found rivals
  have member : id ∈ after.tables.dispatch := mem_dispatch.mpr ⟨_, present⟩
  have listed : other ∈ after.tables.dispatch := mem_dispatch.mpr ⟨_, found⟩
  by_cases here : id = stream <;> by_cases there : other = stream
  · rw [here, there]
    exact iff_of_false (lt_irrefl _) (lt_irrefl _)
  · subst here
    exact (grown.order_stream aligned derived stays there present found rivals).1
  · subst there
    exact (grown.order_stream aligned derived stays here found present rivals.symm).2
  · obtain ⟨one, rank, first⟩ := grown.order_other here member
    obtain ⟨two, level, second⟩ := grown.order_other there listed
    rw [grown.other id here] at present
    rw [grown.other other there] at found
    rw [rank, level, first, second]
    exact aligned.order id other row rival present found rivals

end Growth

omit [Serde J] [BuildProfile] in
theorem undated_lookup {left right : Option DispatchRow}
    (same : left.map DispatchRow.undated = right.map DispatchRow.undated) {row : DispatchRow}
    (present : left = some row) : ∃ old, right = some old ∧ Rivals old row := by
  rw [present, Option.map_some, eq_comm, Option.map_eq_some_iff] at same
  obtain ⟨old, found, equal⟩ := same
  have queue : old.undated.queue = row.undated.queue := by rw [equal]
  have priority : old.undated.priority = row.undated.priority := by rw [equal]
  exact ⟨old, found, queue, priority⟩

omit [Serde J] [BuildProfile] in
theorem Aligned.congr {before after : World J} (aligned : Aligned before)
    (events : after.tables.events = before.tables.events)
    (rows : ∀ id, (after.tables.dispatch.lookup id).map DispatchRow.undated =
      (before.tables.dispatch.lookup id).map DispatchRow.undated)
    (globalSeq : before.globalSeq ≤ after.globalSeq) (dispatchSeq : before.dispatchSeq ≤ after.dispatchSeq) :
    Aligned after := by
  have rank : ∀ id, after.tables.rank id = before.tables.rank id := fun id => (rank_of_undated (rows id)).1
  have first : ∀ id, after.tables.firstSeq id = before.tables.firstSeq id := by
    intro id
    rw [Tables.firstSeq, streamRows_congr events, Tables.firstSeq]
  refine ⟨by rw [events]; exact aligned.numbers, ?_, aligned.ranked.undated dispatchSeq rows, ?_⟩
  · intro row member
    rw [events] at member
    exact (aligned.bound row member).trans globalSeq
  · intro id other row rival present found rivals
    obtain ⟨old, here, same⟩ := undated_lookup (rows id) present
    obtain ⟨past, there, equal⟩ := undated_lookup (rows other) found
    rw [rank, rank, first, first]
    exact aligned.order id other old past here there (same.trans (rivals.trans equal.symm))

theorem Moves.aligned {before after : World J} (moves : Moves before after) (derived : Derived before)
    (aligned : Aligned before) (stays : ¬ Reenters before after) : Aligned after := by
  cases moves with
  | still tables globalSeq dispatchSeq =>
    exact aligned.congr (by rw [tables]) (fun id => by rw [tables]) globalSeq dispatchSeq
  | grown stream rows job grown => exact grown.aligned aligned derived stays
  | beaten events globalSeq dispatchSeq rows => exact aligned.congr events rows globalSeq.ge dispatchSeq.ge

omit [Serde J] [BuildProfile] in
theorem Aligned.empty : Aligned (World.empty : World J) where
  numbers := .nil
  bound := fun _ member => absurd member List.not_mem_nil
  ranked := .empty
  order := fun _ _ _ _ present => by cases present

theorem Run.aligned {history : List (Record (World J) Operation Answer)} {world : World J}
    (run : Run Serially .empty history world)
    (stays : ∀ record ∈ history, ¬ Reenters record.before record.after) : Aligned world := by
  induction run with
  | refl => exact .empty
  | step run taken ih =>
    rw [List.forall_mem_cons] at stays
    exact (Serially.moves taken).aligned (Run.derived run) (ih stays.2) stays.1

theorem Derived.listed {world : World J} (derived : Derived world) {id : JobId} (member : id ∈ world.tables.dispatch) :
    world.tables.streamRows id ≠ [] :=
  fun none => AList.lookup_eq_none.mp (derived.missing none) member

theorem Derived.rebuilt_columns {world : World J} (derived : Derived world) {after : World J × Transaction J}
    (rebuilt : Rebuilt world.tables world.tables.streamsByFirst (world.truncated, .begin) after) (id : JobId) :
    (world.tables.dispatch.lookup id).map DispatchRow.columns =
      ((committed after).tables.dispatch.lookup id).map DispatchRow.columns := by
  rcases derived.shows id with ⟨unknown, missing⟩ | ⟨job, folds, columns⟩
  · have unread : id ∉ world.tables.streamsByFirst := fun member => Tables.mem_streamsByFirst.mp member unknown
    have absent : (committed after).tables.dispatch.lookup id = none := rebuilt.other id unread
    rw [missing, absent]
  · have read : id ∈ world.tables.streamsByFirst := by
      rw [Tables.mem_streamsByFirst]
      intro none
      rw [none, foldRows_nil] at folds
      cases folds
    obtain ⟨other, seq, same, shown, _⟩ := rebuilt.self id read
    rw [folds] at same
    cases same
    have present : (committed after).tables.dispatch.lookup id = rowOf job seq := shown
    rw [present, rowOf_columns, columns]

theorem Derived.rebuilt_mem {world : World J} (derived : Derived world) {after : World J × Transaction J}
    (rebuilt : Rebuilt world.tables world.tables.streamsByFirst (world.truncated, .begin) after) (id : JobId) :
    id ∈ world.tables.dispatch ↔ id ∈ (committed after).tables.dispatch := by
  rw [← AList.lookup_isSome, ← AList.lookup_isSome, ← Option.isSome_map (f := DispatchRow.columns),
    derived.rebuilt_columns rebuilt, Option.isSome_map]

theorem Aligned.rebuilt_rank {world : World J} (aligned : Aligned world) (derived : Derived world)
    {after : World J × Transaction J}
    (rebuilt : Rebuilt world.tables world.tables.streamsByFirst (world.truncated, .begin) after) {id other : JobId}
    (member : id ∈ world.tables.dispatch) (listed : other ∈ world.tables.dispatch) :
    world.tables.firstSeq id < world.tables.firstSeq other ↔
      (committed after).tables.rank id < (committed after).tables.rank other := by
  have order : ∀ id ∈ world.tables.dispatch, ∀ other ∈ world.tables.dispatch,
      world.tables.firstSeq id < world.tables.firstSeq other →
        (committed after).tables.rank id < (committed after).tables.rank other := by
    intro id member other listed less
    obtain ⟨row, shown⟩ := mem_dispatch.mp ((derived.rebuilt_mem rebuilt id).mp member)
    obtain ⟨rival, seen⟩ := mem_dispatch.mp ((derived.rebuilt_mem rebuilt other).mp listed)
    have different : id ≠ other := fun same => less.ne (congrArg _ same)
    rw [rank_of_lookup shown, rank_of_lookup seen]
    rcases pairwise_or (world.tables.streamsByFirst_sorted.and rebuilt.ordered)
        (Tables.mem_streamsByFirst.mpr (derived.listed member))
        (Tables.mem_streamsByFirst.mpr (derived.listed listed)) different with ⟨_, before⟩ | ⟨above, _⟩
    · exact before rfl rfl row rival shown seen
    · omega
  refine ⟨order id member other listed, ?_⟩
  intro less
  by_contra not
  rcases Nat.lt_or_eq_of_le (Nat.le_of_not_lt not) with above | equal
  · have greater := order other listed id member above
    omega
  · have same := firstSeq_injective aligned.numbers (derived.listed listed) (derived.listed member) equal
    rw [same] at less
    omega

theorem Aligned.rebuilt {world : World J} (aligned : Aligned world) (derived : Derived world)
    {after : World J × Transaction J}
    (rebuilt : Rebuilt world.tables world.tables.streamsByFirst (world.truncated, .begin) after) :
    Matched world.tables.Apart world.tables (committed after).tables world.dispatchSeq after.1.dispatchSeq := by
  refine ⟨?_, derived.rebuilt_columns rebuilt, ?_, aligned.ranked, ?_, ?_⟩
  · change world.tables.events = (after.2.view after.1.tables).events
    rw [Transaction.view_events, rebuilt.rows, rebuilt.committed]
    exact (List.append_nil _).symm
  · intro id member other listed near
    obtain ⟨row, shown⟩ := mem_dispatch.mp member
    obtain ⟨rival, seen⟩ := mem_dispatch.mp listed
    have rivals : Rivals row rival := not_not.mp (mt (derived.apart_iff shown seen).mpr near)
    rw [aligned.order id other row rival shown seen rivals, aligned.rebuilt_rank derived rebuilt member listed]
  · intro id member
    obtain ⟨row, shown⟩ := mem_dispatch.mp member
    have known := derived.listed ((derived.rebuilt_mem rebuilt id).mpr member)
    rw [rank_of_lookup shown]
    exact rebuilt.bounded id (Tables.mem_streamsByFirst.mpr known) rfl row shown
  · intro id member other listed equal
    by_contra different
    have one := (derived.rebuilt_mem rebuilt id).mpr member
    have two := (derived.rebuilt_mem rebuilt other).mpr listed
    have less := aligned.rebuilt_rank derived rebuilt one two
    have more := aligned.rebuilt_rank derived rebuilt two one
    have same : world.tables.firstSeq id = world.tables.firstSeq other := by omega
    exact different (firstSeq_injective aligned.numbers (derived.listed one) (derived.listed two) same)

/-- While no job comes back into the dispatch table behind one of its queue and priority that began later, rebuilding
    it keeps the order of such rows, and claims drain the queues as they would have. -/
theorem rebuild_keeps_claim_order {history : List (Record (World J) Operation Answer)} {world : World J}
    (run : Run Serially .empty history world)
    (stays : ∀ record ∈ history, ¬ Reenters record.before record.after)
    (counts : BuildProfile.overflowChecks = true → world.tables.dispatch.entries.length < 2 ^ 32) :
    ∃ rebuilt count, world.truncated.rebuildDispatch = (rebuilt, .ok count) ∧
      (∀ id, id ∈ world.tables.dispatch ↔ id ∈ rebuilt.tables.dispatch) ∧
      (∀ id other row rival, world.tables.dispatch.lookup id = some row →
        world.tables.dispatch.lookup other = some rival → Rivals row rival →
        (world.tables.rank id < world.tables.rank other ↔ rebuilt.tables.rank id < rebuilt.tables.rank other)) ∧
      ∀ claims, drain world claims = drain rebuilt claims := by
  have derived := Run.derived run
  have aligned := Run.aligned run stays
  obtain ⟨after, count, ran, _, rebuilt⟩ := derived.rebuild world.truncated rfl counts
  have matched := aligned.rebuilt derived rebuilt
  refine ⟨committed after, count, ran, matched.mem_iff, ?_,
    drain_alike derived ⟨matched, matched, rebuilt.globalSeq.symm⟩⟩
  intro id other row rival present found rivals
  refine matched.order id (mem_dispatch.mpr ⟨_, present⟩) other
    (mem_dispatch.mpr ⟨_, found⟩) ?_
  exact fun parted => (derived.apart_iff present found).mp parted rivals

def resumedOperations : List Operation :=
  [.append ⟨1⟩ 2 (wrapEvents (Sample.ports 3 4) ⟨1⟩ 2 ⟨1⟩ none none [.resumed]),
    .append ⟨1⟩ 1 (wrapEvents (Sample.ports 2 3) ⟨1⟩ 1 ⟨1⟩ none none [.suspended]),
    .append ⟨2⟩ 0 (Sample.command.envelopes (Sample.ports 1 2)),
    .append ⟨1⟩ 0 (Sample.command.envelopes (Sample.ports 0 1))]

def succeeded : Answer → Bool
  | .appended (.ok _) | .leased (.ok _) | .extended (.ok _) | .retired (.ok _) => true
  | _ => false

def claimedJob : Outcome DispatchError (Option LeasedJob) → Option JobId
  | .ok (some job) => some job.jobId
  | _ => none

def nextClaim : List (Ports × QueueName × WorkerId × Duration) :=
  [(Sample.ports 4 5, Sample.queue, Sample.worker, .fromSecs 10)]

omit [BuildProfile] in
/-- Coming back, the job went behind the other; the rebuild puts it in front again. -/
theorem rebuild_reorders_resumed_job :
    let _ := BuildProfile.release
    ∃ (history : List (Record (World TypedJson) Operation Answer)) (world rebuilt : World TypedJson),
      Run Serially .empty history world ∧ (∀ record ∈ history, succeeded record.result = true) ∧
      world.truncated.rebuildDispatch = (rebuilt, .ok 2) ∧
      (∃ row other, world.tables.dispatch.lookup ⟨1⟩ = some row ∧ world.tables.dispatch.lookup ⟨2⟩ = some other ∧
        row.queue = other.queue ∧ row.priority = other.priority) ∧
      world.tables.rank ⟨2⟩ < world.tables.rank ⟨1⟩ ∧ rebuilt.tables.rank ⟨1⟩ < rebuilt.tables.rank ⟨2⟩ ∧
      (drain world nextClaim).map claimedJob = [some ⟨2⟩] ∧
      (drain rebuilt nextClaim).map claimedJob = [some ⟨1⟩] := by
  intro _
  have general (operations : List Operation)
      (seen : let world := (replaySerially operations).2
        let rebuilt := world.truncated.rebuildDispatch
        (∀ record ∈ (replaySerially operations).1, succeeded record.result = true) ∧ rebuilt.2 = .ok 2 ∧
        (world.tables.dispatch.lookup ⟨1⟩).map (fun row => (row.queue, row.priority)) =
          some (Sample.queue, ⟨0⟩) ∧
        (world.tables.dispatch.lookup ⟨2⟩).map (fun row => (row.queue, row.priority)) =
          some (Sample.queue, ⟨0⟩) ∧
        world.tables.rank ⟨2⟩ < world.tables.rank ⟨1⟩ ∧ rebuilt.1.tables.rank ⟨1⟩ < rebuilt.1.tables.rank ⟨2⟩ ∧
        (drain world nextClaim).map claimedJob = [some ⟨2⟩] ∧
        (drain rebuilt.1 nextClaim).map claimedJob = [some ⟨1⟩]) :
      ∃ (history : List (Record (World TypedJson) Operation Answer)) (world rebuilt : World TypedJson),
        Run Serially .empty history world ∧ (∀ record ∈ history, succeeded record.result = true) ∧
        world.truncated.rebuildDispatch = (rebuilt, .ok 2) ∧
        (∃ row other, world.tables.dispatch.lookup ⟨1⟩ = some row ∧ world.tables.dispatch.lookup ⟨2⟩ = some other ∧
          row.queue = other.queue ∧ row.priority = other.priority) ∧
        world.tables.rank ⟨2⟩ < world.tables.rank ⟨1⟩ ∧ rebuilt.tables.rank ⟨1⟩ < rebuilt.tables.rank ⟨2⟩ ∧
        (drain world nextClaim).map claimedJob = [some ⟨2⟩] ∧
        (drain rebuilt nextClaim).map claimedJob = [some ⟨1⟩] := by
    obtain ⟨succeeds, count, first, second, behind, ahead, live, drained⟩ := seen
    rw [Option.map_eq_some_iff] at first second
    obtain ⟨row, present, shape⟩ := first
    obtain ⟨other, found, form⟩ := second
    rw [← form, Prod.mk.injEq] at shape
    exact ⟨_, _, _, replaySerially_run operations, succeeds, Prod.ext rfl count,
      ⟨row, other, present, found, shape.1, shape.2⟩, behind, ahead, live, drained⟩
  exact general resumedOperations (by decide +kernel)

omit [Serde J] [BuildProfile] in
theorem not_reenters {before after : World J}
    (kept : ∀ entry ∈ after.tables.dispatch.entries, (before.tables.streamRows entry.1).isEmpty = true ∨
      entry.1 ∈ before.tables.dispatch ∨ ∀ rival ∈ before.tables.dispatch.entries,
        before.tables.firstSeq rival.1 ≤ before.tables.firstSeq entry.1) : ¬ Reenters before after := by
  rintro ⟨id, other, row, rival, known, missing, present, found, _, less⟩
  rcases kept ⟨id, row⟩ (AList.mem_lookup_iff.mp present) with empty | listed | first
  · exact known (List.isEmpty_iff.mp empty)
  · exact AList.lookup_eq_none.mp missing listed
  · exact absurd less (not_lt.mpr (first ⟨other, rival⟩ (AList.mem_lookup_iff.mp found)))

def retiredOperations : List Operation :=
  [.retireNextExpiredLease (Sample.ports 200 6),
    .leaseNext (Sample.ports 3 5) Sample.queue Sample.worker (.fromSecs 10),
    .append ⟨2⟩ 2 (wrapEvents (Sample.ports 2 4) ⟨2⟩ 2 ⟨2⟩ none none [.resumed]),
    .append ⟨2⟩ 1 (wrapEvents (Sample.ports 1 3) ⟨2⟩ 1 ⟨2⟩ none none [.suspended]),
    .append ⟨2⟩ 0 (Sample.command.envelopes (Sample.ports 0 2)),
    .append ⟨1⟩ 0 (Sample.command.envelopes (Sample.ports 0 1))]

omit [BuildProfile] in
theorem rebuild_keeps_claim_order_retired :
    let _ := BuildProfile.release
    let world := (replaySerially retiredOperations).2
    ∃ rebuilt count, world.truncated.rebuildDispatch = (rebuilt, .ok count) ∧
      rebuilt.tables.rank ⟨1⟩ < rebuilt.tables.rank ⟨2⟩ ∧ ∀ claims, drain world claims = drain rebuilt claims := by
  intro _
  have general (operations : List Operation)
      (kept : ∀ record ∈ (replaySerially operations).1, ∀ entry ∈ record.after.tables.dispatch.entries,
        (record.before.tables.streamRows entry.1).isEmpty = true ∨ entry.1 ∈ record.before.tables.dispatch ∨
          ∀ rival ∈ record.before.tables.dispatch.entries,
            record.before.tables.firstSeq rival.1 ≤ record.before.tables.firstSeq entry.1)
      (first : let tables := (replaySerially operations).2.tables
        (tables.dispatch.lookup ⟨1⟩).map (fun row => (row.queue, row.priority)) = some (Sample.queue, ⟨0⟩) ∧
          (tables.dispatch.lookup ⟨2⟩).map (fun row => (row.queue, row.priority)) = some (Sample.queue, ⟨0⟩) ∧
          tables.rank ⟨1⟩ < tables.rank ⟨2⟩) :
      let world := (replaySerially operations).2
      ∃ rebuilt count, world.truncated.rebuildDispatch = (rebuilt, .ok count) ∧
        rebuilt.tables.rank ⟨1⟩ < rebuilt.tables.rank ⟨2⟩ ∧
        ∀ claims, drain world claims = drain rebuilt claims := by
    obtain ⟨rebuilt, count, ran, _, order, drains⟩ := rebuild_keeps_claim_order (replaySerially_run operations)
      (fun record member => not_reenters (kept record member)) (by rintro ⟨⟩)
    obtain ⟨one, two, less⟩ := first
    rw [Option.map_eq_some_iff] at one two
    obtain ⟨row, present, shape⟩ := one
    obtain ⟨other, found, form⟩ := two
    rw [← form, Prod.mk.injEq] at shape
    exact ⟨rebuilt, count, ran, (order _ _ row other present found shape).mp less, drains⟩
  exact general retiredOperations (by decide +kernel) (by decide +kernel)

end Order

end Koine.Postgres
