import Koine.Memory.Recovery

namespace Koine.Memory

open Library Domain Application

def Trace.enqueued (history : Trace) : List JobId :=
  history.reverse.filterMap fun record =>
    match record.result with
    | .enqueued (.ok id) => some id
    | _ => none

theorem enqueued_cons_of_ne {history : Trace} {record : Record System Action Response}
    (other : ∀ id, record.result ≠ .enqueued (.ok id)) :
    Trace.enqueued (record :: history) = history.enqueued := by
  unfold Trace.enqueued
  rw [List.reverse_cons, List.filterMap_append, List.filterMap_cons_none, List.filterMap_nil, List.append_nil]
  split
  · rename_i id result
    exact absurd result (other id)
  · rfl

theorem enqueued_cons {history : Trace} {record : Record System Action Response} {id : JobId}
    (result : record.result = .enqueued (.ok id)) :
    Trace.enqueued (record :: history) = history.enqueued ++ [id] := by
  unfold Trace.enqueued
  rw [List.reverse_cons, List.filterMap_append]
  simp [result]

def Action.claimsAt (queue : QueueName) (now : DateTime) : Action → Bool
  | .leaseNext ports name _ ttl =>
    decide (name = queue) && decide (ports.now = now) &&
      ((TimeDelta.fromStd ttl).bind now.checkedAddSigned).isSome
  | _ => false

def handedJob : Response → Option (Option JobId)
  | .leased (.ok leased) => some (leased.map (·.jobId))
  | _ => none

section Order

variable [BuildProfile]

def Due (system : System) (queue : QueueName) (now : DateTime) (id : JobId) : Prop :=
  ∃ job notBefore, Job.fromEvents (system.stream id) = .ok job ∧ job.queue = queue ∧
    job.state = .pending notBefore ∧ ∀ time, notBefore = some time → time ≤ now

/-- `left` has the higher priority, or the same one and was enqueued first. -/
def Ahead (history : Trace) (system : System) (left right : JobId) : Prop :=
  ∀ first second, Job.fromEvents (system.stream left) = .ok first →
    Job.fromEvents (system.stream right) = .ok second →
    second.priority.value.toInt < first.priority.value.toInt ∨
      first.priority = second.priority ∧ [left, right].Sublist history.enqueued

/-- Repeated claims hand out the due jobs, each once, by priority and then by age, and then nothing. -/
def DrainsInOrder (history : Trace) (system : System) (queue : QueueName) (now : DateTime) : Prop :=
  ∃ ids : List JobId, ids.Nodup ∧ (∀ id, id ∈ ids ↔ Due system queue now id) ∧
    ids.Pairwise (Ahead history system) ∧
    ∀ calls final, Run System.Step system calls final →
      (∀ record ∈ calls, record.label.claimsAt queue now = true) →
      ∀ (k : Nat) record, calls.reverse[k]? = some record → handedJob record.result = some ids[k]?

structure Queued (history : Trace) (system : System) : Prop where
  known : ∀ id entry, system.store.inner.index.lookup id = some entry → id ∈ history.enqueued
  ordered : ∀ left right first second, system.store.inner.index.lookup left = some first →
    system.store.inner.index.lookup right = some second → first.seq < second.seq →
    [left, right].Sublist history.enqueued

omit [BuildProfile] in
theorem entryOf_live {job : Job} {seq : Nat} {entry : DispatchEntry} (projected : entryOf job seq = some entry) :
    job.state.dispatchable = true := by
  unfold entryOf at projected
  cases shape : job.state <;> rw [shape] at projected <;> first | rfl | cases projected

theorem Appended.keeps_seq {inner after : Inner} {id : JobId} {stream : List EventEnvelope}
    {batch : List EventEnvelope} {events : List JobEvent} {job next : Job}
    (consistent : inner.Consistent) (stored : inner.streams.lookup id = some stream)
    (folded : Job.fromEvents stream = .ok job) (effect : Job.Effect job events next)
    (effects : Appended inner after id batch next) (other : JobId) (entry : DispatchEntry)
    (present : after.index.lookup other = some entry) :
    ∃ old, inner.index.lookup other = some old ∧ old.seq = entry.seq := by
  by_cases same : other = id
  · subst same
    rw [effects.index_self] at present
    have live := Effect.live effect (entryOf_live present)
    obtain ⟨refolded, fold, mirrors⟩ := consistent.folds other stream stored
    rw [folded] at fold
    cases fold
    cases before : inner.index.lookup other with
    | none =>
      rw [before, Mirrors, live] at mirrors
      cases mirrors
    | some old =>
      refine ⟨old, rfl, ?_⟩
      rw [entryOf_seq present, Inner.seqFor, before]
  · rw [effects.index_other other same] at present
    exact ⟨entry, present, rfl⟩

omit [BuildProfile] in
theorem Queued.kept {history : Trace} {record : Record System Action Response}
    (queued : Queued history record.before) (other : ∀ id, record.result ≠ .enqueued (.ok id))
    (kept : ∀ id entry, record.after.store.inner.index.lookup id = some entry →
      ∃ old, record.before.store.inner.index.lookup id = some old ∧ old.seq = entry.seq) :
    Queued (record :: history) record.after := by
  refine ⟨?_, ?_⟩
  · intro id entry present
    obtain ⟨old, before, _⟩ := kept id entry present
    rw [enqueued_cons_of_ne other]
    exact queued.known id old before
  · intro left right first second presentLeft presentRight less
    obtain ⟨oldLeft, beforeLeft, seqLeft⟩ := kept left first presentLeft
    obtain ⟨oldRight, beforeRight, seqRight⟩ := kept right second presentRight
    rw [enqueued_cons_of_ne other]
    exact queued.ordered left right oldLeft oldRight beforeLeft beforeRight (by omega)

theorem Queued.opened {history : Trace} {record : Record System Action Response} {id : JobId}
    {batch : List EventEnvelope} {job : Job} (queued : Queued history record.before)
    (consistent : record.before.store.inner.Consistent)
    (fresh : record.before.store.inner.streams.lookup id = none)
    (effects : Appended record.before.store.inner record.after.store.inner id batch job)
    (result : record.result = .enqueued (.ok id)) : Queued (record :: history) record.after := by
  have absent := consistent.orphan id fresh
  have numbered : ∀ entry, record.after.store.inner.index.lookup id = some entry →
      entry.seq = record.before.store.inner.seq + 1 := by
    intro entry present
    rw [effects.index_self] at present
    rw [entryOf_seq present, Inner.seqFor, absent]
  refine ⟨?_, ?_⟩
  · intro other entry present
    rw [enqueued_cons result]
    by_cases same : other = id
    · simp [same]
    · rw [effects.index_other other same] at present
      exact List.mem_append_left _ (queued.known other entry present)
  · intro left right first second presentLeft presentRight less
    rw [enqueued_cons result]
    by_cases newLeft : left = id
    · subst newLeft
      have last := numbered first presentLeft
      by_cases newRight : right = left
      · subst newRight
        rw [presentLeft] at presentRight
        cases presentRight
        omega
      · rw [effects.index_other right newRight] at presentRight
        have bound := consistent.seq_le right second presentRight
        omega
    · rw [effects.index_other left newLeft] at presentLeft
      by_cases newRight : right = id
      · subst newRight
        have earlier : [left].Sublist (Trace.enqueued history) :=
          List.singleton_sublist.mpr (queued.known left first presentLeft)
        exact earlier.append (List.Sublist.refl [right])
      · rw [effects.index_other right newRight] at presentRight
        exact (queued.ordered left right first second presentLeft presentRight less).trans
          (List.sublist_append_left _ _)

theorem Run.queued {history : Trace} {system : System} (run : Run System.Step .new history system) :
    Queued history system := by
  induction run with
  | refl =>
    refine ⟨?_, ?_⟩
    · intro id entry present
      cases present
    · intro left right first second present
      cases present
  | @step older before after label result run taken ih =>
    have consistent := (Run.sound run).consistent
    have change := taken.change (Run.sound run)
    cases change with
    | quiet order refused =>
      refine ih.kept ?_ ?_
      · intro id same
        simp only at same
        subst same
        cases refused
      · intro id entry present
        rw [order.index] at present
        exact ⟨entry, present, rfl⟩
    | enqueued valid fresh effects => exact ih.opened consistent fresh effects rfl
    | leased present folded granted lease deadline effect effects =>
      exact ih.kept (by simp) (effects.keeps_seq consistent present folded effect)
    | @extended ports lease ttl target entry state delta deadline held live converted added effects =>
      refine ih.kept (by simp) ?_
      intro id moved present
      by_cases same : id = target
      · subst same
        rw [effects.index_self] at present
        cases present
        exact ⟨entry, effects.present, rfl⟩
      · rw [effects.index_other id same] at present
        exact ⟨moved, present, rfl⟩
    | retired indexed live overdue present folded retired effect effects =>
      exact ih.kept (by simp) (effects.keeps_seq consistent present folded effect)
    | answered ongoing present folded same command effect effects =>
      exact ih.kept (by simp) (effects.keeps_seq consistent present folded effect)

end Order

structure Ready (inner : Inner) (queue : QueueName) (now : DateTime) (ids : List JobId) : Prop where
  nodup : ids.Nodup
  listed : ∀ id, id ∈ ids ↔
    ∃ entry, inner.index.lookup id = some entry ∧ entry.eligible queue now = true
  sorted : ids.Pairwise fun left right => ∀ first second, inner.index.lookup left = some first →
    inner.index.lookup right = some second → first.keyLe second = false

theorem Ready.of_lookup {inner other : Inner} {queue : QueueName} {now : DateTime} {ids : List JobId}
    (ready : Ready inner queue now ids) (same : ∀ id, other.index.lookup id = inner.index.lookup id) :
    Ready other queue now ids := by
  refine ⟨ready.nodup, ?_, ?_⟩
  · simpa only [same] using ready.listed
  · simpa only [same] using ready.sorted

theorem Ready.picks {inner : Inner} {queue : QueueName} {now : DateTime} {ids : List JobId}
    (ready : Ready inner queue now ids) : inner.pickEligible queue now = ids.head? := by
  cases ids with
  | nil =>
    rw [List.head?_nil, pickEligible_none]
    intro id entry present
    by_contra eligible
    have member := (ready.listed id).mpr ⟨entry, present, by simpa using eligible⟩
    cases member
  | cons first rest =>
    obtain ⟨front, present, eligible⟩ := (ready.listed first).mp List.mem_cons_self
    cases picked : inner.pickEligible queue now with
    | none =>
      rw [pickEligible_none.mp picked first front present] at eligible
      cases eligible
    | some id =>
      obtain ⟨entry, found, chosen, greatest⟩ := pickEligible_some picked
      rcases List.mem_cons.mp ((ready.listed id).mpr ⟨entry, found, chosen⟩) with rfl | later
      · rfl
      · have behind := (List.pairwise_cons.mp ready.sorted).1 id later front entry present found
        rw [greatest first front present eligible] at behind
        cases behind

variable [BuildProfile]

theorem Inner.Consistent.ready {inner : Inner} (consistent : inner.Consistent) (queue : QueueName)
    (now : DateTime) : ∃ ids, Ready inner queue now ids := by
  let waiting := inner.index.entries.filter fun entry => entry.2.eligible queue now
  let sorted := waiting.mergeSort fun left right => right.2.keyLe left.2
  have order : sorted.Perm waiting := List.mergeSort_perm _ _
  have keys : (sorted.map (·.1)).Nodup := by
    have distinct : (inner.index.entries.map (·.1)).Nodup := inner.index.nodupKeys
    exact (order.map _).nodup_iff.mpr (distinct.sublist (List.filter_sublist.map _))
  have present : ∀ entry ∈ sorted, inner.index.lookup entry.1 = some entry.2 := by
    intro entry member
    exact mem_entries.mp (List.mem_filter.mp (order.mem_iff.mp member)).1
  have descending : sorted.Pairwise fun left right => right.2.keyLe left.2 = true := by
    refine List.pairwise_mergeSort ?_ ?_ waiting
    · intro first second third left right
      exact keyLe_trans _ _ _ right left
    · intro left right
      rw [Bool.or_eq_true]
      exact keyLe_total _ _
  refine ⟨sorted.map (·.1), keys, ?_, ?_⟩
  · intro id
    rw [List.mem_map]
    constructor
    · rintro ⟨entry, member, rfl⟩
      exact ⟨entry.2, present entry member, (List.mem_filter.mp (order.mem_iff.mp member)).2⟩
    · rintro ⟨entry, found, eligible⟩
      exact ⟨⟨id, entry⟩, order.mem_iff.mpr (List.mem_filter.mpr ⟨mem_entries.mpr found, eligible⟩), rfl⟩
  · rw [List.pairwise_map]
    refine (descending.and (List.pairwise_map.mp keys)).imp_of_mem ?_
    intro left right first second ⟨behind, different⟩ front back foundLeft foundRight
    rw [present left first] at foundLeft
    rw [present right second] at foundRight
    cases foundLeft
    cases foundRight
    have apart : left.2.seq ≠ right.2.seq := fun equal =>
      different (consistent.seq_injective _ _ _ _ (present left first) (present right second) equal)
    rw [← Bool.not_eq_true, keyLe_iff]
    rw [keyLe_iff] at behind
    omega

theorem Ready.due {system : System} {queue : QueueName} {now : DateTime} {ids : List JobId}
    (ready : Ready system.store.inner queue now ids) (consistent : system.store.inner.Consistent)
    (id : JobId) : id ∈ ids ↔ Due system queue now id := by
  rw [ready.listed]
  constructor
  · rintro ⟨entry, present, eligible⟩
    obtain ⟨named, free, due⟩ := eligible_iff.mp eligible
    obtain ⟨stream, job, stored, folded, mirrors⟩ := consistent.entry present
    refine ⟨job, entry.notBefore, ?_, ?_, mirrors.pending free, due⟩
    · rw [System.stream, Inner.stream_of_lookup stored]
      exact folded
    · rw [← mirrors.1, named]
  · rintro ⟨job, notBefore, folded, named, pending, due⟩
    have stored : system.store.inner.streams.lookup id = some (system.stream id) := by
      rw [consistent.lookup_of_stream]
      exact if_neg (Job.fromEvents_ne_nil folded)
    obtain ⟨again, refolded, mirrors⟩ := consistent.folds id _ stored
    rw [folded] at refolded
    cases refolded
    cases present : system.store.inner.index.lookup id with
    | none =>
      rw [present, Mirrors, pending] at mirrors
      cases mirrors
    | some entry =>
      rw [present] at mirrors
      obtain ⟨sameQueue, _, content⟩ := mirrors
      simp only [pending] at content
      refine ⟨entry, rfl, eligible_iff.mpr ⟨by rw [sameQueue, named], content.1, ?_⟩⟩
      rw [content.2]
      exact due

theorem Ready.ahead {history : Trace} {system : System} {queue : QueueName} {now : DateTime}
    {ids : List JobId} (ready : Ready system.store.inner queue now ids)
    (consistent : system.store.inner.Consistent) (queued : Queued history system) :
    ids.Pairwise (Ahead history system) := by
  refine ready.sorted.imp_of_mem ?_
  intro left right memberLeft memberRight behind first second foldLeft foldRight
  obtain ⟨front, presentLeft, _⟩ := (ready.listed left).mp memberLeft
  obtain ⟨back, presentRight, _⟩ := (ready.listed right).mp memberRight
  have priority {id : JobId} {entry : DispatchEntry} {job : Job}
      (present : system.store.inner.index.lookup id = some entry)
      (folded : Job.fromEvents (system.stream id) = .ok job) : entry.priority = job.priority := by
    obtain ⟨stream, other, stored, refolded, mirrors⟩ := consistent.entry present
    rw [System.stream, Inner.stream_of_lookup stored, refolded] at folded
    cases folded
    exact mirrors.2.1
  have strict := behind front back presentLeft presentRight
  rw [← Bool.not_eq_true, keyLe_iff, priority presentLeft foldLeft, priority presentRight foldRight] at strict
  rcases lt_or_eq_of_le (show second.priority.value.toInt ≤ first.priority.value.toInt by omega) with less | same
  · exact .inl less
  · refine .inr ⟨?_, queued.ordered left right front back presentLeft presentRight (by omega)⟩
    exact congrArg Priority.mk (Int16.toInt_inj.mp same.symm)

theorem Ready.claim {before after : System} {queue : QueueName} {now : DateTime} {ids : List JobId}
    {action : Action} {response : Response} (ready : Ready before.store.inner queue now ids)
    (sound : before.Sound) (healthy : before.store.poisoned = false)
    (claims : action.claimsAt queue now = true) (taken : System.Step before action response after) :
    handedJob response = some ids.head? ∧ Ready after.store.inner queue now ids.tail := by
  have change := taken.change sound
  obtain ⟨shuffled, order, ran⟩ := taken
  have usable : (⟨shuffled, before.store.poisoned⟩ : InMemoryEventStore).poisoned = false := healthy
  cases action with
  | leaseNext ports name worker ttl =>
    simp only [Action.claimsAt, Bool.and_eq_true, decide_eq_true_eq] at claims
    obtain ⟨⟨rfl, rfl⟩, fits⟩ := claims
    obtain ⟨deadline, sum⟩ := Option.isSome_iff_exists.mp fits
    obtain ⟨delta, converted, added⟩ := Option.bind_eq_some_iff.mp sum
    have picks := (ready.of_lookup order.index).picks
    simp only [Action.exec, leaseNext_eq, locked_result usable, Prod.mk.injEq] at ran
    obtain ⟨_, rfl⟩ := ran
    cases ids with
    | nil =>
      have idle : (shuffled.claim ports name worker ttl).2 = .ok none := by
        simp only [Inner.claim, picks, List.head?_nil]
      simp only [idle, Outcome.mapErr] at change ⊢
      refine ⟨rfl, ?_⟩
      cases change with
      | quiet order refused => exact ready.of_lookup order.index
    | cons first rest =>
      obtain ⟨entry, stream, job, present, eligible, stored, folded, pending, due⟩ :=
        (sound.consistent.reorder order).picked picks
      rcases called : shuffled.claim ports name worker ttl with ⟨written, outcome⟩
      rcases claim_picked picks stored folded called with ⟨_, leased, _, rfl, rfl⟩ | ⟨_, refused, _⟩ |
        ⟨unwound, _⟩
      · simp only [called, Outcome.mapErr] at change ⊢
        refine ⟨rfl, ?_⟩
        cases change with
        | quiet order refused => cases refused
        | leased _ _ _ _ _ effect effects =>
          obtain ⟨head, tail⟩ := List.nodup_cons.mp ready.nodup
          have moved : ∀ id, id ≠ leased.jobId →
              after.store.inner.index.lookup id = before.store.inner.index.lookup id := effects.index_other
          refine ⟨tail, ?_, ?_⟩
          · intro id
            by_cases same : id = leased.jobId
            · subst same
              refine ⟨fun member => absurd member head, ?_⟩
              rintro ⟨held, found, free⟩
              cases effect with
              | leased _ _ _ _ =>
                rw [effects.index_self] at found
                cases found
                cases (eligible_iff.mp free).2.1
            · rw [moved id same, ← ready.listed id]
              simp [same]
          · refine (List.pairwise_cons.mp ready.sorted).2.imp_of_mem ?_
            intro left right memberLeft memberRight behind
            rw [moved left (ne_of_mem_of_not_mem memberLeft head),
              moved right (ne_of_mem_of_not_mem memberRight head)]
            exact behind
      · have eligibleNow : entry.notBefore.all (· ≤ ports.now) = true := by
          cases wait : entry.notBefore with
          | none => rfl
          | some time => simpa using due time wait
        simp [Job.lease, pending, eligibleNow, converted, DateTime.add, added] at refused
      · obtain ⟨other, again, overflow⟩ := Job.lease_panic unwound
        rw [converted] at again
        cases again
        rw [added] at overflow
        cases overflow
  | _ => cases claims

theorem Ready.drain {system final : System} {calls : Trace} {queue : QueueName} {now : DateTime}
    {ids : List JobId} (run : Run System.Step system calls final)
    (ready : Ready system.store.inner queue now ids) (steady : Steady system)
    (claims : ∀ record ∈ calls, record.label.claimsAt queue now = true) :
    (∀ (k : Nat) record, calls.reverse[k]? = some record → handedJob record.result = some ids[k]?) ∧
      Ready final.store.inner queue now (ids.drop calls.length) ∧ Steady final := by
  induction run with
  | refl =>
    refine ⟨?_, ready, steady⟩
    intro k record found
    cases found
  | @step older before after label result run taken ih =>
    obtain ⟨first, rest⟩ := List.forall_mem_cons.mp claims
    obtain ⟨answered, left, still⟩ := ih rest
    obtain ⟨handed, fewer⟩ := left.claim still.sound still.unpoisoned first taken
    refine ⟨?_, ?_, still.step taken ?_⟩
    · intro k record found
      rw [List.reverse_cons] at found
      rcases Nat.lt_or_ge k older.reverse.length with early | last
      · rw [List.getElem?_append_left early] at found
        exact answered k record found
      · have bound := (List.getElem?_eq_some_iff.mp found).1
        rw [List.getElem?_append_right last] at found
        simp only [List.length_append, List.length_reverse, List.length_singleton] at bound last found
        rw [show k - older.length = 0 by omega] at found
        cases found
        rw [handed, List.head?_drop, show older.length = k by omega]
    · rw [List.length_cons, ← List.tail_drop]
      exact fewer
    · cases label with
      | leaseNext ports name worker ttl =>
        simp only [Action.claimsAt, Bool.and_eq_true, decide_eq_true_eq] at first
        obtain ⟨⟨rfl, rfl⟩, fits⟩ := first
        obtain ⟨deadline, sum⟩ := Option.isSome_iff_exists.mp fits
        obtain ⟨delta, converted, added⟩ := Option.bind_eq_some_iff.mp sum
        simp [Action.representable, Memory.representable, converted, added]
      | _ => cases first

theorem claims_drain_in_order {history : Trace} {system : System} (queue : QueueName) (now : DateTime)
    (run : Run System.Step .new history system)
    (fits : ∀ record ∈ history, record.label.representable record.before = true) :
    DrainsInOrder history system queue now := by
  have consistent := (Run.sound run).consistent
  obtain ⟨ids, ready⟩ := consistent.ready queue now
  refine ⟨ids, ready.nodup, ready.due consistent, ready.ahead consistent (Run.queued run), ?_⟩
  intro calls final drained claims
  exact (ready.drain drained ⟨history, run, fits⟩ claims).1

omit [BuildProfile] in
theorem oversized_ttl_stops_drain :
    let _ := BuildProfile.release
    ∃ history system, Run System.Step .new history system ∧
      Due system Sample.queue (Sample.instant 2) ⟨1⟩ ∧
      ¬ DrainsInOrder history system Sample.queue (Sample.instant 2) := by
  intro _
  refine ⟨_, _, Run.of_replay System.Step.of_exec poisoningActions,
    ⟨_, none, rfl, rfl, rfl, fun time wait => by cases wait⟩, ?_⟩
  rintro ⟨ids, _, _, _, drains⟩
  have answered := drains _ _
    (.step .refl (System.Step.of_exec (.leaseNext (Sample.ports 2 3) Sample.queue Sample.worker (.fromSecs 10)) _))
    (by decide) 0 _ rfl
  cases answered

/-- Two jobs, the older of which was started, failed, and is due again, newest step first. -/
def retriedActions : List Action :=
  [.append 1 (Sample.ports 5 6), .load 1 ⟨1⟩ (.fail Sample.worker ⟨3⟩ ⟨"E", "boom", none, true⟩),
    .append 0 (Sample.ports 4 5), .load 0 ⟨1⟩ (.start Sample.worker),
    .leaseNext (Sample.ports 3 3) Sample.queue Sample.worker (.fromSecs 10),
    .enqueue (Sample.ports 2 2) Sample.command, .enqueue (Sample.ports 1 1) Sample.command]

def drainActions : List Action :=
  [.leaseNext (Sample.ports 100 9) Sample.queue Sample.worker (.fromSecs 10),
    .leaseNext (Sample.ports 100 8) Sample.queue Sample.worker (.fromSecs 10),
    .leaseNext (Sample.ports 100 7) Sample.queue Sample.worker (.fromSecs 10)]

omit [BuildProfile] in
theorem claims_drain_in_order_retried :
    let _ := BuildProfile.release
    let system := (Run.replay Action.exec System.new retriedActions).2
    DrainsInOrder (Run.replay Action.exec System.new retriedActions).1 system Sample.queue
        (Sample.instant 100) ∧
      (Run.replay Action.exec system drainActions).1.map (handedJob ·.result) =
        [some none, some (some ⟨2⟩), some (some ⟨1⟩)] := by
  intro _ system
  exact ⟨claims_drain_in_order Sample.queue (Sample.instant 100)
    (Run.of_replay System.Step.of_exec retriedActions) (by decide), by decide⟩

end Koine.Memory
