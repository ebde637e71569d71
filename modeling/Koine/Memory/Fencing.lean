import Koine.Memory.Delivery
import Koine.Memory.Linearizable

namespace Koine.Memory

open Library Domain Application

def batchOf (record : Record System Action Response) (id : JobId) : List EventEnvelope :=
  (record.after.stream id).drop (record.before.stream id).length

def handedOut : Response → List LeaseId
  | .leased (.ok (some leased)) => [leased.lease]
  | _ => []

def Trace.granted (history : Trace) : List LeaseId := history.flatMap fun record => handedOut record.result

def recordedLease (record : Record System Action Response) : Option LeaseId :=
  match record.label, record.result with
  | .append ticket _, .answered (.ok (.ack .recorded)) =>
    (record.before.inFlight ticket).bind fun flight => flight.call.lease
  | _, _ => none

/-- The lease an event settles on a job that is held under `held`, acks aside. -/
def settledBy (held : Option LeaseId) : JobEvent → Option LeaseId
  | .leaseExpired lease => some lease
  | .cancelled _ => held
  | _ => none

section Definitions

variable [BuildProfile]

def heldLease (stream : List EventEnvelope) : Option LeaseId :=
  match Job.fromEvents stream with
  | .ok job => job.state.held
  | _ => none

def settlements (record : Record System Action Response) : List LeaseId :=
  (recordedLease record).toList ++
    record.after.store.inner.streams.keys.flatMap fun id =>
      (batchOf record id).filterMap fun envelope =>
        settledBy (heldLease (record.before.stream id)) envelope.event

def Trace.settled (history : Trace) : List LeaseId := history.flatMap settlements

end Definitions

theorem flatMap_single {α β : Type} {keys : List α} {f : α → List β} {key : α} (nodup : keys.Nodup)
    (member : key ∈ keys) (others : ∀ other ∈ keys, other ≠ key → f other = []) :
    keys.flatMap f = f key := by
  induction keys with
  | nil => cases member
  | cons first rest ih =>
    obtain ⟨fresh, tail⟩ := List.nodup_cons.mp nodup
    rw [List.flatMap_cons]
    by_cases same : first = key
    · subst same
      have silent : rest.flatMap f = [] := by
        rw [List.flatMap_eq_nil_iff]
        intro other listed
        exact others other (List.mem_cons_of_mem _ listed) (fun equal => fresh (equal ▸ listed))
      rw [silent, List.append_nil]
    · have found : key ∈ rest := (List.mem_cons.mp member).resolve_left (Ne.symm same)
      rw [others first (List.mem_cons_self ..) same, List.nil_append]
      exact ih tail found fun other listed => others other (List.mem_cons_of_mem _ listed)

variable [BuildProfile]

omit [BuildProfile] in
theorem batchOf_unchanged {record : Record System Action Response} {id : JobId}
    (same : record.after.stream id = record.before.stream id) : batchOf record id = [] := by
  rw [batchOf, same, List.drop_length]

theorem settlements_unchanged {record : Record System Action Response}
    (same : ∀ id, record.after.stream id = record.before.stream id) :
    settlements record = (recordedLease record).toList := by
  have silent : ∀ id, batchOf record id = [] := fun id => batchOf_unchanged (same id)
  simp [settlements, silent]

theorem settlements_appended {record : Record System Action Response} {id : JobId}
    {batch : List EventEnvelope} {next : Job}
    (effects : Appended record.before.store.inner record.after.store.inner id batch next) :
    settlements record = (recordedLease record).toList ++
      (batch.map EventEnvelope.event).filterMap (settledBy (heldLease (record.before.stream id))) := by
  have added : batchOf record id = batch := by
    rw [batchOf, System.stream, System.stream, effects.stream, List.drop_left]
  have listed : id ∈ record.after.store.inner.streams.keys := by
    rw [← AList.mem_keys, ← AList.lookup_isSome, effects.stream_self]
    rfl
  rw [settlements, flatMap_single (AList.keys_nodup _) listed]
  · rw [added, List.filterMap_map]
    rfl
  · intro other _ different
    rw [batchOf_unchanged (effects.stream_ne different)]
    rfl

theorem heldLease_of_fold {stream : List EventEnvelope} {job : Job}
    (folded : Job.fromEvents stream = .ok job) : heldLease stream = job.state.held := by
  rw [heldLease, folded]

theorem Change.settles {record : Record System Action Response}
    (change : Change record.before record.after record.label record.result) :
    settlements record = [] ∨
      ∃ id lease, settlements record = [lease] ∧ heldLease (record.before.stream id) = some lease ∧
        heldLease (record.after.stream id) = none ∧
        ∀ other, other ≠ id → record.after.stream other = record.before.stream other := by
  obtain ⟨before, label, result, after⟩ := record
  simp only at change ⊢
  cases change with
  | quiet order refused =>
    refine .inl (Eq.trans (settlements_unchanged order.stream) ?_)
    unfold recordedLease
    split
    · rename_i answered
      simp only at answered
      subst answered
      cases refused
    · rfl
  | enqueued valid fresh effects =>
    refine .inl ?_
    rw [settlements_appended effects]
    rfl
  | leased present folded granted lease deadline effect effects =>
    refine .inl ?_
    rw [settlements_appended effects, follow_events]
    rfl
  | extended held live converted added effects =>
    exact .inl (settlements_unchanged fun id => effects.stream)
  | @retired ports id entry state stream job next events indexed live overdue present folded retired effect
      effects =>
    obtain ⟨lease, attempt, decision, held, _, decided, rfl⟩ := Job.expireLease_ok retired
    have current : before.stream id = stream := Inner.stream_of_lookup present
    have written : after.stream id = stream ++ follow ports id stream [.leaseExpired lease, decision] := by
      rw [System.stream, effects.stream, ← current]
      rfl
    have refolded := follow_folds ports id folded effect.applies
    refine .inr ⟨id, lease, ?_, ?_, ?_, fun other different => effects.stream_ne different⟩
    · rw [settlements_appended effects, follow_events]
      rcases Job.retryDecisionEvent_ok decided with ⟨_, _, _, _, _, _, _, rfl⟩ | ⟨_, rfl⟩ <;> rfl
    · rw [current, heldLease_of_fold folded, held]
    · rw [written, heldLease_of_fold refolded]
      cases effect <;> rfl
  | @answered ticket ports flight reply stream job next events ongoing present folded same command effect
      effects =>
    have current : before.stream flight.jobId = stream := Inner.stream_of_lookup present
    have written : after.stream flight.jobId = stream ++ follow ports flight.jobId stream events := by
      rw [System.stream, effects.stream, ← current]
      rfl
    have refolded := follow_folds ports flight.jobId folded effect.applies
    have settled : settlements ⟨before, .append ticket ports, .answered (.ok reply), after⟩ = _ :=
      settlements_appended effects
    rw [follow_events, current, heldLease_of_fold folded] at settled
    rcases Call.command_reply command with ⟨rfl, lease, worker, expiresAt, presented, state, shape⟩ |
      ⟨rfl, worker, lease, reported, presented, rfl⟩ | ⟨rfl, presented, ⟨worker, rfl⟩ | ⟨reason, rfl⟩⟩
    · refine .inr ⟨flight.jobId, lease, ?_, ?_, ?_, fun other different => effects.stream_ne different⟩
      · rw [settled]
        simp only [recordedLease, ongoing, Option.bind_some, presented, Option.toList_some]
        rcases shape with ⟨_, rfl⟩ | ⟨_, _, _, rfl⟩ | ⟨_, _, _, rfl⟩ <;> rfl
      · rw [current, heldLease_of_fold folded, state]
        rfl
      · rw [written, heldLease_of_fold refolded]
        rcases shape with ⟨_, rfl⟩ | ⟨_, _, _, rfl⟩ | ⟨_, _, _, rfl⟩ <;> cases effect <;> rfl
    · refine .inl ?_
      rw [settled]
      rfl
    · refine .inl ?_
      rw [settled]
      rfl
    · cases held : job.state.held with
      | none =>
        refine .inl ?_
        rw [settled, held]
        rfl
      | some lease =>
        refine .inr ⟨flight.jobId, lease, ?_, ?_, ?_, fun other different => effects.stream_ne different⟩
        · rw [settled, held]
          rfl
        · rw [current, heldLease_of_fold folded, held]
        · rw [written, heldLease_of_fold refolded]
          cases effect
          rfl

theorem Effect.held {job next : Job} {events : List JobEvent} {lease : LeaseId}
    (effect : Job.Effect job events next) (held : next.state.held = some lease) :
    (∃ worker expiresAt, events = [.leased worker lease expiresAt]) ∨ job.state.held = some lease := by
  cases effect with
  | leased worker granted expiresAt state =>
    cases held
    exact .inl ⟨worker, expiresAt, rfl⟩
  | started state =>
    rw [state]
    exact .inr held
  | lateAck worker presented reported => exact .inr held
  | succeeded | failedRetry | failedParked | expiredRetry | expiredParked | cancelled => cases held

theorem Change.held {before after : System} {action : Action} {response : Response} {id : JobId}
    {lease : LeaseId} (change : Change before after action response)
    (held : heldLease (after.stream id) = some lease) :
    heldLease (before.stream id) = some lease ∨ lease ∈ handedOut response := by
  have extended : ∀ {target : JobId} {ports : Ports} {stream : List EventEnvelope} {job next : Job}
      {events : List JobEvent}, before.store.inner.streams.lookup target = some stream →
      Job.fromEvents stream = .ok job → Job.Effect job events next →
      Appended before.store.inner after.store.inner target (follow ports target stream events) next →
      heldLease (before.stream id) = some lease ∨
        ∃ worker expiresAt, events = [.leased worker lease expiresAt] := by
    intro target ports stream job next events present folded effect effects
    by_cases same : id = target
    · subst same
      have current : before.stream id = stream := Inner.stream_of_lookup present
      have written : after.stream id = stream ++ follow ports id stream events := by
        rw [System.stream, effects.stream, ← current]
        rfl
      rw [written, heldLease_of_fold (follow_folds ports id folded effect.applies)] at held
      rw [current, heldLease_of_fold folded]
      exact (Effect.held effect held).symm
    · have kept : after.stream id = before.stream id := effects.stream_ne same
      rw [kept] at held
      exact .inl held
  cases change with
  | quiet order refused =>
    rw [show after.stream id = before.stream id from order.stream id] at held
    exact .inl held
  | @enqueued ports cmd valid fresh effects =>
    by_cases same : id = ports.jobId
    · subst same
      have written : after.stream ports.jobId = cmd.envelopes ports := by
        rw [System.stream, effects.stream, Inner.stream, fresh]
        rfl
      rw [written] at held
      cases held
    · rw [show after.stream id = before.stream id from effects.stream_ne same] at held
      exact .inl held
  | leased present folded granted lease deadline effect effects =>
    rcases extended present folded effect effects with old | ⟨worker, expiresAt, events⟩
    · exact .inl old
    · cases events
      simp [handedOut, lease]
  | extended moved live converted added effects =>
    rw [show after.stream id = before.stream id from effects.stream] at held
    exact .inl held
  | retired indexed live overdue present folded retired effect effects =>
    rcases extended present folded effect effects with old | ⟨worker, expiresAt, events⟩
    · exact .inl old
    · obtain ⟨_, _, _, _, _, _, shape⟩ := Job.expireLease_ok retired
      rw [events] at shape
      cases shape
  | answered ongoing present folded same command effect effects =>
    rcases extended present folded effect effects with old | ⟨worker, expiresAt, rfl⟩
    · exact .inl old
    · rcases Call.command_reply command with ⟨_, _, _, _, _, _, ⟨_, shape⟩ | ⟨_, _, _, shape⟩ | ⟨_, _, _, shape⟩⟩ |
        ⟨_, _, _, _, _, shape⟩ | ⟨_, _, ⟨_, shape⟩ | ⟨_, shape⟩⟩ <;> cases shape

theorem Change.handedOut_unique {before after : System} {action : Action} {response : Response}
    {left right : JobId} {lease : LeaseId} (change : Change before after action response)
    (new : lease ∈ handedOut response) (old : ∀ id, heldLease (before.stream id) ≠ some lease)
    (first : heldLease (after.stream left) = some lease)
    (second : heldLease (after.stream right) = some lease) : left = right := by
  cases change with
  | quiet order refused =>
    rw [show after.stream left = before.stream left from order.stream left] at first
    exact absurd first (old left)
  | @leased _ _ _ _ _ _ _ _ leased present folded granted named deadline effect effects =>
    have target : ∀ id, heldLease (after.stream id) = some lease → id = leased.jobId := by
      intro id held
      by_contra different
      rw [show after.stream id = before.stream id from effects.stream_ne different] at held
      exact old id held
    rw [target left first, target right second]
  | enqueued | extended | retired | answered => cases new

/-- Settled leases were granted, are settled once, and are held by no job any more. -/
structure Fence (history : Trace) (system : System) : Prop where
  live : ∀ id lease, heldLease (system.stream id) = some lease → lease ∈ history.granted
  unique : ∀ left right lease, heldLease (system.stream left) = some lease →
    heldLease (system.stream right) = some lease → left = right
  past : ∀ lease ∈ history.settled, lease ∈ history.granted
  gone : ∀ lease ∈ history.settled, ∀ id, heldLease (system.stream id) ≠ some lease
  once : history.settled.Nodup

theorem Fence.new : Fence [] System.new where
  live := by intro id lease held; cases held
  unique := by intro left right lease held; cases held
  past := by intro lease settled; cases settled
  gone := by intro lease settled; cases settled
  once := List.nodup_nil

theorem Fence.step {history : Trace} {record : Record System Action Response}
    (fence : Fence history record.before)
    (change : Change record.before record.after record.label record.result)
    (fresh : (handedOut record.result ++ history.granted).Nodup) :
    Fence (record :: history) record.after := by
  have disjoint := List.disjoint_of_nodup_append fresh
  have granted : Trace.granted (record :: history) = handedOut record.result ++ history.granted := rfl
  have settled : Trace.settled (record :: history) = settlements record ++ history.settled := rfl
  have live : ∀ id lease, heldLease (record.after.stream id) = some lease →
      lease ∈ Trace.granted (record :: history) := by
    intro id lease held
    rw [granted]
    rcases change.held held with old | new
    · exact List.mem_append_right _ (fence.live id lease old)
    · exact List.mem_append_left _ new
  have absent : ∀ lease ∈ history.settled, ∀ id, heldLease (record.after.stream id) ≠ some lease := by
    intro lease old id held
    rcases change.held held with before | new
    · exact fence.gone lease old id before
    · exact disjoint new (fence.past lease old)
  have unique : ∀ left right lease, heldLease (record.after.stream left) = some lease →
      heldLease (record.after.stream right) = some lease → left = right := by
    intro left right lease first second
    rcases change.held first with old | new
    · rcases change.held second with other | late
      · exact fence.unique left right lease old other
      · exact absurd (fence.live left lease old) (disjoint late)
    · apply change.handedOut_unique new _ first second
      intro id held
      exact disjoint new (fence.live id lease held)
  rcases change.settles with none | ⟨id, lease, one, before, after, others⟩
  · rw [none, List.nil_append] at settled
    refine ⟨live, unique, ?_, ?_, ?_⟩
    · intro lease old
      rw [settled] at old
      exact List.mem_append_right _ (fence.past lease old)
    · intro lease old
      rw [settled] at old
      exact absent lease old
    · rw [settled]
      exact fence.once
  · rw [one] at settled
    refine ⟨live, unique, ?_, ?_, ?_⟩
    · intro other member
      rw [settled] at member
      rcases List.mem_append.mp member with new | old
      · rw [List.mem_singleton.mp new]
        exact List.mem_append_right _ (fence.live id lease before)
      · exact List.mem_append_right _ (fence.past other old)
    · intro other member target held
      rw [settled] at member
      rcases List.mem_append.mp member with new | old
      · rw [List.mem_singleton.mp new] at held
        by_cases same : target = id
        · subst same
          rw [after] at held
          cases held
        · rw [others target same] at held
          exact same (fence.unique target id lease held before)
      · exact absent other old target held
    · rw [settled]
      refine List.nodup_cons.mpr ⟨?_, fence.once⟩
      intro old
      exact fence.gone lease old id before

theorem Run.fence {history : Trace} {system : System} (run : Run System.Step .new history system)
    (distinct : history.granted.Nodup) : Fence history system := by
  induction run with
  | refl => exact Fence.new
  | step run taken ih =>
    have older := ih (List.Nodup.of_append_right distinct)
    exact Fence.step older (taken.change (Run.sound run)) distinct

omit [BuildProfile] in
/-- Each expiry in a stream names the lease granted last before it. -/
def ExpiriesNamed (stream : List EventEnvelope) : Prop :=
  ∀ pre envelope post lease, stream = pre ++ envelope :: post → envelope.event = .leaseExpired lease →
    (leasesOf pre).getLast? = some lease

omit [BuildProfile] in
theorem leasesOf_append (left right : List EventEnvelope) :
    leasesOf (left ++ right) = leasesOf left ++ leasesOf right := List.filterMap_append

omit [BuildProfile] in
theorem ExpiriesNamed.append {stream batch : List EventEnvelope} (named : ExpiriesNamed stream)
    (expiry : ∀ envelope ∈ batch, ∀ lease, envelope.event = .leaseExpired lease →
      leasesOf batch = [] ∧ (leasesOf stream).getLast? = some lease) :
    ExpiriesNamed (stream ++ batch) := by
  intro pre envelope post lease shape event
  have inside : ∀ a, batch = a ++ envelope :: post → (leasesOf (stream ++ a)).getLast? = some lease := by
    intro a found
    obtain ⟨silent, latest⟩ := expiry envelope (by simp [found]) lease event
    rw [found, leasesOf_append, List.append_eq_nil_iff] at silent
    rw [leasesOf_append, silent.1, List.append_nil]
    exact latest
  rcases List.append_eq_append_iff.mp shape with ⟨a, rfl, found⟩ | ⟨c, rfl, found⟩
  · exact inside a found
  · cases c with
    | nil =>
      have latest := inside [] found.symm
      rw [List.append_nil, List.append_nil] at latest
      exact latest
    | cons first rest =>
      cases found
      exact named pre envelope rest lease rfl event

structure NamesLatest (stream : List EventEnvelope) (job : Job) : Prop where
  held : ∀ lease, job.state.held = some lease → (leasesOf stream).getLast? = some lease
  named : ExpiriesNamed stream

omit [BuildProfile] in
theorem leasesOf_follow_nil {ports : Ports} {id : JobId} {stream : List EventEnvelope}
    {events : List JobEvent} (none : ∀ worker lease expiresAt, JobEvent.leased worker lease expiresAt ∉ events) :
    leasesOf (follow ports id stream events) = [] := by
  apply List.eq_nil_iff_forall_not_mem.mpr
  intro lease member
  obtain ⟨worker, expiresAt, listed⟩ := mem_leasesOf_follow.mp member
  exact none worker lease expiresAt listed

theorem Effect.expiry {job next : Job} {events : List JobEvent} {lease : LeaseId}
    (effect : Job.Effect job events next) (expired : JobEvent.leaseExpired lease ∈ events) :
    job.state.held = some lease ∧ ∀ worker lease expiresAt, JobEvent.leased worker lease expiresAt ∉ events := by
  cases effect <;> simp_all

theorem NamesLatest.effect {stream : List EventEnvelope} {job next : Job} {events : List JobEvent}
    (ports : Ports) (id : JobId) (latest : NamesLatest stream job) (effect : Job.Effect job events next) :
    NamesLatest (stream ++ follow ports id stream events) next := by
  refine ⟨?_, ?_⟩
  · intro lease held
    rw [leasesOf_append]
    cases effect with
    | leased worker granted expiresAt state =>
      cases held
      rw [List.getLast?_append]
      rfl
    | started state =>
      rw [leasesOf_follow_nil (by simp), List.append_nil]
      exact latest.held lease (by rw [state]; exact held)
    | lateAck worker presented reported =>
      rw [leasesOf_follow_nil (by simp), List.append_nil]
      exact latest.held lease held
    | succeeded | failedRetry | failedParked | expiredRetry | expiredParked | cancelled => cases held
  · apply latest.named.append
    intro envelope member lease event
    have listed : JobEvent.leaseExpired lease ∈ events := by
      rw [← follow_events ports id stream events, ← event]
      exact List.mem_map_of_mem member
    obtain ⟨held, none⟩ := Effect.expiry effect listed
    exact ⟨leasesOf_follow_nil none, latest.held lease held⟩

theorem Run.namesLatest {history : Trace} {system : System} (run : Run System.Step .new history system) :
    system.Streams NamesLatest := by
  apply Run.streams NamesLatest _ _ run
  · intro ports cmd _
    refine ⟨?_, ?_⟩
    · intro lease held
      cases held
    · intro pre envelope post lease shape event
      have member : envelope ∈ cmd.envelopes ports := by simp [shape]
      cases List.mem_singleton.mp member
      cases event
  · intro ports id stream job events next _ latest effect
    exact latest.effect ports id effect

theorem answered_ne_panic {before after : System} {ticket : Nat} {ports : Ports} {flight : InFlight}
    {response : Response} (sound : before.Sound) (ongoing : before.inFlight ticket = some flight)
    (accounted : Accounted flight.loaded.stream flight.loaded.job)
    (taken : System.Step before (.append ticket ports) response after) :
    response ≠ .answered .panic := by
  obtain ⟨shuffled, order, ran⟩ := taken
  obtain ⟨folded, id, grown⟩ := sound.loaded ticket flight ongoing
  intro unwound
  subst unwound
  simp only [Action.exec, ongoing, Prod.mk.injEq, Response.answered.injEq] at ran
  have finished := ran.2
  unfold Call.finish at finished
  split at finished
  · cases finished
  · rename_i failed
    have none := Call.command_panic failed
    rw [u32Succ_eq accounted.room] at none
    cases none
  · rename_i reply events command
    rcases appended : EventStore.append (⟨shuffled, before.store.poisoned⟩ : InMemoryEventStore)
      flight.loaded.job.id flight.loaded.job.version (flight.loaded.envelopes ports events) with
      ⟨written, _ | _ | _⟩
    · rw [appended] at finished
      cases finished
    · rw [appended] at finished
      cases finished
    · obtain ⟨length, unwound⟩ := append_panic appended
      obtain ⟨next, effect⟩ := Call.command_effect command
      have version := Job.fromEvents_version folded
      have current : flight.loaded.stream = shuffled.stream flight.loaded.job.id := by
        rw [id, order.stream]
        apply grown.eq_of_length
        rw [id, order.stream] at length
        rw [← version, ← length]
        rfl
      have refolded := follow_folds ports flight.loaded.job.id folded effect.applies
      have wrapped : flight.loaded.envelopes ports events =
          follow ports flight.loaded.job.id flight.loaded.stream events := by
        rw [Loaded.envelopes, follow, version]
      rw [← current, wrapped, refolded] at unwound
      cases unwound

theorem settled_ack {history : Trace} {record : Record System Action Response} {ticket : Nat}
    {ports : Ports} {flight : InFlight} {lease : LeaseId} (sound : record.before.Sound)
    (fence : Fence history record.before) (accounted : Accounted flight.loaded.stream flight.loaded.job)
    (taken : System.Step record.before record.label record.result record.after)
    (label : record.label = .append ticket ports) (ongoing : record.before.inFlight ticket = some flight)
    (presented : flight.call.lease = some lease) (settled : lease ∈ history.settled) :
    (∃ error, record.result = .answered (.err error) ∧
        ∀ id, record.after.stream id = record.before.stream id) ∨
      (record.result = .answered (.ok (.ack .conflict)) ∧
        ∃ job envelope worker reported, Job.fromEvents (record.before.stream flight.jobId) = .ok job ∧
          envelope.event = .lateAckConflict worker lease reported ∧
          record.after.stream flight.jobId = record.before.stream flight.jobId ++ [envelope] ∧
          Job.fromEvents (record.after.stream flight.jobId) =
            .ok { job with version := job.version + 1 } ∧
          ∀ id, id ≠ flight.jobId → record.after.stream id = record.before.stream id) := by
  obtain ⟨before, action, response, after⟩ := record
  simp only at sound fence taken label ongoing ⊢
  subst label
  have change := taken.change sound
  obtain ⟨result, rfl⟩ : ∃ result, response = .answered result := by
    obtain ⟨shuffled, _, ran⟩ := taken
    simp only [Action.exec, ongoing, Prod.mk.injEq] at ran
    exact ⟨_, ran.2.symm⟩
  cases result with
  | panic => exact absurd rfl (answered_ne_panic sound ongoing accounted taken)
  | err error => exact .inl ⟨error, rfl, fun id => change.refused_stream rfl id⟩
  | ok reply =>
    obtain ⟨found, job, events, opened, folded, _, command, _, written, others⟩ := change.answered_stream
    rw [ongoing] at opened
    cases opened
    rcases Call.command_reply command with ⟨_, held, worker, expiresAt, under, state, _⟩ |
      ⟨rfl, worker, named, reported, under, rfl⟩ | ⟨_, none, _⟩
    · rw [presented] at under
      cases under
      refine absurd ?_ (fence.gone lease settled flight.jobId)
      rw [heldLease_of_fold folded, state]
      rfl
    · rw [presented] at under
      cases under
      have refolded := follow_folds ports flight.jobId folded
        (Job.Effect.lateAck worker lease reported).applies
      refine .inr ⟨rfl, job, _, worker, reported, folded, ?_, written, ?_, others⟩
      · rfl
      · rw [written]
        exact refolded
    · rw [presented] at none
      cases none

theorem leases_settled_once {history : Trace} {system : System}
    (run : Run System.Step .new history system) (distinct : history.granted.Nodup) :
    history.settled.Nodup ∧
    (∀ record ∈ history, ∀ ticket ports, record.label = .append ticket ports →
      record.result = .answered (.ok (.ack .recorded)) →
      ∃ flight lease job worker expiresAt, record.before.inFlight ticket = some flight ∧
        flight.call.lease = some lease ∧
        Job.fromEvents (record.before.stream flight.jobId) = .ok job ∧
        job.state = .running worker lease expiresAt) ∧
    (∀ id stream, system.store.inner.streams.lookup id = some stream → ExpiriesNamed stream) ∧
    ∀ newer older record ticket ports flight lease, history = newer ++ record :: older →
      record.label = .append ticket ports → record.before.inFlight ticket = some flight →
      flight.call.lease = some lease → lease ∈ Trace.settled older →
      (∃ error, record.result = .answered (.err error) ∧
        ∀ id, record.after.stream id = record.before.stream id) ∨
      (record.result = .answered (.ok (.ack .conflict)) ∧
        ∃ job envelope worker reported, Job.fromEvents (record.before.stream flight.jobId) = .ok job ∧
          envelope.event = .lateAckConflict worker lease reported ∧
          record.after.stream flight.jobId = record.before.stream flight.jobId ++ [envelope] ∧
          Job.fromEvents (record.after.stream flight.jobId) =
            .ok { job with version := job.version + 1 } ∧
          ∀ id, id ≠ flight.jobId → record.after.stream id = record.before.stream id) := by
  refine ⟨(Run.fence run distinct).once, ?_, ?_, ?_⟩
  · intro record member ticket ports label result
    have change := Run.change run member
    rw [label, result] at change
    obtain ⟨flight, job, events, ongoing, folded, _, command, _⟩ := change.answered_stream
    rcases Call.command_reply command with ⟨_, lease, worker, expiresAt, under, state, _⟩ | ⟨other, _⟩ |
      ⟨other, _⟩
    · exact ⟨flight, lease, job, worker, expiresAt, ongoing, under, folded, state⟩
    · cases other
    · cases other
  · intro id stream stored
    obtain ⟨job, folded, _⟩ := (Run.sound run).consistent.folds id stream stored
    exact ((Run.namesLatest run).stored id stream job stored folded).named
  · intro newer older record ticket ports flight lease shape label ongoing presented settled
    subst shape
    obtain ⟨before, taken, _⟩ := run.split
    have granted : Trace.granted (newer ++ record :: older) =
        Trace.granted newer ++ (handedOut record.result ++ Trace.granted older) := by
      simp [Trace.granted]
    rw [granted] at distinct
    have fence := Run.fence before (List.Nodup.of_append_right (List.Nodup.of_append_right distinct))
    exact settled_ack (Run.sound before) fence ((Run.accounted before).loaded ticket flight ongoing) taken
      label ongoing presented settled

/-- A lease that expires, its late ack, and the re-lease of the job, newest step first. -/
def lateAckActions : List Action :=
  [.leaseNext (Sample.ports 90 7) Sample.queue Sample.worker (.fromSecs 10),
    .append 1 (Sample.ports 31 6), .load 1 ⟨1⟩ (.succeed Sample.worker ⟨2⟩ none),
    .retireNextExpiredLease (Sample.ports 30 5), .append 0 (Sample.ports 3 4),
    .load 0 ⟨1⟩ (.start Sample.worker),
    .leaseNext (Sample.ports 1 2) Sample.queue Sample.worker (.fromSecs 10),
    .enqueue (Sample.ports 0 1) Sample.command]

omit [BuildProfile] in
theorem leases_settled_once_late_ack :
    let _ := BuildProfile.release
    (Run.replay Action.exec System.new lateAckActions).1.map (·.result.refused) =
        [false, false, true, false, false, true, false, false] ∧
      Trace.settled (Run.replay Action.exec System.new lateAckActions).1 = [⟨2⟩] ∧
      (Trace.settled (Run.replay Action.exec System.new lateAckActions).1).Nodup := by
  intro _
  exact ⟨by decide, by decide,
    (leases_settled_once (Run.of_replay System.Step.of_exec lateAckActions) (by decide)).1⟩

end Koine.Memory
