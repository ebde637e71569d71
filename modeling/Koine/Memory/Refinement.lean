import Koine.Formal.Simulation
import Koine.Memory.Fencing

namespace Koine.Memory

open Library Domain Application Formal

def ledgerOf (stream : List EventEnvelope) : Ledger := Ledger.empty.recordAll (stream.map (·.event))

theorem ledgerOf_follow (ports : Ports) (id : JobId) (stream : List EventEnvelope) (events : List JobEvent) :
    ledgerOf (stream ++ follow ports id stream events) = (ledgerOf stream).recordAll events := by
  simp only [ledgerOf, Ledger.recordAll, List.map_append, List.foldl_append, follow_events]

variable [BuildProfile]

def renews (id : JobId) (record : Record System Action Response) : Bool :=
  match record.label, record.result with
  | .extendLease _ lease _, .extended (.ok true) => heldLease (record.before.stream id) == some lease
  | _, _ => false

def Trace.renewals (id : JobId) (history : Trace) : Nat := history.countP (renews id)

def System.view (system : System) (id : JobId) (heartbeats : Nat) : Option View :=
  match Job.fromEvents (system.stream id) with
  | .ok job => viewOf heartbeats (ledgerOf (system.stream id)) job
  | _ => none

/-- The job in the variables of the lease protocol after each step since it was enqueued, newest first. -/
def Trace.views (id : JobId) : Trace → List View
  | [] => []
  | record :: older => (record.after.view id (Trace.renewals id (record :: older))).toList ++ Trace.views id older

theorem renews_refused {id : JobId} {record : Record System Action Response}
    (refused : record.result.refused = true) : renews id record = false := by
  unfold renews
  split
  · rename_i answered
    rw [answered] at refused
    cases refused
  · rfl

theorem renews_held {id : JobId} {record : Record System Action Response} (renewed : renews id record = true) :
    ∃ lease, heldLease (record.before.stream id) = some lease := by
  unfold renews at renewed
  split at renewed
  · rename_i lease _ _ _
    exact ⟨lease, beq_iff_eq.mp renewed⟩
  · cases renewed

inductive Seen (id : JobId) (record : Record System Action Response) : Prop where
  | unmoved (same : record.after.stream id = record.before.stream id) (quiet : renews id record = false)
  | renewed (same : record.after.stream id = record.before.stream id) (beat : renews id record = true)
  | opened (ports : Ports) (cmd : EnqueueCommand) (named : ports.jobId = id)
      (fresh : record.before.stream id = []) (stream : record.after.stream id = cmd.envelopes ports)
      (quiet : renews id record = false)
  | moved (ports : Ports) (job next : Job) (events : List JobEvent)
      (folded : Job.fromEvents (record.before.stream id) = .ok job) (effect : Job.Effect job events next)
      (stream : record.after.stream id =
        record.before.stream id ++ follow ports id (record.before.stream id) events)
      (quiet : renews id record = false)

theorem Seen.of_appended {id target : JobId} {record : Record System Action Response} {ports : Ports}
    {stream : List EventEnvelope} {job next final : Job} {events : List JobEvent}
    (present : record.before.store.inner.streams.lookup target = some stream)
    (folded : Job.fromEvents stream = .ok job) (effect : Job.Effect job events next)
    (effects : Appended record.before.store.inner record.after.store.inner target
      (follow ports target stream events) final)
    (quiet : renews id record = false) : Seen id record := by
  by_cases same : id = target
  · subst same
    have old : record.before.stream id = stream := Inner.stream_of_lookup present
    rw [← old] at folded effects
    exact .moved ports job next events folded effect effects.stream quiet
  · exact .unmoved (effects.stream_ne same) quiet

theorem Change.seen {record : Record System Action Response}
    (change : Change record.before record.after record.label record.result) (id : JobId) : Seen id record := by
  obtain ⟨before, label, result, after⟩ := record
  simp only at change
  cases change with
  | quiet order refused => exact .unmoved (order.stream id) (renews_refused refused)
  | enqueued valid fresh effects =>
    rename_i ports cmd
    by_cases same : id = ports.jobId
    · subst same
      have empty : before.stream ports.jobId = [] := by rw [System.stream, Inner.stream, fresh]; rfl
      refine .opened ports cmd rfl empty ?_ rfl
      have grown := effects.stream
      rw [show before.store.inner.stream ports.jobId = [] from empty] at grown
      exact grown
    · exact .unmoved (effects.stream_ne same) rfl
  | leased present folded granted lease deadline effect effects =>
    exact .of_appended present folded effect effects rfl
  | extended held live converted added effects =>
    cases beat : renews id ⟨before, _, _, after⟩ with
    | true => exact .renewed effects.stream beat
    | false => exact .unmoved effects.stream beat
  | retired indexed live overdue present folded retired effect effects =>
    exact .of_appended present folded effect effects rfl
  | answered ongoing present folded same command effect effects =>
    exact .of_appended present folded effect effects rfl

theorem Run.views_nil {history : Trace} {system : System} {id : JobId}
    (run : Run System.Step .new history system) (empty : system.stream id = []) :
    Trace.views id history = [] ∧ Trace.renewals id history = 0 := by
  induction run with
  | refl => exact ⟨rfl, rfl⟩
  | @step older before after label result run taken ih =>
    have change := taken.change (Run.sound run)
    have earlier : before.stream id = [] := by
      have grown := change.grows id
      rw [empty] at grown
      exact List.prefix_nil.mp grown
    obtain ⟨views, renewals⟩ := ih earlier
    have quiet : renews id ⟨before, label, result, after⟩ = false := by
      cases beat : renews id ⟨before, label, result, after⟩ with
      | false => rfl
      | true =>
        obtain ⟨lease, held⟩ := renews_held beat
        simp only [earlier] at held
        cases held
    refine ⟨?_, ?_⟩
    · simp only [Trace.views, views, List.append_nil, System.view, empty]
      rfl
    · rw [Trace.renewals, List.countP_cons_of_neg (by simp [quiet])]
      exact renewals

theorem Effect.policy {job next : Job} {events : List JobEvent} (effect : Job.Effect job events next) :
    next.retryPolicy = job.retryPolicy := by
  cases effect <;> rfl

theorem Trace.views_cons {id : JobId} {record : Record System Action Response} {older : Trace} {job : Job}
    {view : View} (folded : Job.fromEvents (record.after.stream id) = .ok job)
    (shown : viewOf (Trace.renewals id (record :: older)) (ledgerOf (record.after.stream id)) job = some view) :
    Trace.views id (record :: older) = view :: Trace.views id older := by
  simp only [Trace.views, System.view, folded, shown, Option.toList_some, List.singleton_append]

theorem Run.shadow {history : Trace} {system : System} {id : JobId} {job : Job} {constants : Constants}
    (run : Run System.Step .new history system) (folded : Job.fromEvents (system.stream id) = .ok job)
    (suits : Suits constants job.retryPolicy) (beats : Trace.renewals id history ≤ constants.maxHeartbeats) :
    Shadow constants (Trace.renewals id history) (ledgerOf (system.stream id)) job (Trace.views id history) := by
  induction run generalizing job with
  | refl => cases folded
  | @step older before after label result run taken ih =>
    have counted : Trace.renewals id (⟨before, label, result, after⟩ :: older) =
        Trace.renewals id older + if renews id ⟨before, label, result, after⟩ then 1 else 0 := List.countP_cons ..
    -- each case ends with the new view in front of the older ones
    suffices next : ∃ view,
        viewOf (Trace.renewals id (⟨before, label, result, after⟩ :: older)) (ledgerOf (after.stream id)) job =
          some view ∧
        Shadow constants (Trace.renewals id (⟨before, label, result, after⟩ :: older))
          (ledgerOf (after.stream id)) job (view :: Trace.views id older) by
      obtain ⟨view, shown, shadow⟩ := next
      rw [Trace.views_cons folded shown]
      exact shadow
    have seen : Seen id ⟨before, label, result, after⟩ := Change.seen (taken.change (Run.sound run)) id
    cases seen with
    | unmoved same quiet =>
      simp only [quiet, Bool.false_eq_true, if_false, Nat.add_zero] at counted
      simp only at same
      rw [counted] at beats ⊢
      rw [same] at folded ⊢
      exact (ih folded suits beats).unmoved
    | renewed same beat =>
      simp only [beat, if_true] at counted
      obtain ⟨lease, held⟩ := renews_held beat
      simp only at same held
      rw [counted] at beats ⊢
      rw [same] at folded ⊢
      rw [heldLease_of_fold folded] at held
      exact (ih folded suits (Nat.le_of_succ_le beats)).renewed suits.ttl beats held
    | opened ports cmd named fresh stream quiet =>
      simp only [quiet, Bool.false_eq_true, if_false, Nat.add_zero] at counted
      simp only at fresh stream
      obtain ⟨views, none⟩ := Run.views_nil run fresh
      rw [counted, views, none]
      rw [stream, enqueued_opens] at folded
      cases folded
      rw [stream]
      exact Shadow.opened constants
    | moved ports job next events old effect stream quiet =>
      simp only [quiet, Bool.false_eq_true, if_false, Nat.add_zero] at counted
      simp only at old stream
      rw [counted] at beats ⊢
      rw [stream, follow_folds ports id old effect.applies] at folded
      cases folded
      rw [Effect.policy effect] at suits
      rw [stream, ledgerOf_follow]
      exact (ih old suits beats).effect suits effect

/-- Along every run of the in-memory system, a job goes through changes that a run of the checked lease
    protocol goes through: its state, attempts, grants, the grant in force, accepted heartbeats and late acks. -/
theorem runs_follow_lease_protocol {history : Trace} {system : System} {id : JobId} {job : Job}
    {constants : Constants} (run : Run System.Step .new history system)
    (folded : Job.fromEvents (system.stream id) = .ok job) (suits : Suits constants job.retryPolicy)
    (beats : Trace.renewals id history ≤ constants.maxHeartbeats) :
    ∃ path vars, Run (Vars.Step constants) .init path vars ∧
      SameChanges (Trace.views id history) (Run.seen Vars.view .init path) := by
  obtain ⟨vars, ⟨path, _, _, follows, same⟩, _⟩ := Run.shadow run folded suits beats
  exact ⟨path, vars, follows, same⟩

def renewedActions : List Action :=
  [.append 1 (Sample.ports 43 9), .load 1 ⟨1⟩ (.succeed Sample.worker ⟨5⟩ none),
    .append 1 (Sample.ports 42 8), .load 1 ⟨1⟩ (.start Sample.worker),
    .append 0 (Sample.ports 41 6), .load 0 ⟨1⟩ (.succeed Sample.worker ⟨2⟩ none),
    .leaseNext (Sample.ports 40 5) Sample.queue Sample.worker (.fromSecs 10),
    .retireNextExpiredLease (Sample.ports 20 4),
    .extendLease (Sample.ports 5 3) ⟨2⟩ (.fromSecs 10),
    .leaseNext (Sample.ports 1 2) Sample.queue Sample.worker (.fromSecs 10),
    .enqueue (Sample.ports 0 1) Sample.command]

omit [BuildProfile] in
theorem runs_follow_lease_protocol_renewed :
    let _ := BuildProfile.release
    ((Trace.views ⟨1⟩ (Run.replay Action.exec System.new renewedActions).1).map (·.state)).destutter (· ≠ ·) =
        [.succeeded, .running, .leased, .pending, .leased, .pending] ∧
      ∃ path vars, Run (Vars.Step checked) .init path vars ∧
        SameChanges (Trace.views ⟨1⟩ (Run.replay Action.exec System.new renewedActions).1)
          (Run.seen Vars.view .init path) := by
  intro _
  refine ⟨by decide +kernel, ?_⟩
  exact runs_follow_lease_protocol (Run.of_replay System.Step.of_exec renewedActions) rfl
    ⟨by decide, by decide, by decide, by decide⟩ (by decide +kernel)

end Koine.Memory
