import Koine.Postgres.Fencing
import Koine.Postgres.Updates

namespace Koine.Postgres

open Library Domain Application

section Heartbeats

variable {J : Type} [Serde J] [BuildProfile]

def Strict (history : List (Record (Cluster J) Label Unit)) : Prop :=
  ∀ record ∈ history, ∀ ticket work, record.label = .start ticket work → work.strict = true

theorem Run.shows {history : List (Record (Cluster J) Label Unit)} {cluster : Cluster J}
    (run : Run Cluster.Step .empty history cluster) (strict : Strict history) (stream : JobId) :
    Shows cluster.world.tables stream := by
  obtain ⟨phases, _, dispatching⟩ := Run.phases true (fun _ work => work.strict = true)
    (fun cluster phases => Log cluster phases ∧ Dispatching cluster phases) (fun _ _ allowed _ => allowed)
    ⟨Log.empty, Dispatching.empty⟩
    (fun _ _ ticket _ kept _ _ => ⟨kept.1.start ticket, kept.2.start ticket⟩)
    (fun _ _ ticket kept => ⟨kept.1.close ticket, kept.2.close ticket⟩)
    (fun _ _ _ _ _ _ _ program kept found advance =>
      ⟨kept.1.advance found program advance, kept.2.advance kept.1 found program advance⟩)
    run strict
  exact dispatching.shows stream

def renewed (id : JobId) (record : Record (Cluster J) Label Unit) : Option (Ports × LeaseId × Duration) :=
  match record.label with
  | .advance ticket _ =>
    match record.before.sessions.lookup ticket with
    | some ⟨.operation (.extendLease ports lease ttl), .call .commit _, tx⟩ =>
      if (tx.moved id).isSome then some (ports, lease, ttl) else none
    | _ => none
  | _ => none

omit [Serde J] [BuildProfile] in
theorem renewed_eq_some {id : JobId} {record : Record (Cluster J) Label Unit} {ports : Ports} {lease : LeaseId}
    {ttl : Duration} (renews : renewed id record = some (ports, lease, ttl)) :
    ∃ ticket verdict rest tx row, record.label = .advance ticket verdict ∧
      record.before.sessions.lookup ticket =
        some ⟨.operation (.extendLease ports lease ttl), .call .commit rest, tx⟩ ∧ tx.moved id = some row := by
  unfold renewed at renews
  split at renews
  · rename_i ticket verdict label
    split at renews
    · rename_i found
      split_ifs at renews with moved
      cases renews
      obtain ⟨row, moved⟩ := Option.isSome_iff_exists.mp moved
      exact ⟨ticket, verdict, _, _, row, label, found, moved⟩
    · cases renews
  · cases renews

/-- The job of a renewed row holds the lease by the log, and its row is the one it was but for the deadline. -/
structure Renewal (before after : Tables J) (ports : Ports) (lease : LeaseId) (ttl : Duration) (id : JobId) :
    Prop where
  held : ∃ job, foldRows (before.streamRows id) = some job ∧ job.state.held = some lease
  moved : ∃ old new, before.dispatch.lookup id = some old ∧ after.dispatch.lookup id = some new ∧
    DispatchRow.Renewed ports lease ttl old new
  log : after.events = before.events

theorem Run.renewal {history : List (Record (Cluster J) Label Unit)} {cluster : Cluster J}
    (run : Run Cluster.Step .empty history cluster) (strict : Strict history)
    {record : Record (Cluster J) Label Unit} (member : record ∈ history) {ports : Ports} {lease : LeaseId}
    {ttl : Duration} {id : JobId} (renews : renewed id record = some (ports, lease, ttl)) :
    Renewal record.before.world.tables record.after.world.tables ports lease ttl id := by
  obtain ⟨ticket, verdict, rest, tx, row, label, found, moved⟩ := renewed_eq_some renews
  obtain ⟨newer, older, rfl, past, taken, _⟩ := run.of_mem member
  obtain ⟨plans, following, updating, _⟩ := Run.updating past
  have work := updating.guarded.works ticket _ found
  obtain ⟨_, unplanned, rows⟩ := updating.beating ticket _ found ports lease ttl work
  obtain ⟨old, new, present, rfl, beat⟩ := rows id row moved
  have earlier : Strict older := fun record listed =>
    strict record (List.mem_append_right _ (List.mem_cons_of_mem _ listed))
  have committed : record.after.world.tables = tx.view record.before.world.tables := by
    rw [label, Cluster.Step, Label.step, found] at taken
    simp only [Stmt.waits, Bool.false_eq_true, if_false] at taken
    rw [← Option.some.inj taken]
    rfl
  constructor
  · rcases Run.shows past earlier id with ⟨_, missing⟩ | ⟨job, folds, columns⟩
    · rw [missing] at present
      cases present
    · rw [present, Option.map_some] at columns
      refine ⟨job, folds, ?_⟩
      rw [← columnsOf_leaseId columns.symm]
      have alive := beat.1
      rw [DispatchRow.alive, Bool.and_eq_true, decide_eq_true_eq] at alive
      exact alive.1
  · refine ⟨old, new, present, ?_, beat⟩
    rw [committed, Transaction.view_dispatch, moved]
    rfl
  · have allowed := following.permitted found
    rw [committed, Transaction.view_events]
    rcases updating.commits found allowed with none | ⟨stream, batch, _, _, append | planned⟩
    · rw [none, List.append_nil]
    · cases append
    · obtain ⟨_, _, _, _, _, _, decides, _⟩ := Work.plan_decides planned
      cases decides

/-- However acks, claims, retirements and heartbeats interleave statement by statement, a heartbeat that commits
    moves the deadline of jobs that hold its lease by the committed log at that moment to the end of the time it asks
    for, and nothing else. -/
theorem heartbeats_renew_held_leases {history : List (Record (Cluster J) Label Unit)} {cluster : Cluster J}
    (run : Run Cluster.Step .empty history cluster) (strict : Strict history) :
    ∀ record ∈ history, ∀ ports lease ttl id, renewed id record = some (ports, lease, ttl) →
      Renewal record.before.world.tables record.after.world.tables ports lease ttl id := by
  intro record member ports lease ttl id renews
  exact Run.renewal run strict member renews

end Heartbeats

def renewedLabels : List Label :=
  Label.advances 3 4 ++ Label.advances 2 2 ++ Label.advances 3 3 ++
    [.start 3 (.operation (.append ⟨1⟩ 2
      (wrapEvents (Sample.ports 3 4) ⟨1⟩ 2 ⟨1⟩ none none [.cancelled none])))] ++
    Label.advances 2 1 ++ [.start 2 (.operation (.extendLease (Sample.ports 2 3) ⟨2⟩ (.fromSecs 20)))] ++
    Label.advances 1 9 ++
    [.start 1 (.operation (.leaseNext (Sample.ports 1 2) Sample.queue Sample.worker (.fromSecs 10)))] ++
    Label.advances 0 8 ++
    [.start 0 (.operation (.append ⟨1⟩ 0 (Sample.command.envelopes (Sample.ports 0 1))))]

theorem Strict.of_labels {J : Type} {history : List (Record (Cluster J) Label Unit)} {labels : List Label}
    (same : history.map (·.label) = labels)
    (checked : (labels.all fun label => match label with
      | .start _ work => work.strict
      | _ => true) = true) : Strict history := by
  intro record member ticket work label
  have listed : record.label ∈ labels := by
    rw [← same]
    exact List.mem_map_of_mem member
  have strict := List.all_eq_true.mp checked _ listed
  rwa [label] at strict

theorem heartbeats_renew_held_leases_cancelled :
    let _ := BuildProfile.release
    ∃ (history : List (Record (Cluster TypedJson) Label Unit)) (cluster : Cluster TypedJson),
      Run Cluster.Step .empty history cluster ∧ history.map (·.label) = renewedLabels ∧
      (cluster.world.tables.streamRows ⟨1⟩).length = 3 ∧
      (history.filterMap (renewed ⟨1⟩)).map (·.2.1) = [⟨2⟩] ∧
      ∀ record ∈ history, ∀ ports lease ttl id, renewed id record = some (ports, lease, ttl) →
        Renewal record.before.world.tables record.after.world.tables ports lease ttl id := by
  intro _
  have seen : (Label.attempt renewedLabels : Option (_ × Cluster TypedJson)).map (fun ran =>
      ((ran.2.world.tables.streamRows ⟨1⟩).length, (ran.1.filterMap (renewed ⟨1⟩)).map (·.2.1))) =
        some (3, [⟨2⟩]) := by decide +kernel
  rw [Option.map_eq_some_iff] at seen
  obtain ⟨⟨history, cluster⟩, ran, seen⟩ := seen
  rw [Prod.mk.injEq] at seen
  obtain ⟨run, labels⟩ := Label.of_attempt ran
  refine ⟨history, cluster, run, labels, seen.1, seen.2, ?_⟩
  exact heartbeats_renew_held_leases run (Strict.of_labels labels (by decide))

end Koine.Postgres
