import Koine.Grpc.Service
import Koine.Memory.Provenance
import Koine.Memory.Sweep

namespace Koine.Grpc

open Library Domain Application Memory

section Requests

variable {config : GrpcConfig} {metadata : MetadataMap}

theorem clampLeaseTtl_le {requestedMs : UInt64} {max ttl : Duration}
    (clamped : clampLeaseTtl requestedMs max = .ok ttl) : ttl ≤ max := by
  unfold clampLeaseTtl at clamped
  split at clamped
  · cases clamped
  · cases clamped
    exact min_le_right _ _

theorem WorkerApi.fetch_capped {request : FetchRequest} {task : FetchTask}
    (accepted : WorkerApi.fetch config metadata request = .ok task) : task.ttl ≤ config.maxLeaseTtl := by
  unfold WorkerApi.fetch at accepted
  obtain ⟨worker, _, accepted⟩ := Except.bind_eq_ok.mp accepted
  obtain ⟨queue, _, accepted⟩ := Except.bind_eq_ok.mp accepted
  obtain ⟨ttl, clamped, accepted⟩ := Except.bind_eq_ok.mp accepted
  cases accepted
  exact clampLeaseTtl_le clamped

theorem WorkerApi.heartbeat_capped {request : HeartbeatRequest} {lease : LeaseId} {ttl : Duration}
    (accepted : WorkerApi.heartbeat config metadata request = .ok (lease, ttl)) :
    request.leaseId = some lease.uuid ∧ ttl ≤ config.maxLeaseTtl := by
  unfold WorkerApi.heartbeat at accepted
  obtain ⟨worker, _, accepted⟩ := Except.bind_eq_ok.mp accepted
  obtain ⟨id, parsed, accepted⟩ := Except.bind_eq_ok.mp accepted
  obtain ⟨span, clamped, accepted⟩ := Except.bind_eq_ok.mp accepted
  cases accepted
  refine ⟨?_, clampLeaseTtl_le clamped⟩
  unfold parseUuid at parsed
  split at parsed
  · rename_i raw
    cases parsed
    exact raw
  · cases parsed

end Requests

/-- When a step grants `lease` or accepts a heartbeat of it: the clock reading that its deadline is
    counted from. -/
def touched (lease : LeaseId) (entry : Record Server Rpc Answer) : Option DateTime :=
  match entry.label, entry.result with
  | .turn _ ports, .fetched (.ok (some leased)) => if leased.lease = lease then some ports.now else none
  | .heartbeat ports _ request, .alive (.ok true) =>
    if request.leaseId = some lease.uuid then some ports.now else none
  | _, _ => none

def Rpc.clock : Rpc → Option DateTime
  | .enqueue ports _ | .turn _ ports | .finish _ ports | .heartbeat ports .. | .retire ports => some ports.now
  | .fetch .. | .hangUp _ | .start .. | .succeed .. | .fail .. | .cancel .. => none

theorem touched_clock {lease : LeaseId} {entry : Record Server Rpc Answer} {reading : DateTime}
    (touches : touched lease entry = some reading) : entry.label.clock = some reading := by
  unfold touched at touches
  split at touches
  · rename_i label _
    rw [label]
    split at touches
    · exact touches
    · cases touches
  · rename_i label _
    rw [label]
    split at touches
    · exact touches
    · cases touches
  · cases touches

def Server.Capped (config : GrpcConfig) (server : Server) : Prop :=
  ∀ stream task, server.fetching stream = some task → task.ttl ≤ config.maxLeaseTtl

theorem Server.Capped.update {config : GrpcConfig} {server : Server} (capped : server.Capped config)
    {stream : Nat} {task : Option FetchTask} (fresh : ∀ opened ∈ task, opened.ttl ≤ config.maxLeaseTtl)
    (system : System) : Server.Capped config ⟨system, Function.update server.fetching stream task⟩ := by
  intro other found ongoing
  by_cases same : other = stream
  · subst same
    simp only [Function.update_self] at ongoing
    exact fresh found ongoing
  · simp only [Function.update_of_ne same] at ongoing
    exact capped other found ongoing

theorem Server.Capped.handle {config : GrpcConfig} {server : Server} {rpc : Rpc} {answer : Answer}
    {fetching : Nat → Option FetchTask} (capped : server.Capped config)
    (settled : rpc.handle config server = .done answer fetching) :
    Server.Capped config ⟨server.system, fetching⟩ := by
  cases rpc with
  | fetch stream metadata request =>
    simp only [Rpc.handle] at settled
    split at settled
    · cases settled
      exact capped
    · rename_i task opened
      cases settled
      refine capped.update ?_ _
      rintro _ ⟨⟩
      exact WorkerApi.fetch_capped opened
  | hangUp stream =>
    cases settled
    exact capped.update (by rintro _ ⟨⟩) _
  | turn | heartbeat =>
    simp only [Rpc.handle] at settled
    split at settled <;> cases settled
    exact capped
  | start | succeed | fail =>
    simp only [Rpc.handle, openCall] at settled
    split at settled <;> cases settled
    exact capped
  | enqueue | cancel | finish | retire => cases settled

theorem Server.Capped.streams {config : GrpcConfig} {server : Server} (capped : server.Capped config)
    (rpc : Rpc) (response : Response) (system : System) :
    Server.Capped config ⟨system, rpc.streams server.fetching response⟩ := by
  cases rpc with
  | turn stream ports =>
    simp only [Rpc.streams]
    split
    · exact capped
    · exact capped.update (by rintro _ ⟨⟩) _
  | _ => exact capped

variable [BuildProfile]

theorem Server.Capped.step {config : GrpcConfig} {before after : Server} {rpc : Rpc} {answer : Answer}
    (capped : before.Capped config) (taken : Server.Step config before rpc answer after) :
    after.Capped config := by
  unfold Server.Step at taken
  split at taken
  · rename_i settled
    obtain ⟨_, rfl⟩ := taken
    exact capped.handle settled
  · obtain ⟨response, system, _, _, rfl⟩ := taken
    exact capped.streams rpc response system

theorem Run.capped {config : GrpcConfig} {log : Log} {server : Server}
    (run : Run (Server.Step config) .new log server) : server.Capped config :=
  run.invariant (Server.Capped config) (fun _ _ ongoing => by cases ongoing)
    fun _ _ _ _ capped taken => capped.step taken

omit [BuildProfile] in
theorem Serves.touches {config : GrpcConfig} {entry : Record Server Rpc Answer}
    {record : Record System Action Response} {lease : LeaseId} {deadline : DateTime}
    (serves : Serves config entry record) (capped : entry.before.Capped config)
    (sets : Sets lease deadline record.label record.result) :
    ∃ reading, touched lease entry = some reading ∧
      deadline.nanos ≤ reading.nanos + config.maxLeaseTtl.nanos := by
  obtain ⟨before, rpc, answer, after⟩ := entry
  obtain ⟨runs, rfl⟩ := serves
  obtain ⟨_, action, response, _⟩ := record
  simp only at runs sets capped
  cases rpc with
  | turn stream ports =>
    simp only [Rpc.handle] at runs
    split at runs
    · cases runs
    · rename_i task ongoing
      cases runs
      obtain ⟨leased, rfl, named, added⟩ := sets.of_leaseNext
      have below := Duration.le_iff.mp (capped stream task ongoing)
      refine ⟨ports.now, ?_, by omega⟩
      simp only [touched, Response.answer, Outcome.mapErr, named, if_true]
  | heartbeat ports metadata request =>
    simp only [Rpc.handle] at runs
    split at runs
    · cases runs
    · rename_i held ttl accepted
      cases runs
      obtain ⟨named, within⟩ := WorkerApi.heartbeat_capped accepted
      obtain ⟨rfl, rfl, added⟩ := sets.of_extendLease
      have below := Duration.le_iff.mp within
      refine ⟨ports.now, ?_, by omega⟩
      simp only [touched, Response.answer, Outcome.mapErr, named, if_true]
  | fetch stream metadata request =>
    simp only [Rpc.handle] at runs
    split at runs <;> cases runs
  | hangUp => cases runs
  | start | succeed | fail =>
    simp only [Rpc.handle, openCall] at runs
    split at runs <;> cases runs
    exact sets.elim
  | enqueue | cancel | finish | retire =>
    cases runs
    exact sets.elim

theorem Run.deadline_touched {config : GrpcConfig} {log : Log} {server : Server}
    (run : Run (Server.Step config) .new log server) {id : JobId} {entry : DispatchEntry} {state : LeaseState}
    (present : server.system.store.inner.index.lookup id = some entry) (live : entry.lease = some state) :
    ∃ request ∈ log, ∃ reading, touched state.lease request = some reading ∧
      state.expiresAt.nanos ≤ reading.nanos + config.maxLeaseTtl.nanos := by
  obtain ⟨history, inner, served⟩ := Run.store run
  obtain ⟨record, member, sets⟩ := Run.standing_set inner (.indexed id entry state present live rfl rfl)
  obtain ⟨request, listed, serves⟩ := served record member
  obtain ⟨_, _, _, upTo, _, _⟩ := run.of_mem listed
  exact ⟨request, listed, serves.touches (Run.capped upTo) sets⟩

/-- No lease outlives the operator's ceiling: its deadline is at most the ceiling after the current
    reading of a clock that has not gone back, and a sweep later than the ceiling after the grant and
    every accepted heartbeat expires it. -/
theorem lease_ceiling_holds {config : GrpcConfig} {log : Log} {server : Server}
    (run : Run (Server.Step config) .new log server) {id : JobId} {entry : DispatchEntry} {state : LeaseState}
    (present : server.system.store.inner.index.lookup id = some entry) (live : entry.lease = some state) :
    (∀ now : DateTime, (∀ request ∈ log, ∀ reading ∈ request.label.clock, reading ≤ now) →
      state.expiresAt.nanos ≤ now.nanos + config.maxLeaseTtl.nanos) ∧
    ∀ time : DateTime, (∀ request ∈ log, ∀ reading ∈ touched state.lease request,
        reading.nanos + config.maxLeaseTtl.nanos < time.nanos) →
      entry.overdue time = true ∧
        ∀ count after, Sweeps time server.system 0 (.ok count) after →
          ∃ batch decision, after.stream id = server.system.stream id ++ batch ∧
            batch.map (·.event) = [.leaseExpired state.lease, decision] := by
  obtain ⟨request, listed, reading, touches, bound⟩ := Run.deadline_touched run present live
  constructor
  · intro now clock
    have earlier := DateTime.le_iff.mp (clock request listed reading (touched_clock touches))
    omega
  · intro time passed
    have gone := passed request listed reading touches
    have overdue : entry.overdue time = true :=
      overdue_iff.mpr ⟨state, live, DateTime.le_iff.mpr (by omega)⟩
    refine ⟨overdue, ?_⟩
    intro count after swept
    obtain ⟨history, inner, _⟩ := Run.store run
    have exact := (swept.exact (Run.sound inner)).2
    obtain ⟨batch, grown, found, held, decision, again, leased, events, _⟩ :=
      exact.retired id (Inner.mem_idsWhere.mpr ⟨entry, present, overdue⟩)
    rw [present] at again
    cases again
    rw [live] at leased
    cases leased
    exact ⟨batch, decision, grown, events⟩

namespace Sample

def config : GrpcConfig := ⟨"secret", .fromSecs 60⟩

def metadata : MetadataMap := ⟨some "Bearer secret", some "worker-1"⟩

def greedyRequests : List Rpc :=
  [.finish 0 (Application.Sample.ports 6 4), .start 0 metadata ⟨some 1⟩,
    .heartbeat (Application.Sample.ports 5 3) metadata ⟨some 2, 3600000⟩,
    .turn 0 (Application.Sample.ports 1 2), .fetch 0 metadata ⟨"default", 3600000⟩,
    .enqueue (Application.Sample.ports 0 1) Application.Sample.command]

end Sample

omit [BuildProfile] in
theorem lease_ceiling_holds_greedy :
    let _ := BuildProfile.release
    ∃ entry state,
      (Run.replay (Rpc.exec Sample.config) .new Sample.greedyRequests).2.system.store.inner.index.lookup ⟨1⟩ =
          some entry ∧ entry.lease = some state ∧
        state.expiresAt.nanos ≤ (Application.Sample.instant 6).nanos + Sample.config.maxLeaseTtl.nanos ∧
        entry.overdue (Application.Sample.instant 66) = true := by
  intro _
  have run : Run (Server.Step Sample.config) .new _ _ :=
    Run.of_replay (Server.Step.of_exec Sample.config) Sample.greedyRequests
  obtain ⟨entry, state, present, live, named⟩ : ∃ entry state,
      (Run.replay (Rpc.exec Sample.config) .new Sample.greedyRequests).2.system.store.inner.index.lookup ⟨1⟩ =
        some entry ∧ entry.lease = some state ∧ state.lease = ⟨2⟩ := ⟨_, _, rfl, rfl, rfl⟩
  obtain ⟨bound, later⟩ := lease_ceiling_holds run present live
  rw [named] at later
  exact ⟨entry, state, present, live, bound (Application.Sample.instant 6) (by decide),
    (later (Application.Sample.instant 66) (by decide)).1⟩

end Koine.Grpc
