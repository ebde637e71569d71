import Koine.Grpc.Streams
import Koine.Memory.Commands

namespace Koine.Grpc

open Library Domain Application Memory

/-- The task as the server without channels has it: gone once a status is on its way. -/
def FetchStream.serving (stream : FetchStream) : Option FetchTask :=
  if stream.live then some stream.task else none

def Streaming.served (server : Streaming) : Server :=
  ⟨server.system, fun id => (server.streams id).bind FetchStream.serving⟩

def shown (entry : Record Streaming StreamEvent StreamAnswer) : Option (Rpc × Answer) :=
  match entry.label, entry.result with
  | .claim id ports, .claimed result => some (.turn id ports, Response.answer (.leased result))
  | .other rpc, .answered answer => some (rpc, answer)
  | _, _ => none

def worked (entry : Record Server Rpc Answer) : Option (Rpc × Answer) :=
  match entry.label with
  | .fetch .. | .hangUp _ => none
  | rpc => some (rpc, entry.result)

variable [BuildProfile] {config : GrpcConfig} {encode : Encoder}

omit [BuildProfile] in
theorem Streaming.served_put (server : Streaming) (id : Nat) (stream : FetchStream) :
    (server.put id stream).served =
      ⟨server.system, Function.update server.served.fetching id stream.serving⟩ := by
  simp only [served, put, Server.mk.injEq, true_and]
  funext other
  by_cases own : other = id
  · subst own
    rw [Function.update_self, Function.update_self]
    rfl
  · rw [Function.update_of_ne own, Function.update_of_ne own]

omit [BuildProfile] in
theorem Streaming.served_put_same {server : Streaming} {id : Nat} {stream after : FetchStream}
    (found : server.streams id = some stream) (same : after.serving = stream.serving) :
    (server.put id after).served = server.served := by
  have slot : server.served.fetching id = stream.serving := by simp only [served, found, Option.bind_some]
  rw [served_put, same, ← slot, Function.update_eq_self]
  rfl

omit [BuildProfile] in
theorem Streaming.served_put_ended {server : Streaming} {id : Nat} {after : FetchStream}
    (ended : after.serving = none) (config : GrpcConfig) [BuildProfile] :
    Server.Step config server.served (.hangUp id) .closed (server.put id after).served := by
  rw [served_put, ended]
  exact ⟨rfl, rfl⟩

theorem Server.Step.turned {before : Server} {id : Nat} {task : FetchTask} {ports : Ports} {system : System}
    {result : Outcome DispatchError (Option LeasedJob)} (open' : before.fetching id = some task)
    (ran : System.Step before.system (.leaseNext ports task.queue task.worker task.ttl) (.leased result) system) :
    Server.Step config before (.turn id ports) (Response.answer (.leased result))
      ⟨system, (Rpc.turn id ports).streams before.fetching (.leased result)⟩ := by
  simp only [Server.Step, Rpc.handle, open']
  exact ⟨_, _, ran, rfl, rfl⟩

omit [BuildProfile] in
theorem FetchStream.Step.serving {stream after : FetchStream} {act : StreamAct}
    (taken : FetchStream.Step encode (some stream) act () (some after)) (same : after.live = stream.live) :
    after.serving = stream.serving := by
  rw [FetchStream.serving, FetchStream.serving, same, taken.task]

omit [BuildProfile] in
theorem worked_apart {entry : Record Server Rpc Answer} (apart : entry.label.apart = true) :
    worked entry = some (entry.label, entry.result) := by
  obtain ⟨before, rpc, answer, after⟩ := entry
  cases rpc with
  | fetch | turn | hangUp => cases apart
  | _ => rfl

theorem Streaming.claim_refines {before : Streaming} {id : Nat} {ports : Ports} {stream : FetchStream}
    {system : System} {result : Outcome DispatchError (Option LeasedJob)}
    (found : before.streams id = some stream) (state : stream.state = .claiming)
    (ran : System.Step before.system (.leaseNext ports stream.task.queue stream.task.worker stream.task.ttl)
      (.leased result) system) :
    ∃ calls : Log, Run (Server.Step config) before.served calls
        (Streaming.put { before with system } id (stream.claimed encode result)).served ∧
      calls.filterMap worked = [(.turn id ports, Response.answer (.leased result))] := by
  have open' : before.served.fetching id = some stream.task := by
    simp only [served, found, Option.bind_some, FetchStream.serving, FetchStream.live, state, if_true]
  have turned : Server.Step config before.served _ _ _ := .turned open' ran
  have kept : Function.update before.served.fetching id (some stream.task) = before.served.fetching := by
    rw [← open', Function.update_eq_self]
  have put : (Streaming.put { before with system } id (stream.claimed encode result)).served =
      ⟨system, Function.update before.served.fetching id (stream.claimed encode result).serving⟩ :=
    served_put ..
  rcases result with (_ | job) | error | _
  · have same : (stream.claimed encode (.ok none)).serving = some stream.task := rfl
    rw [put, same, kept]
    exact ⟨_, .step .refl turned, rfl⟩
  · cases encoded : leasedJobToProto encode job with
    | ok message =>
      have same : (stream.claimed encode (.ok (some job))).serving = some stream.task := by
        simp only [FetchStream.claimed, emitted, encoded, FetchStream.serving, FetchStream.live]
        rfl
      rw [put, same, kept]
      exact ⟨_, .step .refl turned, rfl⟩
    | error status =>
      have ended : (stream.claimed encode (.ok (some job))).serving = none := by
        simp only [FetchStream.claimed, emitted, encoded, FetchStream.serving, FetchStream.live]
        rfl
      have closed : Server.Step config ⟨system, before.served.fetching⟩ (.hangUp id) .closed
          ⟨system, Function.update before.served.fetching id none⟩ := ⟨rfl, rfl⟩
      rw [put, ended]
      exact ⟨_, .step (.step .refl turned) closed, rfl⟩
  · have ended : (stream.claimed encode (.err error)).serving = none := rfl
    rw [put, ended]
    exact ⟨_, .step .refl turned, rfl⟩
  · have ended : (stream.claimed encode .panic).serving = none := rfl
    rw [put, ended]
    exact ⟨_, .step .refl turned, rfl⟩

/-- Each step is matched by the server without channels: by one of its steps, by none, or by two. -/
theorem Streaming.Step.refines {before after : Streaming} {event : StreamEvent} {answer : StreamAnswer}
    (taken : Streaming.Step config encode before event answer after) :
    ∃ calls : Log, Run (Server.Step config) before.served calls after.served ∧
      calls.filterMap worked = (shown ⟨before, event, answer, after⟩).toList := by
  have quiet (same : after.served = before.served) :
      ∃ calls : Log, Run (Server.Step config) before.served calls after.served ∧
        calls.filterMap worked = [] := ⟨[], same ▸ .refl, rfl⟩
  cases taken with
  | refused rejected => exact quiet rfl
  | @fetch id metadata request task fresh accepted =>
    have opened : Server.Step config before.served (.fetch id metadata request) .opened
        (before.put id (.opened task)).served := by
      rw [served_put]
      simp only [Server.Step, Rpc.handle, accepted]
      exact ⟨trivial, rfl⟩
    exact ⟨_, .step .refl opened, rfl⟩
  | claim found state ran => exact claim_refines found state ran
  | send found taken =>
    obtain ⟨item, state, _, ⟨live, _⟩ | ⟨ended, _⟩⟩ := FetchStream.send_spec taken
    · have moved : FetchStream.Step encode _ _ _ _ := .sent taken
      exact quiet (served_put_same found (moved.serving (by rw [live, FetchStream.live, state])))
    · exact ⟨_, .step .refl (served_put_ended (by simp [FetchStream.serving, ended]) config), rfl⟩
  | wake found taken =>
    obtain ⟨live, still, _⟩ := FetchStream.wake_spec taken
    have moved : FetchStream.Step encode _ _ _ _ := .woken taken
    exact quiet (served_put_same found (moved.serving (still.trans live.symm)))
  | notice found taken =>
    obtain ⟨_, _, ended, _⟩ := FetchStream.notice_spec taken
    exact ⟨_, .step .refl (served_put_ended (by simp [FetchStream.serving, ended]) config), rfl⟩
  | receive found taken =>
    obtain ⟨state, _⟩ := FetchStream.receive_spec taken
    have moved : FetchStream.Step encode _ _ _ _ := .received taken
    exact quiet (served_put_same found (moved.serving (by simp only [FetchStream.live, state])))
  | drop found => exact quiet (served_put_same found rfl)
  | other apart ran =>
    have step := (Server.Step.apart apart ran).2 before.served.fetching
    refine ⟨_, .step .refl step, ?_⟩
    rw [List.filterMap_cons, worked_apart (by exact apart)]
    rfl

/-- The server with its channels does to the store what the server without them does, in the same
    order and with the same answers. -/
theorem streams_refine_server {log : StreamLog} {server : Streaming}
    (run : Run (Streaming.Step config encode) .new log server) :
    ∃ calls : Log, Run (Server.Step config) .new calls server.served ∧
      calls.filterMap worked = log.filterMap shown := by
  induction run with
  | refl => exact ⟨[], .refl, rfl⟩
  | step run taken ih =>
    obtain ⟨calls, inner, same⟩ := ih
    obtain ⟨more, stepped, added⟩ := taken.refines
    refine ⟨more ++ calls, inner.append stepped, ?_⟩
    rw [List.filterMap_append, added, same, List.filterMap_cons]
    cases shown _ <;> rfl

omit [BuildProfile] in
theorem streams_refine_server_two :
    let _ := BuildProfile.release
    ∃ log server, Run (Streaming.Step Sample.config Sample.encoder) .new log server ∧
      (log.filterMap shown).length = 4 ∧ ∃ calls : Log, Run (Server.Step Sample.config) .new calls server.served ∧
        calls.filterMap worked = log.filterMap shown := by
  intro _
  obtain ⟨log, server, ran, four⟩ : ∃ log server,
      Run.attempt (StreamEvent.exec Sample.config Sample.encoder) .new Sample.twoJobs = some (log, server) ∧
        (log.filterMap shown).length = 4 := ⟨_, _, rfl, rfl⟩
  have run := Run.of_events ran
  exact ⟨log, server, run, four, streams_refine_server run⟩

theorem Run.system {start server : Streaming} {log : StreamLog}
    (run : Run (Streaming.Step config encode) start log server) :
    ∃ history : Trace, Run System.Step start.system history server.system := by
  induction run with
  | refl => exact ⟨[], .refl⟩
  | step run taken ih =>
    obtain ⟨history, inner⟩ := ih
    cases taken with
    | claim found state ran => exact ⟨_, .step inner ran⟩
    | @other rpc answer system apart ran =>
      unfold Server.Step at ran
      split at ran
      · obtain ⟨_, same⟩ := ran
        cases same
        exact ⟨history, inner⟩
      · obtain ⟨_, reached, stepped, _, same⟩ := ran
        have same : system = reached := congrArg Server.system same
        subst same
        exact ⟨_, .step inner stepped⟩
    | _ => exact ⟨history, inner⟩

theorem handed {before after : System} {ports : Ports} {queue : QueueName} {worker : WorkerId}
    {ttl : Duration} {leased : LeasedJob} (sound : before.Sound)
    (taken : System.Step before (.leaseNext ports queue worker ttl) (.leased (.ok (some leased))) after) :
    ∃ stream job, Job.fromEvents stream = .ok job ∧ job.queue = queue ∧
      leased = ⟨leased.jobId, job.queue, job.payload, job.attempt, leased.lease, leased.expiresAt,
        (lineageOf stream).1, (lineageOf stream).2.2⟩ ∧
      after.stream leased.jobId =
        stream ++ follow ports leased.jobId stream [.leased worker leased.lease leased.expiresAt] := by
  obtain ⟨shuffled, order, ran⟩ := taken
  simp only [Action.exec, leaseNext_eq] at ran
  rcases called : InMemoryEventStore.locked ⟨shuffled, before.store.poisoned⟩
    (fun inner => inner.claim ports queue worker ttl) with ⟨written, outcome⟩
  rw [called] at ran
  simp only [Prod.mk.injEq, Response.leased.injEq, Outcome.mapErr_eq_ok] at ran
  obtain ⟨rfl, rfl⟩ := ran
  rcases locked_cases called with ⟨_, _, failed⟩ | ⟨_, body, _⟩
  · cases failed
  · rcases claim_cases body with ⟨_, refused⟩ | ⟨id, stream, job, expiresAt, next, _, picked, present, folded,
      granted, _, effects, _⟩
    · exact absurd rfl (refused leased)
    · obtain ⟨kept, _, whole⟩ := claim_granted picked present folded granted
      rw [body] at whole
      cases whole
      obtain ⟨entry, indexed, eligible, _⟩ := pickEligible_some picked
      obtain ⟨other, twin, stored, refolded, mirrors⟩ := (sound.consistent.reorder order).entry indexed
      cases present.symm.trans stored
      cases folded.symm.trans refolded
      have queued : job.queue = queue := mirrors.1.symm.trans (eligible_iff.mp eligible).1
      refine ⟨stream, job, folded, queued, rfl, ?_⟩
      rw [System.stream, Inner.stream_of_lookup effects.stream_self, Inner.stream_of_lookup stored]

omit [BuildProfile] in
theorem mem_activity {log : StreamLog} {id : Nat} {act : StreamAct} (member : act ∈ activity config id log) :
    ∃ record ∈ log, happening config record.label record.result = some (id, act) := by
  obtain ⟨record, listed, happened⟩ := List.mem_filterMap.mp member
  obtain ⟨⟨other, what⟩, seen, kept⟩ := Option.bind_eq_some_iff.mp happened
  refine ⟨record, listed, ?_⟩
  split at kept
  · rename_i own
    cases kept
    rw [seen, ← own]
  · cases kept

omit [BuildProfile] in
theorem happening_claimed {event : StreamEvent} {answer : StreamAnswer} {id : Nat}
    {result : Outcome DispatchError (Option LeasedJob)}
    (happened : happening config event answer = some (id, .claimed result)) :
    ∃ ports, event = .claim id ports ∧ answer = .claimed result := by
  unfold happening at happened
  grind

theorem received_claimed {log : StreamLog} {server : Streaming} {id : Nat} {stream : FetchStream}
    {message : Message} (run : Run (Streaming.Step config encode) .new log server)
    (found : server.streams id = some stream) (got : .ok message ∈ received (activity config id log)) :
    ∃ job record ports, leasedJobToProto encode job = .ok message ∧ record ∈ log ∧
      record.label = .claim id ports ∧ record.result = .claimed (.ok (some job)) := by
  obtain ⟨history, inner, labels⟩ := Run.stream run id
  obtain ⟨lost, _, order⟩ := ((Tracks.run inner).2 stream found).order
  rw [labels] at order
  have sent : .ok message ∈ produced encode (activity config id log) := by
    rw [order]
    simp only [List.mem_append, got, true_or]
  rw [produced, List.mem_reverse] at sent
  obtain ⟨act, listed, yields⟩ := List.mem_filterMap.mp sent
  obtain ⟨record, member, happened⟩ := mem_activity listed
  split at yields
  · rename_i result
    obtain ⟨ports, label, answer⟩ := happening_claimed happened
    rcases result with (_ | job) | error | _
    · cases yields
    · exact ⟨job, record, ports, Option.some.inj yields, member, label, answer⟩
    · cases yields
    · cases yields
  · cases yields

omit [BuildProfile] in
theorem Run.task {stream : FetchStream} {history : List (Record (Option FetchStream) StreamAct Unit)}
    {slot : Option FetchStream} (run : Run (FetchStream.Step encode) (some stream) history slot) :
    ∃ after, slot = some after ∧ after.task = stream.task := by
  induction run with
  | refl => exact ⟨stream, rfl, rfl⟩
  | @step _ _ slot _ _ run taken ih =>
    obtain ⟨middle, rfl, same⟩ := ih
    obtain ⟨after, rfl⟩ : ∃ after, slot = some after := by cases taken <;> exact ⟨_, rfl⟩
    exact ⟨after, rfl, (FetchStream.Step.task taken).trans same⟩

/-- What a message says of the log of its job: the log up to the grant, the job it folds to, the grant. -/
structure Tells (encode : Encoder) (task : FetchTask) (message : Message) (lease : LeaseId)
    (expiresAt : DateTime) (past : List EventEnvelope) (job : Job) (grant : EventEnvelope) : Prop where
  folded : Job.fromEvents past = .ok job
  granted : grant.event = .leased task.worker lease expiresAt
  lease : UuidNewtype.parse message.leaseId = .ok lease
  queue : job.queue = task.queue ∧ message.queue = task.queue.value
  payload : encode job.payload = some message.payloadJson
  attempt : message.attempt = job.attempt
  deadline : message.expiresAtUnixMs * 1000000 ≤ expiresAt.nanos ∧
    expiresAt.nanos < (message.expiresAtUnixMs + 1) * 1000000
  lineage : UuidNewtype.parse message.correlationId = .ok (lineageOf past).1 ∧
    message.traceparent = (lineageOf past).2.2

theorem leasedJobToProto_tells {leased : LeasedJob} {message : Message} {task : FetchTask}
    {past : List EventEnvelope} {job : Job} {grant : EventEnvelope}
    (encoded : leasedJobToProto encode leased = .ok message) (folded : Job.fromEvents past = .ok job)
    (queue : job.queue = task.queue)
    (told : leased = ⟨leased.jobId, job.queue, job.payload, job.attempt, leased.lease, leased.expiresAt,
      (lineageOf past).1, (lineageOf past).2.2⟩)
    (granted : grant.event = .leased task.worker leased.lease leased.expiresAt) :
    UuidNewtype.parse message.jobId = .ok leased.jobId ∧
      Tells encode task message leased.lease leased.expiresAt past job grant := by
  rw [told, leasedJobToProto] at encoded
  split at encoded
  · cases encoded
  · rename_i payload encodes
    cases encoded
    refine ⟨UuidNewtype.parse_display _, folded, granted, UuidNewtype.parse_display _,
      ⟨queue, congrArg QueueName.value queue⟩, encodes, rfl, ?_, UuidNewtype.parse_display _, rfl⟩
    simp only [timestampMillis]
    omega

theorem Streaming.Step.claims {before after : Streaming} {id : Nat} {ports : Ports}
    {result : Outcome DispatchError (Option LeasedJob)}
    (taken : Streaming.Step config encode before (.claim id ports) (.claimed result) after) :
    ∃ stream : FetchStream, after.streams id = some (stream.claimed encode result) ∧
      System.Step before.system (.leaseNext ports stream.task.queue stream.task.worker stream.task.ttl)
        (.leased result) after.system := by
  cases taken with
  | claim found state ran => exact ⟨_, Function.update_self .., ran⟩

/-- A message is sent only of a lease that is in the log, to the worker that opened the stream and from
    the queue it asked for, and it says what the log says. -/
theorem fetched_message_tells_log {log : StreamLog} {server : Streaming} {id : Nat} {stream : FetchStream}
    {message : Message} (run : Run (Streaming.Step config encode) .new log server)
    (found : server.streams id = some stream) (got : .ok message ∈ received (activity config id log)) :
    ∃ jobId lease expiresAt past job grant later, UuidNewtype.parse message.jobId = .ok jobId ∧
      server.system.stream jobId = past ++ grant :: later ∧
      Tells encode stream.task message lease expiresAt past job grant := by
  obtain ⟨leased, record, ports, encoded, member, label, answer⟩ := received_claimed run found got
  obtain ⟨newer, older, rfl, earlier, taken, later⟩ := run.of_mem member
  rw [label, answer] at taken
  obtain ⟨opened, slot, claimed⟩ := taken.claims
  -- the stream that claimed has the task of the stream at the end of the run
  have task : stream.task = opened.task := by
    obtain ⟨history, inner, _⟩ := Run.stream later id
    rw [slot, found] at inner
    obtain ⟨last, same, kept⟩ := Run.task inner
    cases same
    have claiming : (opened.claimed encode (.ok (some leased))).task = opened.task := by
      simp only [FetchStream.claimed, emitted]
    exact kept.trans claiming
  -- the log at the end starts with the log right after the claim
  obtain ⟨past, before⟩ := Run.system earlier
  obtain ⟨future, after⟩ := Run.system later
  have sound := Run.sound before
  obtain ⟨stored, job, folded, queue, told, grown⟩ := handed sound claimed
  obtain ⟨rest, whole⟩ := Run.grows (sound.step claimed) after leased.jobId
  obtain ⟨grant, single, event⟩ : ∃ grant : EventEnvelope, follow ports leased.jobId stored
      [.leased opened.task.worker leased.lease leased.expiresAt] = [grant] ∧
      grant.event = .leased opened.task.worker leased.lease leased.expiresAt := ⟨_, rfl, rfl⟩
  obtain ⟨jobId, tells⟩ := leasedJobToProto_tells encoded folded queue told event
  rw [← task] at tells
  refine ⟨leased.jobId, leased.lease, leased.expiresAt, stored, job, grant, rest, jobId, ?_, tells⟩
  rw [← whole, grown, single, List.append_assoc]
  rfl

omit [BuildProfile] in
theorem fetched_message_tells_log_first :
    let _ := BuildProfile.release
    ∃ log server message, Run (Streaming.Step Sample.config Sample.encoder) .new log server ∧
      received (activity Sample.config 0 log) = [.ok message] ∧
      ∃ jobId past grant later, UuidNewtype.parse message.jobId = .ok jobId ∧
        server.system.stream jobId = past ++ grant :: later := by
  intro _
  obtain ⟨log, server, stream, message, ran, found, got⟩ : ∃ log server stream message,
      Run.attempt (StreamEvent.exec Sample.config Sample.encoder) .new Sample.twoJobs = some (log, server) ∧
        server.streams 0 = some stream ∧ received (activity Sample.config 0 log) = [.ok message] :=
    ⟨_, _, _, _, rfl, rfl, rfl⟩
  have run := Run.of_events ran
  have member : .ok message ∈ received (activity Sample.config 0 log) := by
    rw [got]
    exact List.mem_cons_self ..
  obtain ⟨jobId, _, _, past, _, grant, later, parsed, stored, _⟩ := fetched_message_tells_log run found member
  exact ⟨log, server, message, run, got, jobId, past, grant, later, parsed, stored⟩

end Koine.Grpc
