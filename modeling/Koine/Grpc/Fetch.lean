import Koine.Domain.Json
import Koine.Grpc.Service
import Koine.Library.Channel

namespace Koine.Grpc

open Library Domain Application Memory

structure Message where
  jobId : String
  queue : String
  payloadJson : String
  attempt : UInt32
  leaseId : String
  expiresAtUnixMs : Int
  correlationId : String
  traceparent : Option String
deriving DecidableEq

/-- `DateTime::timestamp_millis`. -/
def timestampMillis (time : DateTime) : Int := time.nanos / 1000000

/-- `serde_json::to_string` of a payload. -/
abbrev Encoder := Value → Option String

def leasedJobToProto (encode : Encoder) (job : LeasedJob) : Except Status Message :=
  match encode job.payload with
  | none => .error ⟨.internal, "payload encode"⟩
  | some payloadJson => .ok
    { jobId := job.jobId.display
      queue := job.queue.value
      payloadJson
      attempt := job.attempt
      leaseId := job.lease.display
      expiresAtUnixMs := timestampMillis job.expiresAt
      correlationId := job.correlationId.display
      traceparent := job.traceparent }

abbrev Item := Except Status Message

/-- Where the spawned task is: before a claim, at `tx.send`, in the `select!`, or past the loop. -/
inductive TaskState where
  | claiming
  | sending (item : Item)
  | idle
  | ended

/-- A `Fetch` stream: the task with its `mpsc::channel(16)`. -/
structure FetchStream where
  task : FetchTask
  state : TaskState
  channel : Channel Item 16

def emitted (encode : Encoder) : Outcome DispatchError (Option LeasedJob) → Option Item
  | .ok (some job) => some (leasedJobToProto encode job)
  | .ok none => none
  | .err error => some (.error ⟨.unavailable, "dispatch: " ++ error.display⟩)
  | .panic => none

namespace FetchStream

def opened (task : FetchTask) : FetchStream := ⟨task, .claiming, .new Item 16⟩

/-- The `match` on the outcome of a claim. A claim that unwinds takes the task with it. -/
def claimed (encode : Encoder) (stream : FetchStream) (result : Outcome DispatchError (Option LeasedJob)) :
    FetchStream :=
  match emitted encode result with
  | some item => { stream with state := .sending item }
  | none =>
    match result with
    | .panic => { stream with state := .ended }
    | _ => { stream with state := .idle }

/-- `tx.send`: the loop goes on after a job and breaks after a status; it breaks too where the
    receiver is gone. Nothing is done while the channel is full. -/
def send (stream : FetchStream) : Option FetchStream :=
  match stream.state with
  | .sending item =>
    match stream.channel.send item with
    | .stored channel =>
      match item with
      | .ok _ => some { stream with state := .claiming, channel }
      | .error _ => some { stream with state := .ended, channel }
    | .disconnected => some { stream with state := .ended }
    | .full => none
  | _ => none

/-- `signal.wait` returns: a signal, the timeout, or for no reason. -/
def wake (stream : FetchStream) : Option FetchStream :=
  match stream.state with
  | .idle => some { stream with state := .claiming }
  | _ => none

def notice (stream : FetchStream) : Option FetchStream :=
  match stream.state with
  | .idle => if stream.channel.dropped then some { stream with state := .ended } else none
  | _ => none

def receive (stream : FetchStream) : Option (Item × FetchStream) :=
  stream.channel.recv.map fun (item, channel) => (item, { stream with channel })

def drop (stream : FetchStream) : FetchStream := { stream with channel := stream.channel.drop }

end FetchStream

structure Streaming where
  system : System
  streams : Nat → Option FetchStream

def Streaming.new : Streaming := ⟨.new, fun _ => none⟩

def Streaming.put (server : Streaming) (id : Nat) (stream : FetchStream) : Streaming :=
  { server with streams := Function.update server.streams id (some stream) }

inductive StreamEvent where
  | fetch (id : Nat) (metadata : MetadataMap) (request : FetchRequest)
  | claim (id : Nat) (ports : Ports)
  | send (id : Nat)
  | wake (id : Nat)
  | notice (id : Nat)
  | receive (id : Nat)
  | drop (id : Nat)
  | other (rpc : Rpc)

inductive StreamAnswer where
  | refused (status : Status)
  | opened
  | claimed (result : Outcome DispatchError (Option LeasedJob))
  | received (item : Item)
  | answered (answer : Answer)
  | done

def Rpc.apart : Rpc → Bool
  | .fetch .. | .turn .. | .hangUp _ => false
  | _ => true

theorem Rpc.handle_apart {config : GrpcConfig} {rpc : Rpc} (apart : rpc.apart = true) :
    (∃ answer, ∀ server, rpc.handle config server = .done answer server.fetching) ∨
      ∃ action, ∀ server, rpc.handle config server = .runs action := by
  have calls (ticket : Nat) (call : Except Status (JobId × Call)) :
      (∃ answer, ∀ server : Server,
        openCall ticket server.fetching call = .done answer server.fetching) ∨
      ∃ action, ∀ server : Server, openCall ticket server.fetching call = .runs action := by
    cases call with
    | error status => exact .inl ⟨_, fun _ => rfl⟩
    | ok opened => exact .inr ⟨_, fun _ => rfl⟩
  cases rpc with
  | fetch | turn | hangUp => cases apart
  | enqueue | cancel | finish | retire => exact .inr ⟨_, fun _ => rfl⟩
  | start ticket metadata request => exact calls ticket (WorkerApi.start config metadata request)
  | succeed ticket metadata request => exact calls ticket (WorkerApi.succeed config metadata request)
  | fail ticket metadata request => exact calls ticket (WorkerApi.fail config metadata request)
  | heartbeat ports metadata request =>
    cases opened : WorkerApi.heartbeat config metadata request with
    | error status => exact .inl ⟨.refused status, fun _ => by simp only [Rpc.handle, opened]⟩
    | ok lease => exact .inr ⟨.extendLease ports lease.1 lease.2, fun _ => by simp only [Rpc.handle, opened]⟩

theorem Rpc.streams_apart {rpc : Rpc} (apart : rpc.apart = true) (fetching : Nat → Option FetchTask)
    (response : Response) : rpc.streams fetching response = fetching := by
  cases rpc with
  | turn => cases apart
  | _ => rfl

variable [BuildProfile]

/-- A step of the server, under any iteration order of the store's maps. -/
inductive Streaming.Step (config : GrpcConfig) (encode : Encoder) (before : Streaming) :
    StreamEvent → StreamAnswer → Streaming → Prop where
  | refused {id : Nat} {metadata : MetadataMap} {request : FetchRequest} {status : Status}
      (rejected : WorkerApi.fetch config metadata request = .error status) :
      Step config encode before (.fetch id metadata request) (.refused status) before
  | fetch {id : Nat} {metadata : MetadataMap} {request : FetchRequest} {task : FetchTask}
      (fresh : before.streams id = none) (accepted : WorkerApi.fetch config metadata request = .ok task) :
      Step config encode before (.fetch id metadata request) .opened (before.put id (.opened task))
  | claim {id : Nat} {ports : Ports} {stream : FetchStream} {system : System}
      {result : Outcome DispatchError (Option LeasedJob)} (found : before.streams id = some stream)
      (state : stream.state = .claiming)
      (ran : System.Step before.system
        (.leaseNext ports stream.task.queue stream.task.worker stream.task.ttl) (.leased result) system) :
      Step config encode before (.claim id ports) (.claimed result)
        (Streaming.put { before with system } id (stream.claimed encode result))
  | send {id : Nat} {stream after : FetchStream} (found : before.streams id = some stream)
      (taken : stream.send = some after) : Step config encode before (.send id) .done (before.put id after)
  | wake {id : Nat} {stream after : FetchStream} (found : before.streams id = some stream)
      (taken : stream.wake = some after) : Step config encode before (.wake id) .done (before.put id after)
  | notice {id : Nat} {stream after : FetchStream} (found : before.streams id = some stream)
      (taken : stream.notice = some after) : Step config encode before (.notice id) .done (before.put id after)
  | receive {id : Nat} {stream after : FetchStream} {item : Item} (found : before.streams id = some stream)
      (taken : stream.receive = some (item, after)) :
      Step config encode before (.receive id) (.received item) (before.put id after)
  | drop {id : Nat} {stream : FetchStream} (found : before.streams id = some stream) :
      Step config encode before (.drop id) .done (before.put id stream.drop)
  | other {rpc : Rpc} {answer : Answer} {system : System} (apart : rpc.apart = true)
      (ran : Server.Step config ⟨before.system, fun _ => none⟩ rpc answer ⟨system, fun _ => none⟩) :
      Step config encode before (.other rpc) (.answered answer) { before with system }

def StreamEvent.exec (config : GrpcConfig) (encode : Encoder) (event : StreamEvent) (server : Streaming) :
    Option (Streaming × StreamAnswer) :=
  match event with
  | .fetch id metadata request =>
    match WorkerApi.fetch config metadata request with
    | .error status => some (server, .refused status)
    | .ok task => if (server.streams id).isNone then some (server.put id (.opened task), .opened) else none
  | .claim id ports => do
    let stream ← server.streams id
    match stream.state with
    | .claiming =>
      let (store, result) :=
        server.system.store.leaseNext ports stream.task.queue stream.task.worker stream.task.ttl
      some (Streaming.put { server with system := { server.system with store } } id (stream.claimed encode result),
        .claimed result)
    | _ => none
  | .send id => do
    let stream ← server.streams id
    let after ← stream.send
    some (server.put id after, .done)
  | .wake id => do
    let stream ← server.streams id
    let after ← stream.wake
    some (server.put id after, .done)
  | .notice id => do
    let stream ← server.streams id
    let after ← stream.notice
    some (server.put id after, .done)
  | .receive id => do
    let stream ← server.streams id
    let (item, after) ← stream.receive
    some (server.put id after, .received item)
  | .drop id => do
    let stream ← server.streams id
    some (server.put id stream.drop, .done)
  | .other rpc =>
    if rpc.apart then
      let (after, answer) := rpc.exec config ⟨server.system, fun _ => none⟩
      some ({ server with system := after.system }, .answered answer)
    else none

theorem Server.Step.apart {config : GrpcConfig} {before after : Server} {rpc : Rpc} {answer : Answer}
    (apart : rpc.apart = true) (taken : Server.Step config before rpc answer after) :
    after.fetching = before.fetching ∧
      ∀ fetching, Server.Step config ⟨before.system, fetching⟩ rpc answer ⟨after.system, fetching⟩ := by
  unfold Server.Step at taken ⊢
  rcases rpc.handle_apart apart with ⟨settled, handled⟩ | ⟨action, handled⟩
  · rw [handled] at taken
    obtain ⟨rfl, rfl⟩ := taken
    refine ⟨rfl, fun fetching => ?_⟩
    rw [handled]
    exact ⟨rfl, rfl⟩
  · rw [handled] at taken
    obtain ⟨response, system, ran, rfl, rfl⟩ := taken
    refine ⟨rpc.streams_apart apart _ _, fun fetching => ?_⟩
    rw [handled]
    exact ⟨response, system, ran, rfl, by simp only [rpc.streams_apart apart]⟩

theorem Streaming.Step.of_exec {config : GrpcConfig} {encode : Encoder} {event : StreamEvent}
    {before after : Streaming} {answer : StreamAnswer}
    (taken : event.exec config encode before = some (after, answer)) :
    Streaming.Step config encode before event answer after := by
  unfold StreamEvent.exec at taken
  cases event with
  | fetch id metadata request =>
    dsimp only at taken
    split at taken
    · cases taken
      exact .refused ‹_›
    · split at taken
      · cases taken
        exact .fetch (Option.isNone_iff_eq_none.mp ‹_›) ‹_›
      · cases taken
  | claim id ports =>
    simp only [Option.bind_eq_bind, Option.bind_eq_some_iff] at taken
    obtain ⟨stream, found, taken⟩ := taken
    split at taken
    · cases taken
      exact .claim found ‹_› (.of_exec (.leaseNext ports stream.task.queue stream.task.worker stream.task.ttl) _)
    · cases taken
  | send id | wake id | notice id =>
    simp only [Option.bind_eq_bind, Option.bind_eq_some_iff] at taken
    obtain ⟨stream, found, moved, taken, same⟩ := taken
    cases same
    constructor <;> assumption
  | receive id =>
    simp only [Option.bind_eq_bind, Option.bind_eq_some_iff] at taken
    obtain ⟨stream, found, ⟨item, moved⟩, taken, same⟩ := taken
    cases same
    exact .receive found taken
  | drop id =>
    simp only [Option.bind_eq_bind, Option.bind_eq_some_iff] at taken
    obtain ⟨stream, found, same⟩ := taken
    cases same
    exact .drop found
  | other rpc =>
    dsimp only at taken
    split at taken
    · rename_i apart
      cases taken
      have step := Server.Step.of_exec config rpc ⟨before.system, fun _ => none⟩
      have kept := (Server.Step.apart apart step).2 fun _ => none
      exact .other apart kept
    · cases taken

end Koine.Grpc
