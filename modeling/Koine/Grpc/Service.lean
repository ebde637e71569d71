import Koine.Memory.System

namespace Koine.Grpc

open Library Domain Application Memory

inductive Code where
  | invalidArgument
  | notFound
  | failedPrecondition
  | internal
  | unavailable
  | unauthenticated
deriving DecidableEq

structure Status where
  code : Code
  message : String
deriving DecidableEq

/-- The two headers that `auth::check` reads, each where it is text. -/
structure MetadataMap where
  authorization : Option String
  workerId : Option String

/-- `GrpcConfig` without `idle_poll`, which only paces an idle stream. -/
structure GrpcConfig where
  token : String
  maxLeaseTtl : Duration

/-- `strip_prefix("Bearer ")`. -/
def bearerToken (auth : String) : Option String :=
  if "Bearer ".toList.isPrefixOf auth.toList then some (String.ofList (auth.toList.drop 7)) else none

def unauthenticated : Status := ⟨.unauthenticated, "invalid credentials"⟩

def check (metadata : MetadataMap) (expectedToken : String) : Except Status WorkerId :=
  if expectedToken.isEmpty then .error unauthenticated
  else
    match metadata.authorization.bind bearerToken with
    | none => .error unauthenticated
    | some presented =>
      if presented ≠ expectedToken then .error unauthenticated
      else
        match metadata.workerId with
        | none => .error unauthenticated
        | some worker => (WorkerId.new worker).mapError fun _ => unauthenticated

def clampLeaseTtl (requestedMs : UInt64) (max : Duration) : Except Status Duration :=
  if requestedMs = 0 then .error ⟨.invalidArgument, "lease_ttl_ms must be greater than zero"⟩
  else .ok (min (Duration.fromMillis requestedMs) max)

/-- `raw` is what `Uuid::parse_str` makes of the field's text. -/
def parseUuid {kind : IdKind} (field : String) (raw : Option (BitVec 128)) :
    Except Status (UuidNewtype kind) :=
  match raw with
  | some uuid => .ok ⟨uuid⟩
  | none => .error ⟨.invalidArgument, "invalid " ++ field⟩

def mapAckError : AckError → Status
  | .domain _ => ⟨.failedPrecondition, "job state no longer permits this operation; refetch"⟩
  | .store (.streamNotFound _) => ⟨.notFound, "job not found"⟩
  | .store _ => ⟨.internal, "store error"⟩

structure FetchRequest where
  queue : String
  leaseTtlMs : UInt64

structure StartRequest where
  jobId : Option (BitVec 128)

/-- `resultJson` is the field, where it is set, as `serde_json::from_str` reads it. -/
structure SucceedRequest where
  jobId : Option (BitVec 128)
  leaseId : Option (BitVec 128)
  resultJson : Option (Option Value)

structure FailRequest where
  jobId : Option (BitVec 128)
  leaseId : Option (BitVec 128)
  error : Option JobError

structure HeartbeatRequest where
  leaseId : Option (BitVec 128)
  ttlMs : UInt64

structure FetchTask where
  queue : QueueName
  worker : WorkerId
  ttl : Duration

namespace WorkerApi

def fetch (config : GrpcConfig) (metadata : MetadataMap) (request : FetchRequest) :
    Except Status FetchTask := do
  let worker ← check metadata config.token
  let queue ← (QueueName.new request.queue).mapError fun error => ⟨.invalidArgument, error.display⟩
  let ttl ← clampLeaseTtl request.leaseTtlMs config.maxLeaseTtl
  pure ⟨queue, worker, ttl⟩

def start (config : GrpcConfig) (metadata : MetadataMap) (request : StartRequest) :
    Except Status (JobId × Call) := do
  let worker ← check metadata config.token
  let jobId ← parseUuid "job_id" request.jobId
  pure (jobId, .start worker)

def succeed (config : GrpcConfig) (metadata : MetadataMap) (request : SucceedRequest) :
    Except Status (JobId × Call) := do
  let worker ← check metadata config.token
  let jobId ← parseUuid "job_id" request.jobId
  let leaseId ← parseUuid "lease_id" request.leaseId
  let result ← match request.resultJson with
    | none => pure none
    | some none => .error ⟨.invalidArgument, "malformed result_json"⟩
    | some (some value) => pure (some value)
  pure (jobId, .succeed worker leaseId result)

def fail (config : GrpcConfig) (metadata : MetadataMap) (request : FailRequest) :
    Except Status (JobId × Call) := do
  let worker ← check metadata config.token
  let jobId ← parseUuid "job_id" request.jobId
  let leaseId ← parseUuid "lease_id" request.leaseId
  match request.error with
  | none => .error ⟨.invalidArgument, "error is required"⟩
  | some error => pure (jobId, .fail worker leaseId error)

def heartbeat (config : GrpcConfig) (metadata : MetadataMap) (request : HeartbeatRequest) :
    Except Status (LeaseId × Duration) := do
  let _ ← check metadata config.token
  let leaseId ← parseUuid "lease_id" request.leaseId
  let ttl ← clampLeaseTtl request.ttlMs config.maxLeaseTtl
  pure (leaseId, ttl)

end WorkerApi

structure Server where
  system : System
  fetching : Nat → Option FetchTask

def Server.new : Server := ⟨.new, fun _ => none⟩

/-- What clients and tickers do. A worker's ack or a cancellation loads under a ticket and appends with
    `finish`; `turn` is one round of the loop of an open stream, `hangUp` its end when the receiver is
    found closed; `retire` is one retirement of a sweep. -/
inductive Rpc where
  | enqueue (ports : Ports) (cmd : EnqueueCommand)
  | fetch (stream : Nat) (metadata : MetadataMap) (request : FetchRequest)
  | turn (stream : Nat) (ports : Ports)
  | hangUp (stream : Nat)
  | start (ticket : Nat) (metadata : MetadataMap) (request : StartRequest)
  | succeed (ticket : Nat) (metadata : MetadataMap) (request : SucceedRequest)
  | fail (ticket : Nat) (metadata : MetadataMap) (request : FailRequest)
  | cancel (ticket : Nat) (jobId : JobId) (reason : Option String)
  | finish (ticket : Nat) (ports : Ports)
  | heartbeat (ports : Ports) (metadata : MetadataMap) (request : HeartbeatRequest)
  | retire (ports : Ports)

inductive Answer where
  | refused (status : Status)
  | opened
  | closed
  | noStream
  | fetched (result : Outcome Status (Option LeasedJob))
  | alive (result : Outcome Status Bool)
  | loaded (result : Outcome Status Unit)
  | acked (result : Outcome Status Reply)
  | stored (response : Response)

/-- What a handler does with a request: it is done without the store, or it runs one critical section. -/
inductive Handling where
  | done (answer : Answer) (fetching : Nat → Option FetchTask)
  | runs (action : Action)

def openCall (ticket : Nat) (fetching : Nat → Option FetchTask) : Except Status (JobId × Call) → Handling
  | .error status => .done (.refused status) fetching
  | .ok (jobId, call) => .runs (.load ticket jobId call)

def Rpc.handle (config : GrpcConfig) (server : Server) : Rpc → Handling
  | .enqueue ports cmd => .runs (.enqueue ports cmd)
  | .fetch stream metadata request =>
    match WorkerApi.fetch config metadata request with
    | .error status => .done (.refused status) server.fetching
    | .ok task => .done .opened (Function.update server.fetching stream (some task))
  | .turn stream ports =>
    match server.fetching stream with
    | none => .done .noStream server.fetching
    | some task => .runs (.leaseNext ports task.queue task.worker task.ttl)
  | .hangUp stream => .done .closed (Function.update server.fetching stream none)
  | .start ticket metadata request =>
    openCall ticket server.fetching (WorkerApi.start config metadata request)
  | .succeed ticket metadata request =>
    openCall ticket server.fetching (WorkerApi.succeed config metadata request)
  | .fail ticket metadata request =>
    openCall ticket server.fetching (WorkerApi.fail config metadata request)
  | .cancel ticket jobId reason => .runs (.load ticket jobId (.cancel reason))
  | .finish ticket ports => .runs (.append ticket ports)
  | .heartbeat ports metadata request =>
    match WorkerApi.heartbeat config metadata request with
    | .error status => .done (.refused status) server.fetching
    | .ok (lease, ttl) => .runs (.extendLease ports lease ttl)
  | .retire ports => .runs (.retireNextExpiredLease ports)

def Response.answer : Response → Answer
  | .leased result => .fetched (result.mapErr fun error => ⟨.unavailable, "dispatch: " ++ error.display⟩)
  | .extended result => .alive (result.mapErr fun error => ⟨.internal, "dispatch: " ++ error.display⟩)
  | .loaded result => .loaded (result.mapErr mapAckError)
  | .answered result => .acked (result.mapErr mapAckError)
  | response => .stored response

/-- The streams that go on: a task ends with the first claim that fails. -/
def Rpc.streams (fetching : Nat → Option FetchTask) (response : Response) : Rpc → Nat → Option FetchTask
  | .turn stream _ =>
    match response with
    | .leased (.ok _) => fetching
    | _ => Function.update fetching stream none
  | _ => fetching

def Rpc.exec [BuildProfile] (config : GrpcConfig) (rpc : Rpc) (server : Server) : Server × Answer :=
  match rpc.handle config server with
  | .done answer fetching => (⟨server.system, fetching⟩, answer)
  | .runs action =>
    let (system, response) := action.exec server.system
    (⟨system, rpc.streams server.fetching response⟩, Response.answer response)

variable [BuildProfile]

def Server.Step (config : GrpcConfig) (before : Server) (rpc : Rpc) (answer : Answer) (after : Server) : Prop :=
  match rpc.handle config before with
  | .done settled fetching => answer = settled ∧ after = ⟨before.system, fetching⟩
  | .runs action => ∃ response system, System.Step before.system action response system ∧
      answer = Response.answer response ∧ after = ⟨system, rpc.streams before.fetching response⟩

theorem Server.Step.of_exec (config : GrpcConfig) (rpc : Rpc) (before : Server) :
    Server.Step config before rpc (rpc.exec config before).2 (rpc.exec config before).1 := by
  unfold Server.Step Rpc.exec
  cases rpc.handle config before with
  | done answer fetching => exact ⟨rfl, rfl⟩
  | runs action => exact ⟨_, _, .of_exec action before.system, rfl, rfl⟩

abbrev Log := List (Record Server Rpc Answer)

structure Serves (config : GrpcConfig) (entry : Record Server Rpc Answer)
    (record : Record System Action Response) : Prop where
  runs : entry.label.handle config entry.before = .runs record.label
  answer : entry.result = Response.answer record.result

theorem Run.store {config : GrpcConfig} {log : Log} {server : Server}
    (run : Run (Server.Step config) .new log server) :
    ∃ history : Trace, Run System.Step .new history server.system ∧
      ∀ record ∈ history, ∃ entry ∈ log, Serves config entry record := by
  induction run with
  | refl => exact ⟨[], .refl, fun record member => absurd member List.not_mem_nil⟩
  | @step older before after rpc answer run taken ih =>
    obtain ⟨history, inner, served⟩ := ih
    have earlier : ∀ record ∈ history,
        ∃ entry ∈ (⟨before, rpc, answer, after⟩ : Record Server Rpc Answer) :: older,
          Serves config entry record := by
      intro record member
      obtain ⟨entry, listed, serves⟩ := served record member
      exact ⟨entry, List.mem_cons_of_mem _ listed, serves⟩
    unfold Server.Step at taken
    cases handled : rpc.handle config before with
    | done settled fetching =>
      rw [handled] at taken
      obtain ⟨_, rfl⟩ := taken
      exact ⟨history, inner, earlier⟩
    | runs action =>
      rw [handled] at taken
      obtain ⟨response, system, stepped, rfl, rfl⟩ := taken
      refine ⟨⟨before.system, action, response, system⟩ :: history, .step inner stepped, ?_⟩
      intro record member
      rcases List.mem_cons.mp member with rfl | member
      · exact ⟨_, List.mem_cons_self .., handled, rfl⟩
      · exact earlier record member

end Koine.Grpc
