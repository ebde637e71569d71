import Koine.Grpc.Ceiling
import Koine.Grpc.Fetch

namespace Koine.Grpc

open Library Domain Application Memory

inductive StreamAct where
  | opened (task : FetchTask)
  | claimed (result : Outcome DispatchError (Option LeasedJob))
  | sent
  | woken
  | noticed
  | received (item : Item)
  | dropped

inductive FetchStream.Step (encode : Encoder) :
    Option FetchStream → StreamAct → Unit → Option FetchStream → Prop where
  | opened {task : FetchTask} : Step encode none (.opened task) () (some (.opened task))
  | claimed {stream : FetchStream} {result : Outcome DispatchError (Option LeasedJob)}
      (state : stream.state = .claiming) :
      Step encode (some stream) (.claimed result) () (some (stream.claimed encode result))
  | sent {stream after : FetchStream} (taken : stream.send = some after) :
      Step encode (some stream) .sent () (some after)
  | woken {stream after : FetchStream} (taken : stream.wake = some after) :
      Step encode (some stream) .woken () (some after)
  | noticed {stream after : FetchStream} (taken : stream.notice = some after) :
      Step encode (some stream) .noticed () (some after)
  | received {stream after : FetchStream} {item : Item} (taken : stream.receive = some (item, after)) :
      Step encode (some stream) (.received item) () (some after)
  | dropped {stream : FetchStream} : Step encode (some stream) .dropped () (some stream.drop)

abbrev StreamLog := List (Record Streaming StreamEvent StreamAnswer)

def happening (config : GrpcConfig) (event : StreamEvent) (answer : StreamAnswer) : Option (Nat × StreamAct) :=
  match event, answer with
  | .fetch id metadata request, .opened =>
    match WorkerApi.fetch config metadata request with
    | .ok task => some (id, .opened task)
    | .error _ => none
  | .claim id _, .claimed result => some (id, .claimed result)
  | .send id, _ => some (id, .sent)
  | .wake id, _ => some (id, .woken)
  | .notice id, _ => some (id, .noticed)
  | .receive id, .received item => some (id, .received item)
  | .drop id, _ => some (id, .dropped)
  | _, _ => none

def activity (config : GrpcConfig) (id : Nat) (log : StreamLog) : List StreamAct :=
  log.filterMap fun entry => (happening config entry.label entry.result).bind fun happened =>
    if happened.1 = id then some happened.2 else none

section Projection

variable [BuildProfile] {config : GrpcConfig} {encode : Encoder}

theorem Streaming.Step.happens {before after : Streaming} {event : StreamEvent} {answer : StreamAnswer}
    (taken : Streaming.Step config encode before event answer after) :
    happening config event answer = none ∧ after.streams = before.streams ∨
      ∃ id act stream, happening config event answer = some (id, act) ∧
        after.streams = Function.update before.streams id stream ∧
        FetchStream.Step encode (before.streams id) act () stream := by
  cases taken with
  | refused | other => exact .inl ⟨rfl, rfl⟩
  | fetch fresh accepted =>
    refine .inr ⟨_, .opened _, some (.opened _), ?_, rfl, by rw [fresh]; exact .opened⟩
    simp only [happening, accepted]
  | claim found state ran => exact .inr ⟨_, _, _, rfl, rfl, found ▸ .claimed state⟩
  | send found taken => exact .inr ⟨_, _, _, rfl, rfl, found ▸ .sent taken⟩
  | wake found taken => exact .inr ⟨_, _, _, rfl, rfl, found ▸ .woken taken⟩
  | notice found taken => exact .inr ⟨_, _, _, rfl, rfl, found ▸ .noticed taken⟩
  | receive found taken => exact .inr ⟨_, _, _, rfl, rfl, found ▸ .received taken⟩
  | drop found => exact .inr ⟨_, _, _, rfl, rfl, found ▸ .dropped⟩

/-- A run of the server is, for each stream, a run of that stream. -/
theorem Run.stream {start server : Streaming} {log : StreamLog}
    (run : Run (Streaming.Step config encode) start log server) (id : Nat) :
    ∃ history, Run (FetchStream.Step encode) (start.streams id) history (server.streams id) ∧
      history.map (·.label) = activity config id log := by
  induction run with
  | refl => exact ⟨[], .refl, rfl⟩
  | @step older before after event answer run taken ih =>
    obtain ⟨history, inner, labels⟩ := ih
    rcases taken.happens with ⟨nothing, same⟩ | ⟨other, act, stream, happened, moved, stepped⟩
    · refine ⟨history, same ▸ inner, ?_⟩
      rw [labels]
      simp only [activity, List.filterMap_cons, nothing, Option.bind_none]
    · by_cases own : other = id
      · subst own
        have reached : after.streams other = stream := by rw [moved, Function.update_self]
        rw [← reached] at stepped
        refine ⟨⟨before.streams other, act, (), after.streams other⟩ :: history, .step inner stepped, ?_⟩
        rw [List.map_cons, labels]
        simp only [activity, List.filterMap_cons, happened, Option.bind_some, if_pos]
      · have same : after.streams id = before.streams id := by
          rw [moved, Function.update_of_ne (Ne.symm own)]
        refine ⟨history, same ▸ inner, ?_⟩
        rw [labels]
        simp only [activity, List.filterMap_cons, happened, Option.bind_some, if_neg own]

end Projection

def produced (encode : Encoder) (acts : List StreamAct) : List Item :=
  (acts.filterMap fun act => match act with
    | .claimed result => emitted encode result
    | _ => none).reverse

def received (acts : List StreamAct) : List Item :=
  (acts.filterMap fun act => match act with
    | .received item => some item
    | _ => none).reverse

def granted (acts : List StreamAct) : List LeasedJob :=
  (acts.filterMap fun act => match act with
    | .claimed (.ok leased) => leased
    | _ => none).reverse

theorem produced_claimed (encode : Encoder) (result : Outcome DispatchError (Option LeasedJob))
    (acts : List StreamAct) :
    produced encode (.claimed result :: acts) = produced encode acts ++ (emitted encode result).toList := by
  cases yields : emitted encode result <;> simp [produced, yields]

theorem granted_le_produced (encode : Encoder) (acts : List StreamAct) :
    (granted acts).length ≤ (produced encode acts).length := by
  induction acts with
  | nil => exact le_rfl
  | cons act acts ih =>
    rcases act with _ | ((_ | _) | _ | _) | _ | _ | _ | _ | _ <;>
      simp only [granted, produced, List.filterMap_cons, emitted, List.length_reverse, List.length_cons] at ih ⊢ <;>
      omega

namespace FetchStream

def pending (stream : FetchStream) : List Item :=
  match stream.state with
  | .sending item => [item]
  | _ => []

def live (stream : FetchStream) : Bool :=
  match stream.state with
  | .claiming | .idle => true
  | .sending item => item.isOk
  | .ended => false

theorem claimed_channel (encode : Encoder) (stream : FetchStream)
    (result : Outcome DispatchError (Option LeasedJob)) :
    (stream.claimed encode result).channel = stream.channel := by
  unfold claimed
  split
  · rfl
  · split <;> rfl

theorem claimed_pending (encode : Encoder) (stream : FetchStream)
    (result : Outcome DispatchError (Option LeasedJob)) :
    (stream.claimed encode result).pending = (emitted encode result).toList := by
  unfold claimed pending
  cases emitted encode result with
  | some item => rfl
  | none => cases result <;> rfl

theorem claimed_live {encode : Encoder} {stream : FetchStream}
    {result : Outcome DispatchError (Option LeasedJob)} (live : (stream.claimed encode result).live = true) :
    ∀ item ∈ emitted encode result, item.isOk = true := by
  rintro item yields
  rw [Option.mem_def] at yields
  simpa only [claimed, yields, FetchStream.live] using live

/-- `tx.send` appends the item, or drops it with the receiver; a status ends the task in either case. -/
theorem send_spec {stream after : FetchStream} (taken : stream.send = some after) :
    ∃ item, stream.state = .sending item ∧ after.pending = [] ∧
      (after.live = item.isOk ∧ stream.channel.dropped = false ∧ after.channel.dropped = false ∧
          after.channel.buffer = stream.channel.buffer ++ [item] ∨
        after.live = false ∧ stream.channel.dropped = true ∧ after.channel = stream.channel) := by
  unfold send at taken
  split at taken
  · rename_i item state
    refine ⟨item, state, ?_⟩
    split at taken
    · rename_i channel stored
      obtain ⟨connected, still, buffer⟩ := Channel.send_stored stored
      split at taken <;> cases taken <;> exact ⟨rfl, .inl ⟨rfl, connected, still, buffer⟩⟩
    · rename_i gone
      cases taken
      exact ⟨rfl, .inr ⟨rfl, Channel.send_disconnected.mp gone, rfl⟩⟩
    · cases taken
  · cases taken

theorem wake_spec {stream after : FetchStream} (taken : stream.wake = some after) :
    stream.live = true ∧ after.live = true ∧ stream.pending = [] ∧ after.pending = [] ∧
      after.channel = stream.channel := by
  unfold wake at taken
  split at taken
  · rename_i state
    cases taken
    simp only [live, pending, state, and_self]
  · cases taken

theorem notice_spec {stream after : FetchStream} (taken : stream.notice = some after) :
    stream.pending = [] ∧ after.pending = [] ∧ after.live = false ∧ after.channel = stream.channel := by
  unfold notice at taken
  split at taken
  · rename_i state
    split at taken
    · cases taken
      simp only [live, pending, state, and_self]
    · cases taken
  · cases taken

theorem receive_spec {stream after : FetchStream} {item : Item} (taken : stream.receive = some (item, after)) :
    after.state = stream.state ∧ stream.channel.dropped = false ∧ after.channel.dropped = false ∧
      stream.channel.buffer = item :: after.channel.buffer := by
  unfold receive at taken
  obtain ⟨⟨message, channel⟩, got, same⟩ := Option.map_eq_some_iff.mp taken
  cases same
  exact ⟨rfl, Channel.recv_some got⟩

theorem Step.task {encode : Encoder} {stream after : FetchStream} {act : StreamAct}
    (taken : FetchStream.Step encode (some stream) act () (some after)) : after.task = stream.task := by
  cases taken with
  | claimed state =>
    unfold FetchStream.claimed
    split
    · rfl
    · split <;> rfl
  | sent taken => grind [FetchStream.send]
  | woken taken => grind [FetchStream.wake]
  | noticed taken => grind [FetchStream.notice]
  | received taken =>
    obtain ⟨_, _, same⟩ := Option.map_eq_some_iff.mp taken
    cases same
    rfl
  | dropped => rfl

end FetchStream

/-- Where the items of a stream are: taken by the client, lost with the receiver, in the channel, or
    still with the task. A status among them is the last one, and ends the loop. -/
structure Tracks (encode : Encoder) (acts : List StreamAct) (stream : FetchStream) : Prop where
  order : ∃ lost, (stream.channel.dropped = false → lost = []) ∧
    produced encode acts = received acts ++ lost ++ stream.channel.buffer ++ stream.pending
  live : stream.live = true → ∀ item ∈ produced encode acts, item.isOk = true
  last : ∀ item ∈ (produced encode acts).dropLast, item.isOk = true

namespace Tracks

variable {encode : Encoder} {acts : List StreamAct} {stream after : FetchStream}

theorem opened (task : FetchTask) : Tracks encode [.opened task] (.opened task) where
  order := ⟨[], fun _ => rfl, rfl⟩
  live _ _ member := absurd member List.not_mem_nil
  last _ member := absurd member List.not_mem_nil

theorem claimed {result : Outcome DispatchError (Option LeasedJob)} (tracks : Tracks encode acts stream)
    (state : stream.state = .claiming) :
    Tracks encode (.claimed result :: acts) (stream.claimed encode result) := by
  have earlier := tracks.live (by simp only [FetchStream.live, state])
  obtain ⟨lost, connected, order⟩ := tracks.order
  have nothing : stream.pending = [] := by simp only [FetchStream.pending, state]
  refine ⟨⟨lost, ?_, ?_⟩, fun live item member => ?_, fun item member => ?_⟩
  · rw [FetchStream.claimed_channel]
    exact connected
  · rw [produced_claimed, order, nothing, List.append_nil, FetchStream.claimed_channel, FetchStream.claimed_pending]
    rfl
  · rw [produced_claimed, List.mem_append, Option.mem_toList] at member
    exact member.elim (earlier item) (FetchStream.claimed_live live item)
  · rw [produced_claimed] at member
    cases yields : emitted encode result with
    | none =>
      rw [yields, Option.toList_none, List.append_nil] at member
      exact earlier item (List.dropLast_subset _ member)
    | some emitted =>
      rw [yields, Option.toList_some, List.dropLast_concat] at member
      exact earlier item member

theorem sent (tracks : Tracks encode acts stream) (taken : stream.send = some after) :
    Tracks encode (.sent :: acts) after := by
  obtain ⟨item, state, nothing, outcome⟩ := FetchStream.send_spec taken
  obtain ⟨lost, connected, order⟩ := tracks.order
  have holds : stream.pending = [item] := by simp only [FetchStream.pending, state]
  rcases outcome with ⟨live, open', still, buffer⟩ | ⟨ended, gone, same⟩
  · refine ⟨⟨lost, fun _ => connected open', ?_⟩, fun going => tracks.live ?_, tracks.last⟩
    · rw [nothing, buffer, List.append_nil, ← List.append_assoc, ← holds]
      exact order
    · rw [live] at going
      simpa only [FetchStream.live, state] using going
  · have empty := stream.channel.emptied gone
    refine ⟨⟨lost ++ [item], ?_, ?_⟩, fun going => ?_, tracks.last⟩
    · rw [same, gone]
      exact Bool.noConfusion
    · rw [nothing, same, empty, List.append_nil, List.append_nil, ← List.append_assoc, ← holds]
      rw [empty, List.append_nil] at order
      exact order
    · rw [ended] at going
      cases going

theorem waited {act : StreamAct} (tracks : Tracks encode acts stream)
    (same : after.channel = stream.channel) (before : stream.pending = []) (nothing : after.pending = [])
    (going : after.live = true → stream.live = true)
    (quiet : produced encode (act :: acts) = produced encode acts ∧ received (act :: acts) = received acts) :
    Tracks encode (act :: acts) after := by
  obtain ⟨lost, connected, order⟩ := tracks.order
  refine ⟨⟨lost, same ▸ connected, ?_⟩, fun live => ?_, ?_⟩
  · rw [quiet.1, quiet.2, same, nothing, order, before]
  · rw [quiet.1]
    exact tracks.live (going live)
  · rw [quiet.1]
    exact tracks.last

theorem received {item : Item} (tracks : Tracks encode acts stream)
    (taken : stream.receive = some (item, after)) : Tracks encode (.received item :: acts) after := by
  obtain ⟨state, open', still, buffer⟩ := FetchStream.receive_spec taken
  obtain ⟨lost, connected, order⟩ := tracks.order
  refine ⟨⟨[], fun _ => rfl, ?_⟩, fun live => tracks.live ?_, tracks.last⟩
  · have took : Grpc.received (.received item :: acts) = Grpc.received acts ++ [item] := by simp [Grpc.received]
    have same : after.pending = stream.pending := by simp only [FetchStream.pending, state]
    rw [took, same]
    rw [connected open', buffer] at order
    show produced encode acts = _
    simpa using order
  · rw [← live]
    simp only [FetchStream.live, state]

theorem dropped (tracks : Tracks encode acts stream) : Tracks encode (.dropped :: acts) stream.drop := by
  obtain ⟨lost, connected, order⟩ := tracks.order
  refine ⟨⟨lost ++ stream.channel.buffer, Bool.noConfusion, ?_⟩, tracks.live, tracks.last⟩
  have same : stream.drop.pending = stream.pending := rfl
  have empty : stream.drop.channel.buffer = [] := rfl
  rw [same, empty, List.append_nil, ← List.append_assoc]
  exact order

theorem step {slot : Option FetchStream} {act : StreamAct} (taken : FetchStream.Step encode slot act () (some after))
    (before : slot = none → acts = []) (tracks : ∀ stream, slot = some stream → Tracks encode acts stream) :
    Tracks encode (act :: acts) after := by
  cases taken with
  | opened =>
    rw [before rfl]
    exact .opened _
  | claimed state => exact (tracks _ rfl).claimed state
  | sent taken => exact (tracks _ rfl).sent taken
  | woken taken =>
    obtain ⟨live, _, holds, nothing, same⟩ := FetchStream.wake_spec taken
    exact (tracks _ rfl).waited same holds nothing (fun _ => live) ⟨rfl, rfl⟩
  | noticed taken =>
    obtain ⟨holds, nothing, ended, same⟩ := FetchStream.notice_spec taken
    exact (tracks _ rfl).waited same holds nothing (fun live => absurd (ended.symm.trans live) Bool.noConfusion)
      ⟨rfl, rfl⟩
  | received taken => exact (tracks _ rfl).received taken
  | dropped => exact (tracks _ rfl).dropped

theorem run {history : List (Record (Option FetchStream) StreamAct Unit)} {slot : Option FetchStream}
    (run : Run (FetchStream.Step encode) none history slot) :
    (slot = none → history.map (·.label) = []) ∧
      ∀ stream, slot = some stream → Tracks encode (history.map (·.label)) stream := by
  induction run with
  | refl => exact ⟨fun _ => rfl, fun stream reached => by cases reached⟩
  | step run taken ih =>
    refine ⟨fun unopened => ?_, fun stream reached => ?_⟩
    · subst unopened
      cases taken
    · subst reached
      exact step taken ih.1 ih.2

end Tracks

variable [BuildProfile] {config : GrpcConfig} {encode : Encoder}

/-- A stream yields the items of its claims in the order of the claims, none twice; while its receiver
    is there, none is missing but those in the channel and the one that the task holds. Only the last
    item can be a status. -/
theorem fetch_stream_in_order {log : StreamLog} {server : Streaming} {id : Nat} {stream : FetchStream}
    (run : Run (Streaming.Step config encode) .new log server) (found : server.streams id = some stream) :
    let acts := activity config id log
    received acts <+: produced encode acts ∧
      (stream.channel.dropped = false →
        produced encode acts = received acts ++ stream.channel.buffer ++ stream.pending) ∧
      ∀ item ∈ (produced encode acts).dropLast, item.isOk = true := by
  obtain ⟨history, inner, labels⟩ := Run.stream run id
  have tracks := (Tracks.run inner).2 stream found
  rw [labels] at tracks
  obtain ⟨lost, connected, order⟩ := tracks.order
  refine ⟨?_, fun open' => ?_, tracks.last⟩
  · rw [order, List.append_assoc, List.append_assoc]
    exact List.prefix_append ..
  · rw [order, connected open', List.append_nil]

namespace Sample

def encoder : Encoder := fun _ => some "null"

def ports := Application.Sample.ports

def twoJobs : List StreamEvent :=
  [.send 0, .claim 0 (ports 3 4), .receive 0, .send 0, .claim 0 (ports 2 3),
    .fetch 0 metadata ⟨"default", 3600000⟩, .other (.enqueue (ports 1 2) Application.Sample.command),
    .other (.enqueue (ports 0 1) Application.Sample.command)]

/-- The client leaves after the first job: the second is leased all the same, and its task ends at
    `tx.send`. -/
def leaves : List StreamEvent :=
  [.send 0, .claim 0 (ports 3 4), .drop 0, .receive 0, .send 0, .claim 0 (ports 2 3),
    .fetch 0 metadata ⟨"default", 3600000⟩, .other (.enqueue (ports 1 2) Application.Sample.command),
    .other (.enqueue (ports 0 1) Application.Sample.command)]

end Sample

theorem Run.of_events {events : List StreamEvent} {log : StreamLog} {server : Streaming}
    (ran : Run.attempt (StreamEvent.exec config encode) .new events = some (log, server)) :
    Run (Streaming.Step config encode) .new log server :=
  (Run.of_attempt (fun _ _ _ _ => Streaming.Step.of_exec) ran).1

omit [BuildProfile] in
theorem fetch_stream_in_order_two :
    let _ := BuildProfile.release
    ∃ log server stream, Run (Streaming.Step Sample.config Sample.encoder) .new log server ∧
      server.streams 0 = some stream ∧ (received (activity Sample.config 0 log)).length = 1 ∧
      produced Sample.encoder (activity Sample.config 0 log) =
        received (activity Sample.config 0 log) ++ stream.channel.buffer ++ stream.pending := by
  intro _
  obtain ⟨log, server, stream, ran, found, one, open'⟩ : ∃ log server stream,
      Run.attempt (StreamEvent.exec Sample.config Sample.encoder) .new Sample.twoJobs = some (log, server) ∧
        server.streams 0 = some stream ∧ (received (activity Sample.config 0 log)).length = 1 ∧
        stream.channel.dropped = false := ⟨_, _, _, rfl, rfl, rfl, rfl⟩
  have run := Run.of_events ran
  exact ⟨log, server, stream, run, found, one, (fetch_stream_in_order run found).2.1 open'⟩

def FetchStream.claims (stream : FetchStream) : Nat :=
  match stream.state with
  | .claiming | .idle => 1
  | .sending _ | .ended => 0

omit [BuildProfile] in
theorem FetchStream.Step.after_drop {stream : FetchStream} {act : StreamAct} {slot : Option FetchStream}
    (gone : stream.channel.dropped = true) (taken : FetchStream.Step encode (some stream) act () slot) :
    ∃ after, slot = some after ∧ after.channel.dropped = true ∧
      (granted [act]).length + after.claims ≤ stream.claims := by
  cases taken with
  | claimed state =>
    rename_i result
    refine ⟨_, rfl, by rw [FetchStream.claimed_channel, gone], ?_⟩
    rcases result with (_ | job) | error | _ <;>
      simp [granted, FetchStream.claims, state, FetchStream.claimed, emitted]
  | sent taken =>
    obtain ⟨item, state, nothing, ⟨_, open', _⟩ | ⟨ended, _, same⟩⟩ := FetchStream.send_spec taken
    · rw [gone] at open'
      cases open'
    · refine ⟨_, rfl, by rw [same, gone], ?_⟩
      simp only [FetchStream.send, state, Channel.send_disconnected.mpr gone, Option.some.injEq] at taken
      subst taken
      exact Nat.zero_le _
  | woken taken =>
    unfold FetchStream.wake at taken
    split at taken
    · rename_i state
      cases taken
      exact ⟨_, rfl, gone, by simp [granted, FetchStream.claims, state]⟩
    · cases taken
  | noticed taken =>
    unfold FetchStream.notice at taken
    split at taken
    · rw [if_pos gone] at taken
      cases taken
      exact ⟨_, rfl, gone, Nat.zero_le _⟩
    · cases taken
  | received taken =>
    obtain ⟨_, open', _⟩ := FetchStream.receive_spec taken
    rw [gone] at open'
    cases open'
  | dropped => exact ⟨_, rfl, rfl, by simp [granted, FetchStream.claims, FetchStream.drop]⟩

omit [BuildProfile] in
theorem Run.after_drop {stream : FetchStream} {history : List (Record (Option FetchStream) StreamAct Unit)}
    {slot : Option FetchStream} (gone : stream.channel.dropped = true)
    (run : Run (FetchStream.Step encode) (some stream) history slot) :
    ∃ after, slot = some after ∧ after.channel.dropped = true ∧
      (granted (history.map (·.label))).length + after.claims ≤ stream.claims := by
  induction run with
  | refl => exact ⟨stream, rfl, gone, (Nat.zero_add _).le⟩
  | @step older before after act result run taken ih =>
    obtain ⟨middle, rfl, still, bound⟩ := ih
    obtain ⟨last, rfl, dropped, step⟩ := FetchStream.Step.after_drop still taken
    refine ⟨last, rfl, dropped, ?_⟩
    have split : granted (act :: older.map (·.label)) = granted (older.map (·.label)) ++ granted [act] := by
      rw [granted, ← List.singleton_append, List.filterMap_append, List.reverse_append]
      rfl
    rw [List.map_cons, split, List.length_append]
    omega

theorem Streaming.Step.dropped {before after : Streaming} {id : Nat} {answer : StreamAnswer}
    (taken : Streaming.Step config encode before (.drop id) answer after) :
    ∃ stream, after.streams id = some stream ∧ stream.channel.dropped = true := by
  cases taken with
  | drop found => exact ⟨_, Function.update_self .., rfl⟩

/-- A connected client is never leased more than 17 jobs beyond those it has taken, and from the moment
    it is gone the stream leases at most one job more. -/
theorem fetch_prefetch_bounded {log : StreamLog} {server : Streaming} {id : Nat} {stream : FetchStream}
    (run : Run (Streaming.Step config encode) .new log server) (found : server.streams id = some stream) :
    (stream.channel.dropped = false →
      (granted (activity config id log)).length ≤ (received (activity config id log)).length + 17) ∧
    ∀ newer record older, log = newer ++ record :: older → record.label = .drop id →
      (granted (activity config id newer)).length ≤ 1 := by
  refine ⟨fun open' => ?_, ?_⟩
  · obtain ⟨history, inner, labels⟩ := Run.stream run id
    obtain ⟨lost, connected, order⟩ := ((Tracks.run inner).2 stream found).order
    rw [labels, connected open', List.append_nil] at order
    have leased := granted_le_produced encode (activity config id log)
    have room := stream.channel.bounded
    have held : stream.pending.length ≤ 1 := by
      unfold FetchStream.pending
      split <;> simp
    rw [order, List.length_append, List.length_append] at leased
    omega
  · rintro newer record older rfl label
    obtain ⟨_, taken, after⟩ := run.split
    rw [label] at taken
    obtain ⟨left, slot, gone⟩ := taken.dropped
    obtain ⟨history, inner, labels⟩ := Run.stream after id
    rw [slot] at inner
    obtain ⟨last, _, _, bound⟩ := Run.after_drop gone inner
    rw [labels] at bound
    have once : left.claims ≤ 1 := by
      unfold FetchStream.claims
      split <;> decide
    omega

omit [BuildProfile] in
theorem fetch_prefetch_bounded_left :
    let _ := BuildProfile.release
    ∃ newer record older server, Run (Streaming.Step Sample.config Sample.encoder) .new
        (newer ++ record :: older) server ∧ record.label = .drop 0 ∧
      0 < (granted (activity Sample.config 0 newer)).length ∧
      (granted (activity Sample.config 0 newer)).length ≤ 1 := by
  intro _
  obtain ⟨last, next, record, older, server, stream, ran, found, label, one⟩ :
      ∃ last next record older server stream,
        Run.attempt (StreamEvent.exec Sample.config Sample.encoder) .new Sample.leaves =
            some ([last, next] ++ record :: older, server) ∧ server.streams 0 = some stream ∧
          record.label = .drop 0 ∧ 0 < (granted (activity Sample.config 0 [last, next])).length :=
    ⟨_, _, _, _, _, _, rfl, rfl, rfl, by decide⟩
  have run := Run.of_events ran
  exact ⟨[last, next], record, older, server, run, label, one,
    (fetch_prefetch_bounded run found).2 _ _ _ rfl label⟩

end Koine.Grpc
