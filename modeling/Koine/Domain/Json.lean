import Koine.Library.Calendar
import Koine.Library.Codec
import Koine.Domain.Events

namespace Koine.Domain

open Library

section Leaves

instance : Nullable Value where
  null := .null
  isNull
    | .null => true
    | _ => false
  isNull_null := rfl

instance : Codec Value Value := ⟨id, .ok⟩

instance : LawfulCodec Value Value := ⟨fun _ => rfl⟩

instance : Codec Value String where
  encode := .string
  decode
    | .string text => .ok text
    | _ => .error "invalid type: expected a string"

instance : LawfulCodec Value String := ⟨fun _ => rfl⟩

instance : NonNullCodec Value String := ⟨fun _ => rfl⟩

instance : Codec Value Bool where
  encode := .bool
  decode
    | .bool b => .ok b
    | _ => .error "invalid type: expected a boolean"

instance : LawfulCodec Value Bool := ⟨fun _ => rfl⟩

@[reducible] def unsigned {α : Type} (bound : Nat) (widen : α → UInt64) (narrow : Nat → α) : Codec Value α where
  encode n := .number (.posInt (widen n))
  decode
    | .number (.posInt n) =>
      if n.toNat < bound then .ok (narrow n.toNat) else .error "invalid value: integer out of range"
    | .number (.negInt _) => .error "invalid value: integer out of range"
    | _ => .error "invalid type: expected an integer"

theorem lawful_unsigned {α : Type} {bound : Nat} {widen : α → UInt64} {narrow : Nat → α}
    (fits : ∀ n, (widen n).toNat < bound) (back : ∀ n, narrow (widen n).toNat = n) :
    @LawfulCodec Value α (unsigned bound widen narrow) := by
  let _ := unsigned bound widen narrow
  refine ⟨fun n => ?_⟩
  change (if (widen n).toNat < bound then Except.ok (narrow (widen n).toNat) else _) = _
  rw [if_pos (fits n), back]

instance : Codec Value UInt64 := unsigned (2 ^ 64) id UInt64.ofNat

instance : LawfulCodec Value UInt64 := lawful_unsigned UInt64.toNat_lt (by simp)

instance : Codec Value UInt32 := unsigned (2 ^ 32) UInt32.toUInt64 UInt32.ofNat

instance : LawfulCodec Value UInt32 := lawful_unsigned (fun n => by simpa using n.toNat_lt) (by simp)

instance : Codec Value UInt16 := unsigned (2 ^ 16) UInt16.toUInt64 UInt16.ofNat

instance : LawfulCodec Value UInt16 := lawful_unsigned (fun n => by simpa using n.toNat_lt) (by simp)

instance : Codec Value Int16 where
  encode n := .number (if 0 ≤ n.toInt then .posInt (UInt64.ofNat n.toInt.toNat) else .negInt (Int64.ofInt n.toInt))
  decode
    | .number (.posInt n) =>
      if n.toNat < 2 ^ 15 then .ok (Int16.ofInt n.toNat) else .error "invalid value: out of range"
    | .number (.negInt n) =>
      if -2 ^ 15 ≤ n.toInt then .ok (Int16.ofInt n.toInt) else .error "invalid value: out of range"
    | _ => .error "invalid type: expected an integer"

instance : LawfulCodec Value Int16 where
  decode_encode n := by
    have lower := n.le_toInt
    have upper := n.toInt_lt
    simp only [Codec.encode]
    split
    · rename_i positive
      have small : (UInt64.ofNat n.toInt.toNat).toNat = n.toInt.toNat := by
        rw [UInt64.toNat_ofNat']
        exact Nat.mod_eq_of_lt (by omega)
      simp only [Codec.decode, small]
      rw [if_pos (by omega), Int.toNat_of_nonneg positive, Int16.ofInt_toInt]
    · rename_i negative
      have small : (Int64.ofInt n.toInt).toInt = n.toInt := by
        exact Int64.toInt_ofInt_of_le (by omega) (by omega)
      simp only [Codec.decode, small]
      rw [if_pos (by omega), Int16.ofInt_toInt]

instance : Codec Value Priority := Codec.refine Priority.value fun value => .ok ⟨value⟩

instance : LawfulCodec Value Priority := Codec.lawful_refine fun _ => rfl

end Leaves

section Texts

def displayed {α : Type} : Except DomainError α → Except String α
  | .ok value => .ok value
  | .error error => .error error.display

instance : Codec Value QueueName := Codec.refine QueueName.value fun name => displayed (QueueName.new name)

theorem QueueName.new_value (name : QueueName) : QueueName.new name.value = .ok name := by
  unfold QueueName.new
  split
  · rename_i refused
    rw [name.valid] at refused
    cases refused
  · rfl

instance : LawfulCodec Value QueueName := Codec.lawful_refine fun name => by rw [name.new_value]; rfl

instance : Codec Value WorkerId := Codec.refine WorkerId.value fun id => displayed (WorkerId.new id)

theorem WorkerId.new_value (id : WorkerId) : WorkerId.new id.value = .ok id := by
  unfold WorkerId.new
  split
  · rename_i refused
    rw [id.valid] at refused
    cases refused
  · rfl

instance : LawfulCodec Value WorkerId := Codec.lawful_refine fun id => by rw [id.new_value]; rfl

def readHyphenated (text : List Char) : Option Nat :=
  if text.length = 36 ∧ [8, 13, 18, 23].all (text[·]? = some '-') then
    readDigits 16 (text.take 8 ++ (text.drop 9).take 4 ++ (text.drop 14).take 4 ++ (text.drop 19).take 4 ++
      text.drop 24)
  else none

/-- `Uuid::from_str`: plain, hyphenated, in braces, or as a URN. -/
def readUuid (text : List Char) : Option Nat :=
  if text.length = 32 then readDigits 16 text
  else if text.length = 36 then readHyphenated text
  else if text.length = 38 ∧ text.head? = some '\x7b' ∧ text.getLast? = some '\x7d' then
    readHyphenated text.tail.dropLast
  else if text.length = 45 ∧ text.take 9 = "urn:uuid:".toList then readHyphenated (text.drop 9)
  else none

def UuidNewtype.parse {kind : IdKind} (text : String) : Except String (UuidNewtype kind) :=
  match readUuid text.toList with
  | some number => .ok ⟨BitVec.ofNat 128 number⟩
  | none => .error "invalid UUID"

theorem toList_hexDigits (uuid : BitVec 128) {first count : Nat} (inside : first + count ≤ 32) :
    (hexDigits uuid first count).toList = ((writeDigits 16 32 uuid.toNat).drop first).take count := by
  rw [hexDigits, String.toList_ofList, writeDigits_eq_map]
  refine List.ext_getElem (by simp; omega) ?_
  intro place _ _
  simp

theorem readHyphenated_groups {first second third fourth fifth : List Char} (one : first.length = 8)
    (two : second.length = 4) (three : third.length = 4) (four : fourth.length = 4) (five : fifth.length = 12) :
    readHyphenated (first ++ '-' :: (second ++ '-' :: (third ++ '-' :: (fourth ++ '-' :: fifth)))) =
      readDigits 16 (first ++ second ++ third ++ fourth ++ fifth) := by
  rw [readHyphenated, if_pos]
  · simp (disch := omega) [List.drop_append, one, two, three, four, List.drop_eq_nil_of_le]
  · simp [one, two, three, four, five, List.getElem?_append]

theorem UuidNewtype.parse_display {kind : IdKind} (id : UuidNewtype kind) :
    UuidNewtype.parse id.display = .ok id := by
  have length := length_writeDigits 16 32 id.uuid.toNat
  have fits : id.uuid.toNat < 16 ^ 32 := id.uuid.isLt.trans_eq (by decide)
  have number := readDigits_writeDigits (by omega) le_rfl fits
  generalize digits : writeDigits 16 32 id.uuid.toNat = all at *
  have groups : id.display.toList = (all.drop 0).take 8 ++ '-' :: ((all.drop 8).take 4 ++ '-' ::
      ((all.drop 12).take 4 ++ '-' :: ((all.drop 16).take 4 ++ '-' :: (all.drop 20).take 12))) := by
    simp [UuidNewtype.display, toList_hexDigits, digits]
  have whole : all.take 8 ++ (all.drop 8).take 4 ++ (all.drop 12).take 4 ++ (all.drop 16).take 4 ++
      (all.drop 20).take 12 = all := by
    rw [← List.take_add, ← List.take_add, ← List.take_add, ← List.take_add, List.take_of_length_le (by omega)]
  rw [UuidNewtype.parse, groups, readUuid, if_neg (by simp [length]), if_pos (by simp [length]),
    readHyphenated_groups (by simp [length]) (by simp [length]) (by simp [length]) (by simp [length])
      (by simp [length]), List.drop_zero, whole, number]
  simp

instance {kind : IdKind} : Codec Value (UuidNewtype kind) := Codec.refine UuidNewtype.display UuidNewtype.parse

instance {kind : IdKind} : LawfulCodec Value (UuidNewtype kind) := Codec.lawful_refine UuidNewtype.parse_display

instance {kind : IdKind} : NonNullCodec Value (UuidNewtype kind) := Codec.nonNull_refine _ _

/-- `DateTime<Utc>` in RFC 3339, to the nanosecond. -/
def DateTime.display (t : DateTime) : String := String.ofList (writeInstant t.nanos)

def DateTime.parse (text : String) : Except String DateTime :=
  match readInstant text.toList with
  | some nanos =>
    if range : minUtcNanos ≤ nanos ∧ nanos ≤ maxUtcNanos then .ok ⟨nanos, range.1, range.2⟩
    else .error "input is out of range"
  | none => .error "input contains invalid characters"

theorem DateTime.parse_display (t : DateTime) : DateTime.parse t.display = .ok t := by
  rw [DateTime.parse, DateTime.display, String.toList_ofList, readInstant_write]
  exact dif_pos ⟨t.lower, t.upper⟩

instance : Codec Value DateTime := Codec.refine DateTime.display DateTime.parse

instance : LawfulCodec Value DateTime := Codec.lawful_refine DateTime.parse_display

instance : NonNullCodec Value DateTime := Codec.nonNull_refine _ _

def ParkReason.tag : ParkReason → String
  | .retriesExhausted => "retries_exhausted"
  | .nonRetryableError => "non_retryable_error"
  | .approvalDenied => "approval_denied"

def ParkReason.ofTag : String → Except String ParkReason
  | "retries_exhausted" => .ok .retriesExhausted
  | "non_retryable_error" => .ok .nonRetryableError
  | "approval_denied" => .ok .approvalDenied
  | other => .error ("unknown variant " ++ other)

instance : Codec Value ParkReason := Codec.refine ParkReason.tag ParkReason.ofTag

instance : LawfulCodec Value ParkReason := Codec.lawful_refine fun reason => by cases reason <;> rfl

def ReportedOutcome.tag : ReportedOutcome → String
  | .succeeded => "succeeded"
  | .failed => "failed"

def ReportedOutcome.ofTag : String → Except String ReportedOutcome
  | "succeeded" => .ok .succeeded
  | "failed" => .ok .failed
  | other => .error ("unknown variant " ++ other)

instance : Codec Value ReportedOutcome := Codec.refine ReportedOutcome.tag ReportedOutcome.ofTag

instance : LawfulCodec Value ReportedOutcome := Codec.lawful_refine fun outcome => by cases outcome <;> rfl

end Texts

section Records

open Codec

def fieldsOf : Value → Except String (List (String × Value))
  | .object fields => .ok fields
  | _ => .error "invalid type: expected an object"

def Duration.secs (delay : Duration) : UInt64 := UInt64.ofNat (delay.nanos / 1000000000)

def Duration.subsecNanos (delay : Duration) : UInt32 := UInt32.ofNat (delay.nanos % 1000000000)

def Duration.ofParts (secs : UInt64) (nanos : UInt32) : Except String Duration :=
  if fits : secs.toNat * 1000000000 + nanos.toNat < 2 ^ 64 * 1000000000 then .ok ⟨_, fits⟩
  else .error "overflow deserializing Duration"

theorem Duration.ofParts_parts (delay : Duration) :
    Duration.ofParts delay.secs delay.subsecNanos = .ok delay := by
  have bound := delay.bound
  have secs : delay.secs.toNat = delay.nanos / 1000000000 := by
    rw [Duration.secs, UInt64.toNat_ofNat']
    exact Nat.mod_eq_of_lt (by omega)
  have nanos : delay.subsecNanos.toNat = delay.nanos % 1000000000 := by
    rw [Duration.subsecNanos, UInt32.toNat_ofNat']
    exact Nat.mod_eq_of_lt (by omega)
  have whole : delay.secs.toNat * 1000000000 + delay.subsecNanos.toNat = delay.nanos := by omega
  rw [Duration.ofParts, dif_pos (whole ▸ bound)]
  exact congrArg Except.ok (Duration.nanos_injective whole)

def Duration.serialize (delay : Duration) : Value :=
  .object [("secs", encode delay.secs), ("nanos", encode delay.subsecNanos)]

def Duration.deserialize (written : Value) : Except String Duration := do
  let fields ← fieldsOf written
  let secs ← field "secs" fields
  let nanos ← field "nanos" fields
  Duration.ofParts secs nanos

theorem Duration.deserialize_serialize (delay : Duration) : Duration.deserialize delay.serialize = .ok delay := by
  rw [Duration.deserialize, Duration.serialize, fieldsOf, ok_bind, field_here, LawfulCodec.decode_encode, ok_bind,
    field_there _ _ (by decide), field_here, LawfulCodec.decode_encode, ok_bind, Duration.ofParts_parts]

instance : Codec Value Duration := ⟨Duration.serialize, Duration.deserialize⟩

instance : LawfulCodec Value Duration := ⟨Duration.deserialize_serialize⟩

def RetryPolicy.serialize (policy : RetryPolicy) : Value :=
  .object [("max_attempts", encode policy.maxAttempts), ("base_delay", encode policy.baseDelay),
    ("max_delay", encode policy.maxDelay)]

def RetryPolicy.deserialize (written : Value) : Except String RetryPolicy := do
  let fields ← fieldsOf written
  let maxAttempts ← field "max_attempts" fields
  let baseDelay ← field "base_delay" fields
  let maxDelay ← field "max_delay" fields
  .ok ⟨maxAttempts, baseDelay, maxDelay⟩

theorem RetryPolicy.deserialize_serialize (policy : RetryPolicy) :
    RetryPolicy.deserialize policy.serialize = .ok policy := by
  rw [RetryPolicy.deserialize, RetryPolicy.serialize]
  simp [fieldsOf, ok_bind, field_here, field_there, LawfulCodec.decode_encode]

instance : Codec Value RetryPolicy := ⟨RetryPolicy.serialize, RetryPolicy.deserialize⟩

instance : LawfulCodec Value RetryPolicy := ⟨RetryPolicy.deserialize_serialize⟩

def JobError.serialize (error : JobError) : Value :=
  .object [("kind", encode error.kind), ("message", encode error.message), ("stacktrace", encode error.stacktrace),
    ("retryable", encode error.retryable)]

def JobError.deserialize (written : Value) : Except String JobError := do
  let fields ← fieldsOf written
  let kind ← field "kind" fields
  let message ← field "message" fields
  let stacktrace ← defaulted "stacktrace" fields
  let retryable ← field "retryable" fields
  .ok ⟨kind, message, stacktrace, retryable⟩

theorem JobError.deserialize_serialize (error : JobError) : JobError.deserialize error.serialize = .ok error := by
  rw [JobError.deserialize, JobError.serialize]
  simp [fieldsOf, ok_bind, field_here, field_there, defaulted_here, defaulted_there, LawfulCodec.decode_encode]

instance : Codec Value JobError := ⟨JobError.serialize, JobError.deserialize⟩

instance : LawfulCodec Value JobError := ⟨JobError.deserialize_serialize⟩

end Records

section Events

open Codec

inductive Variant where
  | enqueued | leased | started | succeeded | failed | leaseExpired | retryScheduled | parked | cancelled
  | lateAckConflict | stalled | checkpointRecorded | signalReceived | approvalRequested | approvalGranted
  | approvalDenied | suspended | resumed | repaired

/-- `#[serde(rename_all = "snake_case")]`. -/
def Variant.tag : Variant → String
  | enqueued => "enqueued"
  | leased => "leased"
  | started => "started"
  | succeeded => "succeeded"
  | failed => "failed"
  | leaseExpired => "lease_expired"
  | retryScheduled => "retry_scheduled"
  | parked => "parked"
  | cancelled => "cancelled"
  | lateAckConflict => "late_ack_conflict"
  | stalled => "stalled"
  | checkpointRecorded => "checkpoint_recorded"
  | signalReceived => "signal_received"
  | approvalRequested => "approval_requested"
  | approvalGranted => "approval_granted"
  | approvalDenied => "approval_denied"
  | suspended => "suspended"
  | resumed => "resumed"
  | repaired => "repaired"

def Variant.ofTag : String → Except String Variant
  | "enqueued" => .ok enqueued
  | "leased" => .ok leased
  | "started" => .ok started
  | "succeeded" => .ok succeeded
  | "failed" => .ok failed
  | "lease_expired" => .ok leaseExpired
  | "retry_scheduled" => .ok retryScheduled
  | "parked" => .ok parked
  | "cancelled" => .ok cancelled
  | "late_ack_conflict" => .ok lateAckConflict
  | "stalled" => .ok stalled
  | "checkpoint_recorded" => .ok checkpointRecorded
  | "signal_received" => .ok signalReceived
  | "approval_requested" => .ok approvalRequested
  | "approval_granted" => .ok approvalGranted
  | "approval_denied" => .ok approvalDenied
  | "suspended" => .ok suspended
  | "resumed" => .ok resumed
  | "repaired" => .ok repaired
  | other => .error ("unknown variant " ++ other)

instance : Codec Value Variant := Codec.refine Variant.tag Variant.ofTag

instance : LawfulCodec Value Variant := Codec.lawful_refine fun variant => by cases variant <;> rfl

def JobEvent.variant : JobEvent → Variant
  | .enqueued .. => .enqueued
  | .leased .. => .leased
  | .started .. => .started
  | .succeeded .. => .succeeded
  | .failed .. => .failed
  | .leaseExpired .. => .leaseExpired
  | .retryScheduled .. => .retryScheduled
  | .parked .. => .parked
  | .cancelled .. => .cancelled
  | .lateAckConflict .. => .lateAckConflict
  | .stalled => .stalled
  | .checkpointRecorded .. => .checkpointRecorded
  | .signalReceived .. => .signalReceived
  | .approvalRequested .. => .approvalRequested
  | .approvalGranted .. => .approvalGranted
  | .approvalDenied .. => .approvalDenied
  | .suspended => .suspended
  | .resumed => .resumed
  | .repaired .. => .repaired

theorem JobEvent.tag_variant (event : JobEvent) : event.variant.tag = event.kind := by
  cases event <;> rfl

def JobEvent.fields : JobEvent → List (String × Value)
  | .enqueued queue payload priority retryPolicy notBefore =>
    [("queue", encode queue), ("payload", encode payload), ("priority", encode priority),
      ("retry_policy", encode retryPolicy), ("not_before", encode notBefore)]
  | .leased worker lease expiresAt =>
    [("worker", encode worker), ("lease", encode lease), ("expires_at", encode expiresAt)]
  | .started worker => [("worker", encode worker)]
  | .succeeded result => [("result", encode result)]
  | .failed error attempt => [("error", encode error), ("attempt", encode attempt)]
  | .leaseExpired lease => [("lease", encode lease)]
  | .retryScheduled attempt notBefore => [("attempt", encode attempt), ("not_before", encode notBefore)]
  | .parked reason => [("reason", encode reason)]
  | .cancelled reason => [("reason", encode reason)]
  | .lateAckConflict worker lease reported =>
    [("worker", encode worker), ("lease", encode lease), ("reported", encode reported)]
  | .stalled => []
  | .checkpointRecorded key data => [("key", encode key), ("data", encode data)]
  | .signalReceived name data => [("name", encode name), ("data", encode data)]
  | .approvalRequested key => [("key", encode key)]
  | .approvalGranted key approver => [("key", encode key), ("approver", encode approver)]
  | .approvalDenied key approver => [("key", encode key), ("approver", encode approver)]
  | .suspended => []
  | .resumed => []
  | .repaired newPayload note => [("new_payload", encode newPayload), ("note", encode note)]

/-- The fields `#[serde(default)]` marks may be absent. -/
def Variant.read (fields : List (String × Value)) : Variant → Except String JobEvent
  | enqueued => do
    let queue ← field "queue" fields
    let payload ← field "payload" fields
    let priority ← field "priority" fields
    let retryPolicy ← field "retry_policy" fields
    let notBefore ← defaulted "not_before" fields
    .ok (.enqueued queue payload priority retryPolicy notBefore)
  | leased => do
    let worker ← field "worker" fields
    let lease ← field "lease" fields
    let expiresAt ← field "expires_at" fields
    .ok (.leased worker lease expiresAt)
  | started => do
    let worker ← field "worker" fields
    .ok (.started worker)
  | succeeded => do
    let result ← defaulted "result" fields
    .ok (.succeeded result)
  | failed => do
    let error ← field "error" fields
    let attempt ← field "attempt" fields
    .ok (.failed error attempt)
  | leaseExpired => do
    let lease ← field "lease" fields
    .ok (.leaseExpired lease)
  | retryScheduled => do
    let attempt ← field "attempt" fields
    let notBefore ← field "not_before" fields
    .ok (.retryScheduled attempt notBefore)
  | parked => do
    let reason ← field "reason" fields
    .ok (.parked reason)
  | cancelled => do
    let reason ← defaulted "reason" fields
    .ok (.cancelled reason)
  | lateAckConflict => do
    let worker ← field "worker" fields
    let lease ← field "lease" fields
    let reported ← field "reported" fields
    .ok (.lateAckConflict worker lease reported)
  | stalled => .ok .stalled
  | checkpointRecorded => do
    let key ← field "key" fields
    let data ← field "data" fields
    .ok (.checkpointRecorded key data)
  | signalReceived => do
    let name ← field "name" fields
    let data ← field "data" fields
    .ok (.signalReceived name data)
  | approvalRequested => do
    let key ← field "key" fields
    .ok (.approvalRequested key)
  | approvalGranted => do
    let key ← field "key" fields
    let approver ← field "approver" fields
    .ok (.approvalGranted key approver)
  | approvalDenied => do
    let key ← field "key" fields
    let approver ← field "approver" fields
    .ok (.approvalDenied key approver)
  | suspended => .ok .suspended
  | resumed => .ok .resumed
  | repaired => do
    let newPayload ← defaulted "new_payload" fields
    let note ← field "note" fields
    .ok (.repaired newPayload note)

/-- `#[serde(tag = "type")]`: the variant's tag stands before its fields. -/
def JobEvent.serialize (event : JobEvent) : Value := .object (("type", encode event.variant) :: event.fields)

def JobEvent.deserialize (written : Value) : Except String JobEvent := do
  let fields ← fieldsOf written
  let variant ← field "type" fields
  Variant.read fields variant

/-- What an optional JSON value comes back as. -/
def withoutNull : Option Value → Option Value
  | some .null => none
  | value => value

theorem decode_encode_value (value : Option Value) :
    (decode (encode value : Value) : Except String (Option Value)) = .ok (withoutNull value) := by
  cases value with
  | none => rfl
  | some value => cases value <;> rfl

def JobEvent.restored : JobEvent → JobEvent
  | .succeeded result => .succeeded (withoutNull result)
  | .repaired newPayload note => .repaired (withoutNull newPayload) note
  | event => event

theorem JobEvent.read_fields (event : JobEvent) (tag : Value) :
    event.variant.read (("type", tag) :: event.fields) = .ok event.restored := by
  cases event <;>
    simp [JobEvent.variant, JobEvent.fields, JobEvent.restored, Variant.read, ok_bind, field_here, field_there,
      defaulted_here, defaulted_there, LawfulCodec.decode_encode, decode_encode_value]

theorem JobEvent.deserialize_serialize (event : JobEvent) :
    JobEvent.deserialize event.serialize = .ok event.restored := by
  rw [JobEvent.deserialize, JobEvent.serialize, fieldsOf, ok_bind, field_here, LawfulCodec.decode_encode, ok_bind,
    JobEvent.read_fields]

instance : Codec Value JobEvent := ⟨JobEvent.serialize, JobEvent.deserialize⟩

def JobEvent.NullFree : JobEvent → Prop
  | .succeeded result => result ≠ some .null
  | .repaired newPayload _ => newPayload ≠ some .null
  | _ => True

theorem withoutNull_eq_iff {value : Option Value} : withoutNull value = value ↔ value ≠ some .null := by
  unfold withoutNull
  split
  · simp
  · rename_i other
    exact iff_of_true rfl other

theorem JobEvent.restored_eq_iff {event : JobEvent} : event.restored = event ↔ event.NullFree := by
  cases event with
  | succeeded result =>
    rw [JobEvent.restored, JobEvent.succeeded.injEq]
    exact withoutNull_eq_iff
  | repaired newPayload note =>
    rw [JobEvent.restored, JobEvent.repaired.injEq, and_iff_left rfl]
    exact withoutNull_eq_iff
  | _ => exact iff_of_true rfl trivial

def typeTag (written : Value) : Except String String := do
  let fields ← fieldsOf written
  field "type" fields

theorem JobEvent.typeTag_serialize (event : JobEvent) : typeTag event.serialize = .ok event.kind := by
  rw [typeTag, JobEvent.serialize, fieldsOf, ok_bind, field_here, ← event.tag_variant]
  rfl

def EventEnvelope.serialize (envelope : EventEnvelope) : Value :=
  .object [("event_id", encode envelope.eventId), ("stream_id", encode envelope.streamId),
    ("version", encode (UInt64.ofNat envelope.version)), ("recorded_at", encode envelope.recordedAt),
    ("correlation_id", encode envelope.correlationId), ("causation_id", encode envelope.causationId),
    ("traceparent", encode envelope.traceparent), ("schema_version", encode envelope.schemaVersion),
    ("event", encode envelope.event)]

def EventEnvelope.deserialize (written : Value) : Except String EventEnvelope := do
  let fields ← fieldsOf written
  let eventId ← field "event_id" fields
  let streamId ← field "stream_id" fields
  let version : UInt64 ← field "version" fields
  let recordedAt ← field "recorded_at" fields
  let correlationId ← field "correlation_id" fields
  let causationId ← defaulted "causation_id" fields
  let traceparent ← defaulted "traceparent" fields
  let schemaVersion ← field "schema_version" fields
  let event ← field "event" fields
  .ok
    { eventId, streamId, version := version.toNat, recordedAt, correlationId, causationId, traceparent
      schemaVersion, event }

def EventEnvelope.restored (envelope : EventEnvelope) : EventEnvelope :=
  { envelope with event := envelope.event.restored }

theorem EventEnvelope.deserialize_serialize (envelope : EventEnvelope) (fits : envelope.version < 2 ^ 64) :
    EventEnvelope.deserialize envelope.serialize = .ok envelope.restored := by
  have version : (UInt64.ofNat envelope.version).toNat = envelope.version := by
    rw [UInt64.toNat_ofNat']
    exact Nat.mod_eq_of_lt fits
  have event : (decode (encode envelope.event : Value) : Except String JobEvent) = .ok envelope.event.restored :=
    envelope.event.deserialize_serialize
  rw [EventEnvelope.deserialize, EventEnvelope.serialize]
  simp [fieldsOf, ok_bind, field_here, field_there, defaulted_here, defaulted_there, LawfulCodec.decode_encode,
    event, version, EventEnvelope.restored]

theorem EventEnvelope.restored_eq_iff {envelope : EventEnvelope} :
    envelope.restored = envelope ↔ envelope.event.NullFree := by
  rw [← JobEvent.restored_eq_iff]
  constructor
  · exact fun same => congrArg EventEnvelope.event same
  · intro same
    rw [EventEnvelope.restored, same]

end Events

end Koine.Domain
