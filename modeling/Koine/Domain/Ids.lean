import Koine.Domain.Time

namespace Koine.Domain

inductive IdKind where
  | job
  | event
  | lease
  | correlation
deriving DecidableEq

/-- The source's `uuid_newtype!`: one wrapper around a UUID for each kind of identity. -/
structure UuidNewtype (kind : IdKind) where
  uuid : BitVec 128
deriving DecidableEq

instance UuidNewtype.instLawfulBEq {kind : IdKind} : LawfulBEq (UuidNewtype kind) := inferInstance

abbrev JobId := UuidNewtype .job
abbrev EventId := UuidNewtype .event
abbrev LeaseId := UuidNewtype .lease
abbrev CorrelationId := UuidNewtype .correlation

theorem UuidNewtype.number_injective {kind : IdKind} :
    Function.Injective (fun id : UuidNewtype kind => id.uuid.toNat) := by
  rintro ⟨a⟩ ⟨b⟩ same
  exact congrArg UuidNewtype.mk (BitVec.eq_of_toNat_eq same)

instance {kind : IdKind} : LinearOrder (UuidNewtype kind) :=
  LinearOrder.lift' (fun id => id.uuid.toNat) UuidNewtype.number_injective

def hexDigits (uuid : BitVec 128) (first count : Nat) : String :=
  String.ofList ((List.range count).map fun i =>
    Nat.digitChar (uuid.toNat / 16 ^ (31 - (first + i)) % 16))

def UuidNewtype.display {kind : IdKind} (id : UuidNewtype kind) : String :=
  hexDigits id.uuid 0 8 ++ "-" ++ hexDigits id.uuid 8 4 ++ "-" ++ hexDigits id.uuid 12 4 ++ "-" ++
    hexDigits id.uuid 16 4 ++ "-" ++ hexDigits id.uuid 20 12

inductive DomainError where
  | illegalTransition (state event : String)
  | invalidQueueName (reason : String)
  | invalidWorkerId (reason : String)
  | streamMustStartWithEnqueued (got : String)
  | leaseMismatch
  | invalidTtl
  | nonSequentialVersion (expected got : Nat)
deriving DecidableEq

def DomainError.display : DomainError → String
  | .illegalTransition state event =>
    "illegal transition: event `" ++ event ++ "` in state `" ++ state ++ "`"
  | .invalidQueueName reason => "invalid queue name: " ++ reason
  | .invalidWorkerId reason => "invalid worker id: " ++ reason
  | .streamMustStartWithEnqueued got =>
    "event stream must start with `enqueued`, got `" ++ got ++ "`"
  | .leaseMismatch => "lease mismatch"
  | .invalidTtl => "ttl out of range"
  | .nonSequentialVersion expected got =>
    "non-sequential version: expected " ++ toString expected ++ ", got " ++ toString got

def queueNameChar (c : Char) : Bool :=
  c.isLower || c.isDigit || c == '.' || c == '_' || c == '-'

def queueNameError (name : String) : Option String :=
  if name.isEmpty then some "empty"
  else if 128 < name.utf8ByteSize then some "longer than 128 bytes"
  else if name.toList.all queueNameChar then none
  else some "only [a-z0-9._-] allowed"

structure QueueName where
  value : String
  valid : queueNameError value = none
deriving DecidableEq

def QueueName.new (name : String) : Except DomainError QueueName :=
  match checked : queueNameError name with
  | some reason => .error (.invalidQueueName reason)
  | none => .ok ⟨name, checked⟩

/-- `char::is_control`: the Unicode category Cc. -/
def controlChar (c : Char) : Bool :=
  c.toNat < 0x20 || (0x7f ≤ c.toNat && c.toNat < 0xa0)

def workerIdError (id : String) : Option String :=
  if id.isEmpty then some "empty"
  else if 256 < id.utf8ByteSize then some "longer than 256 bytes"
  else if id.toList.any controlChar then some "control characters"
  else none

structure WorkerId where
  value : String
  valid : workerIdError value = none
deriving DecidableEq

def WorkerId.new (id : String) : Except DomainError WorkerId :=
  match checked : workerIdError id with
  | some reason => .error (.invalidWorkerId reason)
  | none => .ok ⟨id, checked⟩

structure Priority where
  value : Int16
deriving DecidableEq

end Koine.Domain
