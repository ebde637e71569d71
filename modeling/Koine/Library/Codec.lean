import Mathlib.Tactic.Common

namespace Library

/-- A way to write values of `α` as values of `V`, and to read them. -/
class Codec (V α : Type) where
  encode : α → V
  decode : V → Except String α

class LawfulCodec (V α : Type) [Codec V α] : Prop where
  decode_encode : ∀ value : α, Codec.decode (Codec.encode value : V) = .ok value

class Nullable (V : Type) where
  null : V
  isNull : V → Bool
  isNull_null : isNull null = true

class NonNullCodec (V α : Type) [Nullable V] [Codec V α] : Prop where
  encode_ne_null : ∀ value : α, Nullable.isNull (Codec.encode value : V) = false

theorem ok_bind {ε α β : Type} (value : α) (next : α → Except ε β) : (Except.ok value >>= next) = next value := rfl

namespace Codec

variable {V α β : Type}

@[reducible] def refine [Codec V β] (forget : α → β) (check : β → Except String α) : Codec V α where
  encode value := encode (forget value)
  decode written := decode written >>= check

theorem lawful_refine [Codec V β] [LawfulCodec V β] {forget : α → β} {check : β → Except String α}
    (checked : ∀ value, check (forget value) = .ok value) : @LawfulCodec V α (refine forget check) := by
  let _ := refine (V := V) forget check
  refine ⟨fun value => ?_⟩
  change decode (encode (forget value) : V) >>= check = .ok value
  rw [LawfulCodec.decode_encode, ok_bind, checked]

theorem nonNull_refine [Nullable V] [Codec V β] [NonNullCodec V β] (forget : α → β)
    (check : β → Except String α) : @NonNullCodec V α _ (refine forget check) := by
  let _ := refine (V := V) forget check
  exact ⟨fun value => NonNullCodec.encode_ne_null (forget value)⟩

section Optional

variable [Nullable V] [Codec V α]

/-- `None` is written as the null, `Some(v)` as `v`. -/
instance : Codec V (Option α) where
  encode
    | none => Nullable.null
    | some value => encode value
  decode written := if Nullable.isNull written then .ok none else (decode written).map some

theorem decode_encode_none : decode (encode (none : Option α) : V) = .ok (none : Option α) :=
  if_pos Nullable.isNull_null

theorem decode_encode_some [LawfulCodec V α] {value : α} (plain : Nullable.isNull (encode value : V) = false) :
    decode (encode (some value) : V) = .ok (some value) := by
  have read : (decode (encode value : V) : Except String α) = .ok value := LawfulCodec.decode_encode value
  change (if Nullable.isNull (encode value : V) = true then _ else Except.map some (decode (encode value : V))) = _
  rw [plain, if_neg Bool.false_ne_true, read]
  rfl

instance [LawfulCodec V α] [NonNullCodec V α] : LawfulCodec V (Option α) where
  decode_encode
    | none => decode_encode_none
    | some value => decode_encode_some (NonNullCodec.encode_ne_null value)

end Optional

section Records

def field [Codec V α] (name : String) (fields : List (String × V)) : Except String α :=
  match fields.lookup name with
  | some written => decode written
  | none => .error ("missing field " ++ name)

def defaulted [Nullable V] [Codec V α] (name : String) (fields : List (String × V)) : Except String (Option α) :=
  match fields.lookup name with
  | some written => decode written
  | none => .ok none

variable (name : String) (rest : List (String × V))

theorem field_here [Codec V α] (written : V) :
    (field name ((name, written) :: rest) : Except String α) = decode written := by
  rw [field, List.lookup_cons_self]

theorem field_there [Codec V α] {other : String} (different : name ≠ other) (written : V) :
    (field name ((other, written) :: rest) : Except String α) = field name rest := by
  rw [field, field, List.lookup_cons, beq_eq_false_iff_ne.mpr different]

theorem defaulted_here [Nullable V] [Codec V α] (written : V) :
    (defaulted name ((name, written) :: rest) : Except String (Option α)) = decode written := by
  rw [defaulted, List.lookup_cons_self]

theorem defaulted_there [Nullable V] [Codec V α] {other : String} (different : name ≠ other) (written : V) :
    (defaulted name ((other, written) :: rest) : Except String (Option α)) = defaulted name rest := by
  rw [defaulted, defaulted, List.lookup_cons, beq_eq_false_iff_ne.mpr different]

end Records

end Codec

end Library
