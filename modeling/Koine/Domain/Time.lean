import Mathlib.Algebra.Group.Int.Defs
import Mathlib.Algebra.GroupWithZero.Nat
import Mathlib.Data.List.MinMax
import Mathlib.Data.Int.Order.Basic
import Mathlib.Tactic.Common
import Koine.Library.Outcome

namespace Koine.Domain

open Library

def minUtcNanos : Int := -8334601228800 * 1000000000

def maxUtcNanos : Int := 8210266876799 * 1000000000 + 999999999

structure DateTime where
  nanos : Int
  lower : minUtcNanos ≤ nanos
  upper : nanos ≤ maxUtcNanos
deriving DecidableEq

theorem DateTime.nanos_injective : Function.Injective DateTime.nanos := by
  rintro ⟨a, _, _⟩ ⟨b, _, _⟩ same
  cases same
  rfl

instance : LinearOrder DateTime := LinearOrder.lift' DateTime.nanos DateTime.nanos_injective

theorem DateTime.le_iff {a b : DateTime} : a ≤ b ↔ a.nanos ≤ b.nanos := Iff.rfl

structure Duration where
  nanos : Nat
  bound : nanos < 2 ^ 64 * 1000000000
deriving DecidableEq

theorem Duration.nanos_injective : Function.Injective Duration.nanos := by
  rintro ⟨a, _⟩ ⟨b, _⟩ same
  cases same
  rfl

instance : LinearOrder Duration := LinearOrder.lift' Duration.nanos Duration.nanos_injective

theorem Duration.le_iff {a b : Duration} : a ≤ b ↔ a.nanos ≤ b.nanos := Iff.rfl

def Duration.max : Duration := ⟨2 ^ 64 * 1000000000 - 1, by decide⟩

def Duration.fromSecs (seconds : UInt64) : Duration :=
  ⟨seconds.toNat * 1000000000, by have := seconds.toNat_lt; omega⟩

def Duration.fromMillis (millis : UInt64) : Duration :=
  ⟨millis.toNat * 1000000, by have := millis.toNat_lt; omega⟩

def Duration.asMillis (d : Duration) : Nat := d.nanos / 1000000

def Duration.saturatingMul (d : Duration) (factor : Nat) : Duration :=
  if fits : d.nanos * factor < 2 ^ 64 * 1000000000 then ⟨d.nanos * factor, fits⟩ else .max

/-- `chrono::TimeDelta`, whose range is that of 64-bit signed milliseconds. -/
structure TimeDelta where
  nanos : Int
  lower : -(9223372036854775807 * 1000000) ≤ nanos
  upper : nanos ≤ 9223372036854775807 * 1000000
deriving DecidableEq

def TimeDelta.fromStd (d : Duration) : Option TimeDelta :=
  if fits : (d.nanos : Int) ≤ 9223372036854775807 * 1000000 then
    some ⟨d.nanos, by omega, fits⟩
  else none

theorem TimeDelta.fromStd_nanos {d : Duration} {delta : TimeDelta}
    (converted : TimeDelta.fromStd d = some delta) : delta.nanos = d.nanos := by
  unfold TimeDelta.fromStd at converted
  split at converted
  · cases converted
    rfl
  · cases converted

def DateTime.checkedAddSigned (t : DateTime) (delta : TimeDelta) : Option DateTime :=
  if fits : minUtcNanos ≤ t.nanos + delta.nanos ∧ t.nanos + delta.nanos ≤ maxUtcNanos then
    some ⟨t.nanos + delta.nanos, fits.1, fits.2⟩
  else none

theorem DateTime.checkedAddSigned_nanos {t sum : DateTime} {delta : TimeDelta}
    (added : t.checkedAddSigned delta = some sum) : sum.nanos = t.nanos + delta.nanos := by
  unfold DateTime.checkedAddSigned at added
  split at added
  · cases added
    rfl
  · cases added

theorem DateTime.deadline_nanos {now deadline : DateTime} {ttl : Duration} {delta : TimeDelta}
    (converted : TimeDelta.fromStd ttl = some delta) (added : now.checkedAddSigned delta = some deadline) :
    deadline.nanos = now.nanos + ttl.nanos := by
  rw [DateTime.checkedAddSigned_nanos added, TimeDelta.fromStd_nanos converted]

theorem DateTime.addable {t : DateTime} {d : Duration} (room : t.nanos + d.nanos ≤ maxUtcNanos) :
    ∃ delta sum, TimeDelta.fromStd d = some delta ∧ t.checkedAddSigned delta = some sum := by
  have lower := t.lower
  have fits : (d.nanos : Int) ≤ 9223372036854775807 * 1000000 := by
    unfold minUtcNanos at lower
    unfold maxUtcNanos at room
    omega
  have above : minUtcNanos ≤ t.nanos + d.nanos := by omega
  exact ⟨⟨d.nanos, by omega, fits⟩, ⟨t.nanos + d.nanos, above, room⟩, dif_pos fits, dif_pos ⟨above, room⟩⟩

/-- The operator `DateTime + TimeDelta`, which panics where `checked_add_signed` returns `None`. -/
def DateTime.add {ε : Type} (t : DateTime) (delta : TimeDelta) : Outcome ε DateTime :=
  match t.checkedAddSigned delta with
  | some sum => .ok sum
  | none => .panic

end Koine.Domain
