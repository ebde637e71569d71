import Mathlib.Tactic.Common

namespace Library

/-- What a call can do: return a value, return a typed error, or unwind. -/
inductive Outcome (ε α : Type) where
  | ok (value : α)
  | err (error : ε)
  | panic
deriving DecidableEq

namespace Outcome

variable {ε ε' α β : Type}

def bind (outcome : Outcome ε α) (next : α → Outcome ε β) : Outcome ε β :=
  match outcome with
  | .ok value => next value
  | .err error => .err error
  | .panic => .panic

instance : Monad (Outcome ε) where
  pure := .ok
  bind := bind

def mapErr (change : ε → ε') : Outcome ε α → Outcome ε' α
  | .ok value => .ok value
  | .err error => .err (change error)
  | .panic => .panic

@[simp] theorem ok_bind (value : α) (next : α → Outcome ε β) : (ok value >>= next) = next value := rfl

@[simp] theorem err_bind (error : ε) (next : α → Outcome ε β) :
    ((err error : Outcome ε α) >>= next) = err error := rfl

@[simp] theorem panic_bind (next : α → Outcome ε β) :
    ((panic : Outcome ε α) >>= next) = panic := rfl

@[simp] theorem pure_eq_ok (value : α) : (pure value : Outcome ε α) = ok value := rfl

theorem bind_eq_ok {outcome : Outcome ε α} {next : α → Outcome ε β} {result : β} :
    (outcome >>= next) = ok result ↔ ∃ value, outcome = ok value ∧ next value = ok result := by
  cases outcome with
  | ok value => simp
  | err error => simp
  | panic => simp

theorem bind_pure_eq_err {outcome : Outcome ε α} {finish : α → β} {error : ε} :
    (outcome >>= fun value => pure (finish value)) = err error ↔ outcome = err error := by
  cases outcome with
  | ok value => exact ⟨nofun, nofun⟩
  | err failure => simp
  | panic => exact ⟨nofun, nofun⟩

theorem bind_pure_eq_panic {outcome : Outcome ε α} {finish : α → β} :
    (outcome >>= fun value => pure (finish value)) = panic ↔ outcome = panic := by
  cases outcome with
  | ok value => exact ⟨nofun, nofun⟩
  | err failure => exact ⟨nofun, nofun⟩
  | panic => simp

@[simp] theorem mapErr_eq_ok {change : ε → ε'} {outcome : Outcome ε α} {value : α} :
    outcome.mapErr change = ok value ↔ outcome = ok value := by
  cases outcome <;> simp [mapErr]

theorem mapErr_eq_err {change : ε → ε'} {outcome : Outcome ε α} {error : ε'} :
    outcome.mapErr change = err error ↔ ∃ source, outcome = err source ∧ change source = error := by
  cases outcome <;> simp [mapErr]

@[simp] theorem mapErr_eq_panic {change : ε → ε'} {outcome : Outcome ε α} :
    outcome.mapErr change = panic ↔ outcome = panic := by
  cases outcome <;> simp [mapErr]

end Outcome

theorem Except.bind_eq_ok {ε α β : Type} {first : Except ε α} {next : α → Except ε β} {result : β} :
    (first >>= next) = .ok result ↔ ∃ value, first = .ok value ∧ next value = .ok result := by
  cases first with
  | error error => simp [bind, Except.bind]
  | ok value => simp [bind, Except.bind]

end Library
