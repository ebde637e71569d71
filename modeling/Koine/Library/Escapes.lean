import Mathlib.Tactic.Common

namespace Library

/-! Texts with an escape character: it takes the character after it, whatever that is. -/

section Escapes

variable {χ : Type} [DecidableEq χ] (escape : χ)

/-- Whether an escape character waits for the one it takes. -/
def pending : Bool → χ → Bool
  | true, _ => false
  | false, c => c == escape

variable {escape}

theorem pending_other {c : χ} (other : c ≠ escape) (before : Bool) : pending escape before c = false := by
  cases before with
  | true => rfl
  | false => simp [pending, other]

theorem foldl_pending_other {c : χ} (other : c ≠ escape) (front : List χ) (before : Bool) :
    (front ++ [c]).foldl (pending escape) before = false := by
  rw [List.foldl_append]
  exact pending_other other _

end Escapes

end Library
