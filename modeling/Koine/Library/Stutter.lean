import Koine.Library.History
import Mathlib.Data.List.Destutter

namespace Library

variable {σ ℓ ρ β : Type}

def Run.seen (view : σ → β) (start : σ) (history : List (Record σ ℓ ρ)) : List β :=
  history.map (fun record => view record.after) ++ [view start]

/-- Two observations that differ only in how long each value is seen. -/
def SameChanges [DecidableEq β] (left right : List β) : Prop :=
  left.destutter (· ≠ ·) = right.destutter (· ≠ ·)

namespace SameChanges

variable [DecidableEq β] {value : β} {left right : List β}

theorem destutter_repeat (value : β) (rest : List β) :
    (value :: value :: rest).destutter (· ≠ ·) = (value :: rest).destutter (· ≠ ·) := by
  rw [List.destutter_cons_cons, if_neg (by simp), List.destutter_cons']

theorem repeat_left (same : SameChanges (value :: left) right) :
    SameChanges (value :: value :: left) right := by
  rw [SameChanges, destutter_repeat]
  exact same

theorem repeat_right (same : SameChanges left (value :: right)) :
    SameChanges left (value :: value :: right) := by
  rw [SameChanges, destutter_repeat]
  exact same

theorem cons (next : β) (same : SameChanges (value :: left) (value :: right)) :
    SameChanges (next :: value :: left) (next :: value :: right) := by
  by_cases stays : next = value
  · subst stays
    exact same.repeat_left.repeat_right
  · rw [SameChanges, List.destutter_cons_cons, List.destutter_cons_cons, if_pos stays, if_pos stays,
      ← List.destutter_cons', ← List.destutter_cons']
    exact congrArg (next :: ·) same

end SameChanges

end Library
