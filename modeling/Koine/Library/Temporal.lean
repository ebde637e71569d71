import Mathlib.Order.WellFounded
import Mathlib.Tactic.Common

namespace Library

variable {σ ι α : Type}

/-- Every step of the behaviour is one of `next` or leaves the state as it is. -/
def Behaves (next : σ → σ → Prop) (behaviour : Nat → σ) : Prop :=
  ∀ time, next (behaviour time) (behaviour (time + 1)) ∨ behaviour (time + 1) = behaviour time

def Moves (action : σ → σ → Prop) (before after : σ) : Prop := action before after ∧ after ≠ before

def Enabled (action : σ → σ → Prop) (state : σ) : Prop := ∃ after, Moves action state after

/-- Weak fairness: an action that stays enabled is taken. -/
def WeaklyFair (action : σ → σ → Prop) (behaviour : Nat → σ) : Prop :=
  ∀ start, (∀ time, start ≤ time → Enabled action (behaviour time)) →
    ∃ time, start ≤ time ∧ Moves action (behaviour time) (behaviour (time + 1))

theorem Behaves.invariant {next : σ → σ → Prop} {behaviour : Nat → σ} (holds : σ → Prop)
    (initial : holds (behaviour 0)) (kept : ∀ before after, holds before → next before after → holds after)
    (behaves : Behaves next behaviour) (time : Nat) : holds (behaviour time) := by
  induction time with
  | zero => exact initial
  | succ time ih =>
    rcases behaves time with taken | idle
    · exact kept _ _ ih taken
    · rw [idle]
      exact ih

theorem Behaves.stays {next : σ → σ → Prop} {behaviour : Nat → σ} (holds : σ → Prop) {start : Nat}
    (reached : holds (behaviour start)) (kept : ∀ before after, holds before → next before after → holds after)
    (behaves : Behaves next behaviour) {time : Nat} (later : start ≤ time) : holds (behaviour time) := by
  obtain ⟨gap, rfl⟩ := Nat.exists_eq_add_of_le later
  have shifted : Behaves next fun time => behaviour (start + time) := fun time => behaves (start + time)
  exact shifted.invariant holds reached kept gap

/-- In each state short of the goal one of the fair actions is enabled and leads closer to it, and no
    step of the system leads away from the goal or to another helpful action at the same distance. -/
structure Approaches [LT α] (next : σ → σ → Prop) (fair : ι → σ → σ → Prop) (holds goal : σ → Prop)
    (helpful : σ → ι) (rank : σ → α) : Prop where
  enabled : ∀ state, holds state → ¬ goal state → Enabled (fair (helpful state)) state
  helps : ∀ before after, holds before → ¬ goal before → Moves (fair (helpful before)) before after →
    goal after ∨ rank after < rank before
  kept : ∀ before after, holds before → ¬ goal before → next before after →
    goal after ∨ rank after < rank before ∨ (rank after = rank before ∧ helpful after = helpful before)

theorem Approaches.closer [LT α] {next : σ → σ → Prop} {fair : ι → σ → σ → Prop} {holds goal : σ → Prop}
    {helpful : σ → ι} {rank : σ → α} (approaches : Approaches next fair holds goal helpful rank)
    {behaviour : Nat → σ} (behaves : Behaves next behaviour) (weak : ∀ index, WeaklyFair (fair index) behaviour)
    (always : ∀ time, holds (behaviour time)) (start : Nat)
    (never : ∀ time, start ≤ time → ¬ goal (behaviour time)) :
    ∃ time, start ≤ time ∧ rank (behaviour time) < rank (behaviour start) := by
  by_contra flat
  push Not at flat
  -- while the rank does not fall, neither it nor the helpful action changes
  have level : ∀ gap, rank (behaviour (start + gap)) = rank (behaviour start) ∧
      helpful (behaviour (start + gap)) = helpful (behaviour start) := by
    intro gap
    induction gap with
    | zero => exact ⟨rfl, rfl⟩
    | succ gap ih =>
      have after : start ≤ start + (gap + 1) := Nat.le_add_right ..
      rcases behaves (start + gap) with taken | idle
      · rcases approaches.kept _ _ (always _) (never _ (Nat.le_add_right ..)) taken with reached | fell | same
        · exact absurd reached (never _ after)
        · rw [ih.1] at fell
          exact absurd fell (flat _ after)
        · rw [← ih.1, ← ih.2]
          exact same
      · rw [← ih.1, ← ih.2, ← Nat.add_assoc, idle]
        exact ⟨rfl, rfl⟩
  obtain ⟨time, later, moved⟩ := weak (helpful (behaviour start)) start (by
    intro time later
    obtain ⟨gap, rfl⟩ := Nat.exists_eq_add_of_le later
    rw [← (level gap).2]
    exact approaches.enabled _ (always _) (never _ later))
  obtain ⟨gap, rfl⟩ := Nat.exists_eq_add_of_le later
  rw [← (level gap).2] at moved
  have after : start ≤ start + gap + 1 := by omega
  rcases approaches.helps _ _ (always _) (never _ later) moved with reached | fell
  · exact never _ after reached
  · rw [(level gap).1] at fell
    exact flat _ after fell

/-- A fair behaviour reaches the goal that it approaches. -/
theorem Approaches.reached [LT α] [WellFoundedLT α] {next : σ → σ → Prop} {fair : ι → σ → σ → Prop}
    {holds goal : σ → Prop} {helpful : σ → ι} {rank : σ → α}
    (approaches : Approaches next fair holds goal helpful rank) {behaviour : Nat → σ}
    (behaves : Behaves next behaviour) (weak : ∀ index, WeaklyFair (fair index) behaviour)
    (always : ∀ time, holds (behaviour time)) (start : Nat) : ∃ time, start ≤ time ∧ goal (behaviour time) := by
  generalize distance : rank (behaviour start) = measure
  induction measure using WellFoundedLT.induction generalizing start with
  | ind measure ih =>
    by_contra never
    push Not at never
    obtain ⟨later, after, fell⟩ := approaches.closer behaves weak always start never
    rw [distance] at fell
    obtain ⟨time, beyond, reached⟩ := ih _ fell later rfl
    exact never time (Nat.le_trans after beyond) reached

end Library
