import Mathlib.Tactic.Common

namespace Library

structure Record (σ ℓ ρ : Type) where
  before : σ
  label : ℓ
  result : ρ
  after : σ

/-- Runs of a step relation; the history lists the newest step first. -/
inductive Run {σ ℓ ρ : Type} (step : σ → ℓ → ρ → σ → Prop) (start : σ) :
    List (Record σ ℓ ρ) → σ → Prop where
  | refl : Run step start [] start
  | step {history : List (Record σ ℓ ρ)} {before after : σ} {label : ℓ} {result : ρ}
      (run : Run step start history before) (taken : step before label result after) :
      Run step start (⟨before, label, result, after⟩ :: history) after

namespace Run

variable {σ ℓ ρ : Type} {step : σ → ℓ → ρ → σ → Prop} {start state : σ}
  {history : List (Record σ ℓ ρ)}

/-- What holds at the start and survives every step holds in every state reached. -/
theorem invariant (holds : σ → Prop) (initial : holds start)
    (kept : ∀ before label result after, holds before → step before label result after → holds after)
    (run : Run step start history state) : holds state := by
  induction run with
  | refl => exact initial
  | step run taken ih => exact kept _ _ _ _ ih taken

theorem split {newer older : List (Record σ ℓ ρ)} {record : Record σ ℓ ρ}
    (run : Run step start (newer ++ record :: older) state) :
    Run step start older record.before ∧ step record.before record.label record.result record.after ∧
      Run step record.after newer state := by
  induction newer generalizing state with
  | nil =>
    cases run with
    | step run taken => exact ⟨run, taken, .refl⟩
  | cons newest newer ih =>
    cases run with
    | step run taken =>
      obtain ⟨before, middle, after⟩ := ih run
      exact ⟨before, middle, .step after taken⟩

theorem of_mem {record : Record σ ℓ ρ} (run : Run step start history state) (member : record ∈ history) :
    ∃ newer older, history = newer ++ record :: older ∧ Run step start older record.before ∧
      step record.before record.label record.result record.after ∧
      Run step record.after newer state := by
  obtain ⟨newer, older, rfl⟩ := List.append_of_mem member
  exact ⟨newer, older, rfl, run.split⟩

theorem append {middle : σ} {newer : List (Record σ ℓ ρ)} (run : Run step start history middle)
    (later : Run step middle newer state) : Run step start (newer ++ history) state := by
  induction later with
  | refl => exact run
  | step later taken ih => exact .step ih taken

theorem crossing (holds : σ → Prop) (run : Run step start history state) (before : ¬ holds start)
    (after : holds state) : ∃ record ∈ history, ¬ holds record.before ∧ holds record.after := by
  induction run with
  | refl => exact absurd after before
  | step run taken ih =>
    rename_i older middle last label result
    by_cases already : holds middle
    · obtain ⟨record, member, crossed⟩ := ih already
      exact ⟨record, List.mem_cons_of_mem _ member, crossed⟩
    · exact ⟨_, List.mem_cons_self, already, after⟩

/-- The run of a list of labels, newest first, when an executable function picks the steps. -/
def replay (exec : ℓ → σ → σ × ρ) (start : σ) : List ℓ → List (Record σ ℓ ρ) × σ
  | [] => ([], start)
  | label :: older =>
    let (history, before) := replay exec start older
    let (after, result) := exec label before
    (⟨before, label, result, after⟩ :: history, after)

theorem of_replay {exec : ℓ → σ → σ × ρ}
    (allowed : ∀ label before, step before label (exec label before).2 (exec label before).1)
    (labels : List ℓ) : Run step start (replay exec start labels).1 (replay exec start labels).2 := by
  induction labels with
  | nil => exact .refl
  | cons label older ih => exact .step ih (allowed label _)

def attempt (exec : ℓ → σ → Option (σ × ρ)) (start : σ) : List ℓ → Option (List (Record σ ℓ ρ) × σ)
  | [] => some ([], start)
  | label :: older => do
    let (history, before) ← attempt exec start older
    let (after, result) ← exec label before
    some (⟨before, label, result, after⟩ :: history, after)

theorem of_attempt {exec : ℓ → σ → Option (σ × ρ)}
    (allowed : ∀ label before after result, exec label before = some (after, result) →
      step before label result after)
    {labels : List ℓ} {history : List (Record σ ℓ ρ)} {state : σ}
    (ran : attempt exec start labels = some (history, state)) :
    Run step start history state ∧ history.map (·.label) = labels := by
  induction labels generalizing history state with
  | nil =>
    cases ran
    exact ⟨.refl, rfl⟩
  | cons label older ih =>
    simp only [attempt, Option.bind_eq_bind, Option.bind_eq_some_iff] at ran
    obtain ⟨⟨past, before⟩, earlier, ⟨after, result⟩, taken, ran⟩ := ran
    cases ran
    obtain ⟨run, labels⟩ := ih earlier
    exact ⟨.step run (allowed label before after result taken), by rw [List.map_cons, labels]⟩

end Run

end Library
