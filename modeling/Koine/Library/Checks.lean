import Koine.Library.Outcome
import Mathlib.Data.List.Forall2

namespace Library.Checks

variable {ε α β : Type} {items : List α}

theorem forM_ok {f : α → Except ε Unit} : items.forM f = .ok () ↔ ∀ item ∈ items, f item = .ok () := by
  induction items with
  | nil => exact iff_of_true rfl fun _ member => absurd member List.not_mem_nil
  | cons item items ih =>
    have turn : (item :: items).forM f = (f item >>= fun _ => items.forM f) := rfl
    rw [turn, Except.bind_eq_ok, List.forall_mem_cons, ← ih]
    constructor
    · rintro ⟨_, first, rest⟩
      exact ⟨first, rest⟩
    · rintro ⟨first, rest⟩
      exact ⟨(), first, rest⟩

theorem mapM_ok {f : α → Except ε β} {results : List β} (accepted : items.mapM f = .ok results) :
    List.Forall₂ (fun item result => f item = .ok result) items results := by
  induction items generalizing results with
  | nil =>
    cases accepted
    exact .nil
  | cons item items ih =>
    rw [List.mapM_cons] at accepted
    obtain ⟨result, here, accepted⟩ := Except.bind_eq_ok.mp accepted
    obtain ⟨rest, later, accepted⟩ := Except.bind_eq_ok.mp accepted
    cases accepted
    exact .cons here (ih later)

theorem forall_left {R : α → β → Prop} {holds : α → Prop} {results : List β} (each : List.Forall₂ R items results)
    (one : ∀ item result, R item result → holds item) : ∀ item ∈ items, holds item := by
  induction each with
  | nil => exact fun _ member => absurd member List.not_mem_nil
  | cons here later ih => exact List.forall_mem_cons.mpr ⟨one _ _ here, ih⟩

theorem flatten_toList {f : α → Option β} {results : List (List β)}
    (each : List.Forall₂ (fun item result => result = (f item).toList) items results) :
    results.flatten = items.filterMap f := by
  induction each with
  | nil => rfl
  | @cons item result items results here later ih =>
    rw [List.flatten_cons, ih, here, List.filterMap_cons]
    cases f item <;> rfl

end Library.Checks
