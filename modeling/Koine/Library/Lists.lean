import Mathlib.Data.List.Forall2
import Mathlib.Data.List.Nodup
import Mathlib.Tactic.Common

namespace Library

theorem exists_of_mem_right {α β : Type} {R : α → β → Prop} {left : List α} {right : List β}
    (related : List.Forall₂ R left right) {b : β} (member : b ∈ right) : ∃ a ∈ left, R a b := by
  induction related with
  | nil => cases member
  | cons pair rest ih =>
    rcases List.mem_cons.mp member with rfl | later
    · exact ⟨_, List.mem_cons_self, pair⟩
    · obtain ⟨a, listed, paired⟩ := ih later
      exact ⟨a, List.mem_cons_of_mem _ listed, paired⟩

theorem map_eq_of_forall₂ {α β γ : Type} {R : α → β → Prop} {f : α → γ} {g : β → γ} {left : List α}
    {right : List β} (related : List.Forall₂ R left right) (same : ∀ a b, R a b → f a = g b) :
    left.map f = right.map g := by
  induction related with
  | nil => rfl
  | cons pair rest ih => rw [List.map_cons, List.map_cons, ih, same _ _ pair]

theorem pairwise_or {α : Type} {R : α → α → Prop} {items : List α} (pairwise : items.Pairwise R) {a b : α}
    (first : a ∈ items) (second : b ∈ items) (different : a ≠ b) : R a b ∨ R b a := by
  induction pairwise with
  | nil => cases first
  | cons related rest ih =>
    rcases List.mem_cons.mp first with rfl | here
    · exact .inl (related b (List.mem_of_ne_of_mem different.symm second))
    · rcases List.mem_cons.mp second with rfl | there
      · exact .inr (related a here)
      · exact ih here there

theorem filter_eq_singleton {α : Type} {p : α → Bool} {items : List α} (nodup : items.Nodup) {a : α}
    (member : a ∈ items) (chosen : p a = true) (only : ∀ b ∈ items, p b = true → b = a) :
    items.filter p = [a] := by
  rw [← List.perm_singleton, List.perm_ext_iff_of_nodup (nodup.filter p) (List.nodup_singleton a)]
  intro b
  rw [List.mem_filter, List.mem_singleton]
  constructor
  · exact fun ⟨listed, kept⟩ => only b listed kept
  · rintro rfl
    exact ⟨member, chosen⟩

theorem max_range' (n : Nat) : (List.range' 1 n).max?.getD 0 = n := by
  rcases Nat.eq_zero_or_pos n with rfl | some
  · rfl
  · have greatest : (List.range' 1 n).max? = .some n := by
      rw [List.max?_eq_some_iff]
      refine ⟨List.mem_range'_1.mpr (by omega), ?_⟩
      intro m listed
      rw [List.mem_range'_1] at listed
      omega
    rw [greatest]
    rfl

/-- Numbers seen first in the order `1 … count` stay so when a run of consecutive ones is added that
    leaves no gap. -/
theorem eraseDups_append_range' {numbers : List Nat} {count first size : Nat}
    (firsts : numbers.eraseDups = List.range' 1 count) (reached : first ≤ count) :
    (numbers ++ List.range' (first + 1) size).eraseDups = List.range' 1 (max count (first + size)) := by
  induction size with
  | zero =>
    rw [List.range'_zero, List.append_nil, firsts, Nat.add_zero, Nat.max_eq_left reached]
  | succ size ih =>
    have known : first + size + 1 ∈ numbers ++ List.range' (first + 1) size ↔ first + size + 1 ≤ count := by
      rw [← List.mem_eraseDups, ih, List.mem_range'_1]
      omega
    rw [List.range'_concat, ← List.append_assoc, List.eraseDups_append, ih,
      show first + 1 + 1 * size = first + size + 1 by omega, List.removeAll, List.filter_singleton]
    by_cases old : first + size + 1 ≤ count
    · have again : max count (first + size) = max count (first + (size + 1)) := by omega
      simp [known.mpr old, again]
    · have next : max count (first + (size + 1)) = max count (first + size) + 1 := by omega
      have last : 1 + 1 * max count (first + size) = first + size + 1 := by omega
      have fresh : first + size + 1 ∉ numbers ++ List.range' (first + 1) size := fun member =>
        old (known.mp member)
      rw [next, List.range'_concat, last]
      simp [fresh, List.eraseDups_cons]

end Library
