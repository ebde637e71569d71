import Mathlib.Tactic.Common

namespace Library

variable {α : Type}

/-- The last of the maximal items, as `Iterator::max_by` returns it. -/
def maxBy (le : α → α → Bool) : List α → Option α
  | [] => none
  | first :: rest => some (rest.foldl (fun best item => if le best item then item else best) first)

theorem maxBy_eq_none {le : α → α → Bool} {items : List α} : maxBy le items = none ↔ items = [] := by
  cases items <;> simp [maxBy]

theorem maxBy_mem {le : α → α → Bool} {items : List α} {best : α} (picked : maxBy le items = some best) :
    best ∈ items := by
  cases items with
  | nil => cases picked
  | cons first rest =>
    cases picked
    induction rest generalizing first with
    | nil => exact List.mem_cons_self
    | cons item rest ih =>
      rw [List.foldl_cons]
      split
      · exact List.mem_cons_of_mem _ (ih item)
      · rcases List.mem_cons.mp (ih first) with same | later
        · rw [same]
          exact List.mem_cons_self
        · exact List.mem_cons_of_mem _ (List.mem_cons_of_mem _ later)

theorem foldl_best {le : α → α → Bool} (total : ∀ a b, le a b = true ∨ le b a = true)
    (transitive : ∀ a b c, le a b = true → le b c = true → le a c = true) (items : List α) (first : α) :
    let best := items.foldl (fun best item => if le best item then item else best) first
    (best = first ∨ best ∈ items) ∧ le first best = true ∧ ∀ item ∈ items, le item best = true := by
  induction items generalizing first with
  | nil =>
    refine ⟨.inl rfl, ?_, by simp⟩
    rcases total first first with self | self <;> exact self
  | cons item items ih =>
    rw [List.foldl_cons]
    by_cases better : le first item = true
    · obtain ⟨member, above, all⟩ := ih item
      rw [if_pos better]
      refine ⟨?_, transitive _ _ _ better above, ?_⟩
      · rcases member with same | later
        · exact .inr (by simp [same])
        · exact .inr (List.mem_cons_of_mem _ later)
      · intro other listed
        rcases List.mem_cons.mp listed with rfl | later
        · exact above
        · exact all other later
    · obtain ⟨member, above, all⟩ := ih first
      rw [if_neg better]
      refine ⟨?_, above, ?_⟩
      · rcases member with same | later
        · exact .inl same
        · exact .inr (List.mem_cons_of_mem _ later)
      · intro other listed
        rcases List.mem_cons.mp listed with rfl | later
        · exact transitive _ _ _ ((total first other).resolve_left better) above
        · exact all other later

theorem maxBy_some {le : α → α → Bool} (total : ∀ a b, le a b = true ∨ le b a = true)
    (transitive : ∀ a b c, le a b = true → le b c = true → le a c = true) {items : List α} {best : α}
    (picked : maxBy le items = some best) : best ∈ items ∧ ∀ item ∈ items, le item best = true := by
  cases items with
  | nil => cases picked
  | cons first rest =>
    obtain ⟨member, above, all⟩ := foldl_best total transitive rest first
    cases picked
    refine ⟨List.mem_cons.mpr member, ?_⟩
    intro item listed
    rcases List.mem_cons.mp listed with rfl | later
    · exact above
    · exact all item later

end Library
