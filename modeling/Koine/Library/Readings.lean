import Mathlib.Data.List.TakeWhile
import Mathlib.Tactic.Common

namespace Library

/-! Loops that read one piece of a text after the other, and the texts that they read. -/

section Readings

variable {χ τ ε : Type}

def readAll (turn : List χ → Except ε (Option (τ × List χ))) : Nat → List χ → Except ε (List τ × List χ)
  | 0, input => .ok ([], input)
  | fuel + 1, input =>
    match turn input with
    | .error error => .error error
    | .ok none => .ok ([], input)
    | .ok (some (token, rest)) => (readAll turn fuel rest).map fun (tokens, left) => (token :: tokens, left)

variable {π : Type} (text : π → List χ) (fits : π → List χ → Prop)

/-- Every piece fits the text that follows it; `left` follows the last one. -/
def Placed (left : List χ) : List π → Prop
  | [] => True
  | piece :: rest => fits piece (rest.flatMap text ++ left) ∧ Placed left rest

variable {text fits} {turn : List χ → Except ε (Option (τ × List χ))} {token : π → τ}

/-- A loop whose turns take the pieces of a grammar reads the texts of the grammar. -/
theorem readAll_ok
    (turns : ∀ input read rest, turn input = .ok (some (read, rest)) ↔
      ∃ piece, text piece ++ rest = input ∧ fits piece rest ∧ token piece = read)
    (proper : ∀ piece rest, fits piece rest → text piece ≠ []) {fuel : Nat} {input left : List χ} {tokens : List τ}
    (enough : input.length < fuel) :
    readAll turn fuel input = .ok (tokens, left) ↔
      turn left = .ok none ∧ ∃ pieces, pieces.flatMap text ++ left = input ∧ Placed text fits left pieces ∧
        pieces.map token = tokens := by
  induction fuel generalizing input tokens with
  | zero => exact absurd enough (Nat.not_lt_zero _)
  | succ fuel ih =>
    constructor
    · intro result
      rw [readAll] at result
      split at result
      · cases result
      · rename_i stops
        cases result
        exact ⟨stops, [], rfl, trivial, rfl⟩
      · rename_i read rest taken
        obtain ⟨piece, spelled, fitting, same⟩ := (turns input read rest).mp taken
        have shorter : rest.length < fuel := by
          have positive := List.length_pos_iff.mpr (proper piece rest fitting)
          have total := congrArg List.length spelled
          rw [List.length_append] at total
          omega
        cases later : readAll turn fuel rest with
        | error error =>
          rw [later] at result
          cases result
        | ok outcome =>
          rw [later] at result
          cases result
          obtain ⟨stops, pieces, whole, placed, tokens⟩ := (ih shorter).mp later
          refine ⟨stops, piece :: pieces, ?_, ⟨whole ▸ fitting, placed⟩, ?_⟩
          · rw [List.flatMap_cons, List.append_assoc, whole, spelled]
          · rw [List.map_cons, same, tokens]
    · rintro ⟨stops, pieces, rfl, placed, rfl⟩
      cases pieces with
      | nil =>
        have here : turn (([] : List π).flatMap text ++ left) = .ok none := stops
        rw [readAll, here]
        rfl
      | cons piece pieces =>
        obtain ⟨fitting, placed⟩ := placed
        have taken := (turns _ _ _).mpr ⟨piece, rfl, fitting, rfl⟩
        have shorter : (pieces.flatMap text ++ left).length < fuel := by
          have positive := List.length_pos_iff.mpr (proper piece _ fitting)
          rw [List.flatMap_cons, List.append_assoc, List.length_append] at enough
          omega
        have later := (ih shorter).mpr ⟨stops, pieces, rfl, placed, rfl⟩
        rw [List.flatMap_cons, List.append_assoc, readAll, taken]
        simp only [later, Except.map, List.map_cons]

theorem takeWhile_dropWhile {holds : χ → Bool} {input run rest : List χ} :
    (input.takeWhile holds = run ∧ input.dropWhile holds = rest) ↔
      run ++ rest = input ∧ (∀ c ∈ run, holds c = true) ∧ ∀ c, rest.head? = some c → holds c = false := by
  constructor
  · rintro ⟨rfl, rfl⟩
    refine ⟨List.takeWhile_append_dropWhile, fun c member => List.mem_takeWhile_imp member, fun c first => ?_⟩
    have stops := List.head?_dropWhile_not holds input
    rw [first] at stops
    simpa using stops
  · rintro ⟨rfl, inside, stops⟩
    have stops : rest.takeWhile holds = [] ∧ rest.dropWhile holds = rest := by
      cases rest with
      | nil => exact ⟨rfl, rfl⟩
      | cons c rest => simp [stops c rfl]
    rw [List.takeWhile_append_of_pos inside, List.dropWhile_append_of_pos inside, stops.1, stops.2,
      List.append_nil]
    exact ⟨rfl, rfl⟩

def cut [DecidableEq χ] (pattern : List χ) : List χ → Option (List χ × List χ)
  | [] => if pattern = [] then some ([], []) else none
  | c :: rest =>
    if pattern.isPrefixOf (c :: rest) then some ([], (c :: rest).drop pattern.length)
    else (cut pattern rest).map fun (before, after) => (c :: before, after)

/-- The pattern does not stand anywhere in the text, also not across its end. -/
def Avoids (pattern before : List χ) : Prop :=
  ∀ tail, tail <:+ before → tail ≠ [] → ¬ pattern <+: tail ++ pattern

theorem avoids_cons {pattern before : List χ} {c : χ} :
    Avoids pattern (c :: before) ↔ ¬ pattern <+: c :: before ++ pattern ∧ Avoids pattern before := by
  constructor
  · intro avoids
    exact ⟨avoids _ List.suffix_rfl (List.cons_ne_nil _ _), fun tail suffix =>
      avoids tail (suffix.trans (List.suffix_cons ..))⟩
  · rintro ⟨here, later⟩ tail suffix some
    rcases List.suffix_cons_iff.mp suffix with rfl | suffix
    · exact here
    · exact later tail suffix some

theorem avoids_nil (pattern : List χ) : Avoids pattern [] :=
  fun _ suffix some => absurd (List.suffix_nil.mp suffix) some

theorem avoids_singleton {before : List χ} {c : χ} : Avoids [c] before ↔ c ∉ before := by
  induction before with
  | nil => exact iff_of_true (avoids_nil _) List.not_mem_nil
  | cons first before ih => simp [avoids_cons, ih]

variable [DecidableEq χ]

theorem cut_eq_some {pattern input before after : List χ} (nonempty : pattern ≠ []) :
    cut pattern input = some (before, after) ↔ before ++ pattern ++ after = input ∧ Avoids pattern before := by
  induction input generalizing before with
  | nil => simp [cut, nonempty]
  | cons c rest ih =>
    rw [cut]
    split
    · rename_i here
      have found := List.isPrefixOf_iff_prefix.mp here
      constructor
      · intro result
        cases result
        exact ⟨List.prefix_iff_eq_append.mp found, avoids_nil pattern⟩
      · rintro ⟨spelled, avoids⟩
        cases before with
        | nil => rw [← spelled, List.nil_append, List.drop_left]
        | cons first before =>
          -- the pattern stands earlier than the text avoids it
          have whole : first :: before ++ pattern <+: c :: rest := spelled ▸ List.prefix_append _ _
          have early := List.prefix_of_prefix_length_le found whole (by simp only [List.length_append]; omega)
          exact absurd early (avoids_cons.mp avoids).1
    · rename_i missing
      have absent : ¬ pattern <+: c :: rest := fun found => missing (List.isPrefixOf_iff_prefix.mpr found)
      constructor
      · intro result
        obtain ⟨⟨front, back⟩, later, same⟩ := Option.map_eq_some_iff.mp result
        cases same
        obtain ⟨spelled, avoids⟩ := ih.mp later
        refine ⟨by rw [← spelled]; rfl, avoids_cons.mpr ⟨fun early => absent ?_, avoids⟩⟩
        rw [← spelled]
        exact early.trans (List.prefix_append (c :: front ++ pattern) after)
      · rintro ⟨spelled, avoids⟩
        cases before with
        | nil => exact absurd (spelled ▸ List.prefix_append pattern after) absent
        | cons first front =>
          cases spelled
          rw [ih.mpr ⟨rfl, (avoids_cons.mp avoids).2⟩]
          rfl

theorem cut_singleton_eq_none {c : χ} {input : List χ} : cut [c] input = none ↔ c ∉ input := by
  induction input with
  | nil => simp [cut]
  | cons first rest ih =>
    simp only [cut, List.isPrefixOf, List.length_singleton, Bool.and_true, beq_iff_eq, List.mem_cons, not_or]
    split
    · rename_i same
      exact iff_of_false (Option.some_ne_none _) fun avoids => avoids.1 same
    · rename_i other
      rw [Option.map_eq_none_iff, ih]
      exact ⟨fun absent => ⟨other, absent⟩, And.right⟩

end Readings

end Library
