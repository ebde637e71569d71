import Mathlib.Tactic.Common

namespace Library

/-! Texts as sequences of tokens. Whether a token can stand at a place depends on a state that the tokens
before it leave behind and on the first character after it. -/

section Tokens

variable {τ σ χ : Type} (text : τ → List χ) (after : σ → τ → σ) (fits : σ → τ → Option χ → Prop)

/-- Every token fits its place; `last` is the character after the whole sequence. -/
def Fits : σ → Option χ → List τ → Prop
  | _, _, [] => True
  | state, last, token :: rest =>
    fits state token ((rest.flatMap text).head?.or last) ∧ Fits (after state token) last rest

variable {text after fits}

theorem fits_append {state : σ} {last : Option χ} {front back : List τ} :
    Fits text after fits state last (front ++ back) ↔
      Fits text after fits state ((back.flatMap text).head?.or last) front ∧
        Fits text after fits (front.foldl after state) last back := by
  induction front generalizing state with
  | nil => simp [Fits]
  | cons token front ih =>
    simp only [List.cons_append, Fits, List.foldl_cons, ih, List.flatMap_append, List.head?_append,
      Option.or_assoc, and_assoc]

theorem Fits.exists_fits {state : σ} {last : Option χ} {tokens : List τ}
    (fitting : Fits text after fits state last tokens) {token : τ} (member : token ∈ tokens) :
    ∃ state next, fits state token next := by
  induction tokens generalizing state with
  | nil => cases member
  | cons first tokens ih =>
    rcases List.mem_cons.mp member with rfl | member
    · exact ⟨_, _, fitting.1⟩
    · exact ih fitting.2 member

/-- A machine over the characters does the same on other texts of the tokens, if it does on each of them from
    the states it can be in before the character that comes next. -/
theorem Fits.foldl_eq {S : Type} {step : S → χ → S} {text' : τ → List χ} {calm : Option χ → S → Prop} {state : σ}
    {last : Option χ} {tokens : List τ} {s : S} (fitting : Fits text after fits state last tokens)
    (one : ∀ token ∈ tokens, ∀ state next s, fits state token next → calm ((text token).head?.or next) s →
      (text' token).foldl step s = (text token).foldl step s ∧ calm next ((text token).foldl step s))
    (start : calm ((tokens.flatMap text).head?.or last) s) :
    (tokens.flatMap text').foldl step s = (tokens.flatMap text).foldl step s := by
  induction tokens generalizing state s with
  | nil => rfl
  | cons token tokens ih =>
    rw [List.forall_mem_cons] at one
    rw [List.flatMap_cons, List.head?_append, Option.or_assoc] at start
    obtain ⟨same, calm⟩ := one.1 _ _ _ fitting.1 start
    rw [List.flatMap_cons, List.flatMap_cons, List.foldl_append, List.foldl_append, same, ih fitting.2 one.2 calm]

theorem Fits.read {S R : Type} {read : List χ → S → R} {act : S → τ → S} {view : S → σ}
    (moves : ∀ s token, view (act s token) = after (view s) token)
    (one : ∀ s token rest, fits (view s) token rest.head? → read (text token ++ rest) s = read rest (act s token))
    {tokens : List τ} {s : S} {rest : List χ} (fitting : Fits text after fits (view s) rest.head? tokens) :
    read (tokens.flatMap text ++ rest) s = read rest (tokens.foldl act s) := by
  induction tokens generalizing s with
  | nil => rfl
  | cons token tokens ih =>
    obtain ⟨here, later⟩ := fitting
    rw [← List.head?_append] at here
    rw [← moves] at later
    rw [List.flatMap_cons, List.append_assoc, one s token _ here, ih later, List.foldl_cons]

variable (after) in
def tokenize (stop : χ → Bool) (one : σ → List χ → τ × List χ) : Nat → σ → List χ → List τ × List χ
  | 0, _, input => ([], input)
  | _ + 1, _, [] => ([], [])
  | fuel + 1, state, c :: input =>
    if stop c then ([], c :: input)
    else
      let (token, rest) := one state (c :: input)
      let (tokens, left) := tokenize stop one fuel (after state token) rest
      (token :: tokens, left)

/-- A lexer that takes a fitting token off every text takes a fitting sequence off it. -/
theorem tokenize_spec {stop : χ → Bool} {one : σ → List χ → τ × List χ}
    (taken : ∀ state c input, stop c = false →
      text (one state (c :: input)).1 ++ (one state (c :: input)).2 = c :: input ∧
        text (one state (c :: input)).1 ≠ [] ∧
        fits state (one state (c :: input)).1 (one state (c :: input)).2.head?)
    {fuel : Nat} {state : σ} {input : List χ} (enough : input.length ≤ fuel) {tokens : List τ} {left : List χ}
    (result : tokenize after stop one fuel state input = (tokens, left)) :
    tokens.flatMap text ++ left = input ∧ Fits text after fits state left.head? tokens ∧
      (∀ c, left.head? = some c → stop c = true) := by
  induction fuel generalizing state input tokens left with
  | zero =>
    cases result
    rw [List.length_eq_zero_iff.mp (Nat.le_zero.mp enough)]
    simp [Fits]
  | succ fuel ih =>
    cases input with
    | nil =>
      cases result
      simp [Fits]
    | cons c input =>
      simp only [tokenize] at result
      split at result
      · rename_i stops
        cases result
        simp [Fits, stops]
      · rename_i goes
        obtain ⟨spelled, some, fitting⟩ := taken state c input (by simpa using goes)
        generalize one state (c :: input) = step at result spelled some fitting
        obtain ⟨token, rest⟩ := step
        simp only at spelled some fitting
        rcases later : tokenize after stop one fuel (after state token) rest with ⟨tokens', left'⟩
        simp only [later] at result
        cases result
        have shorter : rest.length ≤ fuel := by
          have total := congrArg List.length spelled
          have positive := List.length_pos_iff.mpr some
          simp only [List.length_append, List.length_cons] at total enough
          omega
        obtain ⟨text', fits', stopped⟩ := ih shorter later
        refine ⟨?_, ⟨?_, fits'⟩, stopped⟩
        · rw [List.flatMap_cons, List.append_assoc, text', spelled]
        · rw [← List.head?_append, text']
          exact fitting

end Tokens

end Library
