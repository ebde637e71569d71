import Mathlib.Data.Int.CardIntervalMod
import Mathlib.Data.Nat.Count
import Mathlib.SetTheory.Cardinal.Finite
import Mathlib.Tactic.Common

namespace Library

open scoped Count

/-- `x ^ (x >> shift)` loses nothing: from the top bit down, each bit of `x` can be read off. -/
theorem xorShift_injective {width shift : Nat} (positive : 0 < shift) :
    Function.Injective fun x : BitVec width => x ^^^ (x >>> shift) := by
  intro x y same
  -- the top bits first: bit `i` of the result mixes in only bit `shift + i`
  have agree : ∀ top i, width ≤ i + top → x.getLsbD i = y.getLsbD i := by
    intro top
    induction top with
    | zero =>
      intro i outside
      rw [BitVec.getLsbD_of_ge x i outside, BitVec.getLsbD_of_ge y i outside]
    | succ top ih =>
      intro i inside
      have bit := congrArg (BitVec.getLsbD · i) same
      simp only [BitVec.getLsbD_xor, BitVec.getLsbD_ushiftRight] at bit
      rw [ih (shift + i) (by omega)] at bit
      exact Bool.xor_left_inj.mp bit
  exact BitVec.eq_of_getLsbD_eq fun i _ => agree width i (by omega)

theorem mul_injective_of_inverse {width : Nat} {factor inverse : BitVec width}
    (unit : factor * inverse = BitVec.ofNat width 1) : Function.Injective fun x : BitVec width => x * factor := by
  apply Function.LeftInverse.injective (g := fun y => y * inverse)
  intro x
  simp only [BitVec.mul_assoc, unit, BitVec.mul_one]

theorem card_residue {α : Type} {n modulus : Nat} (value : α ≃ Fin n) (positive : 0 < modulus)
    {residue : Nat} (small : residue < modulus) :
    Nat.card {a : α // (value a).val % modulus = residue} =
      n / modulus + if residue < n % modulus then 1 else 0 := by
  have counted := Nat.count_modEq_card n positive residue
  rw [Nat.mod_eq_of_lt small, Nat.count_eq_card_fintype, ← Nat.card_eq_fintype_card] at counted
  rw [← counted]
  refine Nat.card_congr
    { toFun := fun a => ⟨(value a.1).val, (value a.1).isLt, ?_⟩
      invFun := fun k => ⟨value.symm ⟨k.1, k.2.1⟩, ?_⟩
      left_inv := fun a => ?_
      right_inv := fun k => ?_ }
  · rw [Nat.ModEq, a.2, Nat.mod_eq_of_lt small]
  · have congruent := k.2.2
    rw [Nat.ModEq, Nat.mod_eq_of_lt small] at congruent
    simpa using congruent
  · simp
  · simp

end Library
