import Mathlib.Tactic.Common
import Mathlib.Algebra.Order.Group.Nat

namespace Library

def digitValue (c : Char) : Option Nat :=
  if '0' ≤ c ∧ c ≤ '9' then some (c.toNat - '0'.toNat)
  else if 'a' ≤ c ∧ c ≤ 'f' then some (c.toNat - 'a'.toNat + 10)
  else if 'A' ≤ c ∧ c ≤ 'F' then some (c.toNat - 'A'.toNat + 10)
  else none

theorem digitValue_digitChar {digit : Nat} (small : digit < 16) :
    digitValue (Nat.digitChar digit) = some digit := by
  revert digit
  decide

def writeDigits (base : Nat) : Nat → Nat → List Char
  | 0, _ => []
  | width + 1, number => writeDigits base width (number / base) ++ [Nat.digitChar (number % base)]

theorem length_writeDigits (base width number : Nat) : (writeDigits base width number).length = width := by
  induction width generalizing number with
  | zero => rfl
  | succ width ih => rw [writeDigits, List.length_append, ih, List.length_singleton]

theorem writeDigits_eq_map (base width number : Nat) :
    writeDigits base width number =
      (List.range width).map fun place => Nat.digitChar (number / base ^ (width - 1 - place) % base) := by
  induction width generalizing number with
  | zero => rfl
  | succ width ih =>
    rw [writeDigits, ih, List.range_succ, List.map_append, List.map_singleton]
    congr 1
    · refine List.map_congr_left fun place member => ?_
      rw [List.mem_range] at member
      rw [Nat.div_div_eq_div_mul, ← Nat.pow_succ']
      congr 4
      omega
    · simp

def readDigit (base value : Nat) (c : Char) : Option Nat :=
  match digitValue c with
  | some digit => if digit < base then some (value * base + digit) else none
  | none => none

def readDigits (base : Nat) (digits : List Char) : Option Nat := digits.foldlM (readDigit base) 0

theorem readDigits_writeDigits {base width number : Nat} (positive : 0 < base) (known : base ≤ 16)
    (fits : number < base ^ width) : readDigits base (writeDigits base width number) = some number := by
  induction width generalizing number with
  | zero =>
    rw [Nat.pow_zero, Nat.lt_one_iff] at fits
    rw [fits]
    rfl
  | succ width ih =>
    have last : number % base < base := Nat.mod_lt _ positive
    have front : number / base < base ^ width := by
      rw [Nat.div_lt_iff_lt_mul positive, ← Nat.pow_succ]
      exact fits
    have earlier := ih front
    rw [readDigits] at earlier
    rw [readDigits, writeDigits, List.foldlM_append, earlier]
    simp only [Option.bind_eq_bind, Option.bind_some, List.foldlM_cons, List.foldlM_nil, readDigit,
      digitValue_digitChar (last.trans_le known), if_pos last, Nat.div_add_mod']
    rfl

def isDecimal (c : Char) : Bool := '0' ≤ c && c ≤ '9'

theorem isDecimal_writeDigits {width number : Nat} : ∀ c ∈ writeDigits 10 width number, isDecimal c = true := by
  have each : ∀ digit < 10, isDecimal (Nat.digitChar digit) = true := by decide
  induction width generalizing number with
  | zero => exact fun c member => nomatch member
  | succ width ih =>
    intro c member
    rcases List.mem_append.mp member with front | last
    · exact ih c front
    · rw [List.mem_singleton.mp last]
      exact each _ (Nat.mod_lt _ (by omega))

/-- Reads the decimal digits the text starts with, `most` of them at most. -/
def scanDigits (most : Nat) (text : List Char) : List Char × List Char :=
  let digits := (text.take most).takeWhile isDecimal
  (digits, text.drop digits.length)

theorem scanDigits_append {most : Nat} {digits rest : List Char} (decimal : ∀ c ∈ digits, isDecimal c = true)
    (room : digits.length ≤ most) (ends : digits.length = most ∨ ∀ c ∈ rest.head?, isDecimal c = false) :
    scanDigits most (digits ++ rest) = (digits, rest) := by
  have taken : ((digits ++ rest).take most).takeWhile isDecimal = digits := by
    rw [List.take_append, List.take_of_length_le room, List.takeWhile_append_of_pos decimal]
    rcases ends with full | stops
    · rw [full, Nat.sub_self, List.take_zero, List.takeWhile_nil, List.append_nil]
    · cases rest with
      | nil => simp
      | cons c rest =>
        have stop := stops c rfl
        cases left : most - digits.length with
        | zero => simp
        | succ more => simp [stop]
  rw [scanDigits, taken]
  simp

end Library
