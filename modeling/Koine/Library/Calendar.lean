import Mathlib.Data.Nat.Log
import Koine.Library.Digits

namespace Library

structure Civil where
  year : Int
  month : Nat
  day : Nat
deriving DecidableEq

namespace Civil

/-- The year of a 400-year cycle and the day in it. Years begin in March, so that a leap day is the last of
    its year, of its four years and of its 400. -/
def yearOf (inCycle : Nat) : Nat × Nat :=
  let century := min (inCycle / 36524) 3
  let inCentury := inCycle - 36524 * century
  let inFour := inCentury % 1461
  let single := min (inFour / 365) 3
  (100 * century + 4 * (inCentury / 1461) + single, inFour - 365 * single)

def cycleDay (year inYear : Nat) : Nat := 365 * year + year / 4 - year / 100 + inYear

theorem cycleDay_parts {century four single : Nat} (centuries : century ≤ 3) (fours : four ≤ 24)
    (singles : single ≤ 3) (inYear : Nat) : cycleDay (100 * century + 4 * four + single) inYear =
      36524 * century + 1461 * four + 365 * single + inYear := by
  have leaps : (100 * century + 4 * four + single) / 4 = 25 * century + four := by omega
  have skipped : (100 * century + 4 * four + single) / 100 = century := by omega
  rw [cycleDay, leaps, skipped]
  omega

theorem cycleDay_yearOf {inCycle : Nat} (bound : inCycle < 146097) :
    cycleDay (yearOf inCycle).1 (yearOf inCycle).2 = inCycle := by
  rw [yearOf, cycleDay_parts (by omega) (by omega) (by omega)]
  omega

theorem yearOf_bounds {inCycle : Nat} (bound : inCycle < 146097) :
    (yearOf inCycle).1 < 400 ∧ (yearOf inCycle).2 ≤ 365 := by
  simp only [yearOf]
  omega

def monthOf (inYear : Nat) : Nat × Nat :=
  let part := (5 * inYear + 2) / 153
  (if part < 10 then part + 3 else part - 9, inYear - (153 * part + 2) / 5 + 1)

def yearDay (month day : Nat) : Nat :=
  (153 * (if month ≤ 2 then month + 9 else month - 3) + 2) / 5 + day - 1

theorem yearDay_monthOf {inYear : Nat} (bound : inYear ≤ 365) :
    yearDay (monthOf inYear).1 (monthOf inYear).2 = inYear := by
  simp only [monthOf, yearDay]
  split
  · rw [if_neg (by omega)]
    omega
  · rw [if_pos (by omega)]
    omega

theorem monthOf_bounds {inYear : Nat} (bound : inYear ≤ 365) :
    (1 ≤ (monthOf inYear).1 ∧ (monthOf inYear).1 ≤ 12) ∧ 1 ≤ (monthOf inYear).2 ∧ (monthOf inYear).2 ≤ 31 := by
  simp only [monthOf]
  split <;> omega

def ofDays (days : Int) : Civil :=
  let cycles := (days + 719468) / 146097
  let year := yearOf ((days + 719468) % 146097).toNat
  let month := monthOf year.2
  ⟨400 * cycles + year.1 + (if month.1 ≤ 2 then 1 else 0), month.1, month.2⟩

def days (date : Civil) : Int :=
  let year := date.year - if date.month ≤ 2 then 1 else 0
  146097 * (year / 400) + cycleDay (year % 400).toNat (yearDay date.month date.day) - 719468

theorem inCycle_bound (days : Int) : ((days + 719468) % 146097).toNat < 146097 := by
  omega

theorem ofDays_bounds (days : Int) : (1 ≤ (ofDays days).month ∧ (ofDays days).month ≤ 12) ∧
    1 ≤ (ofDays days).day ∧ (ofDays days).day ≤ 31 := by
  exact monthOf_bounds (yearOf_bounds (inCycle_bound days)).2

theorem days_of_parts {cycles : Int} {year inYear : Nat} (inCycle : year < 400) (bound : inYear ≤ 365) :
    (⟨400 * cycles + year + (if (monthOf inYear).1 ≤ 2 then 1 else 0), (monthOf inYear).1, (monthOf inYear).2⟩ :
      Civil).days = 146097 * cycles + cycleDay year inYear - 719468 := by
  have whole : (400 * cycles + (year : Int)) / 400 = cycles := by omega
  have rest : ((400 * cycles + (year : Int)) % 400).toNat = year := by omega
  simp only [days, Int.add_sub_cancel, whole, rest, yearDay_monthOf bound]

theorem days_ofDays (days : Int) : (ofDays days).days = days := by
  obtain ⟨year, inYear⟩ := yearOf_bounds (inCycle_bound days)
  rw [ofDays, days_of_parts year inYear, cycleDay_yearOf (inCycle_bound days)]
  omega

end Civil

/-- Years outside of 0 to 9999 carry a sign. -/
def writeYear (year : Int) : List Char :=
  if 0 ≤ year ∧ year ≤ 9999 then writeDigits 10 4 year.toNat
  else
    (if year < 0 then '-' else '+') :: writeDigits 10 (max 4 (Nat.log 10 year.natAbs + 1)) year.natAbs

def writeFraction (nanos : Nat) : List Char :=
  if nanos = 0 then []
  else if nanos % 1000000 = 0 then '.' :: writeDigits 10 3 (nanos / 1000000)
  else if nanos % 1000 = 0 then '.' :: writeDigits 10 6 (nanos / 1000)
  else '.' :: writeDigits 10 9 nanos

def writeDate (date : Civil) : List Char :=
  writeYear date.year ++ '-' :: writeDigits 10 2 date.month ++ '-' :: writeDigits 10 2 date.day

def writeTime (second : Nat) : List Char :=
  writeDigits 10 2 (second / 3600) ++ ':' :: writeDigits 10 2 (second / 60 % 60) ++
    ':' :: writeDigits 10 2 (second % 60)

/-- The form RFC 3339 gives to an instant, counted in nanoseconds from 1970-01-01T00:00:00Z. -/
def writeInstant (nanos : Int) : List Char :=
  let seconds := nanos / 1000000000
  writeDate (Civil.ofDays (seconds / 86400)) ++ 'T' :: writeTime (seconds % 86400).toNat ++
    writeFraction (nanos % 1000000000).toNat ++ ['Z']

def expect (c : Char) : List Char → Option (List Char)
  | [] => none
  | first :: rest => if first = c then some rest else none

def readField (most : Nat) (text : List Char) : Option (Nat × List Char) :=
  let (digits, rest) := scanDigits most text
  if digits = [] then none else (readDigits 10 digits).map (·, rest)

def readYear : List Char → Option (Int × List Char)
  | '-' :: text => (readField text.length text).map fun field => (-(field.1 : Int), field.2)
  | '+' :: text => (readField text.length text).map fun field => ((field.1 : Int), field.2)
  | text => (readField 4 text).map fun field => ((field.1 : Int), field.2)

def readFraction : List Char → Option (Nat × List Char)
  | '.' :: text =>
    let (digits, rest) := scanDigits 9 text
    if digits = [] then none else (readDigits 10 digits).map fun value => (value * 10 ^ (9 - digits.length), rest)
  | text => some (0, text)

def readDate (text : List Char) : Option (Civil × List Char) := do
  let (year, text) ← readYear text
  let (month, text) ← readField 2 (← expect '-' text)
  let (day, text) ← readField 2 (← expect '-' text)
  let date : Civil := ⟨year, month, day⟩
  if Civil.ofDays date.days = date then some (date, text) else none

def readTime (text : List Char) : Option (Nat × List Char) := do
  let (hour, text) ← readField 2 text
  let (minute, text) ← readField 2 (← expect ':' text)
  let (second, text) ← readField 2 (← expect ':' text)
  if hour < 24 ∧ minute < 60 ∧ second < 60 then some (hour * 3600 + minute * 60 + second, text) else none

def readInstant (text : List Char) : Option Int := do
  let (date, text) ← readDate text
  let (second, text) ← readTime (← expect 'T' text)
  let (nanos, text) ← readFraction text
  let text ← expect 'Z' text
  if text = [] then some ((date.days * 86400 + second) * 1000000000 + nanos) else none

theorem writeDigits_ne_nil {base width : Nat} (digits : 0 < width) (number : Nat) :
    writeDigits base width number ≠ [] := by
  rw [← List.length_pos_iff, length_writeDigits]
  exact digits

theorem scanDigits_write {most width number : Nat} {rest : List Char} (room : width ≤ most)
    (ends : width = most ∨ ∀ c ∈ rest.head?, isDecimal c = false) :
    scanDigits most (writeDigits 10 width number ++ rest) = (writeDigits 10 width number, rest) := by
  have length := length_writeDigits 10 width number
  exact scanDigits_append isDecimal_writeDigits (by rw [length]; exact room) (by rw [length]; exact ends)

theorem readField_write (most : Nat) {width number : Nat} {rest : List Char} (digits : 0 < width)
    (fits : number < 10 ^ width) (room : width ≤ most)
    (ends : width = most ∨ ∀ c ∈ rest.head?, isDecimal c = false) :
    readField most (writeDigits 10 width number ++ rest) = some (number, rest) := by
  rw [readField, scanDigits_write room ends]
  simp only [writeDigits_ne_nil digits, if_false, Option.map_some,
    readDigits_writeDigits (by omega : 0 < 10) (by omega) fits]

theorem readYear_unsigned {text : List Char} (digit : ∀ c ∈ text.head?, isDecimal c = true) :
    readYear text = (readField 4 text).map fun field => ((field.1 : Int), field.2) := by
  unfold readYear
  split
  · cases digit '-' rfl
  · cases digit '+' rfl
  · rfl

theorem readYear_write (year : Int) (rest : List Char) :
    readYear (writeYear year ++ '-' :: rest) = some (year, '-' :: rest) := by
  have stops : ∀ c ∈ ('-' :: rest).head?, isDecimal c = false := by
    rintro c ⟨⟩
    rfl
  unfold writeYear
  split
  · rename_i plain
    have digit : ∀ c ∈ (writeDigits 10 4 year.toNat ++ '-' :: rest).head?, isDecimal c = true := by
      intro c first
      rw [List.head?_append, Option.mem_def, Option.or_eq_some_iff] at first
      rcases first with here | ⟨none, _⟩
      · exact isDecimal_writeDigits c (List.mem_of_mem_head? here)
      · exact absurd (List.head?_eq_none_iff.mp none) (writeDigits_ne_nil (by omega) _)
    rw [readYear_unsigned digit, readField_write 4 (by omega) (by omega) le_rfl (.inl rfl), Option.map_some,
      Int.toNat_of_nonneg plain.1]
  · have fits : year.natAbs < 10 ^ max 4 (Nat.log 10 year.natAbs + 1) :=
      (Nat.lt_pow_succ_log_self (by omega) _).trans_le (Nat.pow_le_pow_right (by omega) (le_max_right _ _))
    have read := readField_write
      (writeDigits 10 (max 4 (Nat.log 10 year.natAbs + 1)) year.natAbs ++ '-' :: rest).length (by omega) fits
      (by simp [length_writeDigits]) (.inr stops)
    split
    · rename_i negative
      rw [List.cons_append, readYear, read, Option.map_some]
      simp only [Option.some.injEq, Prod.mk.injEq, and_true]
      omega
    · rename_i positive
      rw [List.cons_append, readYear, read, Option.map_some]
      simp only [Option.some.injEq, Prod.mk.injEq, and_true]
      omega

theorem readFraction_digits {width value : Nat} {rest : List Char} (digits : 0 < width) (room : width ≤ 9)
    (fits : value < 10 ^ width) (stops : ∀ c ∈ rest.head?, isDecimal c = false) :
    readFraction ('.' :: writeDigits 10 width value ++ rest) = some (value * 10 ^ (9 - width), rest) := by
  rw [List.cons_append, readFraction, scanDigits_write room (.inr stops)]
  simp only [writeDigits_ne_nil digits, if_false, Option.map_some, length_writeDigits,
    readDigits_writeDigits (by omega : 0 < 10) (by omega) fits]

theorem readFraction_write {nanos : Nat} (bound : nanos < 1000000000) (rest : List Char) :
    readFraction (writeFraction nanos ++ 'Z' :: rest) = some (nanos, 'Z' :: rest) := by
  have stops : ∀ c ∈ ('Z' :: rest).head?, isDecimal c = false := by
    rintro c ⟨⟩
    rfl
  unfold writeFraction
  split
  · rename_i none
    rw [none]
    rfl
  · split
    · rw [readFraction_digits (by omega) (by omega) (by omega) stops]
      congr 2
      omega
    · split
      · rw [readFraction_digits (by omega) (by omega) (by omega) stops]
        congr 2
        omega
      · rw [readFraction_digits (by omega) (by omega) (by omega) stops]
        congr 2
        omega

theorem expect_cons (c : Char) (rest : List Char) : expect c (c :: rest) = some rest := if_pos rfl

theorem readField_two {number : Nat} (fits : number < 100) (rest : List Char) :
    readField 2 (writeDigits 10 2 number ++ rest) = some (number, rest) :=
  readField_write 2 (by omega) fits le_rfl (.inl rfl)

theorem readDate_write (days : Int) (rest : List Char) :
    readDate (writeDate (Civil.ofDays days) ++ rest) = some (Civil.ofDays days, rest) := by
  obtain ⟨⟨_, month⟩, _, day⟩ := Civil.ofDays_bounds days
  have readMonth := readField_two (show (Civil.ofDays days).month < 100 by omega)
  have readDay := readField_two (show (Civil.ofDays days).day < 100 by omega)
  rw [readDate, writeDate]
  simp only [List.append_assoc, List.cons_append, readYear_write, Option.bind_eq_bind, Option.bind_some,
    expect_cons, readMonth, readDay]
  exact if_pos (congrArg Civil.ofDays (Civil.days_ofDays days))

theorem readTime_write {second : Nat} (bound : second < 86400) (rest : List Char) :
    readTime (writeTime second ++ rest) = some (second, rest) := by
  have hour : second / 3600 < 24 := by omega
  have minute : second / 60 % 60 < 60 := by omega
  have last : second % 60 < 60 := by omega
  rw [readTime, writeTime]
  simp only [List.append_assoc, List.cons_append, Option.bind_eq_bind, Option.bind_some, expect_cons,
    readField_two (hour.trans (by omega)), readField_two (minute.trans (by omega)),
    readField_two (last.trans (by omega))]
  rw [if_pos ⟨hour, minute, last⟩]
  congr 2
  omega

theorem readInstant_write (nanos : Int) : readInstant (writeInstant nanos) = some nanos := by
  have second : (nanos / 1000000000 % 86400).toNat < 86400 := by omega
  have fraction : (nanos % 1000000000).toNat < 1000000000 := by omega
  rw [readInstant, writeInstant]
  simp only [List.append_assoc, List.cons_append, Option.bind_eq_bind, Option.bind_some, expect_cons,
    readDate_write, readTime_write second, readFraction_write fraction, Civil.days_ofDays, if_true]
  congr 1
  omega

end Library
