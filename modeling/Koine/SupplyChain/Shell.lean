import Mathlib.Tactic.Common

namespace Koine.SupplyChain

/-- A string of the script; a character outside the BMP is one `Char` and never a case of its own. -/
abbrev Text := List Char

abbrev Word := Text

/-- The variables of `parseShellCommands`. -/
structure Scanner where
  commands : List (List Word)
  subs : List (List Word)
  current : List Word
  word : Word
  hasWord : Bool
deriving DecidableEq

namespace Scanner

def start : Scanner := ⟨[], [], [], [], false⟩

def endWord (s : Scanner) : Scanner :=
  if s.hasWord then { s with current := s.current ++ [s.word], word := [], hasWord := false } else s

def endCommand (s : Scanner) : Scanner :=
  let s := s.endWord
  if s.current ≠ [] then { s with commands := s.commands ++ [s.current], current := [] } else s

/-- `word += text` inside quotes, where `hasWord` is set already. -/
def add (s : Scanner) (text : Text) : Scanner := { s with word := s.word ++ text }

/-- `hasWord = true`. -/
def opened (s : Scanner) : Scanner := { s with hasWord := true }

/-- `subs.push(...commands)`. -/
def nested (s : Scanner) (commands : List (List Word)) : Scanner := { s with subs := s.subs ++ commands }

def result (s : Scanner) : List (List Word) := s.endCommand.commands ++ s.endCommand.subs

end Scanner

/-- `readParen` up to its recursive parse: the inner text and what follows the region. -/
def readParen (depth : Nat) : Text → Text × Text
  | [] => ([], [])
  | '\\' :: next :: rest =>
    let (inner, after) := readParen depth rest
    ('\\' :: next :: inner, after)
  | '(' :: rest =>
    let (inner, after) := readParen (depth + 1) rest
    ('(' :: inner, after)
  | ')' :: rest =>
    if depth = 1 then ([], rest)
    else
      let (inner, after) := readParen (depth - 1) rest
      (')' :: inner, after)
  | char :: rest =>
    let (inner, after) := readParen depth rest
    (char :: inner, after)

/-- `readBacktick` up to its recursive parse. -/
def readBacktick : Text → Text × Text
  | [] => ([], [])
  | '\\' :: next :: rest =>
    let (inner, after) := readBacktick rest
    (next :: inner, after)
  | '\x60' :: rest => ([], rest)
  | char :: rest =>
    let (inner, after) := readBacktick rest
    (char :: inner, after)

/-- The loop of `parseShellCommands` that the index is in. -/
inductive Loop where
  | main
  | single
  | double
  | comment

/-- The loops of `parseShellCommands`. Every turn takes a character off the text, and the inner text of a
    substitution is shorter than the text it stands in, so the length of the text is fuel enough. -/
@[simp]
def scan : Nat → Loop → Text → Scanner → Scanner
  | 0, _, _, s => s
  | _ + 1, _, [], s => s
  | fuel + 1, .single, '\'' :: rest, s => scan fuel .main rest s
  | fuel + 1, .single, char :: rest, s => scan fuel .single rest (s.add [char])
  | fuel + 1, .double, '"' :: rest, s => scan fuel .main rest s
  | fuel + 1, .double, '\\' :: next :: rest, s => scan fuel .double rest (s.add [next])
  | fuel + 1, .double, '$' :: '(' :: rest, s =>
    let (inner, after) := readParen 1 rest
    scan fuel .double after (s.nested (scan fuel .main inner .start).result)
  | fuel + 1, .double, '\x60' :: rest, s =>
    let (inner, after) := readBacktick rest
    scan fuel .double after (s.nested (scan fuel .main inner .start).result)
  | fuel + 1, .double, inner :: rest, s => scan fuel .double rest (s.add [inner])
  | fuel + 1, .comment, '\n' :: rest, s => scan fuel .main rest s.endCommand
  | fuel + 1, .comment, _ :: rest, s => scan fuel .comment rest s
  | fuel + 1, .main, ' ' :: rest, s | fuel + 1, .main, '\t' :: rest, s => scan fuel .main rest s.endWord
  | fuel + 1, .main, '\n' :: rest, s | fuel + 1, .main, '\r' :: rest, s => scan fuel .main rest s.endCommand
  | fuel + 1, .main, '\\' :: '\n' :: rest, s => scan fuel .main rest s
  | fuel + 1, .main, '\\' :: '\r' :: '\n' :: rest, s => scan fuel .main rest s
  | fuel + 1, .main, '\\' :: next :: rest, s => scan fuel .main rest (s.add [next]).opened
  | fuel + 1, .main, '\'' :: rest, s => scan fuel .single rest s.opened
  | fuel + 1, .main, '"' :: rest, s => scan fuel .double rest s.opened
  | fuel + 1, .main, '$' :: '(' :: rest, s =>
    let (inner, after) := readParen 1 rest
    scan fuel .main after (s.opened.nested (scan fuel .main inner .start).result)
  | fuel + 1, .main, '\x60' :: rest, s =>
    let (inner, after) := readBacktick rest
    scan fuel .main after (s.opened.nested (scan fuel .main inner .start).result)
  | fuel + 1, .main, '#' :: rest, s =>
    if s.hasWord then scan fuel .main rest (s.add ['#']).opened else scan fuel .comment rest s
  | fuel + 1, .main, ';' :: rest, s | fuel + 1, .main, '&' :: rest, s | fuel + 1, .main, '|' :: rest, s
  | fuel + 1, .main, '(' :: rest, s | fuel + 1, .main, ')' :: rest, s => scan fuel .main rest s.endCommand
  | fuel + 1, .main, char :: rest, s => scan fuel .main rest (s.add [char]).opened

def parseShellCommands (source : Text) : List (List Word) := (scan source.length .main source .start).result

theorem readParen_length {depth : Nat} {text inner after : Text} (region : readParen depth text = (inner, after)) :
    inner.length ≤ text.length ∧ after.length ≤ text.length := by
  fun_induction readParen depth text generalizing inner after <;> grind

theorem readBacktick_length {text inner after : Text} (region : readBacktick text = (inner, after)) :
    inner.length ≤ text.length ∧ after.length ≤ text.length := by
  fun_induction readBacktick text generalizing inner after <;> grind

@[simp]
theorem scan_nil (fuel : Nat) (loop : Loop) (s : Scanner) : scan fuel loop [] s = s := by
  cases fuel <;> cases loop <;> rfl

theorem scan_succ {fuel : Nat} {loop : Loop} {text : Text} {s : Scanner} (enough : text.length ≤ fuel) :
    scan (fuel + 1) loop text s = scan fuel loop text s := by
  fun_induction scan fuel loop text s
  case case1 => rw [List.length_eq_zero_iff.mp (Nat.le_zero.mp enough), scan_nil]
  case case2 => rw [scan_nil]
  case case7 fuel rest s inner after region nestedIh ih | case21 fuel rest s inner after region nestedIh ih =>
    have bounds := readParen_length region
    simp only [List.length_cons, Nat.succ_eq_add_one] at enough
    rw [scan, region]
    simp only
    rw [nestedIh (by omega), ih (by omega)]
  case case8 fuel rest s inner after region nestedIh ih | case22 fuel rest s inner after region nestedIh ih =>
    have bounds := readBacktick_length region
    simp only [List.length_cons, Nat.succ_eq_add_one] at enough
    rw [scan, region]
    simp only
    rw [nestedIh (by omega), ih (by omega)]
  all_goals
    simp only [List.length_cons, Nat.succ_eq_add_one] at enough
    rename_i ih
    rw [← ih (by omega)]
    simp [*]

def read (loop : Loop) (text : Text) (s : Scanner) : Scanner := scan text.length loop text s

theorem scan_eq_read {fuel : Nat} {loop : Loop} {text : Text} {s : Scanner} (enough : text.length ≤ fuel) :
    scan fuel loop text s = read loop text s := by
  obtain ⟨extra, rfl⟩ := Nat.exists_eq_add_of_le enough
  clear enough
  induction extra with
  | zero => rfl
  | succ extra ih => rw [← Nat.add_assoc, scan_succ (Nat.le_add_right _ _), ih]

theorem parseShellCommands_eq_read (source : Text) :
    parseShellCommands source = (read .main source .start).result := rfl

/-! ### One turn of a loop -/

section Turns

variable {c next : Char} {rest inner after : Text} {s : Scanner}

def Blank (c : Char) : Prop := c = ' ' ∨ c = '\t'

def LineEnd (c : Char) : Prop := c = '\n' ∨ c = '\r'

def Operator (c : Char) : Prop := c = ';' ∨ c = '&' ∨ c = '|' ∨ c = '(' ∨ c = ')'

def Quote (c : Char) : Prop := c = '\'' ∨ c = '"' ∨ c = '\x60'

@[simp]
theorem read_nil (loop : Loop) (s : Scanner) : read loop [] s = s := scan_nil _ _ _

theorem read_blank (blank : Blank c) : read .main (c :: rest) s = read .main rest s.endWord := by
  rcases blank with rfl | rfl <;> rfl

theorem read_lineEnd (newline : LineEnd c) : read .main (c :: rest) s = read .main rest s.endCommand := by
  rcases newline with rfl | rfl <;> rfl

theorem read_operator (operator : Operator c) : read .main (c :: rest) s = read .main rest s.endCommand := by
  rcases operator with rfl | rfl | rfl | rfl | rfl <;> rfl

theorem read_continuation : read .main ('\\' :: '\n' :: rest) s = read .main rest s :=
  scan_eq_read (Nat.le_succ _)

theorem read_crlf : read .main ('\\' :: '\r' :: '\n' :: rest) s = read .main rest s :=
  scan_eq_read (Nat.le_add_right _ 2)

theorem read_escaped (kept : next ≠ '\n') (whole : next = '\r' → rest.head? ≠ some '\n') :
    read .main ('\\' :: next :: rest) s = read .main rest (s.add [next]).opened := by
  rw [read, List.length_cons, List.length_cons, scan]
  · exact scan_eq_read (Nat.le_succ _)
  · exact kept
  · rintro rest rfl rfl
    exact whole rfl rfl

theorem read_literal (notBlank : ¬ Blank c) (notEnd : ¬ LineEnd c) (notOperator : ¬ Operator c)
    (notQuote : ¬ Quote c) (dollar : c = '$' → rest.head? ≠ some '(') (backslash : c = '\\' → rest = [])
    (hash : c = '#' → s.hasWord = true) : read .main (c :: rest) s = read .main rest (s.add [c]).opened := by
  rw [Blank, not_or] at notBlank
  rw [LineEnd, not_or] at notEnd
  simp only [Operator, not_or] at notOperator
  simp only [Quote, not_or] at notQuote
  by_cases comment : c = '#'
  · subst comment
    rw [read, List.length_cons, scan, if_pos (hash rfl)]
    rfl
  · rw [read, List.length_cons, scan]
    · rfl
    all_goals grind

theorem read_quote : read .main ('\'' :: rest) s = read .single rest s.opened := rfl

theorem read_single (body : Text) (inside : '\'' ∉ body) (s : Scanner) :
    read .single (body ++ rest) s = read .single rest (s.add body) := by
  induction body generalizing s with
  | nil => simp [Scanner.add]
  | cons c body ih =>
    rw [List.mem_cons, not_or] at inside
    have turn : read .single (c :: (body ++ rest)) s = read .single (body ++ rest) (s.add [c]) := by
      rw [read, List.length_cons, scan]
      · rfl
      · exact fun quote => inside.1 quote.symm
    rw [List.cons_append, turn, ih inside.2]
    simp [Scanner.add]

theorem read_single_close : read .single ('\'' :: rest) s = read .main rest s := rfl

theorem read_double : read .main ('"' :: rest) s = read .double rest s.opened := rfl

theorem read_double_close : read .double ('"' :: rest) s = read .main rest s := rfl

theorem read_double_escaped : read .double ('\\' :: next :: rest) s = read .double rest (s.add [next]) :=
  scan_eq_read (Nat.le_succ _)

theorem read_double_char (notQuote : c ≠ '"') (notTick : c ≠ '\x60')
    (dollar : c = '$' → rest.head? ≠ some '(') (backslash : c = '\\' → rest = []) :
    read .double (c :: rest) s = read .double rest (s.add [c]) := by
  rw [read, List.length_cons, scan]
  · rfl
  all_goals grind

theorem read_paren (region : readParen 1 rest = (inner, after)) :
    read .main ('$' :: '(' :: rest) s = read .main after (s.opened.nested (parseShellCommands inner)) := by
  have bounds := readParen_length region
  rw [read, List.length_cons, List.length_cons, scan, region]
  simp only
  rw [scan_eq_read (by omega), scan_eq_read (by omega), parseShellCommands_eq_read]

theorem read_backtick (region : readBacktick rest = (inner, after)) :
    read .main ('\x60' :: rest) s = read .main after (s.opened.nested (parseShellCommands inner)) := by
  have bounds := readBacktick_length region
  rw [read, List.length_cons, scan, region]
  simp only
  rw [scan_eq_read (by omega), scan_eq_read (by omega), parseShellCommands_eq_read]

theorem read_double_paren (region : readParen 1 rest = (inner, after)) :
    read .double ('$' :: '(' :: rest) s = read .double after (s.nested (parseShellCommands inner)) := by
  have bounds := readParen_length region
  rw [read, List.length_cons, List.length_cons, scan, region]
  simp only
  rw [scan_eq_read (by omega), scan_eq_read (by omega), parseShellCommands_eq_read]

theorem read_double_backtick (region : readBacktick rest = (inner, after)) :
    read .double ('\x60' :: rest) s = read .double after (s.nested (parseShellCommands inner)) := by
  have bounds := readBacktick_length region
  rw [read, List.length_cons, scan, region]
  simp only
  rw [scan_eq_read (by omega), scan_eq_read (by omega), parseShellCommands_eq_read]

theorem read_comment (body : Text) (inside : '\n' ∉ body) (fresh : s.hasWord = false)
    (ended : rest.head? = none ∨ rest.head? = some '\n') :
    read .main ('#' :: (body ++ rest)) s = read .main rest s := by
  have enter : read .main ('#' :: (body ++ rest)) s = read .comment (body ++ rest) s := by
    rw [read, List.length_cons, scan, if_neg (by simp [fresh])]
    rfl
  rw [enter]
  clear enter
  induction body with
  | nil =>
    cases rest with
    | nil => simp
    | cons c rest =>
      have newline : c = '\n' := by simpa using ended
      subst newline
      rfl
  | cons c body ih =>
    rw [List.mem_cons, not_or] at inside
    have turn : read .comment (c :: (body ++ rest)) s = read .comment (body ++ rest) s := by
      rw [read, List.length_cons, scan]
      · rfl
      · exact fun newline => inside.1 newline.symm
    rw [List.cons_append, turn, ih inside.2]

end Turns

end Koine.SupplyChain
