import Mathlib.Data.List.TakeWhile
import Koine.Library.Escapes
import Koine.Library.Tokens
import Koine.SupplyChain.Shell

namespace Koine.SupplyChain

open Library

/-- The depth that `readParen` counts, with whether a backslash is pending; `none` once the region is
    closed. -/
def count : Option (Bool × Nat) → Char → Option (Bool × Nat)
  | none, _ => none
  | some (true, depth), _ => some (false, depth)
  | some (false, depth), '\\' => some (true, depth)
  | some (false, depth), '(' => some (false, depth + 1)
  | some (false, depth), ')' => if depth = 1 then none else some (false, depth - 1)
  | some (false, depth), _ => some (false, depth)

def ticks : Option Bool → Char → Option Bool
  | none, _ => none
  | some true, _ => some false
  | some false, '\\' => some true
  | some false, '\x60' => none
  | some false, _ => some false

/-- What `readBacktick` hands to the parser. -/
def unescape : Text → Text
  | [] => []
  | '\\' :: next :: rest => next :: unescape rest
  | char :: rest => char :: unescape rest

/-- A command substitution, with whether it is closed before the text ends. -/
inductive Region where
  | paren (inner : Text) (closed : Bool)
  | backtick (raw : Text) (closed : Bool)
deriving DecidableEq

namespace Region

def text : Region → Text
  | .paren inner closed => '$' :: '(' :: (inner ++ if closed then [')'] else [])
  | .backtick raw closed => '\x60' :: (raw ++ if closed then ['\x60'] else [])

def inner : Region → Text
  | .paren inner _ => inner
  | .backtick raw _ => unescape raw

def closed : Region → Bool
  | .paren _ closed | .backtick _ closed => closed

def Proper : Region → Prop
  | .paren inner true => inner.foldl count (some (false, 1)) = some (false, 1)
  | .paren inner false => inner.foldl count (some (false, 1)) ≠ none
  | .backtick raw true => raw.foldl ticks (some false) = some false
  | .backtick raw false => raw.foldl ticks (some false) ≠ none

def Fits (region : Region) (next : Option Char) : Prop := region.Proper ∧ (region.closed = false → next = none)

end Region

inductive Part where
  | char (c : Char)
  | escaped (c : Char)
  | substitution (region : Region)
deriving DecidableEq

namespace Part

def text : Part → Text
  | .char c => [c]
  | .escaped c => ['\\', c]
  | .substitution region => region.text

/-- A dollar does not open a substitution, and a backslash escapes nothing. -/
def Lone (c : Char) (next : Option Char) : Prop := (c = '$' → next ≠ some '(') ∧ (c = '\\' → next = none)

def Fits (_ : Unit) : Part → Option Char → Prop
  | .char c, next => c ≠ '"' ∧ c ≠ '\x60' ∧ Lone c next
  | .escaped _, _ => True
  | .substitution region, next => region.Fits next

def act (s : Scanner) : Part → Scanner
  | .char c | .escaped c => s.add [c]
  | .substitution region => s.nested (parseShellCommands region.inner)

end Part

/-- What one turn of the main loop reads, the text of a comment or of a quotation included. -/
inductive Lexeme where
  | blank (c : Char)
  | newline (c : Char)
  | operator (c : Char)
  | continuation (crlf : Bool)
  | escaped (c : Char)
  | literal (c : Char)
  | single (body : Text) (closed : Bool)
  | double (parts : List Part) (closed : Bool)
  | substitution (region : Region)
  | comment (body : Text)
deriving DecidableEq

namespace Lexeme

def text : Lexeme → Text
  | .blank c | .newline c | .operator c | .literal c => [c]
  | .continuation crlf => if crlf then ['\\', '\r', '\n'] else ['\\', '\n']
  | .escaped c => ['\\', c]
  | .single body closed => '\'' :: (body ++ if closed then ['\''] else [])
  | .double parts closed => '"' :: (parts.flatMap Part.text ++ if closed then ['"'] else [])
  | .substitution region => region.text
  | .comment body => '#' :: body

/-- `hasWord` after the lexeme. -/
def started (before : Bool) : Lexeme → Bool
  | .blank _ | .newline _ | .operator _ => false
  | .continuation _ | .comment _ => before
  | .escaped _ | .literal _ | .single _ _ | .double _ _ | .substitution _ => true

def PartsFit (parts : List Part) (last : Option Char) : Prop :=
  Library.Fits Part.text (fun _ _ => ()) Part.Fits () last parts

def Fits (before : Bool) : Lexeme → Option Char → Prop
  | .blank c, _ => Blank c
  | .newline c, _ => LineEnd c
  | .operator c, _ => Operator c
  | .continuation _, _ => True
  | .escaped c, next => c ≠ '\n' ∧ (c = '\r' → next ≠ some '\n')
  | .literal c, next =>
    (¬ Blank c ∧ ¬ LineEnd c ∧ ¬ Operator c ∧ ¬ Quote c) ∧ Part.Lone c next ∧ (c = '#' → before = true)
  | .single body closed, next => '\'' ∉ body ∧ (closed = false → next = none)
  | .double parts true, _ => PartsFit parts (some '"')
  | .double parts false, next => PartsFit parts none ∧ next = none
  | .substitution region, next => region.Fits next
  | .comment body, next => before = false ∧ '\n' ∉ body ∧ (next = none ∨ next = some '\n')

def act (s : Scanner) : Lexeme → Scanner
  | .blank _ => s.endWord
  | .newline _ | .operator _ => s.endCommand
  | .continuation _ | .comment _ => s
  | .escaped c | .literal c => (s.add [c]).opened
  | .single body _ => s.opened.add body
  | .double parts _ => parts.foldl Part.act s.opened
  | .substitution region => s.opened.nested (parseShellCommands region.inner)

end Lexeme

/-- The lexemes are what the scanner reads in their text, from `hasWord` and up to a next character. -/
abbrev Reading (before : Bool) (last : Option Char) (lexemes : List Lexeme) : Prop :=
  Fits Lexeme.text Lexeme.started Lexeme.Fits before last lexemes

/-! ### The scanner reads the lexemes -/

@[simp]
theorem foldl_count_none (text : Text) : text.foldl count none = none := by
  induction text with
  | nil => rfl
  | cons c text ih => exact ih

@[simp]
theorem foldl_ticks_none (text : Text) : text.foldl ticks none = none := by
  induction text with
  | nil => rfl
  | cons c text ih => exact ih

theorem count_other {depth : Nat} {c : Char} (notEscape : c ≠ '\\') (notOpen : c ≠ '(') (notClose : c ≠ ')') :
    count (some (false, depth)) c = some (false, depth) := by
  rw [count] <;> assumption

theorem ticks_other {c : Char} (notEscape : c ≠ '\\') (notTick : c ≠ '\x60') :
    ticks (some false) c = some false := by
  rw [ticks] <;> assumption

/-- The last case of the readers: a backslash is left only at the end of the text. -/
theorem lone_backslash {c : Char} {text : Text}
    (unpaired : ∀ next rest, c = '\\' → text = next :: rest → False) (backslash : c = '\\') : text = [] := by
  cases text with
  | nil => rfl
  | cons next rest => exact (unpaired next rest backslash rfl).elim

theorem readParen_closed {depth : Nat} {inner rest : Text}
    (counted : inner.foldl count (some (false, depth)) = some (false, 1)) :
    readParen depth (inner ++ ')' :: rest) = (inner, rest) := by
  fun_induction readParen depth inner with
  | case1 depth =>
    simp only [List.foldl_nil, Option.some.injEq, Prod.mk.injEq, true_and] at counted
    rw [counted]
    rfl
  | case2 depth next inner _ _ _ ih => rw [List.cons_append, List.cons_append, readParen, ih counted]
  | case3 depth inner _ _ _ ih => rw [List.cons_append, readParen, ih counted]
  | case4 inner => simp [count] at counted
  | case5 depth inner deeper _ _ _ ih =>
    simp only [List.foldl_cons, count, if_neg deeper] at counted
    rw [List.cons_append, readParen, if_neg deeper, ih counted]
  | case6 depth char inner unpaired notOpen notClose _ _ _ ih =>
    have notEscape : char ≠ '\\' := by
      rintro rfl
      rw [lone_backslash unpaired rfl] at counted
      simp [count] at counted
    rw [List.foldl_cons, count_other notEscape notOpen notClose] at counted
    rw [List.cons_append, readParen, ih counted]
    · exact fun _ _ escape => (notEscape escape).elim
    · exact notOpen
    · exact notClose

theorem readParen_open {depth : Nat} {inner : Text} (counted : inner.foldl count (some (false, depth)) ≠ none) :
    readParen depth inner = (inner, []) := by
  fun_induction readParen depth inner with
  | case1 depth => rfl
  | case2 depth next inner _ _ region ih =>
    rw [ih counted] at region
    cases region
    rfl
  | case3 depth inner _ _ region ih =>
    rw [ih counted] at region
    cases region
    rfl
  | case4 inner => simp [count] at counted
  | case5 depth inner deeper _ _ region ih =>
    simp only [List.foldl_cons, count, if_neg deeper] at counted
    rw [ih counted] at region
    cases region
    rfl
  | case6 depth char inner unpaired notOpen notClose _ _ region ih =>
    by_cases escape : char = '\\'
    · rw [lone_backslash unpaired escape] at region ⊢
      cases region
      rfl
    · rw [List.foldl_cons, count_other escape notOpen notClose] at counted
      rw [ih counted] at region
      cases region
      rfl

theorem readParen_cases {depth : Nat} {text inner after : Text} (region : readParen depth text = (inner, after)) :
    (text = inner ++ ')' :: after ∧ inner.foldl count (some (false, depth)) = some (false, 1)) ∨
      (text = inner ∧ after = [] ∧ inner.foldl count (some (false, depth)) ≠ none) := by
  fun_induction readParen depth text generalizing inner after with
  | case1 depth =>
    cases region
    simp
  | case2 depth next text _ _ earlier ih =>
    cases region
    simpa [count] using ih earlier
  | case3 depth text _ _ earlier ih =>
    cases region
    simpa [count] using ih earlier
  | case4 text =>
    cases region
    simp
  | case5 depth text deeper _ _ earlier ih =>
    cases region
    simpa [count, deeper] using ih earlier
  | case6 depth char text unpaired notOpen notClose _ _ earlier ih =>
    cases region
    by_cases escape : char = '\\'
    · rw [lone_backslash unpaired escape] at earlier ⊢
      cases earlier
      simp [escape, count]
    · simpa [count_other escape notOpen notClose] using ih earlier

theorem readBacktick_closed {raw rest : Text} (counted : raw.foldl ticks (some false) = some false) :
    readBacktick (raw ++ '\x60' :: rest) = (unescape raw, rest) := by
  fun_induction unescape raw with
  | case1 => rfl
  | case2 next raw ih => rw [List.cons_append, List.cons_append, readBacktick, ih counted]
  | case3 char raw unpaired ih =>
    have notEscape : char ≠ '\\' := by
      rintro rfl
      rw [lone_backslash unpaired rfl] at counted
      simp [ticks] at counted
    have notTick : char ≠ '\x60' := by
      rintro rfl
      simp [ticks] at counted
    rw [List.foldl_cons, ticks_other notEscape notTick] at counted
    rw [List.cons_append, readBacktick, ih counted]
    · exact fun _ _ escape => (notEscape escape).elim
    · exact notTick

theorem readBacktick_open {raw : Text} (counted : raw.foldl ticks (some false) ≠ none) :
    readBacktick raw = (unescape raw, []) := by
  fun_induction unescape raw with
  | case1 => rfl
  | case2 next raw ih => rw [readBacktick, ih counted]
  | case3 char raw unpaired ih =>
    have notTick : char ≠ '\x60' := by
      rintro rfl
      simp [ticks] at counted
    rw [readBacktick]
    · by_cases escape : char = '\\'
      · rw [lone_backslash unpaired escape]
        rfl
      · rw [List.foldl_cons, ticks_other escape notTick] at counted
        rw [ih counted]
    · exact unpaired
    · exact notTick

theorem Region.Fits.reader {region : Region} {rest : Text} (fits : region.Fits rest.head?) :
    (∃ tail, region.text ++ rest = '$' :: '(' :: tail ∧ readParen 1 tail = (region.inner, rest)) ∨
      ∃ tail, region.text ++ rest = '\x60' :: tail ∧ readBacktick tail = (region.inner, rest) := by
  obtain ⟨proper, ended⟩ := fits
  match region, proper, ended with
  | .paren inner true, proper, _ => exact .inl ⟨inner ++ ')' :: rest, by simp [text], readParen_closed proper⟩
  | .paren inner false, proper, ended =>
    rw [List.head?_eq_none_iff.mp (ended rfl)]
    exact .inl ⟨inner, by simp [text], readParen_open proper⟩
  | .backtick raw true, proper, _ =>
    exact .inr ⟨raw ++ '\x60' :: rest, by simp [text], readBacktick_closed proper⟩
  | .backtick raw false, proper, ended =>
    rw [List.head?_eq_none_iff.mp (ended rfl)]
    exact .inr ⟨raw, by simp [text], readBacktick_open proper⟩

theorem read_part (s : Scanner) (part : Part) (rest : Text) (fits : part.Fits () rest.head?) :
    read .double (part.text ++ rest) s = read .double rest (part.act s) := by
  cases part with
  | char c =>
    obtain ⟨notQuote, notTick, dollar, backslash⟩ := fits
    exact read_double_char notQuote notTick dollar fun escape => List.head?_eq_none_iff.mp (backslash escape)
  | escaped c => exact read_double_escaped
  | substitution region =>
    rcases fits.reader with ⟨tail, shape, region⟩ | ⟨tail, shape, region⟩
    · rw [Part.text, shape, read_double_paren region]
      rfl
    · rw [Part.text, shape, read_double_backtick region]
      rfl

theorem read_parts {parts : List Part} {rest : Text} (fits : Lexeme.PartsFit parts rest.head?) (s : Scanner) :
    read .double (parts.flatMap Part.text ++ rest) s = read .double rest (parts.foldl Part.act s) :=
  Fits.read (fun _ _ => rfl) read_part fits

theorem read_lexeme (s : Scanner) (lexeme : Lexeme) (rest : Text) (fits : lexeme.Fits s.hasWord rest.head?) :
    read .main (lexeme.text ++ rest) s = read .main rest (lexeme.act s) := by
  cases lexeme with
  | blank c => exact read_blank fits
  | newline c => exact read_lineEnd fits
  | operator c => exact read_operator fits
  | continuation crlf =>
    cases crlf with
    | false => exact read_continuation
    | true => exact read_crlf
  | escaped c => exact read_escaped fits.1 fits.2
  | literal c =>
    obtain ⟨⟨notBlank, notEnd, notOperator, notQuote⟩, ⟨dollar, backslash⟩, hash⟩ := fits
    exact read_literal notBlank notEnd notOperator notQuote dollar
      (fun escape => List.head?_eq_none_iff.mp (backslash escape)) hash
  | single body closed =>
    obtain ⟨inside, ended⟩ := fits
    rw [Lexeme.text, List.cons_append, read_quote, List.append_assoc, read_single body inside]
    cases closed with
    | false =>
      rw [List.head?_eq_none_iff.mp (ended rfl)]
      simp [Lexeme.act]
    | true => exact read_single_close
  | double parts closed =>
    rw [Lexeme.text, List.cons_append, read_double, List.append_assoc]
    cases closed with
    | false =>
      rw [List.head?_eq_none_iff.mp fits.2, if_neg Bool.false_ne_true, read_parts fits.1]
      simp [Lexeme.act]
    | true =>
      have inside : Lexeme.PartsFit parts ('"' :: rest).head? := fits
      rw [if_pos rfl, List.singleton_append, read_parts inside]
      exact read_double_close
  | substitution region =>
    rcases fits.reader with ⟨tail, shape, region⟩ | ⟨tail, shape, region⟩
    · rw [Lexeme.text, shape, read_paren region]
      rfl
    · rw [Lexeme.text, shape, read_backtick region]
      rfl
  | comment body =>
    obtain ⟨fresh, inside, ended⟩ := fits
    exact read_comment body inside fresh ended

@[simp]
theorem hasWord_parts (parts : List Part) (s : Scanner) : (parts.foldl Part.act s).hasWord = s.hasWord := by
  induction parts generalizing s with
  | nil => rfl
  | cons part parts ih =>
    rw [List.foldl_cons, ih]
    cases part <;> rfl

theorem hasWord_endWord (s : Scanner) : s.endWord.hasWord = false := by
  rw [Scanner.endWord]
  split
  · rfl
  · simp_all

theorem hasWord_endCommand (s : Scanner) : s.endCommand.hasWord = false := by
  simp only [Scanner.endCommand]
  split <;> exact hasWord_endWord s

theorem Scanner.endWord_of_not {s : Scanner} (closed : s.hasWord = false) : s.endWord = s := by
  rw [endWord, if_neg]
  simp [closed]

theorem Scanner.endWord_endWord (s : Scanner) : s.endWord.endWord = s.endWord :=
  endWord_of_not (hasWord_endWord s)

theorem Scanner.current_endCommand (s : Scanner) : s.endCommand.current = [] := by
  simp only [endCommand]
  split
  · rfl
  · simp_all

theorem subs_endCommand (s : Scanner) : s.endCommand.subs = s.subs := by
  simp only [Scanner.endCommand, Scanner.endWord]
  split <;> split <;> rfl

theorem Scanner.endCommand_endCommand (s : Scanner) : s.endCommand.endCommand = s.endCommand := by
  rw [endCommand, endWord_of_not (hasWord_endCommand s)]
  simp [s.current_endCommand]

theorem hasWord_act (s : Scanner) (lexeme : Lexeme) : (lexeme.act s).hasWord = lexeme.started s.hasWord := by
  cases lexeme with
  | blank c => exact hasWord_endWord s
  | newline c => exact hasWord_endCommand s
  | operator c => exact hasWord_endCommand s
  | double parts closed => exact hasWord_parts parts s.opened
  | _ => rfl

theorem hasWord_foldl (lexemes : List Lexeme) (s : Scanner) :
    (lexemes.foldl Lexeme.act s).hasWord = lexemes.foldl Lexeme.started s.hasWord := by
  induction lexemes generalizing s with
  | nil => rfl
  | cons lexeme lexemes ih => rw [List.foldl_cons, List.foldl_cons, ih, hasWord_act]

theorem Reading.read {s : Scanner} {lexemes : List Lexeme} {rest : Text}
    (reading : Reading s.hasWord rest.head? lexemes) :
    read .main (lexemes.flatMap Lexeme.text ++ rest) s = read .main rest (lexemes.foldl Lexeme.act s) :=
  Fits.read hasWord_act read_lexeme reading

theorem Reading.parse {lexemes : List Lexeme} (reading : Reading false none lexemes) :
    parseShellCommands (lexemes.flatMap Lexeme.text) = (lexemes.foldl Lexeme.act .start).result := by
  have taken : SupplyChain.read .main (lexemes.flatMap Lexeme.text ++ []) .start = lexemes.foldl Lexeme.act .start := by
    rw [Reading.read reading, read_nil]
  rw [parseShellCommands_eq_read, ← taken, List.append_nil]

/-! ### Every text has a reading -/

def spanTicks : Text → Text × Bool × Text
  | [] => ([], false, [])
  | '\\' :: next :: rest =>
    let (raw, closed, after) := spanTicks rest
    ('\\' :: next :: raw, closed, after)
  | '\x60' :: rest => ([], true, rest)
  | char :: rest =>
    let (raw, closed, after) := spanTicks rest
    (char :: raw, closed, after)

def parenRegion (text : Text) : Region × Text :=
  let (inner, after) := readParen 1 text
  (.paren inner (decide (inner.length < text.length)), after)

def tickRegion (text : Text) : Region × Text :=
  let (raw, closed, after) := spanTicks text
  (.backtick raw closed, after)

def spanTo (stop : Char) (text : Text) : Text × Bool × Text :=
  let rest := text.dropWhile (· != stop)
  (text.takeWhile (· != stop), decide (rest ≠ []), rest.tail)

def lexPart (_ : Unit) : Text → Part × Text
  | '\\' :: next :: rest => (.escaped next, rest)
  | '$' :: '(' :: rest => let (region, after) := parenRegion rest; (.substitution region, after)
  | '\x60' :: rest => let (region, after) := tickRegion rest; (.substitution region, after)
  | char :: rest => (.char char, rest)
  | [] => (.char ' ', [])

def lexParts (text : Text) : List Part × Text :=
  tokenize (fun _ _ => ()) (· == '"') lexPart text.length () text

def lexeme (before : Bool) : Text → Lexeme × Text
  | ' ' :: rest => (.blank ' ', rest)
  | '\t' :: rest => (.blank '\t', rest)
  | '\n' :: rest => (.newline '\n', rest)
  | '\r' :: rest => (.newline '\r', rest)
  | '\\' :: '\n' :: rest => (.continuation false, rest)
  | '\\' :: '\r' :: '\n' :: rest => (.continuation true, rest)
  | '\\' :: next :: rest => (.escaped next, rest)
  | '\'' :: rest => let (body, closed, after) := spanTo '\'' rest; (.single body closed, after)
  | '"' :: rest =>
    let (parts, after) := lexParts rest
    (.double parts (decide (after ≠ [])), after.tail)
  | '$' :: '(' :: rest => let (region, after) := parenRegion rest; (.substitution region, after)
  | '\x60' :: rest => let (region, after) := tickRegion rest; (.substitution region, after)
  | ';' :: rest => (.operator ';', rest)
  | '&' :: rest => (.operator '&', rest)
  | '|' :: rest => (.operator '|', rest)
  | '(' :: rest => (.operator '(', rest)
  | ')' :: rest => (.operator ')', rest)
  | '#' :: rest =>
    if before then (.literal '#', rest)
    else (.comment (rest.takeWhile (· != '\n')), rest.dropWhile (· != '\n'))
  | char :: rest => (.literal char, rest)
  | [] => (.blank ' ', [])

def lex (text : Text) : List Lexeme := (tokenize Lexeme.started (fun _ => false) lexeme text.length false text).1

theorem spanTicks_cases {text raw after : Text} {closed : Bool} (span : spanTicks text = (raw, closed, after)) :
    (closed = true ∧ text = raw ++ '\x60' :: after ∧ raw.foldl ticks (some false) = some false) ∨
      (closed = false ∧ text = raw ∧ after = [] ∧ raw.foldl ticks (some false) ≠ none) := by
  fun_induction spanTicks text generalizing raw after with
  | case1 =>
    cases span
    simp
  | case2 next text _ _ _ earlier ih =>
    cases span
    simpa [ticks] using ih earlier
  | case3 text =>
    cases span
    simp
  | case4 char text unpaired notTick _ _ _ earlier ih =>
    cases span
    by_cases escape : char = '\\'
    · rw [lone_backslash unpaired escape] at earlier ⊢
      cases earlier
      simp [escape, ticks]
    · simpa [ticks_other escape notTick] using ih earlier

theorem parenRegion_spec {text after : Text} {region : Region} (found : parenRegion text = (region, after)) :
    region.text ++ after = '$' :: '(' :: text ∧ region.Fits after.head? := by
  rcases taken : readParen 1 text with ⟨inner, rest⟩
  simp only [parenRegion, taken] at found
  cases found
  rcases readParen_cases taken with ⟨rfl, counted⟩ | ⟨rfl, rfl, counted⟩
  · simp [Region.text, Region.Fits, Region.Proper, Region.closed, counted]
  · simp [Region.text, Region.Fits, Region.Proper, counted]

theorem tickRegion_spec {text after : Text} {region : Region} (found : tickRegion text = (region, after)) :
    region.text ++ after = '\x60' :: text ∧ region.Fits after.head? := by
  rcases taken : spanTicks text with ⟨raw, closed, rest⟩
  simp only [tickRegion, taken] at found
  cases found
  rcases spanTicks_cases taken with ⟨rfl, rfl, counted⟩ | ⟨rfl, rfl, rfl, counted⟩
  · simp [Region.text, Region.Fits, Region.Proper, Region.closed, counted]
  · simp [Region.text, Region.Fits, Region.Proper, counted]

theorem not_mem_takeWhile (stop : Char) (text : Text) : stop ∉ text.takeWhile (· != stop) := by
  intro inside
  simpa using List.mem_takeWhile_imp inside

theorem head_dropWhile (stop : Char) (text : Text) :
    (text.dropWhile (· != stop)).head? = none ∨ (text.dropWhile (· != stop)).head? = some stop := by
  cases found : (text.dropWhile (· != stop)).head? with
  | none => exact .inl rfl
  | some c =>
    have stopped := List.head?_dropWhile_not (· != stop) text
    rw [found] at stopped
    exact .inr (by simpa using stopped)

theorem spanTo_spec {stop : Char} {text body after : Text} {closed : Bool}
    (found : spanTo stop text = (body, closed, after)) :
    body ++ (if closed then [stop] else []) ++ after = text ∧ stop ∉ body ∧ (closed = false → after.head? = none) := by
  simp only [spanTo, Prod.mk.injEq] at found
  obtain ⟨rfl, rfl, rfl⟩ := found
  have split : text.takeWhile (· != stop) ++ text.dropWhile (· != stop) = text := List.takeWhile_append_dropWhile
  have stopped := head_dropWhile stop text
  refine ⟨?_, not_mem_takeWhile stop text, ?_⟩
  · cases rest : text.dropWhile (· != stop) with
    | nil =>
      rw [rest] at split
      simpa using split
    | cons c after =>
      rw [rest] at split stopped
      have closes : c = stop := by simpa using stopped
      simpa [closes] using split
  · intro empty
    rw [Decidable.not_not.mp (of_decide_eq_false empty)]
    rfl

theorem Region.text_ne_nil (region : Region) : region.text ≠ [] := by
  cases region <;> simp [text]

theorem Lexeme.text_ne_nil (lexeme : Lexeme) : lexeme.text ≠ [] := by
  cases lexeme with
  | substitution region => exact region.text_ne_nil
  | continuation crlf => cases crlf <;> exact List.cons_ne_nil _ _
  | _ => exact List.cons_ne_nil _ _

theorem lexPart_spec (state : Unit) (c : Char) (input : Text) (inside : (c == '"') = false) :
    (lexPart state (c :: input)).1.text ++ (lexPart state (c :: input)).2 = c :: input ∧
      (lexPart state (c :: input)).1.text ≠ [] ∧
      (lexPart state (c :: input)).1.Fits state (lexPart state (c :: input)).2.head? := by
  generalize split : c :: input = text
  fun_cases lexPart state text with
  | case1 next rest => simp [Part.text, Part.Fits]
  | case2 rest region after found =>
    obtain ⟨spelled, fits⟩ := parenRegion_spec found
    exact ⟨spelled, region.text_ne_nil, fits⟩
  | case3 rest region after found =>
    obtain ⟨spelled, fits⟩ := tickRegion_spec found
    exact ⟨spelled, region.text_ne_nil, fits⟩
  | case4 char rest unpaired lone notTick =>
    cases split
    refine ⟨rfl, by simp [Part.text], by simpa using inside, notTick, ?_, ?_⟩
    · intro dollar next
      obtain ⟨tail, opening⟩ := List.head?_eq_some_iff.mp next
      exact lone tail dollar opening
    · exact fun escape => List.head?_eq_none_iff.mpr (lone_backslash unpaired escape)
  | case5 => cases split

theorem lexParts_spec {text after : Text} {parts : List Part} (found : lexParts text = (parts, after)) :
    parts.flatMap Part.text ++ after = text ∧ Lexeme.PartsFit parts after.head? ∧
      (after.head? = none ∨ after.head? = some '"') := by
  obtain ⟨spelled, fits, stopped⟩ := tokenize_spec lexPart_spec (Nat.le_refl _) found
  refine ⟨spelled, fits, ?_⟩
  cases next : after.head? with
  | none => exact .inl rfl
  | some c => exact .inr (by simpa using stopped c next)

theorem lexeme_spec (before : Bool) (c : Char) (input : Text) :
    (lexeme before (c :: input)).1.text ++ (lexeme before (c :: input)).2 = c :: input ∧
      (lexeme before (c :: input)).1.text ≠ [] ∧
      (lexeme before (c :: input)).1.Fits before (lexeme before (c :: input)).2.head? := by
  generalize split : c :: input = text
  fun_cases lexeme before text with
  | case1 rest | case2 rest => simp [Lexeme.text, Lexeme.Fits, Blank]
  | case3 rest | case4 rest => simp [Lexeme.text, Lexeme.Fits, LineEnd]
  | case5 rest | case6 rest => simp [Lexeme.text, Lexeme.Fits]
  | case7 next rest kept whole =>
    refine ⟨rfl, by simp [Lexeme.text], kept, ?_⟩
    intro cr lf
    obtain ⟨tail, split⟩ := List.head?_eq_some_iff.mp lf
    exact whole tail cr split
  | case8 rest body closed after found =>
    obtain ⟨spelled, inside, ended⟩ := spanTo_spec found
    exact ⟨congrArg ('\'' :: ·) spelled, by simp [Lexeme.text], inside, ended⟩
  | case9 rest parts after found =>
    obtain ⟨spelled, fits, stopped⟩ := lexParts_spec found
    refine ⟨?_, by simp [Lexeme.text], ?_⟩
    · rw [← spelled]
      cases after <;> simp_all [Lexeme.text]
    · cases after <;> simp_all [Lexeme.Fits]
  | case10 rest region after found =>
    obtain ⟨spelled, fits⟩ := parenRegion_spec found
    exact ⟨spelled, region.text_ne_nil, fits⟩
  | case11 rest region after found =>
    obtain ⟨spelled, fits⟩ := tickRegion_spec found
    exact ⟨spelled, region.text_ne_nil, fits⟩
  | case12 rest | case13 rest | case14 rest | case15 rest | case16 rest =>
    simp [Lexeme.text, Lexeme.Fits, Operator]
  | case17 rest started =>
    simp [Lexeme.text, Lexeme.Fits, Part.Lone, Blank, LineEnd, Operator, Quote, started]
  | case18 rest fresh =>
    refine ⟨?_, by simp [Lexeme.text], by simpa using fresh, not_mem_takeWhile _ _, head_dropWhile _ _⟩
    simp [Lexeme.text, List.takeWhile_append_dropWhile]
  | case19 char rest =>
    refine ⟨rfl, by simp [Lexeme.text], ?_, ⟨?_, ?_⟩, ?_⟩
    · simp_all [Blank, LineEnd, Operator, Quote]
    · intro dollar next
      obtain ⟨tail, opening⟩ := List.head?_eq_some_iff.mp next
      simp_all
    · exact fun escape => List.head?_eq_none_iff.mpr (lone_backslash (by assumption) escape)
    · simp_all
  | case20 => cases split

/-- The lexemes of a text spell it, and they are what the scanner reads in it. -/
theorem lex_spec (text : Text) : (lex text).flatMap Lexeme.text = text ∧ Reading false none (lex text) := by
  rcases result : tokenize Lexeme.started (fun _ => false) lexeme text.length false text with ⟨lexemes, left⟩
  obtain ⟨spelled, fits, stopped⟩ :=
    tokenize_spec (fun state c input _ => lexeme_spec state c input) (Nat.le_refl _) result
  rw [lex, result]
  cases left with
  | nil => exact ⟨by simpa using spelled, fits⟩
  | cons c left => cases stopped c rfl

theorem parse_eq_lex (text : Text) : parseShellCommands text = ((lex text).foldl Lexeme.act .start).result := by
  obtain ⟨spelled, reading⟩ := lex_spec text
  rw [← reading.parse, spelled]

/-! ### What the scanner has found -/

structure Scanner.Grows (s later : Scanner) : Prop where
  commands : ∀ command ∈ s.commands, command ∈ later.commands
  subs : ∀ command ∈ s.subs, command ∈ later.subs
  current : s.current ≠ [] → s.current <+: later.current ∨ ∃ command ∈ later.commands, s.current <+: command

namespace Scanner

theorem Grows.refl (s : Scanner) : s.Grows s := ⟨fun _ => id, fun _ => id, fun _ => .inl List.prefix_rfl⟩

theorem Grows.trans {s later last : Scanner} (first : s.Grows later) (second : later.Grows last) : s.Grows last where
  commands command found := second.commands command (first.commands command found)
  subs command found := second.subs command (first.subs command found)
  current := by
    intro begun
    rcases first.current begun with front | ⟨command, found, front⟩
    · rcases second.current (front.ne_nil begun) with next | ⟨command, found, next⟩
      · exact .inl (front.trans next)
      · exact .inr ⟨command, found, front.trans next⟩
    · exact .inr ⟨command, second.commands command found, front⟩

theorem grows_endWord (s : Scanner) : s.Grows s.endWord := by
  rw [endWord]
  split
  · exact ⟨fun _ => id, fun _ => id, fun _ => .inl (List.prefix_append _ _)⟩
  · exact .refl s

theorem grows_endCommand (s : Scanner) : s.Grows s.endCommand := by
  refine s.grows_endWord.trans ?_
  simp only [endCommand]
  split
  · exact ⟨fun _ found => List.mem_append_left _ found, fun _ => id,
      fun _ => .inr ⟨_, List.mem_append_right _ (List.mem_singleton_self _), List.prefix_rfl⟩⟩
  · exact .refl _

theorem grows_add (s : Scanner) (text : Text) : s.Grows (s.add text) :=
  ⟨fun _ => id, fun _ => id, fun _ => .inl List.prefix_rfl⟩

theorem grows_opened (s : Scanner) : s.Grows s.opened := ⟨fun _ => id, fun _ => id, fun _ => .inl List.prefix_rfl⟩

theorem grows_nested (s : Scanner) (commands : List (List Word)) : s.Grows (s.nested commands) :=
  ⟨fun _ => id, fun _ found => List.mem_append_left _ found, fun _ => .inl List.prefix_rfl⟩

end Scanner

theorem grows_scan (fuel : Nat) (loop : Loop) (text : Text) (s : Scanner) : s.Grows (scan fuel loop text s) := by
  fun_induction scan fuel loop text s
  case case1 | case2 => exact .refl _
  all_goals rename_i ih
  all_goals first
    | exact ih
    | exact (Scanner.grows_add _ _).trans ih
    | exact (Scanner.grows_endCommand _).trans ih
    | exact (Scanner.grows_endWord _).trans ih
    | exact (Scanner.grows_opened _).trans ih
    | exact ((Scanner.grows_add _ _).trans (Scanner.grows_opened _)).trans ih
    | exact (Scanner.grows_nested _ _).trans ih
    | exact ((Scanner.grows_opened _).trans (Scanner.grows_nested _ _)).trans ih

theorem grows_read (loop : Loop) (text : Text) (s : Scanner) : s.Grows (read loop text s) := grows_scan _ _ _ _

theorem Scanner.Grows.mem_result {s later : Scanner} (grows : s.Grows later) {command : List Word}
    (found : command ∈ s.commands ++ s.subs) : command ∈ later.result := by
  have ended := grows.trans later.grows_endCommand
  rcases List.mem_append.mp found with found | found
  · exact List.mem_append_left _ (ended.commands command found)
  · exact List.mem_append_right _ (ended.subs command found)

/-! ### Backslashes -/

abbrev escapes : Bool → Char → Bool := pending '\\'

/-- No backslash is pending, or the line end that comes next takes it, or nothing comes next. -/
def Calm (next : Option Char) (escaped : Bool) : Prop := next = none ∨ next = some '\n' ∨ escaped = false

theorem calm_behind {c : Char} (other : c ≠ '\\') (front : Text) (next : Option Char) (before : Bool) :
    Calm next ((front ++ [c]).foldl escapes before) :=
  .inr (.inr (foldl_pending_other other front before))

theorem Calm.settled {c : Char} {escaped : Bool} (calm : Calm (some c) escaped) (other : c ≠ '\n') :
    escaped = false := by
  simpa [Calm, other] using calm

theorem Region.ends {region : Region} (closed : region.closed = true) :
    ∃ front c, region.text = front ++ [c] ∧ (c = ')' ∨ c = '\x60') := by
  cases region with
  | paren inner _ =>
    cases closed
    exact ⟨'$' :: '(' :: inner, ')', rfl, .inl rfl⟩
  | backtick raw _ =>
    cases closed
    exact ⟨'\x60' :: raw, '\x60', rfl, .inr rfl⟩

theorem Region.Fits.calm {region : Region} {next : Option Char} (fits : region.Fits next) (before : Bool) :
    Calm next (region.text.foldl escapes before) := by
  cases closed : region.closed with
  | false => exact .inl (fits.2 closed)
  | true =>
    obtain ⟨front, c, text, last⟩ := Region.ends closed
    rw [text]
    exact calm_behind (by rcases last with rfl | rfl <;> decide) front next before

theorem Part.Fits.calm {part : Part} {next : Option Char} {before : Bool} (fits : part.Fits () next)
    (calm : Calm (part.text.head?.or next) before) : Calm next (part.text.foldl escapes before) := by
  cases part with
  | char c =>
    by_cases escape : c = '\\'
    · exact .inl (fits.2.2.2 escape)
    · exact calm_behind escape [] next before
  | escaped c =>
    have settled : before = false := by simpa [Calm, text] using calm
    subst settled
    exact .inr (.inr rfl)
  | substitution region => exact Region.Fits.calm fits before

theorem Lexeme.Fits.calm {lexeme : Lexeme} {hasWord : Bool} {next : Option Char} {before : Bool}
    (fits : lexeme.Fits hasWord next) (calm : Calm (lexeme.text.head?.or next) before) :
    Calm next (lexeme.text.foldl escapes before) := by
  cases lexeme with
  | blank c => exact calm_behind (by rintro rfl; simp [Fits, Blank] at fits) [] next before
  | newline c => exact calm_behind (by rintro rfl; simp [Fits, LineEnd] at fits) [] next before
  | operator c => exact calm_behind (by rintro rfl; simp [Fits, Operator] at fits) [] next before
  | continuation crlf =>
    cases crlf with
    | false => exact calm_behind (by decide) ['\\'] next before
    | true => exact calm_behind (by decide) ['\\', '\r'] next before
  | escaped c =>
    have settled : before = false := by simpa [Calm, text] using calm
    subst settled
    exact .inr (.inr rfl)
  | literal c =>
    by_cases escape : c = '\\'
    · exact .inl (fits.2.1.2 escape)
    · exact calm_behind escape [] next before
  | single body closed =>
    cases closed with
    | false => exact .inl (fits.2 rfl)
    | true => exact calm_behind (by decide) ('\'' :: body) next before
  | double parts closed =>
    cases closed with
    | false => exact .inl fits.2
    | true => exact calm_behind (by decide) ('"' :: parts.flatMap Part.text) next before
  | substitution region => exact Region.Fits.calm fits before
  | comment body => exact fits.2.2.imp id .inl

end Koine.SupplyChain
