import Koine.Library.Digits
import Koine.Library.Readings
import Koine.SupplyChain.Scripts

namespace Koine.SupplyChain.Rust

open Library

inductive Kind where
  | string
  | identifier
  | number
  | punctuation
deriving DecidableEq

structure Token where
  kind : Kind
  value : Text
deriving DecidableEq

/-- Where the lexer gives up, as the text from there on, and why. -/
structure Fault where
  rest : Text
  message : String
deriving DecidableEq

def rustPunctuation : Text := "\x7b\x7d[]();:,.#&<>+-*/=!?|^%@$".toList

def wordStart (c : Char) : Bool := c.isAlpha || c = '_'

def wordChar (c : Char) : Bool := c.isAlphanum || c = '_'

def rustRawStringHashes : Text → Option Nat
  | 'r' :: rest =>
    if (rest.dropWhile (· = '#')).head? = some '"' then some (rest.takeWhile (· = '#')).length else none
  | _ => none

/-- `terminator` of `readRustRawString`. -/
def terminator (hashes : Nat) : Text := '"' :: List.replicate hashes '#'

def readRustRawString (source : Text) (hashes : Nat) : Except Fault (Token × Text) :=
  match cut (terminator hashes) (source.drop (hashes + 2)) with
  | none => .error ⟨source, "unterminated raw string literal"⟩
  | some (value, next) => .ok (⟨.string, value⟩, next)

def simpleEscapes : Char → Option Char
  | '0' => some '\x00'
  | 't' => some '\t'
  | 'n' => some '\n'
  | 'r' => some '\r'
  | '"' => some '"'
  | '\\' => some '\\'
  | _ => none

/-- `[0-9a-f]` without regard to case. -/
def hexDigit (c : Char) : Bool := (digitValue c).isSome

/-- `Number.parseInt(digits, 16)` of hexadecimal digits. -/
def parseHex (digits : Text) : Nat := (readDigits 16 digits).getD 0

def unicodeScalar (codePoint : Nat) : Bool :=
  !(codePoint > 0x10ffff || codePoint ≥ 0xd800 && codePoint ≤ 0xdfff)

/-- `\xNN`, from behind the letter: what it stands for and what follows. -/
def readHexEscape : Text → Except String (Text × Text)
  | high :: low :: next =>
    if '0' ≤ high && high ≤ '7' && hexDigit low then .ok ([Char.ofNat (parseHex [high, low])], next)
    else .error "unsupported hex string escape"
  | _ => .error "unsupported hex string escape"

def readUnicodeEscape (input : Text) : Except String (Text × Text) :=
  match cut ['\x7d'] input with
  | none => .error "unsupported Unicode string escape"
  | some (inner, next) =>
    let digits := inner.filter (· ≠ '_')
    if 1 ≤ digits.length && digits.length ≤ 6 && digits.all hexDigit then
      if unicodeScalar (parseHex digits) then .ok ([Char.ofNat (parseHex digits)], next)
      else .error "invalid Unicode string escape"
    else .error "unsupported Unicode string escape"

def readEscape : Text → Except String (Text × Text)
  | [] => .error "unsupported string escape"
  | escape :: rest =>
    match simpleEscapes escape with
    | some c => .ok ([c], rest)
    | none =>
      if escape = 'x' then readHexEscape rest
      else if escape = 'u' && rest.head? = some '\x7b' then readUnicodeEscape rest.tail
      else if escape = '\n' then .ok ([], rest.dropWhile isSpace)
      else if escape = '\r' && rest.head? = some '\n' then .ok ([], rest.tail.dropWhile isSpace)
      else .error "unsupported string escape"

/-- A turn of the loop of `readRustString`, which reads the literal `whole`. -/
def stringTurn (whole : Text) : Text → Except Fault (Option (Text × Text))
  | [] => .error ⟨whole, "unterminated string literal"⟩
  | '"' :: _ => .ok none
  | '\\' :: rest =>
    match readEscape rest with
    | .error message => .error ⟨'\\' :: rest, message⟩
    | .ok (value, next) => .ok (some (value, next))
  | c :: rest => .ok (some ([c], rest))

/-- Reads the literal from behind its opening quote. -/
def readRustString (whole content : Text) : Except Fault (Token × Text) :=
  match readAll (stringTurn whole) (content.length + 1) content with
  | .error fault => .error fault
  | .ok (values, left) => .ok (⟨.string, values.flatten⟩, left.tail)

/-- The loop over a block comment, from behind its opening; none where it is not closed. -/
def skipBlock : Nat → Text → Option Text
  | depth, '/' :: '*' :: rest => skipBlock (depth + 1) rest
  | depth, '*' :: '/' :: rest => if depth ≤ 1 then some rest else skipBlock (depth - 1) rest
  | depth, _ :: rest => skipBlock depth rest
  | _, [] => none

/-- `JSON.stringify` of a code unit that is no quote and no white space. -/
def jsonStringify (c : Char) : String :=
  if c = '\\' then "\"\\\\\""
  else if c = '\x08' then "\"\\b\""
  else if c.toNat < 0x20 then "\"\\u" ++ String.ofList (writeDigits 16 4 c.toNat) ++ "\""
  else if c.toNat < 0x10000 then "\"" ++ String.ofList [c] ++ "\""
  else "\"\\u" ++ String.ofList (writeDigits 16 4 (0xd800 + (c.toNat - 0x10000) / 0x400)) ++ "\""

/-- The second half of a turn of the loop of `lexRustHelper`: the token that starts with `c`. -/
def readToken (c : Char) (rest : Text) : Except Fault (Token × Text) :=
  match rustRawStringHashes (c :: rest) with
  | some hashes => readRustRawString (c :: rest) hashes
  | none =>
    if (c = 'b' || c = 'c') && (rest.head? = some '"' || (rustRawStringHashes rest).isSome) then
      .error ⟨c :: rest, "unsupported Rust string prefix"⟩
    else if c = '"' then readRustString (c :: rest) rest
    else if c = '\'' then .error ⟨c :: rest, "unsupported Rust literal form"⟩
    else if wordStart c then .ok (⟨.identifier, c :: rest.takeWhile wordChar⟩, rest.dropWhile wordChar)
    else if c.isDigit then .ok (⟨.number, c :: rest.takeWhile wordChar⟩, rest.dropWhile wordChar)
    else if rustPunctuation.contains c then .ok (⟨.punctuation, [c]⟩, rest)
    else .error ⟨c :: rest, "unsupported token " ++ jsonStringify c⟩

/-- A turn of the loop of `lexRustHelper`: the token, if it reads one, and what follows. -/
def lexTurn : Text → Except Fault (Option (Option Token × Text))
  | [] => .ok none
  | c :: rest =>
    if isSpace c then .ok (some (none, rest))
    else if c = '/' && rest.head? = some '/' then
      match cut ['\n'] rest.tail with
      | none => .ok (some (none, []))
      | some (_, next) => .ok (some (none, next))
    else if c = '/' && rest.head? = some '*' then
      match skipBlock 1 rest.tail with
      | none => .error ⟨c :: rest, "unterminated block comment"⟩
      | some next => .ok (some (none, next))
    else if c = '*' && rest.head? = some '/' then .error ⟨c :: rest, "unmatched block-comment terminator"⟩
    else
      match readToken c rest with
      | .error fault => .error fault
      | .ok (token, next) => .ok (some (some token, next))

/-- The length of a text in UTF-16 code units. -/
def units (text : Text) : Nat := text.foldl (fun total c => total + if c.toNat < 0x10000 then 1 else 2) 0

def rustLexFail (label : String) (index : Nat) (message : String) : String :=
  "Rust helper lex failed: " ++ label ++ ":" ++ toString index ++ ": " ++ message

def lexRustHelper (source : Text) (label : String) : Except String (List Token) :=
  match readAll lexTurn (source.length + 1) source with
  | .error fault => .error (rustLexFail label (units source - units fault.rest) fault.message)
  | .ok (read, _) => .ok (read.filterMap id)

inductive Piece where
  | plain (c : Char)
  | simple (letter value : Char)
  | hex (high low : Char)
  | unicode (inner : Text)
  | newline (crlf : Bool) (spaces : Text)

namespace Piece

def text : Piece → Text
  | plain c => [c]
  | simple letter _ => ['\\', letter]
  | hex high low => ['\\', 'x', high, low]
  | unicode inner => '\\' :: 'u' :: '\x7b' :: (inner ++ ['\x7d'])
  | newline crlf spaces => '\\' :: ((if crlf then ['\r', '\n'] else ['\n']) ++ spaces)

def value : Piece → Text
  | plain c => [c]
  | simple _ value => [value]
  | hex high low => [Char.ofNat (parseHex [high, low])]
  | unicode inner => [Char.ofNat (parseHex (inner.filter (· ≠ '_')))]
  | newline .. => []

def Fits : Piece → Text → Prop
  | plain c, _ => c ≠ '"' ∧ c ≠ '\\'
  | simple letter value, _ => simpleEscapes letter = some value
  | hex high low, _ => '0' ≤ high ∧ high ≤ '7' ∧ hexDigit low = true
  | unicode inner, _ =>
    let digits := inner.filter (· ≠ '_')
    '\x7d' ∉ inner ∧ 1 ≤ digits.length ∧ digits.length ≤ 6 ∧ digits.all hexDigit = true ∧
      unicodeScalar (parseHex digits) = true
  | newline _ spaces, rest => (∀ c ∈ spaces, isSpace c = true) ∧ ∀ c, rest.head? = some c → isSpace c = false

end Piece

theorem readHexEscape_ok {input value rest : Text} :
    readHexEscape input = .ok (value, rest) ↔
      ∃ high low, high :: low :: rest = input ∧ (Piece.hex high low).Fits rest ∧
        (Piece.hex high low).value = value := by
  constructor
  · intro result
    unfold readHexEscape at result
    split at result
    · rename_i high low next
      split at result
      · rename_i digits
        cases result
        simp only [Bool.and_eq_true, decide_eq_true_eq] at digits
        exact ⟨high, low, rfl, ⟨digits.1.1, digits.1.2, digits.2⟩, rfl⟩
      · cases result
    · cases result
  · rintro ⟨high, low, rfl, ⟨lower, upper, digit⟩, rfl⟩
    simp only [readHexEscape, lower, upper, digit, decide_true, Bool.and_self, if_true, Piece.value]

theorem readUnicodeEscape_ok {input value rest : Text} :
    readUnicodeEscape input = .ok (value, rest) ↔
      ∃ inner, inner ++ '\x7d' :: rest = input ∧ (Piece.unicode inner).Fits rest ∧
        (Piece.unicode inner).value = value := by
  constructor
  · intro result
    unfold readUnicodeEscape at result
    split at result
    · cases result
    · rename_i inner next closed
      obtain ⟨spelled, avoids⟩ := (cut_eq_some (List.cons_ne_nil _ _)).mp closed
      simp only [Bool.and_eq_true, decide_eq_true_eq] at result
      split at result
      · rename_i digits
        split at result
        · rename_i scalar
          cases result
          have fits : (Piece.unicode inner).Fits rest :=
            ⟨avoids_singleton.mp avoids, digits.1.1, digits.1.2, digits.2, scalar⟩
          exact ⟨inner, by simpa using spelled, fits, rfl⟩
        · cases result
      · cases result
  · rintro ⟨inner, rfl, ⟨avoids, nonempty, short, digits, scalar⟩, rfl⟩
    have closed : cut ['\x7d'] (inner ++ '\x7d' :: rest) = some (inner, rest) :=
      (cut_eq_some (List.cons_ne_nil _ _)).mpr ⟨by simp, avoids_singleton.mpr avoids⟩
    simp only [readUnicodeEscape, closed, nonempty, short, digits, scalar, decide_true, Bool.and_self, if_true,
      Piece.value]

theorem readNewline_ok {input rest : Text} :
    input.dropWhile isSpace = rest ↔
      ∃ spaces, spaces ++ rest = input ∧ ∀ crlf, (Piece.newline crlf spaces).Fits rest := by
  constructor
  · rintro rfl
    obtain ⟨spelled, spaces, stops⟩ := takeWhile_dropWhile.mp ⟨rfl, rfl⟩
    exact ⟨_, spelled, fun _ => ⟨spaces, stops⟩⟩
  · rintro ⟨spaces, rfl, fits⟩
    obtain ⟨inside, stops⟩ := fits true
    exact (takeWhile_dropWhile.mpr ⟨rfl, inside, stops⟩).2

theorem readEscape_ok {input value rest : Text} :
    readEscape input = .ok (value, rest) ↔
      ∃ piece : Piece, piece.text ++ rest = '\\' :: input ∧ piece.Fits rest ∧ piece.value = value := by
  constructor
  · intro result
    unfold readEscape at result
    split at result
    · cases result
    · rename_i escape input
      split at result
      · rename_i c known
        cases result
        exact ⟨.simple escape c, rfl, known, rfl⟩
      · simp only [Bool.and_eq_true, decide_eq_true_eq] at result
        split_ifs at result with hex unicode feed crlf
        · subst hex
          obtain ⟨high, low, rfl, fits, same⟩ := readHexEscape_ok.mp result
          exact ⟨.hex high low, rfl, fits, same⟩
        · obtain ⟨rfl, brace⟩ := unicode
          obtain ⟨input, rfl⟩ := List.head?_eq_some_iff.mp brace
          obtain ⟨inner, spelled, fits, same⟩ := readUnicodeEscape_ok.mp result
          refine ⟨.unicode inner, ?_, fits, same⟩
          simpa [Piece.text] using spelled
        · subst feed
          cases result
          obtain ⟨spaces, spelled, fits⟩ := readNewline_ok.mp rfl
          exact ⟨.newline false spaces, by simp [Piece.text, spelled], fits false, rfl⟩
        · obtain ⟨rfl, lineFeed⟩ := crlf
          obtain ⟨input, rfl⟩ := List.head?_eq_some_iff.mp lineFeed
          cases result
          obtain ⟨spaces, spelled, fits⟩ := readNewline_ok.mp rfl
          exact ⟨.newline true spaces, by simpa [Piece.text] using spelled, fits true, rfl⟩
  · rintro ⟨piece, spelled, fits, rfl⟩
    cases piece with
    | plain c =>
      cases spelled
      exact absurd rfl fits.2
    | simple letter value =>
      cases spelled
      have known : simpleEscapes letter = some value := fits
      show readEscape (letter :: rest) = _
      simp only [readEscape, known, Piece.value]
    | hex high low =>
      cases spelled
      exact readHexEscape_ok.mpr ⟨high, low, rfl, fits, rfl⟩
    | unicode inner =>
      have behind : input = 'u' :: '\x7b' :: (inner ++ '\x7d' :: rest) := by simpa [Piece.text] using spelled.symm
      subst behind
      exact readUnicodeEscape_ok.mpr ⟨inner, rfl, fits, rfl⟩
    | newline crlf spaces =>
      have dropped : (spaces ++ rest).dropWhile isSpace = rest := readNewline_ok.mpr ⟨spaces, rfl, fun _ => fits⟩
      cases crlf with
      | false =>
        have behind : input = '\n' :: (spaces ++ rest) := by simpa [Piece.text] using spelled.symm
        subst behind
        show Except.ok ([], (spaces ++ rest).dropWhile isSpace) = _
        rw [dropped]
        rfl
      | true =>
        have behind : input = '\r' :: '\n' :: (spaces ++ rest) := by simpa [Piece.text] using spelled.symm
        subst behind
        show Except.ok ([], (spaces ++ rest).dropWhile isSpace) = _
        rw [dropped]
        rfl

theorem Piece.text_cases (piece : Piece) : (∃ c, piece = .plain c) ∨ ∃ tail, piece.text = '\\' :: tail := by
  cases piece with
  | plain c => exact .inl ⟨c, rfl⟩
  | _ => exact .inr ⟨_, rfl⟩

theorem Piece.text_ne_nil (piece : Piece) : piece.text ≠ [] := by
  cases piece <;> exact List.cons_ne_nil _ _

theorem stringTurn_ok (whole input value rest : Text) :
    stringTurn whole input = .ok (some (value, rest)) ↔
      ∃ piece : Piece, piece.text ++ rest = input ∧ piece.Fits rest ∧ piece.value = value := by
  unfold stringTurn
  split
  · refine iff_of_false (fun result => by cases result) ?_
    rintro ⟨piece, spelled, _⟩
    exact piece.text_ne_nil (List.append_eq_nil_iff.mp spelled).1
  · refine iff_of_false (fun result => by cases result) ?_
    rintro ⟨piece, spelled, fits, _⟩
    rcases piece.text_cases with ⟨c, rfl⟩ | ⟨tail, escaped⟩
    · cases spelled
      exact fits.1 rfl
    · rw [escaped] at spelled
      cases spelled
  · rename_i input
    rw [← readEscape_ok]
    cases readEscape input <;> simp
  · rename_i c input unquoted unescaped
    constructor
    · intro result
      cases result
      exact ⟨.plain c, rfl, ⟨unquoted, unescaped⟩, rfl⟩
    · rintro ⟨piece, spelled, fits, rfl⟩
      rcases piece.text_cases with ⟨c, rfl⟩ | ⟨tail, escaped⟩
      · cases spelled
        rfl
      · rw [escaped] at spelled
        cases spelled
        exact absurd rfl unescaped

theorem stringTurn_none {whole left : Text} : stringTurn whole left = .ok none ↔ ∃ rest, left = '"' :: rest := by
  unfold stringTurn
  split
  · simp
  · simp
  · rename_i input
    cases readEscape input <;> simp
  · rename_i c input unquoted _
    refine iff_of_false (fun result => by cases result) ?_
    rintro ⟨rest, same⟩
    cases same
    exact unquoted rfl

theorem readRustString_ok {whole content rest : Text} {token : Token} :
    readRustString whole content = .ok (token, rest) ↔
      ∃ pieces : List Piece, pieces.flatMap Piece.text ++ '"' :: rest = content ∧
        Placed Piece.text Piece.Fits ('"' :: rest) pieces ∧ token = ⟨.string, pieces.flatMap Piece.value⟩ := by
  have read := fun values left => @readAll_ok _ _ _ _ Piece.text Piece.Fits (stringTurn whole) Piece.value
    (stringTurn_ok whole) (fun piece _ _ => piece.text_ne_nil) (content.length + 1) content left values
    (Nat.lt_succ_self _)
  unfold readRustString
  constructor
  · intro result
    split at result
    · cases result
    · rename_i values left outcome
      obtain ⟨stops, pieces, spelled, placed, rfl⟩ := (read values left).mp outcome
      obtain ⟨next, rfl⟩ := stringTurn_none.mp stops
      cases result
      exact ⟨pieces, spelled, placed, by rw [List.flatMap_def]⟩
  · rintro ⟨pieces, spelled, placed, rfl⟩
    have outcome := (read _ _).mpr ⟨stringTurn_none.mpr ⟨rest, rfl⟩, pieces, spelled, placed, rfl⟩
    rw [outcome, List.flatMap_def]
    rfl

/-- The text of a block comment from a place inside it on, where it is open `depth` times. -/
inductive Comment : Nat → Text → Prop where
  | ended : Comment 0 []
  | opens {depth : Nat} {body : Text} (inner : Comment (depth + 2) body) : Comment (depth + 1) ('/' :: '*' :: body)
  | closes {depth : Nat} {body : Text} (outer : Comment depth body) : Comment (depth + 1) ('*' :: '/' :: body)
  | other {depth : Nat} {c : Char} {body : Text} (unopened : ∀ tail, c :: body ≠ '/' :: '*' :: tail)
      (unclosed : ∀ tail, c :: body ≠ '*' :: '/' :: tail) (next : Comment (depth + 1) body) :
      Comment (depth + 1) (c :: body)

theorem Comment.skips {depth : Nat} {body : Text} (comment : Comment depth body) (rest : Text) (inside : 0 < depth) :
    skipBlock depth (body ++ rest) = some rest := by
  induction comment with
  | ended => exact absurd inside (Nat.lt_irrefl 0)
  | opens inner ih =>
    show skipBlock _ ('/' :: '*' :: (_ ++ rest)) = _
    rw [skipBlock]
    exact ih (Nat.succ_pos _)
  | @closes depth body outer ih =>
    show skipBlock _ ('*' :: '/' :: (body ++ rest)) = _
    rw [skipBlock]
    split
    · have outermost : depth = 0 := by omega
      subst outermost
      cases outer
      rfl
    · exact ih (by omega)
  | @other depth c body unopened unclosed next ih =>
    -- the comment goes on for at least two characters, so what follows it is not looked at
    obtain ⟨second, body, rfl⟩ : ∃ second tail, body = second :: tail := by cases next <;> exact ⟨_, _, rfl⟩
    show skipBlock _ (c :: second :: (body ++ rest)) = _
    rw [skipBlock]
    · exact ih (Nat.succ_pos _)
    · rintro tail rfl same
      cases same
      exact unopened _ rfl
    · rintro tail rfl same
      cases same
      exact unclosed _ rfl

theorem skipBlock_some {depth : Nat} {input rest : Text} (skipped : skipBlock depth input = some rest)
    (inside : 0 < depth) : ∃ body, Comment depth body ∧ body ++ rest = input := by
  fun_induction skipBlock depth input with
  | case1 depth input ih =>
    obtain ⟨body, comment, rfl⟩ := ih skipped (Nat.succ_pos _)
    obtain ⟨depth, rfl⟩ := Nat.exists_eq_succ_of_ne_zero (Nat.pos_iff_ne_zero.mp inside)
    exact ⟨_, .opens comment, rfl⟩
  | case2 depth input last =>
    cases skipped
    have one : depth = 1 := by omega
    subst one
    exact ⟨['*', '/'], .closes .ended, rfl⟩
  | case3 depth input more ih =>
    obtain ⟨body, comment, rfl⟩ := ih skipped (by omega)
    obtain ⟨depth, rfl⟩ := Nat.exists_eq_succ_of_ne_zero (Nat.pos_iff_ne_zero.mp inside)
    exact ⟨_, .closes comment, rfl⟩
  | case4 depth c input unopened unclosed ih =>
    obtain ⟨body, comment, rfl⟩ := ih skipped inside
    obtain ⟨depth, rfl⟩ := Nat.exists_eq_succ_of_ne_zero (Nat.pos_iff_ne_zero.mp inside)
    refine ⟨c :: body, .other ?_ ?_ comment, rfl⟩
    · rintro tail same
      cases same
      exact unopened _ rfl rfl
    · rintro tail same
      cases same
      exact unclosed _ rfl rfl
  | case5 depth => cases skipped

theorem rustRawStringHashes_some {source : Text} {hashes : Nat} :
    rustRawStringHashes source = some hashes ↔
      ∃ content, 'r' :: (List.replicate hashes '#' ++ '"' :: content) = source := by
  constructor
  · intro counted
    unfold rustRawStringHashes at counted
    split at counted
    · rename_i rest
      split at counted
      · rename_i quote
        cases counted
        obtain ⟨content, behind⟩ := List.head?_eq_some_iff.mp quote
        obtain ⟨spelled, run, _⟩ := takeWhile_dropWhile.mp ⟨rfl, behind⟩
        have hashes : rest.takeWhile (· = '#') = List.replicate (rest.takeWhile (· = '#')).length '#' :=
          List.eq_replicate_length.mpr fun c member => by simpa using run c member
        exact ⟨content, by rw [← hashes, spelled]⟩
      · cases counted
    · cases counted
  · rintro ⟨content, rfl⟩
    have run : ∀ c ∈ List.replicate hashes '#', decide (c = '#') = true := by
      intro c member
      rw [List.eq_of_mem_replicate member]
      rfl
    have stops : ∀ c, ('"' :: content).head? = some c → decide (c = '#') = false := by
      intro c first
      cases first
      rfl
    obtain ⟨taken, dropped⟩ := takeWhile_dropWhile.mpr ⟨rfl, run, stops⟩
    simp only [rustRawStringHashes, taken, dropped, List.head?_cons, if_true, List.length_replicate]

inductive Lexeme where
  | space (c : Char)
  | line (body : Text) (ended : Bool)
  | block (body : Text)
  | raw (hashes : Nat) (content : Text)
  | quoted (pieces : List Piece)
  | identifier (name : Text)
  | number (digits : Text)
  | punctuation (c : Char)

namespace Lexeme

def text : Lexeme → Text
  | space c => [c]
  | line body ended => '/' :: '/' :: (body ++ if ended then ['\n'] else [])
  | block body => '/' :: '*' :: body
  | raw hashes content => 'r' :: (List.replicate hashes '#' ++ '"' :: (content ++ terminator hashes))
  | quoted pieces => '"' :: (pieces.flatMap Piece.text ++ ['"'])
  | identifier name => name
  | number digits => digits
  | punctuation c => [c]

def token : Lexeme → Option Token
  | space _ | line .. | block _ => none
  | raw _ content => some ⟨.string, content⟩
  | quoted pieces => some ⟨.string, pieces.flatMap Piece.value⟩
  | identifier name => some ⟨.identifier, name⟩
  | number digits => some ⟨.number, digits⟩
  | punctuation c => some ⟨.punctuation, [c]⟩

def Word (start : Char → Bool) (word rest : Text) : Prop :=
  (∃ c more, word = c :: more ∧ start c = true ∧ ∀ c ∈ more, wordChar c = true) ∧
    ∀ c, rest.head? = some c → wordChar c = false

def Prefixed (source : Text) : Prop :=
  ∃ c rest, c :: rest = source ∧ (c = 'b' ∨ c = 'c') ∧
    (rest.head? = some '"' ∨ ∃ hashes content, 'r' :: (List.replicate hashes '#' ++ '"' :: content) = rest)

def Fits : Lexeme → Text → Prop
  | space c, _ => isSpace c = true
  | line body ended, rest => '\n' ∉ body ∧ (ended = false → rest = [])
  | block body, _ => Comment 1 body
  | raw hashes content, _ => Avoids (terminator hashes) content
  | quoted pieces, rest => Placed Piece.text Piece.Fits ('"' :: rest) pieces
  | identifier name, rest =>
    Word wordStart name rest ∧ ¬ Prefixed (name ++ rest) ∧
      ¬ ∃ hashes content, 'r' :: (List.replicate hashes '#' ++ '"' :: content) = name ++ rest
  | number digits, rest => Word Char.isDigit digits rest
  | punctuation c, rest =>
    c ∈ rustPunctuation ∧ ¬ (c = '/' ∧ (rest.head? = some '/' ∨ rest.head? = some '*')) ∧
      ¬ (c = '*' ∧ rest.head? = some '/')

theorem text_ne_nil {lexeme : Lexeme} {rest : Text} (fits : lexeme.Fits rest) : lexeme.text ≠ [] := by
  cases lexeme with
  | identifier name =>
    obtain ⟨⟨⟨c, more, rfl, _⟩, _⟩, _⟩ := fits
    exact List.cons_ne_nil _ _
  | number digits =>
    obtain ⟨⟨c, more, rfl, _⟩, _⟩ := fits
    exact List.cons_ne_nil _ _
  | _ => exact List.cons_ne_nil _ _

end Lexeme

theorem word_start {c : Char} (start : wordStart c = true ∨ c.isDigit = true) :
    isSpace c = false ∧ c ≠ '/' ∧ c ≠ '*' ∧ c ≠ '"' ∧ c ≠ '\'' ∧ (c.isDigit = true → wordStart c = false) := by
  have small : c.toNat < 128 := by
    delta wordStart Char.isAlpha Char.isUpper Char.isLower Char.isDigit at start
    simp only [Bool.or_eq_true, Bool.and_eq_true, decide_eq_true_eq, ge_iff_le, UInt32.le_iff_toNat_le] at start
    have value : c.toNat = c.val.toNat := rfl
    have Z : 'Z'.val.toNat = 90 := rfl
    have z : 'z'.val.toNat = 122 := rfl
    have nine : '9'.val.toNat = 57 := rfl
    rcases start with ((⟨_, upper⟩ | ⟨_, lower⟩) | rfl) | ⟨_, digit⟩
    · omega
    · omega
    · decide
    · omega
  have table : ∀ n : Fin 128, wordStart (Char.ofNat n) = true ∨ (Char.ofNat n).isDigit = true →
      isSpace (Char.ofNat n) = false ∧ Char.ofNat n ≠ '/' ∧ Char.ofNat n ≠ '*' ∧ Char.ofNat n ≠ '"' ∧
        Char.ofNat n ≠ '\'' ∧ ((Char.ofNat n).isDigit = true → wordStart (Char.ofNat n) = false) := by decide
  have here := table ⟨c.toNat, small⟩
  rw [Char.ofNat_toNat] at here
  exact here start

theorem word_ok {start : Char → Bool} {c : Char} {input rest : Text} {word : Text} (first : start c = true) :
    (c :: input.takeWhile wordChar = word ∧ input.dropWhile wordChar = rest) ↔
      word ++ rest = c :: input ∧ Lexeme.Word start word rest := by
  constructor
  · rintro ⟨rfl, rfl⟩
    obtain ⟨spelled, inside, stops⟩ := takeWhile_dropWhile.mp ⟨rfl, rfl⟩
    exact ⟨by rw [List.cons_append, spelled], ⟨_, _, rfl, first, inside⟩, stops⟩
  · rintro ⟨spelled, ⟨d, more, rfl, _, inside⟩, stops⟩
    cases spelled
    obtain ⟨taken, dropped⟩ := takeWhile_dropWhile.mpr ⟨rfl, inside, stops⟩
    exact ⟨congrArg (c :: ·) taken, dropped⟩

theorem readRustRawString_ok {hashes : Nat} {content rest : Text} {token : Token} :
    readRustRawString ('r' :: (List.replicate hashes '#' ++ '"' :: content)) hashes = .ok (token, rest) ↔
      ∃ value, value ++ terminator hashes ++ rest = content ∧ Avoids (terminator hashes) value ∧
        token = ⟨.string, value⟩ := by
  have behind : ('r' :: (List.replicate hashes '#' ++ '"' :: content)).drop (hashes + 2) = content := by
    rw [List.drop_succ_cons, List.drop_append, List.length_replicate, List.drop_eq_nil_of_le (by simp)]
    simp
  unfold readRustRawString
  rw [behind]
  constructor
  · intro result
    split at result
    · cases result
    · rename_i value next found
      cases result
      obtain ⟨spelled, avoids⟩ := (cut_eq_some (List.cons_ne_nil _ _)).mp found
      exact ⟨value, spelled, avoids, rfl⟩
  · rintro ⟨value, spelled, avoids, rfl⟩
    have found : cut (terminator hashes) content = some (value, rest) :=
      (cut_eq_some (List.cons_ne_nil _ _)).mpr ⟨spelled, avoids⟩
    rw [found]

theorem not_prefixed {c : Char} {rest : Text}
    (plain : ¬ ((c = 'b' ∨ c = 'c') ∧ (rest.head? = some '"' ∨ (rustRawStringHashes rest).isSome = true))) :
    ¬ Lexeme.Prefixed (c :: rest) := by
  rintro ⟨_, _, same, letter, literal⟩
  cases same
  refine plain ⟨letter, literal.imp_right ?_⟩
  rintro ⟨hashes, content, spelled⟩
  rw [rustRawStringHashes_some.mpr ⟨content, spelled⟩]
  rfl

theorem readToken_sound {c : Char} {input rest : Text} {token : Token}
    (unlined : ¬ (c = '/' ∧ (input.head? = some '/' ∨ input.head? = some '*')))
    (unclosed : ¬ (c = '*' ∧ input.head? = some '/')) (result : readToken c input = .ok (token, rest)) :
    ∃ lexeme : Lexeme, lexeme.text ++ rest = c :: input ∧ lexeme.Fits rest ∧ lexeme.token = some token := by
  unfold readToken at result
  split at result
  · rename_i hashes counted
    obtain ⟨content, same⟩ := rustRawStringHashes_some.mp counted
    rw [← same] at result ⊢
    obtain ⟨value, spelled, avoids, rfl⟩ := readRustRawString_ok.mp result
    refine ⟨.raw hashes value, ?_, avoids, rfl⟩
    rw [← spelled]
    simp [Lexeme.text]
  · rename_i unraw
    simp only [Bool.and_eq_true, Bool.or_eq_true, decide_eq_true_eq] at result
    split_ifs at result with literal quote apostrophe start digit listed
    · subst quote
      obtain ⟨pieces, spelled, placed, rfl⟩ := readRustString_ok.mp result
      refine ⟨.quoted pieces, ?_, placed, rfl⟩
      rw [← spelled]
      simp [Lexeme.text]
    · cases result
      obtain ⟨spelled, word⟩ := (word_ok start).mp ⟨rfl, rfl⟩
      refine ⟨.identifier _, spelled, ⟨word, ?_, ?_⟩, rfl⟩
      · rw [spelled]
        exact not_prefixed literal
      · rw [spelled]
        rintro ⟨hashes, content, same⟩
        rw [rustRawStringHashes_some.mpr ⟨content, same⟩] at unraw
        cases unraw
    · cases result
      obtain ⟨spelled, word⟩ := (word_ok digit).mp ⟨rfl, rfl⟩
      exact ⟨.number _, spelled, word, rfl⟩
    · cases result
      exact ⟨.punctuation c, rfl, ⟨List.contains_iff_mem.mp listed, unlined, unclosed⟩, rfl⟩

theorem lexTurn_sound {source rest : Text} {token : Option Token}
    (result : lexTurn source = .ok (some (token, rest))) :
    ∃ lexeme : Lexeme, lexeme.text ++ rest = source ∧ lexeme.Fits rest ∧ lexeme.token = token := by
  unfold lexTurn at result
  split at result
  · cases result
  · rename_i c input
    simp only [Bool.and_eq_true, decide_eq_true_eq] at result
    split_ifs at result with space line block unmatched
    · cases result
      exact ⟨.space c, rfl, space, rfl⟩
    · obtain ⟨rfl, second⟩ := line
      obtain ⟨input, rfl⟩ := List.head?_eq_some_iff.mp second
      split at result
      · rename_i unended
        cases result
        exact ⟨.line input false, by simp [Lexeme.text], ⟨cut_singleton_eq_none.mp unended, fun _ => rfl⟩, rfl⟩
      · rename_i body next found
        cases result
        obtain ⟨spelled, avoids⟩ := (cut_eq_some (List.cons_ne_nil _ _)).mp found
        refine ⟨.line body true, ?_, ⟨avoids_singleton.mp avoids, Bool.noConfusion⟩, rfl⟩
        simpa [Lexeme.text] using spelled
    · obtain ⟨rfl, second⟩ := block
      obtain ⟨input, rfl⟩ := List.head?_eq_some_iff.mp second
      split at result
      · cases result
      · rename_i next skipped
        cases result
        obtain ⟨body, comment, spelled⟩ := skipBlock_some skipped Nat.one_pos
        exact ⟨.block body, by simpa [Lexeme.text] using spelled, comment, rfl⟩
    · split at result
      · cases result
      · rename_i read next found
        cases result
        refine readToken_sound ?_ unmatched found
        rintro ⟨slash, second | second⟩
        · exact line ⟨slash, second⟩
        · exact block ⟨slash, second⟩

theorem rustRawStringHashes_none {source : Text}
    (unraw : ¬ ∃ hashes content, 'r' :: (List.replicate hashes '#' ++ '"' :: content) = source) :
    rustRawStringHashes source = none := by
  cases counted : rustRawStringHashes source with
  | none => rfl
  | some hashes =>
    obtain ⟨content, spelled⟩ := rustRawStringHashes_some.mp counted
    exact absurd ⟨hashes, content, spelled⟩ unraw

theorem rustRawStringHashes_other {c : Char} (other : c ≠ 'r') (rest : Text) :
    rustRawStringHashes (c :: rest) = none := by
  apply rustRawStringHashes_none
  rintro ⟨hashes, content, spelled⟩
  cases spelled
  exact other rfl

theorem plain_of_not_prefixed {c : Char} {rest : Text} (plain : ¬ Lexeme.Prefixed (c :: rest)) :
    ¬ ((c = 'b' ∨ c = 'c') ∧ (rest.head? = some '"' ∨ (rustRawStringHashes rest).isSome = true)) := by
  rintro ⟨letter, literal⟩
  refine plain ⟨c, rest, rfl, letter, literal.imp_right fun raw => ?_⟩
  obtain ⟨hashes, counted⟩ := Option.isSome_iff_exists.mp raw
  obtain ⟨content, spelled⟩ := rustRawStringHashes_some.mp counted
  exact ⟨hashes, content, spelled⟩

theorem punctuation_start {c : Char} (listed : c ∈ rustPunctuation) :
    isSpace c = false ∧ c ≠ 'r' ∧ c ≠ 'b' ∧ c ≠ 'c' ∧ c ≠ '"' ∧ c ≠ '\'' ∧ wordStart c = false ∧
      c.isDigit = false := by
  have all : (rustPunctuation.all fun c => isSpace c = false ∧ c ≠ 'r' ∧ c ≠ 'b' ∧ c ≠ 'c' ∧ c ≠ '"' ∧ c ≠ '\'' ∧
      wordStart c = false ∧ c.isDigit = false) = true := by decide
  exact of_decide_eq_true (List.all_eq_true.mp all c listed)

theorem lexTurn_readToken {c : Char} {input rest : Text} {token : Token} (space : isSpace c = false)
    (unlined : ¬ (c = '/' ∧ (input.head? = some '/' ∨ input.head? = some '*')))
    (unclosed : ¬ (c = '*' ∧ input.head? = some '/')) (read : readToken c input = .ok (token, rest)) :
    lexTurn (c :: input) = .ok (some (some token, rest)) := by
  have line : ¬ (c = '/' ∧ input.head? = some '/') := fun here => unlined ⟨here.1, .inl here.2⟩
  have block : ¬ (c = '/' ∧ input.head? = some '*') := fun here => unlined ⟨here.1, .inr here.2⟩
  simp only [lexTurn, space, Bool.and_eq_true, decide_eq_true_eq, Bool.false_eq_true, if_false, line, block, unclosed,
    read]

theorem readToken_word {c : Char} {input : Text} (start : wordStart c = true ∨ c.isDigit = true)
    (unraw : rustRawStringHashes (c :: input) = none)
    (plain : ¬ ((c = 'b' ∨ c = 'c') ∧ (input.head? = some '"' ∨ (rustRawStringHashes input).isSome = true))) :
    readToken c input =
      .ok (⟨if wordStart c then .identifier else .number, c :: input.takeWhile wordChar⟩,
        input.dropWhile wordChar) := by
  obtain ⟨_, _, _, quote, apostrophe, _⟩ := word_start start
  simp only [readToken, unraw, Bool.and_eq_true, Bool.or_eq_true, decide_eq_true_eq, plain, quote, apostrophe, if_false]
  cases known : wordStart c with
  | true => rfl
  | false =>
    have digit : c.isDigit = true := by simpa [known] using start
    simp only [digit, Bool.false_eq_true, if_false, if_true]

theorem lexTurn_complete {lexeme : Lexeme} {rest : Text} (fits : lexeme.Fits rest) :
    lexTurn (lexeme.text ++ rest) = .ok (some (lexeme.token, rest)) := by
  cases lexeme with
  | space c =>
    have space : isSpace c = true := fits
    simp only [Lexeme.text, List.singleton_append, lexTurn, space, if_true]
    rfl
  | line body ended =>
    obtain ⟨inside, last⟩ := fits
    cases ended with
    | false =>
      rw [last rfl]
      have unended : cut ['\n'] body = none := cut_singleton_eq_none.mpr inside
      have spelled : (Lexeme.line body false).text ++ [] = '/' :: '/' :: body := by simp [Lexeme.text]
      rw [spelled]
      simp [lexTurn, unended, show isSpace '/' = false by decide]
      rfl
    | true =>
      have found : cut ['\n'] (body ++ '\n' :: rest) = some (body, rest) :=
        (cut_eq_some (List.cons_ne_nil _ _)).mpr ⟨by simp, avoids_singleton.mpr inside⟩
      have spelled : (Lexeme.line body true).text ++ rest = '/' :: '/' :: (body ++ '\n' :: rest) := by
        simp [Lexeme.text]
      rw [spelled]
      simp [lexTurn, found, show isSpace '/' = false by decide]
      rfl
  | block body =>
    have skipped : skipBlock 1 (body ++ rest) = some rest := Comment.skips fits rest Nat.one_pos
    show lexTurn ('/' :: '*' :: (body ++ rest)) = _
    simp [lexTurn, skipped, show isSpace '/' = false by decide]
    rfl
  | raw hashes content =>
    have spelled : (Lexeme.raw hashes content).text ++ rest =
        'r' :: (List.replicate hashes '#' ++ '"' :: (content ++ terminator hashes ++ rest)) := by simp [Lexeme.text]
    have counted := (@rustRawStringHashes_some _ hashes).mpr ⟨content ++ terminator hashes ++ rest, rfl⟩
    have read := (@readRustRawString_ok hashes _ rest _).mpr ⟨content, rfl, fits, rfl⟩
    rw [spelled]
    refine lexTurn_readToken (by decide) (fun slash => ?_) (fun star => ?_) ?_
    · exact absurd slash.1 (by decide)
    · exact absurd star.1 (by decide)
    · rw [readToken, counted]
      exact read
  | quoted pieces =>
    have spelled : (Lexeme.quoted pieces).text ++ rest = '"' :: (pieces.flatMap Piece.text ++ '"' :: rest) := by
      simp [Lexeme.text]
    have read := fun whole => (@readRustString_ok whole _ rest _).mpr ⟨pieces, rfl, fits, rfl⟩
    rw [spelled]
    refine lexTurn_readToken (by decide) (fun slash => ?_) (fun star => ?_) ?_
    · exact absurd slash.1 (by decide)
    · exact absurd star.1 (by decide)
    · rw [readToken, rustRawStringHashes_other (by decide)]
      exact read _
  | identifier name =>
    obtain ⟨word, plain, unraw⟩ := fits
    obtain ⟨⟨c, more, rfl, start, inside⟩, stops⟩ := word
    obtain ⟨space, slash, star, _⟩ := word_start (.inl start)
    obtain ⟨taken, dropped⟩ := takeWhile_dropWhile.mpr ⟨rfl, inside, stops⟩
    have read := @readToken_word c (more ++ rest) (.inl start) (rustRawStringHashes_none unraw)
      (plain_of_not_prefixed plain)
    rw [start, taken, dropped] at read
    exact lexTurn_readToken space (fun here => slash here.1) (fun here => star here.1) read
  | number digits =>
    obtain ⟨⟨c, more, rfl, digit, inside⟩, stops⟩ := fits
    obtain ⟨space, slash, star, _, _, other⟩ := word_start (.inr digit)
    obtain ⟨taken, dropped⟩ := takeWhile_dropWhile.mpr ⟨rfl, inside, stops⟩
    have letters : c ≠ 'r' ∧ c ≠ 'b' ∧ c ≠ 'c' := by
      refine ⟨?_, ?_, ?_⟩ <;> rintro rfl <;> cases digit
    have read := @readToken_word c (more ++ rest) (.inr digit) (rustRawStringHashes_other letters.1 _)
      fun here => here.1.elim letters.2.1 letters.2.2
    rw [other digit, taken, dropped] at read
    exact lexTurn_readToken space (fun here => slash here.1) (fun here => star here.1) read
  | punctuation c =>
    obtain ⟨listed, unlined, unclosed⟩ := fits
    obtain ⟨space, r, b, c', quote, apostrophe, word, digit⟩ := punctuation_start listed
    have plain : ¬ ((c = 'b' ∨ c = 'c') ∧ (rest.head? = some '"' ∨ (rustRawStringHashes rest).isSome = true)) :=
      fun here => here.1.elim b c'
    show lexTurn (c :: rest) = _
    refine lexTurn_readToken space unlined unclosed ?_
    simp only [readToken, rustRawStringHashes_other r, Bool.and_eq_true, Bool.or_eq_true, decide_eq_true_eq, plain,
      quote, apostrophe, word, digit, List.contains_iff_mem, listed, Bool.false_eq_true, if_false, if_true]

theorem lexTurn_ok (source : Text) (token : Option Token) (rest : Text) :
    lexTurn source = .ok (some (token, rest)) ↔
      ∃ lexeme : Lexeme, lexeme.text ++ rest = source ∧ lexeme.Fits rest ∧ lexeme.token = token := by
  refine ⟨lexTurn_sound, ?_⟩
  rintro ⟨lexeme, rfl, fits, rfl⟩
  exact lexTurn_complete fits

theorem lexTurn_none {left : Text} : lexTurn left = .ok none ↔ left = [] := by
  refine ⟨fun stops => ?_, fun empty => by rw [empty]; rfl⟩
  unfold lexTurn at stops
  split at stops
  · rfl
  · split_ifs at stops
    · cases stops
    · split at stops <;> cases stops
    · split at stops <;> cases stops
    · split at stops <;> cases stops

/-- The lexer accepts exactly the texts of lexemes each of which can stand where it does. -/
theorem lexRustHelper_ok {source : Text} {label : String} {tokens : List Token} :
    lexRustHelper source label = .ok tokens ↔
      ∃ lexemes : List Lexeme, lexemes.flatMap Lexeme.text = source ∧ Placed Lexeme.text Lexeme.Fits [] lexemes ∧
        lexemes.filterMap Lexeme.token = tokens := by
  have read := fun left read => @readAll_ok _ _ _ _ Lexeme.text Lexeme.Fits lexTurn Lexeme.token lexTurn_ok
    (fun _ _ => Lexeme.text_ne_nil) (source.length + 1) source left read (Nat.lt_succ_self _)
  unfold lexRustHelper
  constructor
  · intro result
    split at result
    · cases result
    · rename_i values left outcome
      cases result
      obtain ⟨stops, lexemes, spelled, placed, rfl⟩ := (read left values).mp outcome
      rw [lexTurn_none.mp stops, List.append_nil] at spelled
      rw [lexTurn_none.mp stops] at placed
      refine ⟨lexemes, spelled, placed, ?_⟩
      rw [List.filterMap_map]
      rfl
  · rintro ⟨lexemes, spelled, placed, rfl⟩
    have outcome := (read [] _).mpr ⟨rfl, lexemes, by rw [List.append_nil, spelled], placed, rfl⟩
    rw [outcome]
    simp only [List.filterMap_map]
    rfl

example : lexRustHelper "a /* b /* c */ */ r#\"x\"y\"# // z".toList "mod.rs" =
    .ok [⟨.identifier, ['a']⟩, ⟨.string, ['x', '"', 'y']⟩] := rfl

end Koine.SupplyChain.Rust
