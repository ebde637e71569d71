import Koine.SupplyChain.Lexemes

namespace Koine.SupplyChain

open Library

/-! ### Written commands -/

structure Chain (γ α : Type) where
  first : α
  more : List (γ × α)

namespace Chain

variable {γ α β σ : Type}

def items (chain : Chain γ α) : List α := chain.first :: chain.more.map (·.2)

def spell (gap : γ → List β) (item : α → List β) (chain : Chain γ α) : List β :=
  item chain.first ++ chain.more.flatMap fun next => gap next.1 ++ item next.2

theorem spell_flatMap {δ : Type} (gap : γ → List β) (item : α → List β) (f : β → List δ) (chain : Chain γ α) :
    (chain.spell gap item).flatMap f =
      chain.spell (fun next => (gap next).flatMap f) (fun next => (item next).flatMap f) := by
  simp only [spell, List.flatMap_append, List.flatMap_assoc]

theorem forall_mem_spell {gap : γ → List β} {item : α → List β} {P : β → Prop} (gaps : ∀ next, ∀ b ∈ gap next, P b)
    (items : ∀ next, ∀ b ∈ item next, P b) (chain : Chain γ α) : ∀ b ∈ chain.spell gap item, P b := by
  intro b member
  rcases List.mem_append.mp member with member | member
  · exact items _ b member
  · obtain ⟨next, _, member⟩ := List.mem_flatMap.mp member
    rcases List.mem_append.mp member with member | member
    · exact gaps _ b member
    · exact items _ b member

theorem foldl_spell (gap : γ → List β) (item : α → List β) (act : σ → β → σ) (chain : Chain γ α) (s : σ) :
    (chain.spell gap item).foldl act s =
      chain.more.foldl (fun s next => (item next.2).foldl act ((gap next.1).foldl act s))
        ((item chain.first).foldl act s) := by
  simp only [spell, List.foldl_append, List.foldl_flatMap]

end Chain

/-- A character that may stand unquoted anywhere in a word but as a `#` at its start. -/
def Bare (c : Char) : Prop := ¬ Blank c ∧ ¬ LineEnd c ∧ ¬ Operator c ∧ ¬ Quote c ∧ c ≠ '\\'

/-- Characters between double quotes, each with whether it is escaped: the double quote, the backslash, the
    backtick and the dollar of `$(` are. -/
def Marked : List (Bool × Char) → Prop
  | [] => True
  | (true, c) :: rest => (c = '"' ∨ c = '\\' ∨ c = '\x60' ∨ c = '$') ∧ Marked rest
  | (false, c) :: rest =>
    (c ≠ '"' ∧ c ≠ '\\' ∧ c ≠ '\x60' ∧ (c = '$' → rest.head?.map (·.2) ≠ some '(')) ∧ Marked rest

inductive Piece where
  | run (chars : Text) (nonempty : chars ≠ []) (bare : ∀ c ∈ chars, Bare c)
  | escaped (c : Char) (kept : ¬ LineEnd c)
  | single (chars : Text) (inside : '\'' ∉ chars)
  | double (marks : List (Bool × Char)) (marked : Marked marks)

namespace Piece

def text : Piece → Text
  | .run chars _ _ => chars
  | .escaped c _ => ['\\', c]
  | .single chars _ => '\'' :: (chars ++ ['\''])
  | .double marks _ => '"' :: (marks.flatMap (fun mark => if mark.1 then ['\\', mark.2] else [mark.2]) ++ ['"'])

def chars : Piece → Text
  | .run chars _ _ | .single chars _ => chars
  | .escaped c _ => [c]
  | .double marks _ => marks.map (·.2)

def startsComment : Piece → Prop
  | .run chars _ _ => chars.head? = some '#'
  | _ => False

end Piece

/-- Backslashes before line ends, each with whether that is a `\r\n`. -/
def continuations (breaks : List Bool) : Text :=
  breaks.flatMap fun crlf => if crlf then ['\\', '\r', '\n'] else ['\\', '\n']

/-- A written word: pieces with continuations between them. -/
structure Spelling where
  pieces : Chain (List Bool) Piece
  start : ¬ pieces.first.startsComment

def Spelling.text (spelling : Spelling) : Text := spelling.pieces.spell continuations Piece.text

def Spelling.word (spelling : Spelling) : Word := spelling.pieces.items.flatMap Piece.chars

structure Gap (kind : Char → Prop) where
  text : Text
  nonempty : text ≠ []
  all : ∀ c ∈ text, kind c

abbrev Phrase : Type := Chain (Gap Blank) Spelling

def Phrase.text (phrase : Phrase) : Text := phrase.spell Gap.text Spelling.text

def Phrase.words (phrase : Phrase) : List Word := phrase.items.map Spelling.word

def Separator (c : Char) : Prop := c = ';' ∨ c = '&' ∨ c = '|' ∨ c = '\n'

abbrev Script : Type := Option (Chain (Gap Separator) Phrase)

def Script.text : Script → Text
  | none => []
  | some phrases => phrases.spell Gap.text Phrase.text

def Script.commands : Script → List (List Word)
  | none => []
  | some phrases => phrases.items.map Phrase.words

/-! ### Their lexemes -/

def markPart (mark : Bool × Char) : Part := if mark.1 then .escaped mark.2 else .char mark.2

def Piece.lexemes : Piece → List Lexeme
  | .run chars _ _ => chars.map .literal
  | .escaped c _ => [.escaped c]
  | .single chars _ => [.single chars true]
  | .double marks _ => [.double (marks.map markPart) true]

def Spelling.lexemes (spelling : Spelling) : List Lexeme :=
  spelling.pieces.spell (List.map .continuation) Piece.lexemes

def Phrase.lexemes (phrase : Phrase) : List Lexeme :=
  phrase.spell (fun gap => gap.text.map .blank) Spelling.lexemes

def separator (c : Char) : Lexeme := if c = '\n' then .newline c else .operator c

def Script.lexemes : Script → List Lexeme
  | none => []
  | some phrases => phrases.spell (fun gap => gap.text.map separator) Phrase.lexemes

theorem flatMap_map_text {kind : Char → Lexeme} (own : ∀ c, (kind c).text = [c]) (text : Text) :
    (text.map kind).flatMap Lexeme.text = text := by
  rw [List.flatMap_map]
  simp only [own]
  exact List.flatMap_singleton' text

theorem Piece.lexemes_text (piece : Piece) : piece.lexemes.flatMap Lexeme.text = piece.text := by
  cases piece with
  | run chars nonempty bare => exact flatMap_map_text (fun _ => rfl) chars
  | escaped c kept => rfl
  | single chars inside => simp [lexemes, Lexeme.text, text]
  | double marks marked =>
    simp only [lexemes, text, List.flatMap_cons, List.flatMap_nil, List.append_nil, Lexeme.text, List.flatMap_map,
      if_true]
    congr 3
    funext mark
    rw [markPart]
    split <;> rfl

theorem Spelling.lexemes_text (spelling : Spelling) : spelling.lexemes.flatMap Lexeme.text = spelling.text := by
  rw [lexemes, Chain.spell_flatMap, text]
  congr 1
  · funext breaks
    rw [List.flatMap_map]
    rfl
  · exact funext Piece.lexemes_text

theorem Phrase.lexemes_text (phrase : Phrase) : phrase.lexemes.flatMap Lexeme.text = phrase.text := by
  rw [lexemes, Chain.spell_flatMap, text]
  congr 1
  · exact funext fun gap => flatMap_map_text (fun _ => rfl) gap.text
  · exact funext Spelling.lexemes_text

theorem separator_text (c : Char) : (separator c).text = [c] := by
  unfold separator
  split <;> rfl

theorem Script.lexemes_text (script : Script) : script.lexemes.flatMap Lexeme.text = script.text := by
  cases script with
  | none => rfl
  | some phrases =>
    rw [lexemes, Chain.spell_flatMap, text]
    congr 1
    · exact funext fun gap => flatMap_map_text separator_text gap.text
    · exact funext Phrase.lexemes_text

/-! ### The scanner reads them -/

def Sound : Lexeme → Prop
  | .blank c => Blank c
  | .newline c => LineEnd c
  | .operator c => Operator c ∧ c ≠ '('
  | .continuation _ => True
  | .escaped c => ¬ LineEnd c
  | .literal c => Bare c
  | .single body closed => '\'' ∉ body ∧ closed = true
  | .double parts closed => Lexeme.PartsFit parts (some '"') ∧ closed = true
  | .substitution _ | .comment _ => False

def Hashed : Bool → List Lexeme → Prop
  | _, [] => True
  | before, lexeme :: rest => (lexeme = .literal '#' → before = true) ∧ Hashed (lexeme.started before) rest

theorem Sound.head {lexeme : Lexeme} (sound : Sound lexeme) : ∃ c ≠ '(', lexeme.text.head? = some c := by
  cases lexeme with
  | blank c => exact ⟨c, by rintro rfl; simp [Sound, Blank] at sound, rfl⟩
  | newline c => exact ⟨c, by rintro rfl; simp [Sound, LineEnd] at sound, rfl⟩
  | operator c => exact ⟨c, sound.2, rfl⟩
  | continuation crlf => exact ⟨'\\', by decide, by cases crlf <;> rfl⟩
  | escaped c => exact ⟨'\\', by decide, rfl⟩
  | literal c => exact ⟨c, by rintro rfl; simp [Sound, Bare, Operator] at sound, rfl⟩
  | single body closed => exact ⟨'\'', by decide, rfl⟩
  | double parts closed => exact ⟨'"', by decide, rfl⟩
  | substitution region => exact sound.elim
  | comment body => exact sound.elim

theorem Sound.fits {lexeme : Lexeme} {before : Bool} {next : Option Char} (sound : Sound lexeme)
    (hash : lexeme = .literal '#' → before = true) (lone : next ≠ some '(') : lexeme.Fits before next := by
  cases lexeme with
  | blank c => exact sound
  | newline c => exact sound
  | operator c => exact sound.1
  | continuation crlf => trivial
  | escaped c =>
    rw [Sound, LineEnd, not_or] at sound
    exact ⟨sound.1, fun cr => (sound.2 cr).elim⟩
  | literal c =>
    obtain ⟨notBlank, notEnd, notOperator, notQuote, notEscape⟩ := sound
    exact ⟨⟨notBlank, notEnd, notOperator, notQuote⟩, ⟨fun _ => lone, fun escape => (notEscape escape).elim⟩,
      fun here => hash (congrArg Lexeme.literal here)⟩
  | single body closed => exact ⟨sound.1, fun opened => by rw [sound.2] at opened; cases opened⟩
  | double parts closed =>
    obtain ⟨inside, rfl⟩ := sound
    exact inside
  | substitution region => exact sound.elim
  | comment body => exact sound.elim

theorem reading_of_sound {lexemes : List Lexeme} {before : Bool} {last : Option Char}
    (sound : ∀ lexeme ∈ lexemes, Sound lexeme) (hashed : Hashed before lexemes) (lone : last ≠ some '(') :
    Reading before last lexemes := by
  induction lexemes generalizing before with
  | nil => trivial
  | cons lexeme rest ih =>
    rw [List.forall_mem_cons] at sound
    refine ⟨sound.1.fits hashed.1 ?_, ih sound.2 hashed.2⟩
    cases rest with
    | nil => exact lone
    | cons following rest =>
      obtain ⟨c, other, head⟩ := (sound.2 following List.mem_cons_self).head
      rw [List.flatMap_cons, List.head?_append, head]
      simpa using other

theorem hashed_append {front back : List Lexeme} {before : Bool} :
    Hashed before (front ++ back) ↔ Hashed before front ∧ Hashed (front.foldl Lexeme.started before) back := by
  induction front generalizing before with
  | nil => simp [Hashed]
  | cons lexeme front ih => simp only [List.cons_append, Hashed, ih, List.foldl_cons, and_assoc]

theorem Chain.ends {γ α : Type} {gap : γ → List Lexeme} {item : α → List Lexeme}
    (items : ∀ next before, (item next).foldl Lexeme.started before = true) (chain : Chain γ α) (before : Bool) :
    (chain.spell gap item).foldl Lexeme.started before = true := by
  obtain ⟨first, more⟩ := chain
  rw [Chain.foldl_spell, items]
  induction more with
  | nil => rfl
  | cons next more ih => rwa [List.foldl_cons, items]

theorem Chain.hashed {γ α : Type} {gap : γ → List Lexeme} {item : α → List Lexeme} (outside : Bool) {before : Bool}
    (items : ∀ next, Hashed outside (item next)) (ends : ∀ next before, (item next).foldl Lexeme.started before = true)
    (gaps : ∀ next, Hashed true (gap next) ∧ (gap next).foldl Lexeme.started true = outside) (chain : Chain γ α)
    (start : Hashed before (item chain.first)) : Hashed before (chain.spell gap item) := by
  obtain ⟨first, more⟩ := chain
  rw [spell, hashed_append, ends]
  refine ⟨start, ?_⟩
  clear start
  induction more with
  | nil => trivial
  | cons next more ih =>
    rw [List.flatMap_cons, hashed_append, hashed_append, List.foldl_append, (gaps next.1).2, ends]
    exact ⟨⟨(gaps next.1).1, items next.2⟩, ih⟩

theorem hashed_of_keeping {lexemes : List Lexeme} (keep : ∀ lexeme ∈ lexemes, lexeme.started true = true) :
    Hashed true lexemes ∧ lexemes.foldl Lexeme.started true = true := by
  induction lexemes with
  | nil => exact ⟨trivial, rfl⟩
  | cons lexeme rest ih =>
    rw [List.forall_mem_cons] at keep
    rw [Hashed, List.foldl_cons, keep.1]
    exact ⟨⟨fun _ => rfl, (ih keep.2).1⟩, (ih keep.2).2⟩

theorem hashed_of_ending (kind : Char → Lexeme) (ending : ∀ c before, (kind c).started before = false)
    (other : ∀ c, kind c ≠ .literal '#') {text : Text} (nonempty : text ≠ []) (before : Bool) :
    Hashed before (text.map kind) ∧ (text.map kind).foldl Lexeme.started before = false := by
  induction text generalizing before with
  | nil => exact absurd rfl nonempty
  | cons c text ih =>
    rw [List.map_cons, Hashed, List.foldl_cons, ending]
    cases text with
    | nil => exact ⟨⟨fun same => (other c same).elim, trivial⟩, rfl⟩
    | cons next text =>
      obtain ⟨hashed, ended⟩ := ih (by simp) false
      exact ⟨⟨fun same => (other c same).elim, hashed⟩, ended⟩

theorem Piece.keeps (piece : Piece) : ∀ lexeme ∈ piece.lexemes, ∀ before, lexeme.started before = true := by
  intro lexeme member before
  cases piece with
  | run chars nonempty bare =>
    obtain ⟨c, _, rfl⟩ := List.mem_map.mp member
    rfl
  | escaped c kept => cases List.mem_singleton.mp member; rfl
  | single chars inside => cases List.mem_singleton.mp member; rfl
  | double marks marked => cases List.mem_singleton.mp member; rfl

theorem Piece.lexemes_ne_nil (piece : Piece) : piece.lexemes ≠ [] := by
  cases piece <;> simp_all [lexemes]

theorem Piece.ends (piece : Piece) (before : Bool) : piece.lexemes.foldl Lexeme.started before = true := by
  have keeps := piece.keeps
  cases split : piece.lexemes with
  | nil => exact absurd split piece.lexemes_ne_nil
  | cons lexeme rest =>
    rw [split, List.forall_mem_cons] at keeps
    rw [List.foldl_cons, keeps.1]
    exact (hashed_of_keeping fun next member => keeps.2 next member true).2

theorem Piece.hashed (piece : Piece) (start : ¬ piece.startsComment) : Hashed false piece.lexemes := by
  have keeps := piece.keeps
  cases split : piece.lexemes with
  | nil => trivial
  | cons lexeme rest =>
    rw [split, List.forall_mem_cons] at keeps
    refine ⟨?_, ?_⟩
    · rintro rfl
      cases piece with
      | run chars nonempty bare =>
        cases chars with
        | nil => exact absurd rfl nonempty
        | cons c chars =>
          have same : c = '#' := by simpa using (List.cons.inj split).1
          exact absurd (congrArg some same) start
      | escaped c kept => cases split
      | single chars inside => cases split
      | double marks marked => cases split
    · rw [keeps.1]
      exact (hashed_of_keeping fun next member => keeps.2 next member true).1

theorem Spelling.hashed (spelling : Spelling) : Hashed false spelling.lexemes := by
  refine Chain.hashed true (fun piece => ?_) Piece.ends (fun breaks => ?_) _
    (spelling.pieces.first.hashed spelling.start)
  · exact (hashed_of_keeping fun lexeme member => piece.keeps lexeme member true).1
  · refine hashed_of_keeping fun lexeme member => ?_
    obtain ⟨crlf, _, rfl⟩ := List.mem_map.mp member
    rfl

theorem Spelling.ends (spelling : Spelling) (before : Bool) :
    spelling.lexemes.foldl Lexeme.started before = true :=
  Chain.ends Piece.ends spelling.pieces before

theorem Phrase.hashed (phrase : Phrase) : Hashed false phrase.lexemes :=
  Chain.hashed false Spelling.hashed Spelling.ends
    (fun gap => hashed_of_ending .blank (fun _ _ => rfl) (fun _ same => nomatch same) gap.nonempty true) phrase
    phrase.first.hashed

theorem Phrase.ends (phrase : Phrase) (before : Bool) : phrase.lexemes.foldl Lexeme.started before = true :=
  Chain.ends Spelling.ends phrase before

theorem separator_ends (c : Char) (before : Bool) : (separator c).started before = false := by
  unfold separator
  split <;> rfl

theorem separator_ne_literal (c : Char) : separator c ≠ .literal '#' := by
  unfold separator
  split <;> exact fun same => nomatch same

theorem Script.hashed (script : Script) : Hashed false script.lexemes := by
  cases script with
  | none => trivial
  | some phrases =>
    exact Chain.hashed false Phrase.hashed Phrase.ends
      (fun gap => hashed_of_ending separator separator_ends separator_ne_literal gap.nonempty true) phrases
      phrases.first.hashed

theorem marks_fit {marks : List (Bool × Char)} (marked : Marked marks) :
    Lexeme.PartsFit (marks.map markPart) (some '"') := by
  induction marks with
  | nil => trivial
  | cons mark rest ih =>
    obtain ⟨escaped, c⟩ := mark
    cases escaped with
    | true => exact ⟨trivial, ih marked.2⟩
    | false =>
      obtain ⟨⟨notQuote, notEscape, notTick, lone⟩, later⟩ := marked
      refine ⟨⟨notQuote, notTick, ?_, fun escape => (notEscape escape).elim⟩, ih later⟩
      intro dollar
      have next := lone dollar
      cases rest with
      | nil => simp
      | cons mark rest =>
        obtain ⟨escaped, c⟩ := mark
        cases escaped with
        | true => simp [markPart, Part.text]
        | false => simpa [markPart, Part.text] using next

theorem Piece.sound (piece : Piece) : ∀ lexeme ∈ piece.lexemes, Sound lexeme := by
  intro lexeme member
  cases piece with
  | run chars nonempty bare =>
    obtain ⟨c, inside, rfl⟩ := List.mem_map.mp member
    exact bare c inside
  | escaped c kept => cases List.mem_singleton.mp member; exact kept
  | single chars inside => cases List.mem_singleton.mp member; exact ⟨inside, rfl⟩
  | double marks marked => cases List.mem_singleton.mp member; exact ⟨marks_fit marked, rfl⟩

theorem Spelling.sound (spelling : Spelling) : ∀ lexeme ∈ spelling.lexemes, Sound lexeme := by
  refine Chain.forall_mem_spell ?_ Piece.sound spelling.pieces
  intro breaks lexeme member
  obtain ⟨crlf, _, rfl⟩ := List.mem_map.mp member
  trivial

theorem Phrase.sound (phrase : Phrase) : ∀ lexeme ∈ phrase.lexemes, Sound lexeme := by
  refine Chain.forall_mem_spell ?_ Spelling.sound phrase
  intro gap lexeme member
  obtain ⟨c, inside, rfl⟩ := List.mem_map.mp member
  exact gap.all c inside

theorem separator_sound {c : Char} (kind : Separator c) : Sound (separator c) := by
  rcases kind with rfl | rfl | rfl | rfl <;> simp [separator, Sound, Operator, LineEnd]

theorem Script.sound (script : Script) : ∀ lexeme ∈ script.lexemes, Sound lexeme := by
  cases script with
  | none => simp [lexemes]
  | some phrases =>
    rw [lexemes]
    refine Chain.forall_mem_spell ?_ Phrase.sound phrases
    intro gap lexeme member
    obtain ⟨c, inside, rfl⟩ := List.mem_map.mp member
    exact separator_sound (gap.all c inside)

/-! ### What the scanner makes of them -/

def Scanner.extend (s : Scanner) (chars : Text) : Scanner := (s.add chars).opened

@[simp]
theorem Scanner.extend_extend (s : Scanner) (front back : Text) :
    (s.extend front).extend back = s.extend (front ++ back) := by
  simp [extend, add, opened]

theorem act_literals (s : Scanner) (front chars : Text) :
    (chars.map .literal).foldl Lexeme.act (s.extend front) = s.extend (front ++ chars) := by
  induction chars generalizing front with
  | nil => simp
  | cons c chars ih =>
    rw [List.map_cons, List.foldl_cons]
    have turn : Lexeme.act (s.extend front) (.literal c) = s.extend (front ++ [c]) := s.extend_extend front [c]
    rw [turn, ih, List.append_assoc, List.singleton_append]

theorem act_marks (s : Scanner) (marks : List (Bool × Char)) :
    (marks.map markPart).foldl Part.act s = s.add (marks.map (·.2)) := by
  induction marks generalizing s with
  | nil => simp [Scanner.add]
  | cons mark marks ih =>
    have turn : Part.act s (markPart mark) = s.add [mark.2] := by
      rw [markPart]
      split <;> rfl
    rw [List.map_cons, List.foldl_cons, turn, ih]
    simp [Scanner.add]

theorem Piece.act (piece : Piece) (s : Scanner) : piece.lexemes.foldl Lexeme.act s = s.extend piece.chars := by
  cases piece with
  | run chars nonempty bare =>
    cases chars with
    | nil => exact absurd rfl nonempty
    | cons c chars => exact act_literals s [c] chars
  | escaped c kept => rfl
  | single chars inside => rfl
  | double marks marked => exact act_marks s.opened marks

theorem Spelling.act (spelling : Spelling) (s : Scanner) :
    spelling.lexemes.foldl Lexeme.act s = s.extend spelling.word := by
  obtain ⟨⟨first, more⟩, start⟩ := spelling
  have skip : ∀ (breaks : List Bool) (s : Scanner), (breaks.map Lexeme.continuation).foldl Lexeme.act s = s := by
    intro breaks s
    induction breaks with
    | nil => rfl
    | cons crlf breaks ih => exact ih
  rw [lexemes, Chain.foldl_spell, Piece.act, word, Chain.items, List.flatMap_cons]
  generalize first.chars = front
  simp only
  clear start
  induction more generalizing front with
  | nil => simp
  | cons next more ih =>
    rw [List.foldl_cons, skip, Piece.act, Scanner.extend_extend, ih, List.map_cons, List.flatMap_cons,
      List.append_assoc]

def Scanner.Idle (s : Scanner) : Prop := s.word = [] ∧ s.hasWord = false

def Scanner.push (s : Scanner) (words : List Word) : Scanner := { s with current := s.current ++ words }

theorem Scanner.Idle.extend {s : Scanner} (idle : s.Idle) (word : Word) : (s.extend word).endWord = s.push [word] := by
  obtain ⟨commands, subs, current, _, _⟩ := s
  obtain ⟨rfl, rfl⟩ := idle
  rfl

theorem act_gap (kind : Char → Lexeme) (f : Scanner → Scanner) (same : ∀ s c, (kind c).act s = f s)
    (again : ∀ s, f (f s) = f s) {text : Text} (nonempty : text ≠ []) (s : Scanner) :
    (text.map kind).foldl Lexeme.act s = f s := by
  induction text generalizing s with
  | nil => exact absurd rfl nonempty
  | cons c text ih =>
    rw [List.map_cons, List.foldl_cons, same]
    cases text with
    | nil => rfl
    | cons next text => rw [ih (by simp), again]

theorem Phrase.act (phrase : Phrase) {s : Scanner} (idle : s.Idle) :
    (phrase.lexemes.foldl Lexeme.act s).endWord = s.push phrase.words := by
  obtain ⟨first, more⟩ := phrase
  rw [lexemes, Chain.foldl_spell, Spelling.act, words, Chain.items]
  simp only
  induction more generalizing s first with
  | nil => exact idle.extend first.word
  | cons next more ih =>
    rw [List.foldl_cons, act_gap .blank Scanner.endWord (fun _ _ => rfl) Scanner.endWord_endWord next.1.nonempty,
      idle.extend, Spelling.act, ih (s := s.push [first.word]) idle]
    simp [Scanner.push]

theorem Scanner.endCommand_of_push {s t : Scanner} {words : List Word} (ended : t.endWord = s.push words)
    (fresh : s.current = []) (nonempty : words ≠ []) :
    t.endCommand = { s with commands := s.commands ++ [words] } := by
  obtain ⟨commands, subs, current, word, hasWord⟩ := s
  cases fresh
  rw [endCommand, ended]
  simp [push, nonempty]

theorem act_separator (s : Scanner) (c : Char) : (separator c).act s = s.endCommand := by
  unfold separator
  split <;> rfl

theorem Phrase.words_ne_nil (phrase : Phrase) : phrase.words ≠ [] := by
  simp [words, Chain.items]

theorem Script.act (script : Script) {s : Scanner} (idle : s.Idle) (fresh : s.current = []) :
    (script.lexemes.foldl Lexeme.act s).endCommand = { s with commands := s.commands ++ script.commands } := by
  cases script with
  | none =>
    obtain ⟨commands, subs, current, word, hasWord⟩ := s
    obtain ⟨rfl, rfl⟩ := idle
    cases fresh
    simp [lexemes, Script.commands, Scanner.endCommand, Scanner.endWord]
  | some phrases =>
    obtain ⟨first, more⟩ := phrases
    rw [lexemes, Chain.foldl_spell, commands, Chain.items]
    simp only
    induction more generalizing s first with
    | nil => exact Scanner.endCommand_of_push (first.act idle) fresh first.words_ne_nil
    | cons next more ih =>
      rw [List.foldl_cons, act_gap separator _ act_separator Scanner.endCommand_endCommand next.1.nonempty,
        Scanner.endCommand_of_push (first.act idle) fresh first.words_ne_nil, ih]
      · simp
      · exact idle
      · exact fresh

/-! ### Every list of commands can be written -/

def mark (c : Char) : Bool × Char := (decide (c ∈ ['"', '\\', '\x60', '$']), c)

theorem marked_map (word : Word) : Marked (word.map mark) := by
  induction word with
  | nil => trivial
  | cons c word ih =>
    rw [List.map_cons, mark]
    by_cases special : c ∈ ['"', '\\', '\x60', '$']
    · simp only [special, decide_true]
      exact ⟨by simpa using special, ih⟩
    · simp only [special, decide_false]
      refine ⟨?_, ih⟩
      simp_all

def quoted (word : Word) : Spelling := ⟨⟨.double (word.map mark) (marked_map word), []⟩, id⟩

theorem quoted_word (word : Word) : (quoted word).word = word := by
  have same : (·.2) ∘ mark = id := rfl
  simp [quoted, Spelling.word, Chain.items, Piece.chars, same]

def Chain.of {γ α : Type} (gap : γ) (first : α) (rest : List α) : Chain γ α := ⟨first, rest.map (gap, ·)⟩

theorem Chain.items_of {γ α : Type} (gap : γ) (first : α) (rest : List α) :
    (Chain.of gap first rest).items = first :: rest := by
  have same : (·.2) ∘ (gap, ·) = @id α := rfl
  simp [of, items, same]

theorem Phrase.exists_words {words : List Word} (nonempty : words ≠ []) :
    ∃ phrase : Phrase, phrase.words = words := by
  obtain ⟨first, rest, rfl⟩ := List.exists_cons_of_ne_nil nonempty
  refine ⟨.of ⟨[' '], by simp, by simp [Blank]⟩ (quoted first) (rest.map quoted), ?_⟩
  have same : Spelling.word ∘ quoted = id := funext quoted_word
  rw [Phrase.words, Chain.items_of]
  simp [quoted_word, same]

theorem Script.exists_commands {commands : List (List Word)} (nonempty : ∀ command ∈ commands, command ≠ []) :
    ∃ script : Script, script.commands = commands := by
  have phrases : ∃ phrases : List Phrase, phrases.map Phrase.words = commands := by
    induction commands with
    | nil => exact ⟨[], rfl⟩
    | cons command commands ih =>
      rw [List.forall_mem_cons] at nonempty
      obtain ⟨phrase, written⟩ := Phrase.exists_words nonempty.1
      obtain ⟨phrases, later⟩ := ih nonempty.2
      exact ⟨phrase :: phrases, by rw [List.map_cons, written, later]⟩
  obtain ⟨phrases, rfl⟩ := phrases
  cases phrases with
  | nil => exact ⟨none, rfl⟩
  | cons first rest =>
    refine ⟨some (.of ⟨[';'], by simp, by simp [Separator]⟩ first rest), ?_⟩
    rw [commands, Chain.items_of]

/-- The parser inverts every quoting. -/
theorem parse_inverts_quoting :
    (∀ script : Script, parseShellCommands script.text = script.commands) ∧
      ∀ commands : List (List Word), (∀ command ∈ commands, command ≠ []) →
        ∃ script : Script, script.commands = commands := by
  refine ⟨fun script => ?_, fun _ => Script.exists_commands⟩
  have reading : Reading false none script.lexemes :=
    reading_of_sound script.sound script.hashed (Option.some_ne_none '(').symm
  rw [← script.lexemes_text, reading.parse, Scanner.result, script.act ⟨rfl, rfl⟩ rfl]
  simp [Scanner.start]

def spliced : Script :=
  some ⟨⟨⟨⟨.single ['c', 'u'] (by decide), [([false], .double [(true, '$'), (false, 'l')] (by simp [Marked]))]⟩, id⟩,
    [(⟨[' '], by simp, by simp [Blank]⟩, quoted [' '])]⟩,
    [(⟨[';', '\n'], by simp, by simp [Separator]⟩,
      ⟨⟨⟨.escaped '#' (by simp [LineEnd]), []⟩, id⟩, [(⟨['\t'], by simp, by simp [Blank]⟩, quoted [])]⟩)]⟩

theorem spliced_parse :
    spliced.text = "'cu'\\\n\"\\$l\" \" \";\n\\#\t\"\"".toList ∧
      parseShellCommands spliced.text = ["cu$l", " "].map String.toList :: [["#", ""].map String.toList] ∧
      ∃ script : Script, script.commands = [[[]]] :=
  ⟨by decide, parse_inverts_quoting.1 spliced, parse_inverts_quoting.2 [[[]]] (by simp)⟩

end Koine.SupplyChain
