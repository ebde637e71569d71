import Koine.SupplyChain.Quoting

namespace Koine.SupplyChain

open Library

inductive Frame where
  | single
  | double
  | group
  | paren
  | backtick
deriving DecidableEq

def Frame.tick : List Frame → Option (List Frame × Bool)
  | .backtick :: stack => some (stack, true)
  | stack => if .backtick ∈ stack then none else some (.backtick :: stack, false)

/-- Reads a shell text with all that is open in it and whether a word is open: no comments, every quote
    closed, every unquoted parenthesis balanced, no trailing backslash. With `bare`, no parenthesis stands
    between quotes. -/
def formed (bare : Bool) : List Frame → Bool → Text → Bool
  | stack, _, [] => stack.isEmpty
  | .single :: stack, started, c :: rest =>
    if c = '\'' then formed bare stack true rest
    else if bare && (c == '(' || c == ')') then false
    else formed bare (.single :: stack) started rest
  | .double :: stack, started, '\\' :: _ :: rest => formed bare (.double :: stack) started rest
  | .double :: stack, _, '$' :: '(' :: rest => formed bare (.paren :: .double :: stack) false rest
  | .double :: stack, started, c :: rest =>
    if c = '"' then formed bare stack true rest
    else if c = '\\' || bare && (c == '(' || c == ')') then false
    else if c = '\x60' then
      match Frame.tick (.double :: stack) with
      | some (stack, started) => formed bare stack started rest
      | none => false
    else formed bare (.double :: stack) started rest
  | stack, started, '\\' :: c :: rest => formed bare stack (started || c != '\n') rest
  | stack, _, '$' :: '(' :: rest => formed bare (.paren :: stack) false rest
  | .group :: stack, _, ')' :: rest => formed bare stack false rest
  | .paren :: stack, _, ')' :: rest => formed bare stack true rest
  | stack, started, c :: rest =>
    if c = '\'' then formed bare (.single :: stack) true rest
    else if c = '"' then formed bare (.double :: stack) true rest
    else if c = '\x60' then
      match Frame.tick stack with
      | some (stack, started) => formed bare stack started rest
      | none => false
    else if c = '(' then formed bare (.group :: stack) false rest
    else if c = ')' || c = '\\' || c = '#' && !started then false
    else formed bare stack (!(c ∈ [' ', '\t', '\n', '\r', ';', '&', '|'])) rest

def WellFormed (text : Text) : Prop := formed false [] false text = true

def BareParens (text : Text) : Prop := formed true [] false text = true

instance (text : Text) : Decidable (WellFormed text) := inferInstanceAs (Decidable (_ = true))

instance (text : Text) : Decidable (BareParens text) := inferInstanceAs (Decidable (_ = true))

/-- The count of `readParen`, which knows no quotes, comes back to one at the end of the text and nowhere
    drops to zero. -/
def Counted (text : Text) : Prop := text.foldl count (some (false, 1)) = some (false, 1)

instance (text : Text) : Decidable (Counted text) := inferInstanceAs (Decidable (_ = _))

def depth (stack : List Frame) : Nat := 1 + stack.countP fun frame => frame = .group || frame = .paren

theorem depth_quote {frame : Frame} (quote : frame ≠ .group ∧ frame ≠ .paren) (stack : List Frame) :
    depth (frame :: stack) = depth stack := by
  simp [depth, quote]

theorem depth_paren {frame : Frame} (paren : frame = .group ∨ frame = .paren) (stack : List Frame) :
    depth (frame :: stack) = depth stack + 1 := by
  rcases paren with rfl | rfl <;> simp [depth, Nat.add_assoc]

theorem depth_tick {stack after : List Frame} {started : Bool} (ticked : Frame.tick stack = some (after, started)) :
    depth after = depth stack := by
  unfold Frame.tick at ticked
  split at ticked
  · cases ticked
    exact (depth_quote (by decide) _).symm
  · split at ticked
    · cases ticked
    · cases ticked
      exact depth_quote (by decide) _

theorem count_close {frame : Frame} (paren : frame = .group ∨ frame = .paren) (stack : List Frame) :
    count (some (false, depth (frame :: stack))) ')' = some (false, depth stack) := by
  have positive : depth stack + 1 ≠ 1 := by
    simp only [depth]
    omega
  rw [depth_paren paren, count, if_neg positive, Nat.add_sub_cancel]

/-- Outside of single quotes the count has no backslash pending, since those that escape are paired with
    the same characters; between single quotes it may have, but no parenthesis stands there. -/
theorem count_formed {stack : List Frame} {started pending : Bool} {text : Text}
    (formed : formed true stack started text = true) (inside : pending = true → stack.head? = some .single) :
    text.foldl count (some (pending, depth stack)) = some (false, 1) := by
  fun_induction SupplyChain.formed true stack started text generalizing pending
  case case1 stack _ =>
    cases List.isEmpty_iff.mp formed
    cases pending with
    | false => rfl
    | true => cases inside rfl
  case case2 stack started rest ih =>
    rw [depth_quote (by decide), List.foldl_cons]
    cases pending <;> exact ih formed nofun
  case case4 stack started c rest other bare ih =>
    have next : ∃ pending', count (some (pending, depth (.single :: stack))) c =
        some (pending', depth (.single :: stack)) := by
      cases pending with
      | true => exact ⟨false, rfl⟩
      | false =>
        by_cases escape : c = '\\'
        · exact ⟨true, by rw [escape, count]⟩
        · exact ⟨false, count_other escape (by rintro rfl; simp at bare) (by rintro rfl; simp at bare)⟩
    obtain ⟨pending', next⟩ := next
    rw [List.foldl_cons, next]
    exact ih formed (fun _ => rfl)
  case case3 | case8 | case10 | case19 | case21 => cases formed
  all_goals
    have calm : pending = false := by
      cases pending with
      | false => rfl
      | true =>
        have top := inside rfl
        obtain ⟨below, split⟩ := List.head?_eq_some_iff.mp top
        simp_all
    subst calm
    clear inside
  -- pairs of characters
  case case5 | case12 =>
    rename_i ih
    exact ih formed nofun
  case case6 | case13 =>
    rename_i ih
    rw [← @ih false formed nofun, depth_paren (.inr rfl)]
    rfl
  -- parentheses
  case case14 | case15 =>
    rename_i ih
    rw [List.foldl_cons, count_close (by decide)]
    exact ih formed nofun
  case case20 =>
    rename_i ih
    rw [← @ih false formed nofun, depth_paren (.inl rfl)]
    rfl
  -- quotes
  case case7 | case16 | case17 =>
    rename_i ih
    have next := @ih false formed nofun
    rw [List.foldl_cons, count_other (by decide) (by decide) (by decide)]
    simpa only [depth_quote (show Frame.single ≠ .group ∧ Frame.single ≠ .paren by decide),
      depth_quote (show Frame.double ≠ .group ∧ Frame.double ≠ .paren by decide)] using next
  case case9 | case18 =>
    have same := depth_tick (by assumption)
    rename_i ih
    rw [List.foldl_cons, count_other (by decide) (by decide) (by decide), ← same]
    exact ih formed nofun
  case case11 other _ ih =>
    simp only [Bool.true_and, Bool.or_eq_true, decide_eq_true_eq, beq_iff_eq, not_or] at other
    rw [List.foldl_cons, count_other other.1 other.2.1 other.2.2]
    exact ih formed nofun
  case case22 opens other ih =>
    simp only [Bool.or_eq_true, decide_eq_true_eq, not_or] at other
    rw [List.foldl_cons, count_other other.1.2 opens other.1.1]
    exact ih formed nofun

theorem BareParens.counted {text : Text} (bare : BareParens text) : Counted text := count_formed bare nofun

theorem formed_of_bare {stack : List Frame} {started : Bool} {text : Text}
    (bare : formed true stack started text = true) : formed false stack started text = true := by
  fun_induction formed true stack started text <;> simp_all [formed]
  grind

theorem foldl_ticks_plain {text : Text} (plain : ∀ c ∈ text, c ≠ '\\' ∧ c ≠ '\x60') :
    text.foldl ticks (some false) = some false := by
  induction text with
  | nil => rfl
  | cons c text ih =>
    rw [List.forall_mem_cons] at plain
    rw [List.foldl_cons, ticks_other plain.1.1 plain.1.2, ih plain.2]

theorem unescape_plain {text : Text} (plain : ∀ c ∈ text, c ≠ '\\' ∧ c ≠ '\x60') : unescape text = text := by
  fun_induction unescape text with
  | case1 => rfl
  | case2 next text ih => exact absurd rfl (plain '\\' List.mem_cons_self).1
  | case3 c text unpaired ih =>
    rw [List.forall_mem_cons] at plain
    rw [ih plain.2]

theorem Scanner.mem_result_of_subs {s : Scanner} {command : List Word} (found : command ∈ s.subs) :
    command ∈ s.result := by
  rw [result, subs_endCommand]
  exact List.mem_append_right _ found

theorem mem_parse_behind (word : Spelling) {gap : Text} (blanks : ∀ c ∈ gap, Blank c) (last : Lexeme) {c : Char}
    (head : last.text.head? = some c) (other : c ≠ '(') (fits : ∀ before, last.Fits before none)
    {command : List Word} (runs : ∀ s : Scanner, command ∈ (last.act s).subs) :
    command ∈ parseShellCommands (word.text ++ gap ++ last.text) := by
  have spelled : (word.lexemes ++ gap.map Lexeme.blank ++ [last]).flatMap Lexeme.text =
      word.text ++ gap ++ last.text := by
    rw [List.flatMap_append, List.flatMap_append, word.lexemes_text, flatMap_map_text (fun _ => rfl),
      List.flatMap_singleton]
  have sound : ∀ lexeme ∈ word.lexemes ++ gap.map Lexeme.blank, Sound lexeme := by
    rw [List.forall_mem_append]
    refine ⟨word.sound, ?_⟩
    intro lexeme member
    obtain ⟨c, inside, rfl⟩ := List.mem_map.mp member
    exact blanks c inside
  have hashed : Hashed false (word.lexemes ++ gap.map Lexeme.blank) := by
    rw [hashed_append]
    refine ⟨word.hashed, ?_⟩
    cases gap with
    | nil => trivial
    | cons c gap =>
      exact (hashed_of_ending .blank (fun _ _ => rfl) (fun _ same => nomatch same) (List.cons_ne_nil c gap) _).1
  have reading : Reading false none (word.lexemes ++ gap.map Lexeme.blank ++ [last]) := by
    refine fits_append.mpr ⟨reading_of_sound sound hashed ?_, fits _, trivial⟩
    rw [List.flatMap_singleton, head]
    simpa using other
  rw [← spelled, reading.parse, List.foldl_append]
  exact Scanner.mem_result_of_subs (runs _)

/-! ### Texts that a region does not end with -/

section Settled

variable (inside : Text → Bool)

def Region.settled : Region → Bool
  | .paren inner closed => closed || inside inner
  | .backtick raw closed => closed || raw.foldl ticks (some false) == some false && inside (unescape raw)

def Lexeme.settled : Lexeme → Bool
  | .single _ closed => closed
  | .double parts closed =>
    closed ||
      match parts.getLast? with
      | some (.substitution region) => !region.closed && region.settled inside
      | _ => false
  | .substitution region => region.settled inside
  | .literal c => c != '\\'
  | _ => true

end Settled

def settledWith : Nat → Text → Bool
  | 0, _ => false
  | depth + 1, text => (lex text).all (Lexeme.settled (settledWith depth))

/-- The scanner reads the text to its end, in open substitutions too, without a quotation or a backslash left
    over. -/
def Settled (text : Text) : Prop := settledWith (text.length + 1) text = true

instance (text : Text) : Decidable (Settled text) := inferInstanceAs (Decidable (_ = true))

def Closing (tail : Text) : Prop := tail = [')'] ∨ tail = [')', '"']

theorem ticks_closing {tail : Text} (closing : Closing tail) :
    tail.foldl ticks (some false) = some false := by
  rcases closing with rfl | rfl <;> rfl

theorem unescape_append {raw : Text} (even : raw.foldl ticks (some false) = some false) (tail : Text) :
    unescape (raw ++ tail) = unescape raw ++ unescape tail := by
  fun_induction unescape raw with
  | case1 => rfl
  | case2 next raw ih => rw [List.cons_append, List.cons_append, unescape, ih even, List.cons_append]
  | case3 char raw unpaired ih =>
    have notEscape : char ≠ '\\' := by
      rintro rfl
      rw [lone_backslash unpaired rfl] at even
      simp [ticks] at even
    have notTick : char ≠ '\x60' := by
      rintro rfl
      simp [ticks] at even
    rw [List.foldl_cons, ticks_other notEscape notTick] at even
    rw [List.cons_append, unescape, ih even, List.cons_append]
    exact fun _ _ escape => (notEscape escape).elim

theorem readParen_closing {body tail inner after : Text} (closing : Closing tail)
    (counted : body.foldl count (some (false, 1)) ≠ none) (region : readParen 1 (body ++ tail) = (inner, after)) :
    inner = body ∧ (after = [] ∨ after = ['"']) ∨ inner = body ++ tail ∧ after = [] := by
  rcases readParen_cases region with ⟨split, one⟩ | ⟨rfl, rfl, _⟩
  · left
    rcases List.append_eq_append_iff.mp split with ⟨rest, rfl, behind⟩ | ⟨rest, rfl, behind⟩
    · cases rest with
      | nil =>
        refine ⟨List.append_nil body, ?_⟩
        rcases closing with rfl | rfl
        · exact .inl (List.cons.inj behind).2.symm
        · exact .inr (List.cons.inj behind).2.symm
      | cons c rest =>
        -- only one parenthesis stands behind the body
        have last : ')' ∈ tail.tail := by
          rw [behind]
          exact List.mem_append_right _ List.mem_cons_self
        rcases closing with rfl | rfl <;> simp at last
    · cases rest with
      | nil =>
        refine ⟨(List.append_nil inner).symm, ?_⟩
        rcases closing with rfl | rfl
        · exact .inl (List.cons.inj behind).2
        · exact .inr (List.cons.inj behind).2
      | cons c rest =>
        -- the count of the body does not end the region
        cases (List.cons.inj behind).1
        rw [List.foldl_append, one] at counted
        exact absurd (foldl_count_none rest) counted
  · exact .inr ⟨rfl, rfl⟩

theorem mem_result_nested {s : Scanner} {some all : List (List Word)} (within : ∀ command ∈ some, command ∈ all)
    {command : List Word} (found : command ∈ (s.nested some).result) : command ∈ (s.nested all).result := by
  have ended : ∀ commands, (s.nested commands).endCommand = s.endCommand.nested commands := by
    intro commands
    have word : (s.nested commands).endWord = s.endWord.nested commands := by
      cases started : s.hasWord <;> simp [Scanner.endWord, Scanner.nested, started]
    rw [Scanner.endCommand, word, Scanner.endCommand]
    by_cases empty : s.endWord.current = [] <;> simp [Scanner.nested, empty]
  rw [Scanner.result, ended, Scanner.nested, List.mem_append, List.mem_append] at found ⊢
  exact found.imp_right (Or.imp_right (within command))

theorem read_after {after : Text} (ended : after = [] ∨ after = ['"']) {s : Scanner} (started : s.hasWord = true) :
    read .main after s = s ∧ read .double after s = s := by
  rcases ended with rfl | rfl
  · exact ⟨read_nil _ _, read_nil _ _⟩
  · have opened : s.opened = s := by
      rw [Scanner.opened, ← started]
    exact ⟨by rw [read_double, read_nil, opened], read_nil .main s⟩

section Follow

variable {inside : Text → Bool} {tail : Text} (closing : Closing tail)
  (more : ∀ text, inside text = true → ∀ command ∈ parseShellCommands text, command ∈ parseShellCommands (text ++ tail))

include closing more

theorem Region.reads_on {region : Region} {next : Option Char} (fits : region.Fits next)
    (unclosed : region.closed = false)
    (settled : region.settled inside = true) :
    ∃ inner after, (∀ command ∈ parseShellCommands region.inner, command ∈ parseShellCommands inner) ∧
      (after = [] ∨ after = ['"']) ∧
      ((∃ rest, region.text ++ tail = '$' :: '(' :: rest ∧ readParen 1 rest = (inner, after)) ∨
        ∃ rest, region.text ++ tail = '\x60' :: rest ∧ readBacktick rest = (inner, after)) := by
  cases region with
  | paren body closed =>
    cases unclosed
    have held : inside body = true := by simpa [Region.settled] using settled
    rcases region : readParen 1 (body ++ tail) with ⟨inner, after⟩
    refine ⟨inner, after, ?_, ?_, .inl ⟨_, by simp [text], region⟩⟩
    all_goals rcases readParen_closing closing fits.1 region with ⟨rfl, ended⟩ | ⟨rfl, rfl⟩
    · exact fun command found => found
    · exact more body held
    · exact ended
    · exact .inl rfl
  | backtick raw closed =>
    cases unclosed
    simp only [Region.settled, Bool.false_or, Bool.and_eq_true, beq_iff_eq] at settled
    obtain ⟨even, held⟩ := settled
    have counted : (raw ++ tail).foldl ticks (some false) ≠ none := by
      rw [List.foldl_append, even, ticks_closing closing]
      exact Option.some_ne_none _
    refine ⟨unescape raw ++ tail, [], more _ held, .inl rfl, .inr ⟨raw ++ tail, by simp [text], ?_⟩⟩
    rw [readBacktick_open counted, unescape_append even]
    rcases closing with rfl | rfl <;> rfl

theorem Lexeme.double_reads_on {front : List Part} {region : Region} {s : Scanner}
    (fits : PartsFit (front ++ [.substitution region]) none) (unclosed : region.closed = false)
    (settled : region.settled inside = true) {command : List Word}
    (found : command ∈ ((Lexeme.double (front ++ [.substitution region]) false).act s).result) :
    command ∈ (read .main ((Lexeme.double (front ++ [.substitution region]) false).text ++ tail) s).result := by
  obtain ⟨before, here, _⟩ := fits_append.mp fits
  obtain ⟨inner, after, all, ended, reads⟩ := Region.reads_on closing more here unclosed settled
  have fits : PartsFit front (region.text ++ tail).head? := by
    obtain ⟨c, rest, split⟩ := List.exists_cons_of_ne_nil region.text_ne_nil
    rw [split]
    simpa [PartsFit, Part.text, split] using before
  have started : ((front.foldl Part.act s.opened).nested (parseShellCommands inner)).hasWord = true :=
    hasWord_parts front s.opened
  have spelled : (Lexeme.double (front ++ [.substitution region]) false).text ++ tail =
      '"' :: (front.flatMap Part.text ++ (region.text ++ tail)) := by
    simp [Lexeme.text, Part.text]
  rw [spelled, read_double, read_parts fits]
  simp only [Lexeme.act, List.foldl_append, List.foldl_cons, List.foldl_nil] at found
  rcases reads with ⟨rest, spelled, reads⟩ | ⟨rest, spelled, reads⟩
  · rw [spelled, read_double_paren reads, (read_after ended started).2]
    exact mem_result_nested all found
  · rw [spelled, read_double_backtick reads, (read_after ended started).2]
    exact mem_result_nested all found

theorem Lexeme.reads_on {lexeme : Lexeme} {s : Scanner} (fits : lexeme.Fits s.hasWord none)
    (settled : lexeme.settled inside = true) {command : List Word} (found : command ∈ (lexeme.act s).result) :
    command ∈ (read .main (lexeme.text ++ tail) s).result := by
  -- a lexeme that is complete comes before the parenthesis, which ends the command
  have complete : lexeme.Fits s.hasWord (some ')') → command ∈ (read .main (lexeme.text ++ tail) s).result := by
    intro fits
    have step : ∃ rest, tail = ')' :: rest := by
      rcases closing with rfl | rfl
      · exact ⟨[], rfl⟩
      · exact ⟨['"'], rfl⟩
    obtain ⟨rest, rfl⟩ := step
    rw [read_lexeme s lexeme (')' :: rest) fits, read_operator (by simp [Operator])]
    exact (grows_read .main rest _).mem_result found
  cases lexeme with
  | blank c | newline c | operator c | continuation crlf => exact complete fits
  | escaped c => exact complete ⟨fits.1, by simp⟩
  | literal c =>
    have whole : c ≠ '\\' := by simpa [Lexeme.settled] using settled
    exact complete ⟨fits.1, ⟨by simp, fun escape => (whole escape).elim⟩, fits.2.2⟩
  | single body closed =>
    cases settled
    exact complete ⟨fits.1, by simp⟩
  | comment body =>
    have inside : '\n' ∉ body ++ tail := by
      rw [List.mem_append, not_or]
      refine ⟨fits.2.1, ?_⟩
      rcases closing with rfl | rfl <;> decide
    have ended : ([] : Text).head? = none ∨ ([] : Text).head? = some '\n' := .inl rfl
    have skipped := read_comment (body ++ tail) inside fits.1 ended
    rw [List.append_nil, read_nil] at skipped
    rw [text, List.cons_append, skipped]
    exact found
  | substitution region =>
    cases closed : region.closed with
    | true => exact complete ⟨fits.1, fun unclosed => by simp [closed] at unclosed⟩
    | false =>
      obtain ⟨inner, after, all, ended, ⟨rest, spelled, reads⟩ | ⟨rest, spelled, reads⟩⟩ :=
        Region.reads_on closing more fits closed settled
      · rw [text, spelled, read_paren reads, (read_after ended rfl).1]
        exact mem_result_nested all found
      · rw [text, spelled, read_backtick reads, (read_after ended rfl).1]
        exact mem_result_nested all found
  | double parts closed =>
    cases closed with
    | true => exact complete fits
    | false =>
      rcases List.eq_nil_or_concat parts with rfl | ⟨front, last, rfl⟩
      · cases settled
      rw [List.concat_eq_append] at *
      simp only [Lexeme.settled, Bool.false_or, List.getLast?_concat] at settled
      cases last with
      | char c | escaped c => cases settled
      | substitution region =>
        simp only [Bool.and_eq_true, Bool.not_eq_true'] at settled
        exact double_reads_on closing more fits.1 settled.1 settled.2 found

end Follow

theorem mem_parse_settled {depth : Nat} {text tail : Text} (settled : settledWith depth text = true)
    (closing : Closing tail) {command : List Word} (found : command ∈ parseShellCommands text) :
    command ∈ parseShellCommands (text ++ tail) := by
  induction depth generalizing text command with
  | zero => cases settled
  | succ depth ih =>
    obtain ⟨spelled, reading⟩ := lex_spec text
    rw [settledWith, List.all_eq_true] at settled
    rw [parse_eq_lex] at found
    rcases List.eq_nil_or_concat (lex text) with none | ⟨front, last, split⟩
    · rw [none] at found
      cases found
    · rw [List.concat_eq_append] at split
      rw [split] at spelled reading found
      obtain ⟨before, here, _⟩ := fits_append.mp reading
      rw [List.foldl_append] at found
      have fits : last.Fits (front.foldl Lexeme.act .start).hasWord none := by
        rw [hasWord_foldl]
        exact here
      have read_front : read .main (text ++ tail) .start =
          read .main (last.text ++ tail) (front.foldl Lexeme.act .start) := by
        have reading : Reading false (last.text ++ tail).head? front := by
          obtain ⟨c, rest, split⟩ := List.exists_cons_of_ne_nil last.text_ne_nil
          simpa [split] using before
        rw [← spelled, List.flatMap_append, List.flatMap_singleton, List.append_assoc,
          Reading.read (s := .start) reading]
      rw [parseShellCommands_eq_read, read_front]
      exact last.reads_on closing (fun text settled command found => ih settled found) fits
        (settled last (by simp [split])) found

/-- The count of `readParen`, which knows no quotes, does not drop to zero in the text; where it does not come back
    to one at the end, the region goes on behind the text, which the scanner must not leave in a quotation. -/
def Reached (text : Text) : Prop :=
  Counted text ∨ text.foldl count (some (false, 1)) ≠ none ∧ Settled text

instance (text : Text) : Decidable (Reached text) := inferInstanceAs (Decidable (_ ∨ _))

def inParens (text : Text) : Text := ['$', '('] ++ text ++ [')']

def inDoubleQuotes (text : Text) : Text := ['"'] ++ text ++ ['"']

def inBackticks (text : Text) : Text := ['\x60'] ++ text ++ ['\x60']

theorem count_closing {text tail : Text} (closing : Closing tail) (goes : text.foldl count (some (false, 1)) ≠ none)
    (more : ¬ Counted text) : (text ++ tail).foldl count (some (false, 1)) ≠ none := by
  obtain ⟨⟨pending, depth⟩, state⟩ := Option.ne_none_iff_exists'.mp goes
  have next : ∃ left, count (some (pending, depth)) ')' = some (false, left) := by
    cases pending with
    | true => exact ⟨depth, rfl⟩
    | false =>
      have deeper : depth ≠ 1 := by
        rintro rfl
        exact more state
      exact ⟨depth - 1, if_neg deeper⟩
  obtain ⟨left, next⟩ := next
  rw [List.foldl_append, state]
  rcases closing with rfl | rfl
  · rw [List.foldl_cons, next]
    exact Option.some_ne_none _
  · rw [List.foldl_cons, next]
    exact Option.some_ne_none _

theorem Reached.lexemes {s : Text} (reached : Reached s) :
    ∃ plain wrapped : Lexeme, (plain.text = inParens s ∧ wrapped.text = inDoubleQuotes (inParens s)) ∧
      (∀ before, plain.Fits before none ∧ wrapped.Fits before none) ∧
      ∀ command ∈ parseShellCommands s, ∀ scanner : Scanner,
        command ∈ (plain.act scanner).subs ∧ command ∈ (wrapped.act scanner).subs := by
  by_cases counted : Counted s
  · have fits : ∀ next, (Region.paren s true).Fits next := fun next => ⟨counted, by simp [Region.closed]⟩
    refine ⟨.substitution (.paren s true), .double [.substitution (.paren s true)] true, ⟨rfl, ?_⟩,
      fun _ => ⟨fits _, fits _, trivial⟩, fun command found scanner => ⟨?_, ?_⟩⟩
    · simp [Lexeme.text, Part.text, Region.text, inDoubleQuotes, inParens]
    · exact List.mem_append_right _ found
    · exact List.mem_append_right _ found
  · obtain ⟨goes, settled⟩ := reached.resolve_left counted
    have fits : ∀ tail, Closing tail → (Region.paren (s ++ tail) false).Fits none :=
      fun tail closing => ⟨count_closing closing goes counted, fun _ => rfl⟩
    refine ⟨.substitution (.paren (s ++ [')']) false), .double [.substitution (.paren (s ++ [')', '"']) false)] false,
      ⟨?_, ?_⟩, fun _ => ⟨fits _ (.inl rfl), ⟨fits _ (.inr rfl), trivial⟩, rfl⟩, fun command found scanner => ⟨?_, ?_⟩⟩
    · simp [Lexeme.text, Region.text, inParens]
    · simp [Lexeme.text, Part.text, Region.text, inDoubleQuotes, inParens]
    · exact List.mem_append_right _ (mem_parse_settled settled (.inl rfl) found)
    · exact List.mem_append_right _ (mem_parse_settled settled (.inr rfl) found)

/-- The count drops to zero in a text exactly where the reader cuts the text. -/
theorem count_reaches {text : Text} :
    text.foldl count (some (false, 1)) ≠ none ↔ text <+: (readParen 1 (text ++ [')'])).1 := by
  rcases region : readParen 1 (text ++ [')']) with ⟨inner, after⟩
  constructor
  · intro goes
    rcases readParen_closing (.inl rfl) goes region with ⟨rfl, _⟩ | ⟨rfl, _⟩
    · exact List.prefix_rfl
    · exact List.prefix_append _ _
  · rintro ⟨rest, rfl⟩ stops
    have counted : (text ++ rest).foldl count (some (false, 1)) ≠ none := by
      rcases readParen_cases region with ⟨_, one⟩ | ⟨_, _, goes⟩
      · rw [one]
        exact Option.some_ne_none _
      · exact goes
    rw [List.foldl_append, stops] at counted
    exact counted (foldl_count_none rest)

/-- What a substitution behind a command word runs is found, if the reader does not cut its text, and between
    backticks always. -/
theorem substituted_commands_found (word : Spelling) (gap : Text) (blanks : ∀ c ∈ gap, Blank c) (s : Text) :
    (BareParens s → WellFormed s ∧ Reached s) ∧
      (Settled s → (Reached s ↔ s <+: (readParen 1 (s ++ [')'])).1)) ∧
      (Reached s → ∀ command ∈ parseShellCommands s,
        command ∈ parseShellCommands (word.text ++ gap ++ inParens s) ∧
          command ∈ parseShellCommands (word.text ++ gap ++ inDoubleQuotes (inParens s))) ∧
      ('\x60' ∉ s → '\\' ∉ s → ∀ command ∈ parseShellCommands s,
        command ∈ parseShellCommands (word.text ++ gap ++ inBackticks s)) := by
  refine ⟨fun bare => ⟨formed_of_bare bare, .inl bare.counted⟩, ?_, ?_, ?_⟩
  · intro settled
    rw [← count_reaches]
    constructor
    · rintro (counted | ⟨goes, _⟩)
      · rw [counted]
        exact Option.some_ne_none _
      · exact goes
    · exact fun goes => .inr ⟨goes, settled⟩
  · intro reached command found
    obtain ⟨plain, wrapped, ⟨bare, quoted⟩, fits, runs⟩ := reached.lexemes
    rw [← quoted, ← bare]
    constructor
    · exact mem_parse_behind word blanks plain (congrArg List.head? bare) (by decide) (fun before => (fits before).1)
        fun scanner => (runs command found scanner).1
    · exact mem_parse_behind word blanks wrapped (congrArg List.head? quoted) (by decide)
        (fun before => (fits before).2) fun scanner => (runs command found scanner).2
  · intro noTick noEscape command found
    have plain : ∀ c ∈ s, c ≠ '\\' ∧ c ≠ '\x60' := by
      intro c member
      exact ⟨fun same => noEscape (same ▸ member), fun same => noTick (same ▸ member)⟩
    have fits : ∀ next, (Region.backtick s true).Fits next :=
      fun next => ⟨foldl_ticks_plain plain, by simp [Region.closed]⟩
    have whole : (Lexeme.substitution (.backtick s true)).text = inBackticks s := rfl
    have same : (Region.backtick s true).inner = s := unescape_plain plain
    rw [← same] at found
    rw [← whole]
    exact mem_parse_behind word blanks (.substitution _) rfl (by decide) (fun _ => fits _)
      fun _ => List.mem_append_right _ found

theorem group_in_substitution_found :
    (∀ c ∈ [' '], Blank c) ∧ Reached "echo '('; (curl x)".toList ∧
      ["curl".toList, "x".toList] ∈
        parseShellCommands ((quoted "echo".toList).text ++ [' '] ++ inParens "echo '('; (curl x)".toList) ∧
      ["curl".toList, "x".toList] ∈
        parseShellCommands ((quoted "echo".toList).text ++ [' '] ++ inBackticks "echo '('; (curl x)".toList) := by
  have blanks : ∀ c ∈ [' '], Blank c := by simp [Blank]
  have reached : Reached "echo '('; (curl x)".toList := by decide +kernel
  have found : ["curl".toList, "x".toList] ∈ parseShellCommands "echo '('; (curl x)".toList := by decide +kernel
  obtain ⟨_, _, parens, ticks⟩ :=
    substituted_commands_found (quoted "echo".toList) [' '] blanks "echo '('; (curl x)".toList
  exact ⟨blanks, reached, (parens reached _ found).1, ticks (by decide) (by decide) _ found⟩

/-- The same command written twice, once with an escaped and once with a quoted parenthesis: the region ends at the
    second one, and the first one is found. -/
example : ¬ Reached "echo \\); echo ')'".toList ∧
    ∀ command ∈ parseShellCommands "echo \\); echo ')'".toList,
      command ∈ parseShellCommands ("echo ".toList ++ inParens "echo \\); echo ')'".toList) := by
  decide +kernel

/-- A quoted parenthesis closes the region early, and what follows it is then read between quotes. -/
theorem quoted_parenthesis_hides :
    WellFormed "echo ')'; curl x".toList ∧
      ["curl".toList, "x".toList] ∈ parseShellCommands "echo ')'; curl x".toList ∧
      ["curl".toList, "x".toList] ∉ parseShellCommands ("echo ".toList ++ inParens "echo ')'; curl x".toList) ∧
      ["curl".toList, "x".toList] ∉
        parseShellCommands ("echo ".toList ++ inDoubleQuotes (inParens "echo ')'; curl x".toList)) := by
  decide +kernel

end Koine.SupplyChain
