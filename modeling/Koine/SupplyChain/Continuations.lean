import Koine.SupplyChain.Commands
import Koine.SupplyChain.Lexemes

namespace Koine.SupplyChain

open Library

/-! ### Texts without their continuations -/

section Join

variable (inside : Text → Text)

def Region.join : Region → Region
  | .paren inner closed => .paren (inside inner) closed
  | .backtick raw closed => .backtick (inside raw) closed

def joinParts : List Part → List Part
  | [] => []
  | .escaped '\n' :: rest => joinParts rest
  | .escaped '\r' :: .char '\n' :: rest => joinParts rest
  | .substitution region :: rest => .substitution (region.join inside) :: joinParts rest
  | part :: rest => part :: joinParts rest

def Lexeme.join : Lexeme → List Lexeme
  | .continuation _ => []
  | .double parts closed => [.double (joinParts inside parts) closed]
  | .substitution region => [.substitution (region.join inside)]
  | lexeme => [lexeme]

end Join

def joinWith : Nat → Text → Text
  | 0, text => text
  | depth + 1, text => ((lex text).flatMap (Lexeme.join (joinWith depth))).flatMap Lexeme.text

/-- The text without its continuations, as the scanner reads it: those outside of single quotes and comments
    whose backslash is not escaped itself. -/
def joined (text : Text) : Text := joinWith text.length text

def unpartedParts : List Part → Bool
  | [] => true
  | part :: rest => (part != .char '$' || (joinParts id rest).head? != some (.char '(')) && unpartedParts rest

def Lexeme.isContinuation : Lexeme → Bool
  | .continuation _ => true
  | _ => false

def Lexeme.endsCommand : Lexeme → Bool
  | .newline _ | .operator _ => true
  | _ => false

/-- No continuation parts the `$(` of a substitution or the line end behind a backslash. -/
def unparted : List Lexeme → Bool
  | [] => true
  | lexeme :: rest =>
    let next := rest.find? fun lexeme => !lexeme.isContinuation
    (lexeme != .literal '$' || next != some (.operator '(')) &&
      (lexeme != .escaped '\r' || next != some (.newline '\n')) && unparted rest

def keepsName (words others : List Word) : Bool :=
  commandName words == none || commandName words == commandName others

section Steady

variable (inside : Text → Text) (held : Text → Bool)

/-- Between backticks a continuation is a line end to the parser, which must not lose a name there. -/
def Region.steady : Region → Bool
  | .paren inner _ => held inner
  | .backtick raw _ =>
    (names (parseShellCommands (unescape (inside raw)))).all (names (parseShellCommands (unescape raw))).contains

def Part.steady : Part → Bool
  | .substitution region => region.steady inside held
  | _ => true

def Lexeme.steady : Lexeme → Bool
  | .double parts _ => unpartedParts parts && parts.all (Part.steady inside held)
  | .substitution region => region.steady inside held
  | _ => true

/-- No command has its name from a line end that a continuation between double quotes leaves in one of its words. -/
def named (s joined : Scanner) : List Lexeme → Bool
  | [] => keepsName joined.endWord.current s.endWord.current
  | lexeme :: rest =>
    (!lexeme.endsCommand || keepsName joined.endWord.current s.endWord.current) &&
      named (lexeme.act s) ((lexeme.join inside).foldl Lexeme.act joined) rest

end Steady

def steadyWith : Nat → Text → Bool
  | 0, _ => true
  | depth + 1, text =>
    unparted (lex text) && (lex text).all (Lexeme.steady (joinWith depth) (steadyWith depth)) &&
      named (joinWith depth) .start .start (lex text)

/-- Continuations between double quotes leave the names of the commands, those between backticks stand where a line
    end may, and none parts the `$(` of a substitution or the line end behind a backslash. -/
def Steady (text : Text) : Prop := steadyWith text.length text = true

instance (text : Text) : Decidable (Steady text) := inferInstanceAs (Decidable (_ = true))

/-! ### Readers of single characters -/

section Readers

variable {S : Type}

/-- A reader for which a backslash takes the character after it, so that it does not see a continuation. -/
structure Skips (step : S → Char → S) (waits : S → Option Bool) : Prop where
  moves : ∀ s c, ∀ after ∈ waits (step s c), ∃ before ∈ waits s, after = escapes before c
  continuation : ∀ s crlf, (∀ waiting ∈ waits s, waiting = false) →
    (Lexeme.continuation crlf).text.foldl step s = s

theorem count_skips : Skips count (Option.map Prod.fst) where
  moves := by
    intro state c after moved
    obtain ⟨⟨_, level⟩, moved, rfl⟩ := Option.map_eq_some_iff.mp moved
    rcases state with _ | ⟨_ | _, depth⟩
    · cases moved
    · refine ⟨_, rfl, ?_⟩
      by_cases escape : c = '\\'
      · subst escape
        cases moved
        rfl
      · rw [escapes, pending_other escape]
        by_cases opens : c = '('
        · subst opens
          cases moved
          rfl
        · by_cases closes : c = ')'
          · subst closes
            simp only [count] at moved
            split at moved <;> cases moved
            rfl
          · rw [count_other escape opens closes] at moved
            cases moved
            rfl
    · cases moved
      exact ⟨_, rfl, rfl⟩
  continuation := by
    intro state crlf settled
    rcases state with _ | ⟨_ | _, depth⟩
    · exact foldl_count_none _
    · cases crlf <;> rfl
    · cases settled true rfl

theorem ticks_skips : Skips ticks id where
  moves := by
    intro state c after moved
    rcases state with _ | _ | _
    · cases moved
    · refine ⟨_, rfl, ?_⟩
      by_cases escape : c = '\\'
      · subst escape
        cases moved
        rfl
      · rw [escapes, pending_other escape]
        by_cases tick : c = '\x60'
        · subst tick
          cases moved
        · rw [id, ticks_other escape tick] at moved
          cases moved
          rfl
    · cases moved
      exact ⟨_, rfl, rfl⟩
  continuation := by
    intro state crlf settled
    rcases state with _ | _ | _
    · exact foldl_ticks_none _
    · cases crlf <;> rfl
    · cases settled true rfl

variable {step : S → Char → S} {waits : S → Option Bool}

def CalmIn (waits : S → Option Bool) (next : Option Char) (s : S) : Prop := ∀ waiting ∈ waits s, Calm next waiting

theorem CalmIn.settled {c : Char} {s : S} (calm : CalmIn waits (some c) s) (other : c ≠ '\n') :
    ∀ waiting ∈ waits s, waiting = false :=
  fun waiting member => (calm waiting member).settled other

theorem CalmIn.any {c : Char} {s : S} (calm : CalmIn waits (some c) s) (other : c ≠ '\n') (next : Option Char) :
    CalmIn waits next s :=
  fun waiting member => .inr (.inr (calm.settled other waiting member))

variable (skips : Skips step waits)

include skips

theorem Skips.pending (text : Text) (s : S) :
    ∀ after ∈ waits (text.foldl step s), ∃ before ∈ waits s, after = text.foldl escapes before := by
  induction text generalizing s with
  | nil => exact fun after member => ⟨after, member, rfl⟩
  | cons c text ih =>
    intro after member
    obtain ⟨middle, moved, rfl⟩ := ih (step s c) after member
    obtain ⟨before, start, rfl⟩ := skips.moves s c middle moved
    exact ⟨before, start, rfl⟩

theorem Skips.calm {next later : Option Char} {s : S} {text : Text} (calm : CalmIn waits next s)
    (keeps : ∀ before, Calm next before → Calm later (text.foldl escapes before)) :
    CalmIn waits later (text.foldl step s) := by
  intro after member
  obtain ⟨before, start, rfl⟩ := skips.pending text s after member
  exact keeps _ (calm before start)

variable {inside : Text → Text}
  (same : ∀ text s, CalmIn waits (some ' ') s → (inside text).foldl step s = text.foldl step s)

include same

theorem Region.foldl_join (region : Region) {s : S} (calm : CalmIn waits (some ' ') s) :
    (region.join inside).text.foldl step s = region.text.foldl step s := by
  cases region with
  | paren inner closed =>
    have opened : CalmIn waits (some ' ') (['$', '('].foldl step s) :=
      skips.calm calm fun before _ => calm_behind (by decide) ['$'] _ before
    have inner := same inner _ opened
    simp only [join, text, List.foldl_cons, List.foldl_append, List.foldl_nil] at inner ⊢
    rw [inner]
  | backtick raw closed =>
    have opened : CalmIn waits (some ' ') (['\x60'].foldl step s) :=
      skips.calm calm fun before _ => calm_behind (by decide) [] _ before
    have inner := same raw _ opened
    simp only [join, text, List.foldl_cons, List.foldl_append, List.foldl_nil] at inner ⊢
    rw [inner]

theorem foldl_joinParts {parts : List Part} {last : Option Char} (fits : Lexeme.PartsFit parts last) {s : S}
    (calm : CalmIn waits ((parts.flatMap Part.text).head?.or last) s) :
    ((joinParts inside parts).flatMap Part.text).foldl step s = (parts.flatMap Part.text).foldl step s := by
  fun_induction joinParts inside parts generalizing s with
  | case1 => rfl
  | case2 rest ih =>
    have skipped : (Part.escaped '\n').text.foldl step s = s := skips.continuation s false (calm.settled (by decide))
    rw [ih fits.2 (calm.any (by decide) _), List.flatMap_cons, List.foldl_append, skipped]
  | case3 rest ih =>
    have skipped : ((Part.escaped '\r').text ++ (Part.char '\n').text).foldl step s = s :=
      skips.continuation s true (calm.settled (by decide))
    rw [ih fits.2.2 (calm.any (by decide) _), List.flatMap_cons, List.flatMap_cons, ← List.append_assoc,
      List.foldl_append, skipped]
  | case4 region rest ih =>
    rw [List.flatMap_cons, List.head?_append, Option.or_assoc] at calm
    have settled : CalmIn waits (some ' ') s := by
      cases region <;> exact calm.any (by decide) _
    have later := skips.calm calm fun _ => fits.1.calm
    rw [List.flatMap_cons, List.flatMap_cons, List.foldl_append, List.foldl_append, Part.text, Part.text,
      Region.foldl_join skips same region settled]
    exact ih fits.2 later
  | case5 part rest notNewline notCrlf notRegion ih =>
    rw [List.flatMap_cons, List.head?_append, Option.or_assoc] at calm
    rw [List.flatMap_cons, List.flatMap_cons, List.foldl_append, List.foldl_append]
    exact ih fits.2 (skips.calm calm fun _ => fits.1.calm)

theorem Lexeme.foldl_join {lexeme : Lexeme} {hasWord : Bool} {next : Option Char} (fits : lexeme.Fits hasWord next)
    {s : S} (calm : CalmIn waits (lexeme.text.head?.or next) s) :
    ((lexeme.join inside).flatMap Lexeme.text).foldl step s = lexeme.text.foldl step s := by
  cases lexeme with
  | continuation crlf =>
    rw [skips.continuation s crlf]
    · rfl
    · cases crlf <;> exact calm.settled (by decide)
  | double parts closed =>
    have settled : CalmIn waits (some ' ') s := calm.any (by decide) _
    have opened : ∀ next, CalmIn waits next (step s '"') :=
      fun next => skips.calm settled fun before _ => calm_behind (by decide) [] next before
    have inner : PartsFit parts (if closed then some '"' else none) := by
      cases closed with
      | false => exact fits.1
      | true => exact fits
    have parts := foldl_joinParts skips same inner (opened _)
    rw [join, List.flatMap_singleton, text, text, List.foldl_cons, List.foldl_cons, List.foldl_append,
      List.foldl_append, parts]
  | substitution region =>
    rw [join, List.flatMap_singleton]
    refine Region.foldl_join skips same region ?_
    cases region <;> exact calm.any (by decide) _
  | blank c | newline c | operator c | escaped c | literal c | single body closed | comment body =>
    simp [join]

end Readers

theorem foldl_joinWith {S : Type} {step : S → Char → S} {waits : S → Option Bool} (skips : Skips step waits)
    (depth : Nat) (text : Text) {s : S} (calm : CalmIn waits (some ' ') s) :
    (joinWith depth text).foldl step s = text.foldl step s := by
  induction depth generalizing text s with
  | zero => rfl
  | succ depth ih =>
    obtain ⟨spelled, reading⟩ := lex_spec text
    rw [joinWith, List.flatMap_assoc]
    refine (Fits.foldl_eq reading ?_ (calm.any (by decide) _)).trans (by rw [spelled])
    intro lexeme _ _ _ s fits calm
    exact ⟨Lexeme.foldl_join skips (fun text s calm => ih text calm) fits calm, skips.calm calm fun _ => fits.calm⟩

/-! ### The scanner reads the joined lexemes -/

theorem Region.Fits.join {region : Region} {next next' : Option Char} (fits : region.Fits next)
    (ended : next = none → next' = none) (depth : Nat) : (region.join (joinWith depth)).Fits next' := by
  refine ⟨?_, ?_⟩
  · cases region with
    | paren inner closed =>
      have same := foldl_joinWith count_skips depth inner (s := some (false, 1)) (by simp [CalmIn, Calm])
      cases closed with
      | false =>
        rw [Region.join, Proper, same]
        exact fits.1
      | true =>
        rw [Region.join, Proper, same]
        exact fits.1
    | backtick raw closed =>
      have same := foldl_joinWith ticks_skips depth raw (s := some false) (by simp [CalmIn, Calm])
      cases closed with
      | false =>
        rw [Region.join, Proper, same]
        exact fits.1
      | true =>
        rw [Region.join, Proper, same]
        exact fits.1
  · cases region <;> exact fun opened => ended (fits.2 opened)

theorem Region.head_join (inside : Text → Text) (region : Region) :
    (region.join inside).text.head? = region.text.head? := by
  cases region <;> rfl

theorem Part.text_ne_nil (part : Part) : part.text ≠ [] := by
  cases part with
  | char c => simp [text]
  | escaped c => simp [text]
  | substitution region => cases region <;> simp [text, Region.text]

theorem head_joinParts {parts : List Part} {last : Option Char} (inside : Text → Text)
    (ended : (parts.flatMap Part.text).head?.or last = none) :
    ((joinParts inside parts).flatMap Part.text).head?.or last = none := by
  cases parts with
  | nil => exact ended
  | cons part parts =>
    obtain ⟨c, text, split⟩ := List.exists_cons_of_ne_nil part.text_ne_nil
    simp [split] at ended

theorem Part.of_head {part : Part} (head : part.text.head? = some '(') : part = .char '(' := by
  cases part with
  | char other => simpa [text] using head
  | escaped other => simp [text] at head
  | substitution region => cases region <;> simp [text, Region.text] at head

theorem char_joinParts {inside : Text → Text} {parts : List Part} {c : Char}
    (head : (joinParts inside parts).head? = some (.char c)) : (joinParts id parts).head? = some (.char c) := by
  fun_induction joinParts inside parts with
  | case1 => cases head
  | case2 rest ih => exact ih head
  | case3 rest ih => exact ih head
  | case4 region rest ih => cases head
  | case5 part rest notNewline notCrlf notRegion ih =>
    rw [joinParts]
    · exact head
    all_goals assumption

theorem partsFit_join {parts : List Part} {last : Option Char} (fits : Lexeme.PartsFit parts last)
    (closes : last ≠ some '(') (whole : unpartedParts parts = true) (depth : Nat) :
    Lexeme.PartsFit (joinParts (joinWith depth) parts) last := by
  fun_induction joinParts (joinWith depth) parts with
  | case1 => trivial
  | case2 rest ih =>
    rw [unpartedParts, Bool.and_eq_true] at whole
    exact ih fits.2 whole.2
  | case3 rest ih =>
    rw [unpartedParts, Bool.and_eq_true, unpartedParts, Bool.and_eq_true] at whole
    exact ih fits.2.2 whole.2.2
  | case4 region rest ih =>
    rw [unpartedParts, Bool.and_eq_true] at whole
    exact ⟨fits.1.join (head_joinParts _) depth, ih fits.2 whole.2⟩
  | case5 part rest notNewline notCrlf notRegion ih =>
    rw [unpartedParts, Bool.and_eq_true] at whole
    have later := ih fits.2 whole.2
    refine ⟨?_, later⟩
    cases part with
    | char c =>
      obtain ⟨notQuote, notTick, _, backslash⟩ := fits.1
      refine ⟨notQuote, notTick, ?_, fun escape => head_joinParts _ (backslash escape)⟩
      rintro rfl next
      have parted : (joinParts id rest).head? = some (.char '(') := by
        cases joined : joinParts (joinWith depth) rest with
        | nil =>
          rw [joined] at next
          exact absurd next closes
        | cons first others =>
          obtain ⟨c, text, split⟩ := List.exists_cons_of_ne_nil first.text_ne_nil
          have head : first.text.head? = some '(' := by
            rw [joined] at next
            simpa [split] using next
          have starts : (joinParts (joinWith depth) rest).head? = some (.char '(') := by
            rw [joined, Part.of_head head]
            rfl
          exact char_joinParts starts
      simp [parted] at whole
    | escaped c => trivial
    | substitution region => exact (notRegion region rfl).elim

theorem Lexeme.Fits.join {lexeme : Lexeme} {before : Bool} {next : Option Char} (fits : lexeme.Fits before next)
    {depth : Nat} {held : Text → Bool} (steady : lexeme.steady (joinWith depth) held = true)
    (kept : lexeme.isContinuation = false) :
    ∃ other : Lexeme, lexeme.join (joinWith depth) = [other] ∧ other.started before = lexeme.started before ∧
      other.Fits before next ∧ (other = .literal '$' → lexeme = other) ∧ (other = .escaped '\r' → lexeme = other) := by
  cases lexeme with
  | continuation crlf => cases kept
  | double parts closed =>
    rw [Lexeme.steady, Bool.and_eq_true] at steady
    refine ⟨.double (joinParts (joinWith depth) parts) closed, rfl, rfl, ?_, ?_, ?_⟩
    · cases closed with
      | false => exact ⟨partsFit_join fits.1 (by decide) steady.1 depth, fits.2⟩
      | true => exact partsFit_join fits (by decide) steady.1 depth
    · rintro ⟨⟩
    · rintro ⟨⟩
  | substitution region =>
    refine ⟨.substitution (region.join (joinWith depth)), rfl, rfl, Region.Fits.join fits id depth, ?_, ?_⟩
    · rintro ⟨⟩
    · rintro ⟨⟩
  | blank c | newline c | operator c | escaped c | literal c | single body closed | comment body =>
    exact ⟨_, rfl, rfl, fits, fun _ => rfl, fun _ => rfl⟩

theorem Lexeme.Fits.before {lexeme : Lexeme} {before : Bool} {next next' : Option Char}
    (fits : lexeme.Fits before next) (ended : next = none → next' = none)
    (line : (∃ body, lexeme = .comment body) → next = some '\n' → next' = none ∨ next' = some '\n')
    (dollar : lexeme = .literal '$' → next' ≠ some '(')
    (cr : lexeme = .escaped '\r' → next' ≠ some '\n') : lexeme.Fits before next' := by
  cases lexeme with
  | escaped c => exact ⟨fits.1, fun same => cr (congrArg _ same)⟩
  | literal c => exact ⟨fits.1, ⟨fun same => dollar (congrArg _ same), fun same => ended (fits.2.1.2 same)⟩, fits.2.2⟩
  | single body closed => exact ⟨fits.1, fun opened => ended (fits.2 opened)⟩
  | double parts closed =>
    cases closed with
    | false => exact ⟨fits.1, ended fits.2⟩
    | true => exact fits
  | substitution region => exact ⟨fits.1, fun opened => ended (fits.2 opened)⟩
  | comment body => exact ⟨fits.1, fits.2.1, fits.2.2.elim (fun none => .inl (ended none)) (line ⟨body, rfl⟩)⟩
  | blank c | newline c | operator c | continuation crlf => exact fits

theorem Lexeme.Fits.of_head {lexeme : Lexeme} {before : Bool} {next : Option Char} (fits : lexeme.Fits before next) :
    (lexeme.text.head? = some '(' → lexeme = .operator '(') ∧
      (lexeme.text.head? = some '\n' → lexeme = .newline '\n') := by
  cases lexeme with
  | operator c => rcases fits with rfl | rfl | rfl | rfl | rfl <;> simp [text]
  | newline c => rcases fits with rfl | rfl <;> simp [text]
  | blank c => rcases fits with rfl | rfl <;> simp [text]
  | literal c => simp_all [text, Fits, Operator, LineEnd]
  | continuation crlf => cases crlf <;> simp [text]
  | substitution region => cases region <;> simp [text, Region.text]
  | escaped c | single body closed | double parts closed | comment body => simp [text]

theorem eq_nil_of_head {lexemes : List Lexeme} (ended : (lexemes.flatMap Lexeme.text).head? = none) :
    lexemes = [] := by
  cases lexemes with
  | nil => rfl
  | cons lexeme lexemes => simp [lexeme.text_ne_nil] at ended

theorem Lexeme.head_join (inside : Text → Text) {lexeme : Lexeme} (kept : lexeme.isContinuation = false) :
    ((lexeme.join inside).flatMap text).head? = lexeme.text.head? := by
  cases lexeme with
  | continuation crlf => cases kept
  | double parts closed => rfl
  | substitution region =>
    rw [join, List.flatMap_singleton]
    exact region.head_join inside
  | blank c | newline c | operator c | escaped c | literal c | single body closed | comment body =>
    simp [join]

theorem head_joined (inside : Text → Text) (lexemes : List Lexeme) :
    ((lexemes.flatMap (Lexeme.join inside)).flatMap Lexeme.text).head? =
      (lexemes.find? fun lexeme => !lexeme.isContinuation).bind fun lexeme => lexeme.text.head? := by
  induction lexemes with
  | nil => rfl
  | cons lexeme lexemes ih =>
    rw [List.flatMap_cons, List.flatMap_append, List.head?_append]
    cases kind : lexeme.isContinuation with
    | true =>
      rw [List.find?_cons_of_neg (by simp [kind]), ih]
      cases lexeme <;> cases kind
      rfl
    | false =>
      rw [List.find?_cons_of_pos (by simp [kind]), Lexeme.head_join inside kind]
      obtain ⟨c, tail, split⟩ := List.exists_cons_of_ne_nil lexeme.text_ne_nil
      simp [split]

theorem kept_of_head {inside : Text → Text} {lexemes : List Lexeme} {before : Bool}
    (reading : Reading before none lexemes) {c : Char}
    (head : ((lexemes.flatMap (Lexeme.join inside)).flatMap Lexeme.text).head?.or none = some c) :
    ∃ lexeme : Lexeme, lexemes.find? (fun lexeme => !lexeme.isContinuation) = some lexeme ∧
      lexeme.text.head? = some c ∧ ∃ before next, lexeme.Fits before next := by
  rw [Option.or_none, head_joined, Option.bind_eq_some_iff] at head
  obtain ⟨lexeme, found, head⟩ := head
  exact ⟨lexeme, found, head, reading.exists_fits (List.mem_of_find?_eq_some found)⟩

theorem reading_join {depth : Nat} {held : Text → Bool} {lexemes : List Lexeme} {before : Bool}
    (reading : Reading before none lexemes)
    (steady : ∀ lexeme ∈ lexemes, lexeme.steady (joinWith depth) held = true) (whole : unparted lexemes = true) :
    Reading before none (lexemes.flatMap (Lexeme.join (joinWith depth))) := by
  induction lexemes generalizing before with
  | nil => trivial
  | cons lexeme rest ih =>
    rw [List.forall_mem_cons] at steady
    simp only [unparted, Bool.and_eq_true, Bool.or_eq_true, bne_iff_ne] at whole
    obtain ⟨⟨dollar, cr⟩, whole⟩ := whole
    have later := ih reading.2 steady.2 whole
    cases kind : lexeme.isContinuation with
    | true =>
      cases lexeme <;> cases kind
      exact later
    | false =>
      obtain ⟨other, joined, started, fits, sameDollar, sameCr⟩ := reading.1.join steady.1 kind
      rw [List.flatMap_cons, joined, List.singleton_append]
      rw [← started] at later
      refine ⟨fits.before ?_ ?_ ?_ ?_, later⟩
      · intro ended
        rw [Option.or_none] at ended ⊢
        rw [eq_nil_of_head ended]
        rfl
      · intro _ line
        cases rest with
        | nil => cases line
        | cons following rest =>
          have head : following.text.head? = some '\n' := by
            obtain ⟨c, tail, split⟩ := List.exists_cons_of_ne_nil following.text_ne_nil
            simpa [split] using line
          rw [Option.or_none, head_joined, reading.2.1.of_head.2 head]
          exact .inr rfl
      · intro same next
        obtain ⟨following, found, head, _, _, fits⟩ := kept_of_head reading.2 next
        rw [fits.of_head.1 head] at found
        exact dollar.elim (fun other => other ((sameDollar same).trans same)) (fun other => other found)
      · intro same next
        obtain ⟨following, found, head, _, _, fits⟩ := kept_of_head reading.2 next
        rw [fits.of_head.2 head] at found
        exact cr.elim (fun other => other ((sameCr same).trans same)) (fun other => other found)

/-! ### The names in the joined text -/

structure Covers (s joined : Scanner) : Prop where
  commands : names joined.commands ⊆ names s.commands
  subs : names joined.subs ⊆ names s.subs

theorem names_endCommand (s : Scanner) :
    names s.endCommand.commands = names s.commands ++ (commandName s.endWord.current).toList := by
  have kept : s.endWord.commands = s.commands := by
    rw [Scanner.endWord]
    split <;> rfl
  simp only [Scanner.endCommand, ← kept]
  split
  · simp only [names, List.filterMap_append]
    cases named : commandName s.endWord.current <;> simp [named]
  · rename_i empty
    rw [not_not.mp empty]
    exact (List.append_nil _).symm

namespace Covers

variable {s joined : Scanner}

theorem endWord (covers : Covers s joined) : Covers s.endWord joined.endWord := by
  simp only [Scanner.endWord]
  constructor
  · split <;> split <;> exact covers.commands
  · split <;> split <;> exact covers.subs

theorem endCommand (covers : Covers s joined)
    (same : keepsName joined.endWord.current s.endWord.current = true) : Covers s.endCommand joined.endCommand := by
  have ended := covers.endWord
  constructor
  · rw [names_endCommand, names_endCommand]
    intro name member
    rcases List.mem_append.mp member with member | member
    · exact List.mem_append_left _ (covers.commands member)
    · rw [Option.mem_toList] at member
      simp only [keepsName, Bool.or_eq_true, beq_iff_eq, member, reduceCtorEq, false_or] at same
      exact List.mem_append_right _ (Option.mem_toList.mpr same.symm)
  · rw [subs_endCommand, subs_endCommand]
    exact covers.subs

theorem nested (covers : Covers s joined) {found others : List (List Word)} (less : names others ⊆ names found) :
    Covers (s.nested found) (joined.nested others) where
  commands := covers.commands
  subs := by
    simp only [Scanner.nested, names, List.filterMap_append]
    exact List.append_subset.mpr ⟨List.subset_append_of_subset_left _ covers.subs,
      List.subset_append_of_subset_right _ less⟩

theorem result (covers : Covers s joined) (same : keepsName joined.endWord.current s.endWord.current = true) :
    names joined.result ⊆ names s.result := by
  have ended := covers.endCommand same
  simp only [Scanner.result, names, List.filterMap_append]
  exact List.append_subset.mpr ⟨List.subset_append_of_subset_left _ ended.commands,
    List.subset_append_of_subset_right _ ended.subs⟩

variable {inside : Text → Text} {held : Text → Bool}
  (less : ∀ text, held text = true → names (parseShellCommands (inside text)) ⊆ names (parseShellCommands text))

include less

theorem region (covers : Covers s joined) {region : Region} (steady : region.steady inside held = true) :
    Covers (s.nested (parseShellCommands region.inner))
      (joined.nested (parseShellCommands (region.join inside).inner)) := by
  refine covers.nested ?_
  cases region with
  | paren inner closed => exact less inner steady
  | backtick raw closed =>
    rw [Region.steady, List.all_eq_true] at steady
    exact fun name found => List.contains_iff_mem.mp (steady name found)

theorem parts {parts : List Part} (covers : Covers s joined) (steady : parts.all (Part.steady inside held) = true) :
    Covers (parts.foldl Part.act s) ((joinParts inside parts).foldl Part.act joined) := by
  fun_induction joinParts inside parts generalizing s joined with
  | case1 => exact covers
  | case2 rest ih =>
    rw [List.all_cons, Bool.and_eq_true] at steady
    exact ih ⟨covers.commands, covers.subs⟩ steady.2
  | case3 rest ih =>
    rw [List.all_cons, Bool.and_eq_true, List.all_cons, Bool.and_eq_true] at steady
    exact ih ⟨covers.commands, covers.subs⟩ steady.2.2
  | case4 region rest ih =>
    rw [List.all_cons, Bool.and_eq_true] at steady
    exact ih (covers.region less steady.1) steady.2
  | case5 part rest notNewline notCrlf notRegion ih =>
    rw [List.all_cons, Bool.and_eq_true] at steady
    refine ih ?_ steady.2
    cases part with
    | char c => exact ⟨covers.commands, covers.subs⟩
    | escaped c => exact ⟨covers.commands, covers.subs⟩
    | substitution region => exact (notRegion region rfl).elim

theorem lexeme {lexeme : Lexeme} (covers : Covers s joined) (steady : lexeme.steady inside held = true)
    (same : lexeme.endsCommand = true → keepsName joined.endWord.current s.endWord.current = true) :
    Covers (lexeme.act s) ((lexeme.join inside).foldl Lexeme.act joined) := by
  have opened : Covers s.opened joined.opened := ⟨covers.commands, covers.subs⟩
  cases lexeme with
  | blank c => exact covers.endWord
  | newline c => exact covers.endCommand (same rfl)
  | operator c => exact covers.endCommand (same rfl)
  | double parts closed =>
    rw [Lexeme.steady, Bool.and_eq_true] at steady
    exact opened.parts less steady.2
  | substitution region => exact opened.region less steady
  | continuation crlf | escaped c | literal c | single body closed | comment body =>
    exact ⟨covers.commands, covers.subs⟩

theorem lexemes {lexemes : List Lexeme} (covers : Covers s joined)
    (steady : ∀ lexeme ∈ lexemes, lexeme.steady inside held = true) (same : named inside s joined lexemes = true) :
    names ((lexemes.flatMap (Lexeme.join inside)).foldl Lexeme.act joined).result ⊆
      names (lexemes.foldl Lexeme.act s).result := by
  induction lexemes generalizing s joined with
  | nil => exact covers.result same
  | cons lexeme lexemes ih =>
    rw [List.forall_mem_cons] at steady
    rw [named, Bool.and_eq_true, Bool.or_eq_true, Bool.not_eq_true'] at same
    rw [List.flatMap_cons, List.foldl_append, List.foldl_cons]
    refine ih (covers.lexeme less steady.1 ?_) steady.2 same.2
    intro ends
    exact same.1.resolve_left (by simp [ends])

end Covers

/-- Joining adds no name to those that the scanner finds. -/
theorem joinWith_names {depth : Nat} {text : Text} (steady : steadyWith depth text = true) :
    names (parseShellCommands (joinWith depth text)) ⊆ names (parseShellCommands text) := by
  induction depth generalizing text with
  | zero => exact List.Subset.refl _
  | succ depth ih =>
    obtain ⟨_, reading⟩ := lex_spec text
    simp only [steadyWith, Bool.and_eq_true, List.all_eq_true] at steady
    obtain ⟨⟨whole, steady⟩, same⟩ := steady
    have covers : Covers .start .start := ⟨List.Subset.refl _, List.Subset.refl _⟩
    rw [joinWith, (reading_join reading steady whole).parse, parse_eq_lex text]
    exact covers.lexemes (fun text held => ih held) steady same

/-- Another command with the name may stand for one that is hidden. -/
example :
    ¬ Steady "\"cu\\\nrl\" x; curl y".toList ∧
      containsCommand "\"cu\\\nrl\" x; curl y".toList "curl".toList = true := by
  decide +kernel

end Koine.SupplyChain
