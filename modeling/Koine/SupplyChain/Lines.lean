import Koine.SupplyChain.Commands
import Koine.SupplyChain.Lexemes

namespace Koine.SupplyChain

open Library

/-! ### What stands clear on the lines -/

/-- The lexeme ends on its line, whatever follows it there; `started` is `hasWord` where the line is read alone. -/
def Lexeme.plain (started : Bool) (lexeme : Lexeme) : Bool :=
  '\n' ∉ lexeme.text &&
    match lexeme with
    | .continuation _ | .comment _ => false
    | .single _ closed | .double _ closed => closed
    | .substitution region => region.closed
    | .literal c => c != '\\' && (c != '#' || started)
    | _ => true

/-- A place on a line: the lexemes before it, from the start of the line, or from that of a substitution which the
    line opens and does not close. -/
structure Place where
  nested : Bool
  line : List Lexeme

namespace Place

def fresh : Place := ⟨false, []⟩

def inner : Place := ⟨true, []⟩

def started (place : Place) : Bool := place.line.foldl Lexeme.started false

def scanner (place : Place) : Scanner := place.line.foldl Lexeme.act .start

def push (place : Place) (lexeme : Lexeme) : Place := { place with line := place.line ++ [lexeme] }

/-- Behind the parenthesis that closes a substitution of an earlier line, which the line alone has as an operator. -/
def leave (place : Place) : Option Place := if place.nested then none else some (place.push (.operator ')'))

end Place

def Scanner.known (s : Scanner) : List (List Word) :=
  s.commands ++ s.subs ++ if decided s.current then [s.current] else []

section Look

variable (inside : Option Place → Text → List (List Word) × Option Place)

/-- The lines of a substitution, and the place behind it. Between backticks the lines are read where nothing is
    escaped. -/
def lookRegion (place : Option Place) : Region → List (List Word) × Option Place
  | .paren inner true =>
    let (seen, last) := inside place inner
    (seen ++ last.elim [] (·.scanner.result), last.bind Place.leave)
  | .paren inner false => inside place inner
  | .backtick raw closed =>
    if closed && '\\' ∉ raw then
      let (seen, last) := inside none raw
      (seen ++ last.elim [] (·.scanner.known), none)
    else ([], none)

def lookPart (place : Option Place) : Part → List (List Word)
  | .substitution region => (lookRegion inside place region).1
  | _ => []

def lookParts : Option Place → List Part → List (List Word)
  | _, [] => []
  | place, part :: rest =>
    lookPart inside place part ++ lookParts (if '\n' ∈ part.text then none else place) rest

def lookInto (place : Option Place) : Lexeme → List (List Word) × Option Place
  | .substitution region => lookRegion inside (place.map fun _ => .inner) region
  | .double parts _ => (lookParts inside (place.map fun _ => .inner) parts, none)
  | _ => ([], none)

/-- The commands that stand clear on the lines, and the place behind the last lexeme; there is none where the line
    begins inside a quotation. -/
def look : Option Place → List Lexeme → List (List Word) × Option Place
  | place, [] => ([], place)
  | place, .newline '\n' :: rest =>
    let (seen, last) := look (some .fresh) rest
    (place.elim [] (·.scanner.result) ++ seen, last)
  | place, lexeme :: rest =>
    if place.any fun place => lexeme.plain place.started then look (place.map (·.push lexeme)) rest
    else
      let (inner, after) := lookInto inside place lexeme
      let (seen, last) := look after rest
      (place.elim [] (·.scanner.known) ++ inner ++ seen, last)

end Look

def lookIn : Nat → Option Place → Text → List (List Word) × Option Place
  | 0, _, _ => ([], none)
  | depth + 1, place, text => look (lookIn depth) place (lex text)

/-- The commands that stand clear on the lines when these are read as one text: their names end before a quotation
    that runs over the line end, on a line that does not begin inside of one. -/
def clear (lines : List Text) : List (List Word) :=
  let text := ['\n'].intercalate lines
  let (seen, last) := lookIn (text.length + 1) (some .fresh) text
  seen ++ last.elim [] (·.scanner.result)

/-! ### They are found -/

def LineStart (front : Text) : Prop := front = [] ∨ ∃ before, front = before ++ ['\n']

def OnLines (text : Text) (lines : List Text) : Prop :=
  ∀ start here rest, text = start ++ (here ++ rest) → LineStart start → '\n' ∉ here →
    ∃ line ∈ lines, ∃ more, line = here ++ more ∧ (more = [] ∨ more.head? = rest.head?) ∧
      (rest.head? = none ∨ rest.head? = some '\n' → more = [])

theorem head_of_prefix {left more : Text} (front : left <+: more) : left = [] ∨ left.head? = more.head? := by
  obtain ⟨rest, rfl⟩ := front
  cases left with
  | nil => exact .inl rfl
  | cons c left => exact .inr rfl

theorem onLine_first {line rest here behind : Text} (inside : '\n' ∉ here) (whole : '\n' ∉ line)
    (split : line ++ rest = here ++ behind) (ends : rest.head? = none ∨ rest.head? = some '\n') :
    ∃ more, line = here ++ more ∧ (more = [] ∨ more.head? = behind.head?) ∧
      (behind.head? = none ∨ behind.head? = some '\n' → more = []) := by
  rcases List.append_eq_append_iff.mp split with ⟨more, rfl, after⟩ | ⟨more, rfl, rfl⟩
  · cases more with
    | nil => exact ⟨[], by simp, .inl rfl, fun _ => rfl⟩
    | cons c more =>
      rw [after] at ends
      have newline : c = '\n' := by simpa using ends
      exact absurd (by simp [newline]) inside
  · refine ⟨more, rfl, head_of_prefix (List.prefix_append _ _), ?_⟩
    intro ended
    cases more with
    | nil => rfl
    | cons c more =>
      have newline : c = '\n' := by simpa using ended
      exact absurd (by simp [newline]) whole

theorem onLines_intercalate {lines : List Text} (some : lines ≠ []) (whole : ∀ line ∈ lines, '\n' ∉ line) :
    OnLines (['\n'].intercalate lines) lines := by
  intro start here rest split begins inside
  induction lines generalizing start with
  | nil => exact absurd rfl some
  | cons line lines ih =>
    rw [List.forall_mem_cons] at whole
    have lined : ∃ tail, ['\n'].intercalate (line :: lines) = line ++ tail ∧
        (lines = [] ∧ tail = [] ∨ lines ≠ [] ∧ tail = '\n' :: ['\n'].intercalate lines) := by
      cases lines with
      | nil => exact ⟨[], by simp, .inl ⟨rfl, rfl⟩⟩
      | cons next others => exact ⟨_, by simp, .inr ⟨List.cons_ne_nil _ _, rfl⟩⟩
    obtain ⟨tail, lined, rests⟩ := lined
    rw [lined] at split
    have ends : tail.head? = none ∨ tail.head? = Option.some '\n' := by
      rcases rests with ⟨_, rfl⟩ | ⟨_, rfl⟩
      · exact .inl rfl
      · exact .inr rfl
    rcases begins with rfl | ⟨before, rfl⟩
    · obtain ⟨more, found⟩ := onLine_first inside whole.1 split ends
      exact ⟨line, List.mem_cons_self, more, found⟩
    · -- the place is on a later line
      obtain ⟨more, later⟩ : ∃ more, tail = more ++ '\n' :: (here ++ rest) := by
        rw [List.append_assoc] at split
        rcases List.append_eq_append_iff.mp split with ⟨more, rfl, after⟩ | ⟨more, rfl, after⟩
        · exact ⟨more, after⟩
        · cases more with
          | nil => exact ⟨[], after.symm⟩
          | cons c more =>
            cases (List.cons.inj after).1
            exact absurd (by simp) whole.1
      rcases rests with ⟨_, rfl⟩ | ⟨others, rfl⟩
      · cases more <;> cases later
      · have deeper : ∃ start, ['\n'].intercalate lines = start ++ (here ++ rest) ∧ LineStart start := by
          cases more with
          | nil => exact ⟨[], (List.cons.inj later).2, .inl rfl⟩
          | cons c more =>
            refine ⟨more ++ ['\n'], ?_, .inr ⟨more, rfl⟩⟩
            rw [(List.cons.inj later).2]
            simp
        obtain ⟨start, split, begins⟩ := deeper
        obtain ⟨line, listed, found⟩ := ih others whole.2 start split begins
        exact ⟨line, List.mem_cons_of_mem _ listed, found⟩

section Shows

/-- Whatever follows on the line behind a part of the text ahead, what the scanner finds when it starts at the place
    is found when it starts with the line. -/
def Shows (here : Text) (line : List Lexeme) (ahead : Text) : Prop :=
  ∀ front more, front <+: ahead → ∃ left, (left = [] ∨ left.head? = more.head?) ∧
    ∀ command ∈ parseShellCommands (line.flatMap Lexeme.text ++ (front ++ left)),
      command ∈ parseShellCommands (here ++ (front ++ more))

def Ready (line : List Lexeme) : Prop := ∀ next, next ≠ some '(' → next ≠ some '\n' → Reading false next line

structure Stands (place : Place) (start here ahead : Text) : Prop where
  begins : LineStart start
  onLine : '\n' ∉ here
  fresh : place.nested = false → here = place.line.flatMap Lexeme.text
  shows : Shows here place.line ahead
  reading : Reading false ahead.head? place.line
  ready : Ready place.line

def At (place : Option Place) (front ahead : Text) : Prop :=
  ∀ standing ∈ place, ∃ start here, front = start ++ here ∧ Stands standing start here ahead

variable {line : List Lexeme} {here ahead : Text}

theorem shows_fresh (line : List Lexeme) (ahead : Text) : Shows (line.flatMap Lexeme.text) line ahead :=
  fun _ more _ => ⟨more, .inr rfl, fun _ => id⟩

theorem Shows.push {lexeme : Lexeme} (shows : Shows here line (lexeme.text ++ ahead)) :
    Shows (here ++ lexeme.text) (line ++ [lexeme]) ahead := by
  intro front more within
  obtain ⟨left, same, found⟩ := shows (lexeme.text ++ front) more ((List.prefix_append_right_inj _).mpr within)
  refine ⟨left, same, ?_⟩
  simpa [List.append_assoc] using found

def Opens (opening : Text) : Prop :=
  ∀ (s : Scanner) (text : Text), ∀ command ∈ parseShellCommands (readParen 1 text).1,
    command ∈ (read .main (opening ++ text) s).result

theorem opens_paren : Opens ['$', '('] := by
  intro s text command found
  rcases region : readParen 1 text with ⟨inner, after⟩
  rw [region] at found
  rw [List.cons_append, List.cons_append, List.nil_append, read_paren region]
  exact (grows_read .main after _).mem_result (List.mem_append_right _ (List.mem_append_right _ found))

theorem opens_quoted {parts : List Part} (fits : Lexeme.PartsFit parts (some '$')) :
    Opens ('"' :: (parts.flatMap Part.text ++ ['$', '('])) := by
  intro s text command found
  rcases region : readParen 1 text with ⟨inner, after⟩
  rw [region] at found
  have spelled : '"' :: (parts.flatMap Part.text ++ ['$', '(']) ++ text =
      '"' :: (parts.flatMap Part.text ++ '$' :: '(' :: text) := by simp
  have inside : Lexeme.PartsFit parts ('$' :: '(' :: text).head? := fits
  rw [spelled, read_double, read_parts inside, read_double_paren region]
  exact (grows_read .double after _).mem_result (List.mem_append_right _ (List.mem_append_right _ found))

theorem readParen_prefix {front : Text} (more : Text) (counted : front.foldl count (some (false, 1)) ≠ none) :
    ∃ left, (readParen 1 (front ++ more)).1 = front ++ left ∧ left <+: more := by
  rcases region : readParen 1 (front ++ more) with ⟨inner, after⟩
  rcases readParen_cases region with ⟨split, one⟩ | ⟨rfl, rfl, _⟩
  · rcases List.append_eq_append_iff.mp split with ⟨left, rfl, behind⟩ | ⟨left, rfl, behind⟩
    · exact ⟨left, rfl, behind ▸ List.prefix_append _ _⟩
    · cases left with
      | nil => exact ⟨[], by simp, List.nil_prefix⟩
      | cons c left =>
        cases (List.cons.inj behind).1
        rw [List.foldl_append, one] at counted
        exact absurd (foldl_count_none left) counted
  · exact ⟨more, rfl, List.prefix_rfl⟩

theorem Shows.enter {opening inner : Text} (opens : Opens opening) (some : opening ≠ [])
    (shows : Shows here line (opening ++ (inner ++ ahead))) (reading : Reading false opening.head? line)
    (counted : inner.foldl count (Option.some (false, 1)) ≠ none) : Shows (here ++ opening) [] inner := by
  intro front more within
  obtain ⟨rest, rfl⟩ := within
  obtain ⟨left, same, found⟩ := shows (opening ++ front) more ⟨rest ++ ahead, by simp⟩
  have goes : front.foldl count (Option.some (false, 1)) ≠ none := by
    intro stops
    rw [List.foldl_append, stops] at counted
    exact counted (foldl_count_none rest)
  obtain ⟨shorter, taken, front'⟩ := readParen_prefix left goes
  refine ⟨shorter, ?_, ?_⟩
  · rcases head_of_prefix front' with none | head
    · exact .inl none
    · rcases same with none | same
      · rw [none, List.prefix_nil] at front'
        exact .inl front'
      · exact .inr (head.trans same)
  · intro command member
    rw [List.flatMap_nil, List.nil_append, ← taken] at member
    have reached : Reading Scanner.start.hasWord (opening ++ (front ++ left)).head? line := by
      obtain ⟨c, rest, split⟩ := List.exists_cons_of_ne_nil some
      rw [split] at reading ⊢
      exact reading
    have outer : command ∈ parseShellCommands (line.flatMap Lexeme.text ++ (opening ++ (front ++ left))) := by
      rw [parseShellCommands_eq_read, reached.read]
      exact opens _ _ command member
    simpa [List.append_assoc] using found command (by simpa [List.append_assoc] using outer)

end Shows

/-! ### The places on the lines -/

theorem Lexeme.Fits.atEnd {lexeme : Lexeme} {before : Bool} {next : Option Char} (fits : lexeme.Fits before next) :
    lexeme.Fits before none := by
  cases lexeme with
  | escaped c => exact ⟨fits.1, by simp⟩
  | literal c => exact ⟨fits.1, ⟨by simp, fun _ => rfl⟩, fits.2.2⟩
  | single body closed => exact ⟨fits.1, fun _ => rfl⟩
  | double parts closed =>
    cases closed with
    | false => exact ⟨fits.1, rfl⟩
    | true => exact fits
  | substitution region => exact ⟨fits.1, fun _ => rfl⟩
  | comment body => exact ⟨fits.1, fits.2.1, .inl rfl⟩
  | blank c | newline c | operator c | continuation crlf => exact fits

theorem reading_atEnd {lexemes : List Lexeme} {before : Bool} {last : Option Char}
    (reading : Reading before last lexemes) : Reading before none lexemes := by
  induction lexemes generalizing before with
  | nil => trivial
  | cons lexeme rest ih =>
    refine ⟨?_, ih reading.2⟩
    have here := reading.1
    cases next : (rest.flatMap Lexeme.text).head? with
    | none => exact here.atEnd
    | some c => rwa [next] at here

theorem Lexeme.Fits.plain {lexeme : Lexeme} {before started : Bool} {next next' : Option Char}
    (fits : lexeme.Fits before next) (plain : lexeme.plain started = true)
    (other : next' = next ∨ next' ≠ some '(' ∧ next' ≠ some '\n') : lexeme.Fits started next' := by
  have rest := plain
  simp only [Lexeme.plain, Bool.and_eq_true, decide_eq_true_eq] at rest
  obtain ⟨_, rest⟩ := rest
  cases lexeme with
  | continuation crlf | comment body => cases rest
  | blank c | newline c | operator c => exact fits
  | escaped c =>
    refine ⟨fits.1, fun cr => ?_⟩
    rcases other with rfl | other
    · exact fits.2 cr
    · exact other.2
  | literal c =>
    simp only [Bool.and_eq_true, bne_iff_ne, Bool.or_eq_true] at rest
    refine ⟨fits.1, ⟨fun dollar => ?_, fun escape => (rest.1 escape).elim⟩, fun hash => ?_⟩
    · rcases other with rfl | other
      · exact fits.2.1.1 dollar
      · exact other.1
    · exact rest.2.resolve_left fun other => other hash
  | single body closed =>
    cases rest
    exact ⟨fits.1, by simp⟩
  | double parts closed =>
    cases rest
    exact fits
  | substitution region =>
    have closed : region.closed = true := rest
    exact ⟨fits.1, by simp [closed]⟩

theorem Scanner.Grows.current_result {s later : Scanner} (grows : s.Grows later) (begun : s.current ≠ []) :
    ∃ command ∈ later.result, s.current <+: command := by
  rcases (grows.trans later.grows_endCommand).current begun with front | ⟨command, found, front⟩
  · rw [later.current_endCommand, List.prefix_nil] at front
    exact absurd front begun
  · exact ⟨command, List.mem_append_left _ found, front⟩

theorem decided_ne_nil {words : List Word} (known : decided words = true) : words ≠ [] := by
  rintro rfl
  cases known

theorem Scanner.Grows.names {s later : Scanner} (grows : s.Grows later) {name : Word}
    (known : name ∈ names s.known) : name ∈ SupplyChain.names later.result := by
  obtain ⟨command, member, named⟩ := List.mem_filterMap.mp known
  rw [Scanner.known, List.mem_append] at member
  rcases member with found | begun
  · exact List.mem_filterMap.mpr ⟨command, grows.mem_result found, named⟩
  · split at begun
    · rename_i known
      cases List.mem_singleton.mp begun
      obtain ⟨other, found, front⟩ := grows.current_result (decided_ne_nil known)
      exact List.mem_filterMap.mpr ⟨other, found, (commandName_extends known front).trans named⟩
    · cases begun

def Found (lines : List Text) (commands : List (List Word)) : Prop :=
  ∀ name ∈ names commands, ∃ line ∈ lines, name ∈ names (parseShellCommands line)

theorem found_append {lines : List Text} {first second : List (List Word)} :
    Found lines (first ++ second) ↔ Found lines first ∧ Found lines second := by
  simp only [Found, names, List.filterMap_append, List.mem_append, or_imp, forall_and]

section Places

variable {whole : Text} {lines : List Text} (on : OnLines whole lines) {place : Place}
  {start here ahead : Text}

include on

theorem Stands.known (stands : Stands place start here ahead) (tail : Text)
    (split : whole = start ++ (here ++ (ahead ++ tail)))
    (next : ahead ≠ [] ∨ tail.head? ≠ some '(' ∧ tail.head? ≠ some '\n') : Found lines place.scanner.known := by
  intro name known
  obtain ⟨line, listed, more, rfl, same, _⟩ := on start here _ split stands.begins stands.onLine
  obtain ⟨left, head, found⟩ := stands.shows [] more List.nil_prefix
  have reading : Reading Scanner.start.hasWord left.head? place.line := by
    have either : left.head? = none ∨ left.head? = (ahead ++ tail).head? := by
      rcases head with rfl | head
      · exact .inl rfl
      · rcases same with rfl | same
        · exact .inl head
        · exact .inr (head.trans same)
    rcases either with none | some
    · rw [none]
      exact reading_atEnd stands.reading
    · rw [some]
      cases ahead with
      | nil =>
        have ended := next.resolve_left fun other => other rfl
        exact stands.ready _ ended.1 ended.2
      | cons c ahead => exact stands.reading
  refine ⟨_, listed, ?_⟩
  have parsed := (grows_read .main left place.scanner).names known
  rw [Place.scanner, ← reading.read, ← parseShellCommands_eq_read] at parsed
  obtain ⟨command, member, named⟩ := List.mem_filterMap.mp parsed
  exact List.mem_filterMap.mpr ⟨command, found command member, named⟩

theorem Stands.result (stands : Stands place start here ahead) (rest : Text) (split : whole = start ++ (here ++ rest))
    (ends : rest.head? = none ∨ rest.head? = some '\n' ∨ rest.head? = some ')') :
    Found lines place.scanner.result := by
  intro name known
  obtain ⟨line, listed, more, rfl, same, last⟩ := on start here _ split stands.begins stands.onLine
  obtain ⟨left, head, found⟩ := stands.shows [] more List.nil_prefix
  have either : left = [] ∨ ∃ tail, left = ')' :: tail := by
    rcases head with none | head
    · exact .inl none
    · rcases same with rfl | same
      · exact .inl (List.head?_eq_none_iff.mp head)
      · rcases ends with none | newline | closes
        · exact .inl (List.head?_eq_none_iff.mp (head.trans (same.trans none)))
        · rw [last (.inr newline)] at head
          exact .inl (List.head?_eq_none_iff.mp head)
        · exact .inr (List.head?_eq_some_iff.mp (head.trans (same.trans closes)))
  have reading : Reading Scanner.start.hasWord left.head? place.line := by
    rcases either with rfl | ⟨tail, rfl⟩
    · exact stands.ready none (by simp) (by simp)
    · exact stands.ready (some ')') (by simp) (by simp)
  obtain ⟨command, member, named⟩ := List.mem_filterMap.mp known
  refine ⟨_, listed, List.mem_filterMap.mpr ⟨command, found command ?_, named⟩⟩
  rw [List.nil_append, parseShellCommands_eq_read, reading.read]
  rcases either with rfl | ⟨tail, rfl⟩
  · rw [read_nil]
    exact member
  · rw [read_operator (by simp [Operator])]
    exact (grows_read .main tail _).mem_result member

omit on

theorem ready_push {line : List Lexeme} {lexeme : Lexeme} {before : Bool} {next : Option Char}
    (reading : Reading false lexeme.text.head? line) (fits : lexeme.Fits before next)
    (plain : lexeme.plain (line.foldl Lexeme.started false) = true) : Ready (line ++ [lexeme]) := by
  intro next' paren newline
  refine fits_append.mpr ⟨?_, fits.plain plain (.inr ⟨paren, newline⟩), trivial⟩
  obtain ⟨c, rest, split⟩ := List.exists_cons_of_ne_nil lexeme.text_ne_nil
  rw [split] at reading
  simpa [split] using reading

theorem Stands.push {lexeme : Lexeme} (stands : Stands place start here (lexeme.text ++ ahead)) {before : Bool}
    (fits : lexeme.Fits before ahead.head?) (plain : lexeme.plain place.started = true) :
    Stands (place.push lexeme) start (here ++ lexeme.text) ahead := by
  obtain ⟨c, rest, split⟩ := List.exists_cons_of_ne_nil lexeme.text_ne_nil
  have reading : Reading false lexeme.text.head? place.line := by
    have reading := stands.reading
    rw [split] at reading ⊢
    exact reading
  refine ⟨stands.begins, ?_, ?_, stands.shows.push, ?_, ready_push reading fits plain⟩
  · rw [List.mem_append, not_or]
    refine ⟨stands.onLine, ?_⟩
    simp only [Lexeme.plain, Bool.and_eq_true, decide_eq_true_eq] at plain
    exact plain.1
  · intro fresh
    rw [stands.fresh fresh, Place.push, List.flatMap_append, List.flatMap_singleton]
  · refine fits_append.mpr ⟨?_, fits.plain plain (.inl ?_), trivial⟩
    · rw [split] at reading
      simpa [split] using reading
    · rw [List.flatMap_nil, List.head?_nil, Option.none_or]

theorem Stands.leave {after : Place} (stands : Stands place start here []) (left : after ∈ place.leave) (ahead : Text) :
    Stands after start (here ++ [')']) ahead := by
  rw [Place.leave] at left
  split at left
  · cases left
  · rename_i fresh
    cases left
    have same := stands.fresh (by simpa using fresh)
    have spelled : here ++ [')'] = (place.line ++ [Lexeme.operator ')']).flatMap Lexeme.text := by
      rw [same, List.flatMap_append]
      rfl
    have closing : Reading false (some ')') place.line := stands.ready _ (by simp) (by simp)
    have reading : ∀ next, Reading false next (place.line ++ [.operator ')']) := by
      intro next
      refine fits_append.mpr ⟨closing, ?_, trivial⟩
      simp [Lexeme.Fits, Operator]
    refine ⟨stands.begins, ?_, fun _ => spelled, ?_, reading _, fun next _ _ => reading next⟩
    · simp [stands.onLine]
    · rw [spelled]
      exact shows_fresh _ _

theorem Stands.enter {opening inner : Text} (stands : Stands place start here (opening ++ (inner ++ ahead)))
    (opens : Opens opening) (some : opening ≠ []) (onLine : '\n' ∉ opening)
    (counted : inner.foldl count (Option.some (false, 1)) ≠ none) : Stands .inner start (here ++ opening) inner := by
  have reading : Reading false opening.head? place.line := by
    obtain ⟨c, rest, split⟩ := List.exists_cons_of_ne_nil some
    have reading := stands.reading
    rw [split] at reading ⊢
    exact reading
  exact ⟨stands.begins, by simp [stands.onLine, onLine], nofun, stands.shows.enter opens some reading counted, trivial,
    fun _ _ _ => trivial⟩

theorem stands_fresh {start : Text} (begins : LineStart start) (ahead : Text) : Stands .fresh start [] ahead :=
  ⟨begins, by simp, fun _ => rfl, shows_fresh [] ahead, trivial, fun _ _ _ => trivial⟩

end Places

section Look

variable {whole : Text} {lines : List Text} (on : OnLines whole lines)
  {inside : Option Place → Text → List (List Word) × Option Place}
  (sound : ∀ place front text tail, whole = front ++ (text ++ tail) → At place front text →
    Found lines (inside place text).1 ∧ At (inside place text).2 (front ++ text) [])
  {place : Option Place} {front ahead tail : Text}

theorem at_none (front ahead : Text) : At none front ahead := by
  rintro _ ⟨⟩

theorem Region.Fits.counted {inner : Text} {closed : Bool} {next : Option Char}
    (fits : (Region.paren inner closed).Fits next) : inner.foldl count (some (false, 1)) ≠ none := by
  cases closed with
  | false => exact fits.1
  | true =>
    rw [show inner.foldl count (some (false, 1)) = some (false, 1) from fits.1]
    exact Option.some_ne_none _

include on sound

theorem lookRegion_sound {region : Region} {next : Option Char} (fits : region.Fits next)
    (split : whole = front ++ (region.text ++ (ahead ++ tail)))
    (enters : ∀ inner closed, region = .paren inner closed → At place (front ++ ['$', '(']) inner) :
    Found lines (lookRegion inside place region).1 ∧
      ((next = none → ahead = []) → At (lookRegion inside place region).2 (front ++ region.text) ahead) := by
  match region with
  | .paren inner true =>
    obtain ⟨seen, reached⟩ := sound place (front ++ ['$', '(']) inner (')' :: (ahead ++ tail))
      (by simpa [Region.text] using split) (enters inner true rfl)
    rw [lookRegion]
    generalize inside place inner = result at seen reached ⊢
    obtain ⟨commands, last⟩ := result
    refine ⟨found_append.mpr ⟨seen, ?_⟩, fun _ => ?_⟩
    · cases last with
      | none => rintro _ ⟨⟩
      | some standing =>
        obtain ⟨start, here, position, stands⟩ := reached standing rfl
        refine stands.result on (')' :: (ahead ++ tail)) ?_ (.inr (.inr rfl))
        rw [← List.append_assoc start, ← position]
        simpa [Region.text] using split
    · intro standing member
      obtain ⟨earlier, found, left⟩ := Option.bind_eq_some_iff.mp member
      obtain ⟨start, here, position, stands⟩ := reached earlier found
      refine ⟨start, here ++ [')'], ?_, stands.leave left ahead⟩
      rw [← List.append_assoc start, ← position]
      simp [Region.text]
  | .paren inner false =>
    obtain ⟨seen, reached⟩ := sound place (front ++ ['$', '(']) inner (ahead ++ tail)
      (by simpa [Region.text] using split) (enters inner false rfl)
    refine ⟨seen, fun ends => ?_⟩
    rw [ends (fits.2 rfl)]
    simpa [Region.text, lookRegion] using reached
  | .backtick raw closed =>
    rw [lookRegion]
    split
    · rename_i plain
      obtain ⟨rfl, _⟩ : closed = true ∧ _ := by simpa using plain
      obtain ⟨seen, reached⟩ := sound none (front ++ ['\x60']) raw ('\x60' :: (ahead ++ tail))
        (by simpa [Region.text] using split) (at_none _ _)
      generalize inside none raw = result at seen reached ⊢
      obtain ⟨commands, last⟩ := result
      refine ⟨found_append.mpr ⟨seen, ?_⟩, fun _ => at_none _ _⟩
      cases last with
      | none => rintro _ ⟨⟩
      | some standing =>
        obtain ⟨start, here, position, stands⟩ := reached standing rfl
        refine stands.known on ('\x60' :: (ahead ++ tail)) ?_ (.inr (by simp))
        rw [List.nil_append, ← List.append_assoc start, ← position]
        simpa [Region.text] using split
    · exact ⟨by rintro _ ⟨⟩, fun _ => at_none _ _⟩

theorem lookParts_sound {done parts : List Part} {last : Option Char} (fits : Lexeme.PartsFit (done ++ parts) last)
    (split : whole = front ++ ('"' :: ((done ++ parts).flatMap Part.text ++ (ahead ++ tail))))
    (stands : ∀ standing ∈ place, standing = .inner ∧ '\n' ∉ done.flatMap Part.text ∧
      ∃ outer start here, front = start ++ here ∧
        Stands outer start here ('"' :: ((done ++ parts).flatMap Part.text ++ ahead))) :
    Found lines (lookParts inside place parts) := by
  induction parts generalizing done place with
  | nil => rintro _ ⟨⟩
  | cons part parts ih =>
    rw [lookParts]
    have grouped : done ++ part :: parts = done ++ [part] ++ parts := by simp
    refine found_append.mpr ⟨?_, ?_⟩
    · cases part with
      | char c | escaped c => rintro _ ⟨⟩
      | substitution region =>
        obtain ⟨before, here, _⟩ := fits_append.mp fits
        have position : whole = (front ++ '"' :: done.flatMap Part.text) ++
            (region.text ++ ((parts.flatMap Part.text ++ ahead) ++ tail)) := by
          rw [split]
          simp [Part.text]
        refine (lookRegion_sound on sound here position ?_).1
        · rintro inner closed rfl standing member
          obtain ⟨rfl, onLine, outer, start, line, begins, leads⟩ := stands standing member
          have spelled : '"' :: ((done ++ .substitution (.paren inner closed) :: parts).flatMap Part.text ++ ahead) =
              ('"' :: (done.flatMap Part.text ++ ['$', '('])) ++
                (inner ++ ((if closed then [')'] else []) ++ (parts.flatMap Part.text ++ ahead))) := by
            simp [Part.text, Region.text]
          rw [spelled] at leads
          refine ⟨start, line ++ ('"' :: (done.flatMap Part.text ++ ['$', '('])), by simp [begins],
            leads.enter ?_ (by simp) ?_ ?_⟩
          · refine opens_quoted ?_
            simpa [Lexeme.PartsFit, Part.text, Region.text] using before
          · simpa using onLine
          · exact here.counted
    · rw [grouped] at fits split stands
      refine ih fits split ?_
      intro standing member
      split at member
      · cases member
      · rename_i plain
        obtain ⟨rfl, onLine, rest⟩ := stands standing member
        exact ⟨rfl, by simp [onLine, plain], rest⟩

theorem lookInto_sound {lexeme : Lexeme} {before : Bool} {next : Option Char} (fits : lexeme.Fits before next)
    (ends : next = none → ahead = []) (split : whole = front ++ (lexeme.text ++ (ahead ++ tail)))
    (stands : At place front (lexeme.text ++ ahead)) :
    Found lines (lookInto inside place lexeme).1 ∧
      At (lookInto inside place lexeme).2 (front ++ lexeme.text) ahead := by
  have blurred : Found lines [] ∧ At none (front ++ lexeme.text) ahead := ⟨by rintro _ ⟨⟩, at_none _ _⟩
  cases lexeme with
  | substitution region =>
    have entered : ∀ inner closed, region = .paren inner closed →
        At (place.map fun _ => .inner) (front ++ ['$', '(']) inner := by
      rintro inner closed rfl standing member
      obtain ⟨outer, found, rfl⟩ := Option.map_eq_some_iff.mp member
      obtain ⟨start, here, begins, leads⟩ := stands outer found
      have spelled : (Region.paren inner closed).text ++ ahead =
          ['$', '('] ++ (inner ++ ((if closed then [')'] else []) ++ ahead)) := by
        simp [Region.text]
      rw [Lexeme.text, spelled] at leads
      exact ⟨start, here ++ ['$', '('], by simp [begins], leads.enter opens_paren (by simp) (by decide) fits.counted⟩
    obtain ⟨seen, reached⟩ := lookRegion_sound on sound fits split entered
    exact ⟨seen, reached ends⟩
  | double parts closed =>
    refine ⟨?_, at_none _ _⟩
    have inner : Lexeme.PartsFit ([] ++ parts) (if closed then some '"' else none) := by
      cases closed with
      | false => exact fits.1
      | true => exact fits
    have spelled : ∀ rest, (Lexeme.double parts closed).text ++ rest =
        '"' :: (([] ++ parts).flatMap Part.text ++ ((if closed then ['"'] else []) ++ rest)) := by
      simp [Lexeme.text]
    have position : whole = front ++ ('"' :: (([] ++ parts).flatMap Part.text ++
        (((if closed then ['"'] else []) ++ ahead) ++ tail))) := by
      rw [split, spelled]
      simp
    refine lookParts_sound on sound inner position ?_
    intro standing member
    obtain ⟨outer, found, rfl⟩ := Option.map_eq_some_iff.mp member
    obtain ⟨start, here, position, stands⟩ := stands outer found
    rw [spelled] at stands
    exact ⟨rfl, by simp, outer, start, here, position, stands⟩
  | _ => exact blurred

theorem look_sound {lexemes : List Lexeme} {before : Bool} (reading : Reading before none lexemes)
    (split : whole = front ++ (lexemes.flatMap Lexeme.text ++ tail))
    (stands : At place front (lexemes.flatMap Lexeme.text)) :
    Found lines (look inside place lexemes).1 ∧
      At (look inside place lexemes).2 (front ++ lexemes.flatMap Lexeme.text) [] := by
  fun_induction look inside place lexemes generalizing front before with
  | case1 place => exact ⟨by rintro _ ⟨⟩, by simpa using stands⟩
  | case2 place rest seen last looked ih =>
    have position : whole = (front ++ ['\n']) ++ (rest.flatMap Lexeme.text ++ tail) := by
      rw [split]
      simp [Lexeme.text]
    have fresh : At (some .fresh) (front ++ ['\n']) (rest.flatMap Lexeme.text) := by
      rintro _ ⟨⟩
      exact ⟨front ++ ['\n'], [], by simp, stands_fresh (.inr ⟨front, rfl⟩) _⟩
    obtain ⟨later, reached⟩ := ih reading.2 position fresh
    rw [looked] at later reached
    refine ⟨found_append.mpr ⟨?_, later⟩, by simpa [Lexeme.text] using reached⟩
    cases place with
    | none => rintro _ ⟨⟩
    | some standing =>
      obtain ⟨start, here, begins, leads⟩ := stands standing rfl
      refine leads.result on ('\n' :: (rest.flatMap Lexeme.text ++ tail)) ?_ (.inr (.inl rfl))
      rw [position, begins]
      simp
  | case3 place lexeme rest notNewline plain ih =>
    cases place with
    | none => cases plain
    | some standing =>
      obtain ⟨start, here, begins, leads⟩ := stands standing rfl
      rw [List.flatMap_cons] at split leads ⊢
      have fits : lexeme.Fits before (rest.flatMap Lexeme.text).head? := by
        have fits := reading.1
        rwa [Option.or_none] at fits
      have pushed : At (some (standing.push lexeme)) (front ++ lexeme.text) (rest.flatMap Lexeme.text) := by
        rintro _ ⟨⟩
        exact ⟨start, here ++ lexeme.text, by simp [begins], leads.push fits plain⟩
      have later := ih reading.2 (by rw [split, List.append_assoc, List.append_assoc]) pushed
      rwa [List.append_assoc] at later
  | case4 place lexeme rest notNewline blurred inner after into seen last looked ih =>
    rw [List.flatMap_cons] at split stands ⊢
    rw [List.append_assoc] at split
    have ends : (rest.flatMap Lexeme.text).head?.or none = none → rest.flatMap Lexeme.text = [] := by
      rw [Option.or_none]
      exact List.head?_eq_none_iff.mp
    have inside := lookInto_sound on sound reading.1 ends split stands
    rw [into] at inside
    have later := ih reading.2 (by rw [split, List.append_assoc]) inside.2
    rw [looked] at later
    refine ⟨found_append.mpr ⟨found_append.mpr ⟨?_, inside.1⟩, later.1⟩, by simpa [List.append_assoc] using later.2⟩
    cases place with
    | none => rintro _ ⟨⟩
    | some standing =>
      obtain ⟨start, here, begins, leads⟩ := stands standing rfl
      refine leads.known on tail ?_ (.inl (by simp [lexeme.text_ne_nil]))
      rw [split, begins]
      simp

omit sound in
theorem lookIn_sound (depth : Nat) (place : Option Place) (front text tail : Text)
    (split : whole = front ++ (text ++ tail)) (stands : At place front text) :
    Found lines (lookIn depth place text).1 ∧ At (lookIn depth place text).2 (front ++ text) [] := by
  induction depth generalizing place front text tail with
  | zero => exact ⟨by rintro _ ⟨⟩, at_none _ _⟩
  | succ depth ih =>
    obtain ⟨spelled, reading⟩ := lex_spec text
    rw [← spelled] at split stands
    have sound := look_sound on ih reading split stands
    rw [spelled] at sound
    exact sound

end Look

theorem clear_found {lines : List Text} (whole : ∀ line ∈ lines, '\n' ∉ line) : Found lines (clear lines) := by
  by_cases none : lines = []
  · subst none
    rintro _ ⟨⟩
  have on := onLines_intercalate none whole
  have fresh : At (some .fresh) [] (['\n'].intercalate lines) := by
    rintro _ ⟨⟩
    exact ⟨[], [], rfl, stands_fresh (.inl rfl) _⟩
  have sound := lookIn_sound on ((['\n'].intercalate lines).length + 1) (some .fresh) [] _ [] (by simp) fresh
  rw [clear]
  generalize lookIn _ _ _ = result at sound
  obtain ⟨seen, last⟩ := result
  refine found_append.mpr ⟨sound.1, ?_⟩
  cases last with
  | none => rintro _ ⟨⟩
  | some standing =>
    obtain ⟨start, here, begins, leads⟩ := sound.2 standing rfl
    refine leads.result on [] ?_ (.inl rfl)
    rw [List.append_nil, ← begins, List.nil_append]

end Koine.SupplyChain
