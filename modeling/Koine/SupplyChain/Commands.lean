import Mathlib.Data.List.Infix
import Koine.Library.Tokens
import Koine.SupplyChain.Shell

namespace Koine.SupplyChain

open Library

/-- `COMMAND_ASSIGNMENT.test`. -/
def commandAssignment : Word → Bool
  | [] => false
  | c :: rest =>
    (c.isAlpha || c == '_') && (rest.dropWhile fun c => c.isAlphanum || c == '_').head? == some '='

def commandRunners : List Word :=
  ["env", "command", "sudo", "nohup", "nice", "xargs", "timeout", "setsid", "stdbuf", "time", "exec", "builtin",
    "then", "do", "!"].map String.toList

def basename (token : Word) : Word := (token.splitOn '/').getLastD []

def isOption (word : Word) : Bool := word.head? == some '-'

def rustupRun (word : Word) (rest : List Word) : Bool :=
  basename word == "rustup".toList && basename (rest.headD []) == "run".toList

/-- The `for` loop of `effectiveWords` on the words from the index on; `none` where the fuel was not
    enough. -/
def stripRunners : Nat → List Word → Option (List Word)
  | 0, _ => none
  | _ + 1, [] => some []
  | fuel + 1, word :: rest =>
    if rustupRun word rest then stripRunners fuel (((rest.drop 1).dropWhile isOption).drop 1)
    else if basename word ∉ commandRunners then some (word :: rest)
    else
      let rest := rest.dropWhile isOption
      let rest := if basename word = "env".toList then rest.dropWhile commandAssignment else rest
      let rest :=
        if basename word = "timeout".toList ∧ rest ≠ [] ∧ isOption (rest.headD []) = false then rest.drop 1 else rest
      stripRunners fuel rest

def effectiveWords (words : List Word) : List Word :=
  (stripRunners (words.length + 1) (words.dropWhile commandAssignment)).getD []

def effectiveCommands (source : Text) : List (List Word) :=
  ((parseShellCommands source).map effectiveWords).filter (· ≠ [])

def containsCommand (source : Text) (command : Word) : Bool :=
  (effectiveCommands source).any fun words => basename (words.headD []) == command

def containsCargoInstall (source : Text) : Bool :=
  (effectiveCommands source).any fun words =>
    basename (words.headD []) == "cargo".toList &&
      let index := if (words[1]?.getD []).head? == some '+' then 2 else 1
      words[index]? == some "install".toList

/-- The loop of `containsShellIndirection` over the options of a shell. -/
def runsString : List Word → Bool
  | [] => false
  | option :: rest =>
    if option = "--".toList then false
    else if option.head? ≠ some '-' ∧ option.head? ≠ some '+' then false
    else if option = "--command".toList ∨
        option.head? = some '-' ∧ 'c' ∈ option.tail.takeWhile (· != '-') then true
    else runsString rest

def containsShellIndirection (source : Text) : Bool :=
  (effectiveCommands source).any fun words =>
    ["bash", "sh", "zsh", "dash"].any (fun shell => basename (words.headD []) == shell.toList) &&
      runsString (words.drop 1)

def commandName (words : List Word) : Option Word := (effectiveWords words).head?.map basename

def names (commands : List (List Word)) : List Word := commands.filterMap commandName

theorem containsCommand_iff {source : Text} {name : Word} :
    containsCommand source name = true ↔ name ∈ names (parseShellCommands source) := by
  simp only [containsCommand, effectiveCommands, names, List.any_eq_true, List.mem_filter, List.mem_map,
    List.mem_filterMap]
  constructor
  · rintro ⟨_, ⟨⟨command, found, rfl⟩, nonempty⟩, same⟩
    refine ⟨command, found, ?_⟩
    obtain ⟨word, rest, split⟩ := List.exists_cons_of_ne_nil (of_decide_eq_true nonempty)
    rw [split] at same
    rw [commandName, split, ← beq_iff_eq.mp same]
    rfl
  · rintro ⟨command, found, named⟩
    rw [commandName, Option.map_eq_some_iff] at named
    obtain ⟨word, head, rfl⟩ := named
    obtain ⟨rest, split⟩ := List.head?_eq_some_iff.mp head
    exact ⟨_, ⟨⟨command, found, rfl⟩, by simp [split]⟩, by simp [split]⟩

/-! ### The effective words of a command -/

def StartsAssignment (words : List Word) : Prop := ∃ word ∈ words.head?, commandAssignment word = true

def StartsRunner : List Word → Prop
  | [] => False
  | word :: rest => rustupRun word rest = true ∨ basename word ∈ commandRunners

theorem stripRunners_fixed {words : List Word} (bare : ¬ StartsRunner words) (fuel : Nat) :
    stripRunners (fuel + 1) words = some words := by
  cases words with
  | nil => rfl
  | cons word rest =>
    rw [StartsRunner, not_or] at bare
    rw [stripRunners, if_neg bare.1, if_pos bare.2]

/-- What one turn of the loop takes off: a runner with its options, behind `env` also assignments, behind `timeout` a
    duration, or `rustup run` with a toolchain. -/
inductive Runner where
  | plain (name : Word) (options : List Word)
  | env (name : Word) (options assignments : List Word)
  | timeout (name : Word) (options : List Word) (duration : Option Word)
  | rustup (name run : Word) (options : List Word) (toolchain : Option Word)

namespace Runner

def words : Runner → List Word
  | plain name options => name :: options
  | env name options assignments => name :: (options ++ assignments)
  | timeout name options duration => name :: (options ++ duration.toList)
  | rustup name run options toolchain => name :: run :: (options ++ toolchain.toList)

/-- A word that is no option, or none where no word follows. -/
def Operand (word next : Option Word) : Prop :=
  match word with
  | some word => isOption word = false
  | none => next = none

def Fits (_ : Unit) : Runner → Option Word → Prop
  | plain name options, next =>
    basename name ∈ commandRunners ∧ basename name ≠ "env".toList ∧ basename name ≠ "timeout".toList ∧
      options.all isOption = true ∧ next.any isOption = false
  | env name options assignments, next =>
    basename name = "env".toList ∧ options.all isOption = true ∧ assignments.all commandAssignment = true ∧
      (assignments = [] → next.any isOption = false) ∧ next.any commandAssignment = false
  | timeout name options duration, next =>
    basename name = "timeout".toList ∧ options.all isOption = true ∧ Operand duration next
  | rustup name run options toolchain, next =>
    basename name = "rustup".toList ∧ basename run = "run".toList ∧ options.all isOption = true ∧
      Operand toolchain next

end Runner

abbrev Runners (next : Option Word) (runners : List Runner) : Prop :=
  Fits Runner.words (fun _ _ => ()) Runner.Fits () next runners

theorem dropWhile_all {p : Word → Bool} {front rest : List Word} (all : front.all p = true)
    (stops : rest.head?.any p = false) : (front ++ rest).dropWhile p = rest := by
  rw [List.dropWhile_append_of_pos (List.all_eq_true.mp all)]
  cases rest with
  | nil => rfl
  | cons word rest => exact List.dropWhile_cons_of_neg (by simpa using stops)

theorem isOption_of_assignment {word : Word} (assigned : commandAssignment word = true) : isOption word = false := by
  cases word with
  | nil => rfl
  | cons c rest =>
    rw [isOption, List.head?_cons, beq_eq_false_iff_ne]
    rintro ⟨⟩
    simp [commandAssignment] at assigned

theorem rustupRun_runner {name : Word} (named : basename name ∈ commandRunners) (rest : List Word) :
    rustupRun name rest = false := by
  rw [rustupRun, Bool.and_eq_false_imp]
  intro rustup
  rw [beq_iff_eq.mp rustup] at named
  exact absurd named (by decide)

theorem dropWhile_operand {options rest : List Word} {word : Option Word} (all : options.all isOption = true)
    (operand : Runner.Operand word rest.head?) :
    (options ++ (word.toList ++ rest)).dropWhile isOption = word.toList ++ rest := by
  refine dropWhile_all all ?_
  cases word with
  | none =>
    rw [Runner.Operand, List.head?_eq_none_iff] at operand
    rw [operand]
    rfl
  | some word => simpa [Runner.Operand] using operand

theorem drop_operand {rest : List Word} {word : Option Word} (operand : Runner.Operand word rest.head?) :
    (word.toList ++ rest).drop 1 = rest := by
  cases word with
  | none =>
    rw [Runner.Operand, List.head?_eq_none_iff] at operand
    rw [operand]
    rfl
  | some word => rfl

theorem stripRunners_runner {fuel : Nat} {runner : Runner} {rest : List Word} (fits : runner.Fits () rest.head?) :
    stripRunners (fuel + 1) (runner.words ++ rest) = stripRunners fuel rest := by
  cases runner with
  | plain name options =>
    obtain ⟨named, notEnv, notTimeout, all, stops⟩ := fits
    rw [Runner.words, List.cons_append, stripRunners, rustupRun_runner named]
    simp only [Bool.false_eq_true, if_false, not_not.mpr named, dropWhile_all all stops, notEnv, notTimeout, false_and]
  | env name options assignments =>
    obtain ⟨named, all, assigned, stops, ends⟩ := fits
    have known : basename name ∈ commandRunners := by
      rw [named]
      decide
    have optionless : (options ++ (assignments ++ rest)).dropWhile isOption = assignments ++ rest := by
      refine dropWhile_all all ?_
      cases assignments with
      | nil => exact stops rfl
      | cons first others =>
        rw [List.all_cons, Bool.and_eq_true] at assigned
        simpa using isOption_of_assignment assigned.1
    have other : ("env".toList : Word) ≠ "timeout".toList := by decide
    rw [Runner.words, List.cons_append, List.append_assoc, stripRunners, rustupRun_runner known,
      if_neg Bool.false_ne_true, if_neg (not_not.mpr known)]
    simp only [optionless, named, if_true, dropWhile_all assigned ends, other, false_and, if_false]
  | timeout name options duration =>
    obtain ⟨named, all, operand⟩ := fits
    have known : basename name ∈ commandRunners := by
      rw [named]
      decide
    have other : ("timeout".toList : Word) ≠ "env".toList := by decide
    have passed : (if duration.toList ++ rest ≠ [] ∧ isOption ((duration.toList ++ rest).headD []) = false then
        (duration.toList ++ rest).drop 1 else duration.toList ++ rest) = rest := by
      split
      · exact drop_operand operand
      · rename_i none
        cases duration with
        | none => rfl
        | some word => exact absurd ⟨List.cons_ne_nil _ _, operand⟩ none
    rw [Runner.words, List.cons_append, List.append_assoc, stripRunners, rustupRun_runner known,
      if_neg Bool.false_ne_true, if_neg (not_not.mpr known)]
    simp only [dropWhile_operand all operand, named, other, if_false, true_and, passed]
  | rustup name run options toolchain =>
    obtain ⟨named, runs, all, operand⟩ := fits
    have known : rustupRun name (run :: (options ++ (toolchain.toList ++ rest))) = true := by
      rw [rustupRun, List.headD_cons, named, runs]
      decide
    rw [Runner.words, List.cons_append, List.cons_append, List.append_assoc, stripRunners, known, if_pos rfl]
    show stripRunners fuel (((options ++ (toolchain.toList ++ rest)).dropWhile isOption).drop 1) =
      stripRunners fuel rest
    rw [dropWhile_operand all operand, drop_operand operand]

theorem stripRunners_runners {fuel : Nat} {runners : List Runner} {rest : List Word} (fits : Runners rest.head? runners)
    (bare : ¬ StartsRunner rest) (enough : (runners.flatMap Runner.words ++ rest).length < fuel) :
    stripRunners fuel (runners.flatMap Runner.words ++ rest) = some rest := by
  induction runners generalizing fuel with
  | nil =>
    cases fuel with
    | zero => omega
    | succ fuel => exact stripRunners_fixed bare fuel
  | cons runner runners ih =>
    obtain ⟨here, later⟩ := fits
    have positive : runner.words.length ≠ 0 := by cases runner <;> simp [Runner.words]
    rw [List.flatMap_cons, List.append_assoc] at enough ⊢
    rw [List.length_append] at enough
    cases fuel with
    | zero => omega
    | succ fuel =>
      rw [← List.head?_append] at here
      rw [stripRunners_runner here]
      exact ih later (by omega)

theorem any_dropWhile (p : Word → Bool) (words : List Word) : (words.dropWhile p).head?.any p = false := by
  have stops := List.head?_dropWhile_not p words
  cases left : words.dropWhile p with
  | nil => rfl
  | cons word rest =>
    rw [left] at stops
    simpa using stops

theorem exists_operand (words : List Word) :
    ∃ (operand : Option Word) (rest : List Word), words = words.takeWhile isOption ++ (operand.toList ++ rest) ∧
      Runner.Operand operand rest.head? := by
  have split := List.takeWhile_append_dropWhile (p := isOption) (l := words)
  have stops := any_dropWhile isOption words
  cases left : words.dropWhile isOption with
  | nil =>
    rw [left] at split
    exact ⟨none, [], split.symm, rfl⟩
  | cons word rest =>
    rw [left] at split stops
    exact ⟨some word, rest, split.symm, stops⟩

theorem exists_runner {words : List Word} (starts : StartsRunner words) :
    ∃ (runner : Runner) (rest : List Word), words = runner.words ++ rest ∧ runner.Fits () rest.head? := by
  cases words with
  | nil => cases starts
  | cons name rest =>
    rcases starts with rustup | named
    · rw [rustupRun, Bool.and_eq_true, beq_iff_eq, beq_iff_eq] at rustup
      cases rest with
      | nil => exact absurd rustup.2 (by decide)
      | cons run rest =>
        obtain ⟨toolchain, left, split, operand⟩ := exists_operand rest
        refine ⟨.rustup name run (rest.takeWhile isOption) toolchain, left, ?_, rustup.1, rustup.2,
          List.all_takeWhile, operand⟩
        rw [Runner.words, List.cons_append, List.cons_append, List.append_assoc, ← split]
    · have options := List.takeWhile_append_dropWhile (p := isOption) (l := rest)
      by_cases env : basename name = "env".toList
      · have assigned := List.takeWhile_append_dropWhile (p := commandAssignment) (l := rest.dropWhile isOption)
        refine ⟨.env name (rest.takeWhile isOption) ((rest.dropWhile isOption).takeWhile commandAssignment),
          (rest.dropWhile isOption).dropWhile commandAssignment, ?_, env, List.all_takeWhile, List.all_takeWhile,
          fun none => ?_, any_dropWhile _ _⟩
        · rw [Runner.words, List.cons_append, List.append_assoc, assigned, options]
        · rw [none, List.nil_append] at assigned
          rw [assigned]
          exact any_dropWhile _ _
      · by_cases timeout : basename name = "timeout".toList
        · obtain ⟨duration, left, split, operand⟩ := exists_operand rest
          refine ⟨.timeout name (rest.takeWhile isOption) duration, left, ?_, timeout, List.all_takeWhile, operand⟩
          rw [Runner.words, List.cons_append, List.append_assoc, ← split]
        · refine ⟨.plain name (rest.takeWhile isOption), rest.dropWhile isOption, ?_, named, env, timeout,
            List.all_takeWhile, any_dropWhile _ _⟩
          rw [Runner.words, List.cons_append, options]

theorem exists_runners (words : List Word) :
    ∃ (runners : List Runner) (rest : List Word), words = runners.flatMap Runner.words ++ rest ∧
      Runners rest.head? runners ∧ ¬ StartsRunner rest := by
  induction size : words.length using Nat.strong_induction_on generalizing words with
  | _ size ih =>
    by_cases starts : StartsRunner words
    · obtain ⟨runner, left, rfl, fits⟩ := exists_runner starts
      have positive : runner.words.length ≠ 0 := by cases runner <;> simp [Runner.words]
      rw [List.length_append] at size
      obtain ⟨runners, rest, rfl, later, bare⟩ := ih left.length (by omega) left rfl
      refine ⟨runner :: runners, rest, ?_, ⟨?_, later⟩, bare⟩
      · rw [List.flatMap_cons, List.append_assoc]
      · rwa [← List.head?_append]
    · exact ⟨[], words, rfl, trivial, starts⟩

/-- The loop ends, and `effectiveWords` is what stands behind the leading assignments and the runners. -/
theorem effectiveWords_spec (words : List Word) :
    stripRunners (words.length + 1) (words.dropWhile commandAssignment) = some (effectiveWords words) ∧
      ∃ runners, words.dropWhile commandAssignment = runners.flatMap Runner.words ++ effectiveWords words ∧
        Runners (effectiveWords words).head? runners ∧ ¬ StartsRunner (effectiveWords words) := by
  have bound := (List.dropWhile_suffix (l := words) commandAssignment).length_le
  obtain ⟨runners, rest, split, fits, bare⟩ := exists_runners (words.dropWhile commandAssignment)
  have stripped : stripRunners (words.length + 1) (words.dropWhile commandAssignment) = some rest := by
    rw [split] at bound ⊢
    exact stripRunners_runners fits bare (by omega)
  have same : effectiveWords words = rest := by rw [effectiveWords, stripped, Option.getD_some]
  rw [same]
  exact ⟨stripped, runners, split, fits, bare⟩

/-- More words do not change the name: there is one, and it is not a `rustup` that `run` may follow. -/
def decided (words : List Word) : Bool :=
  match effectiveWords words with
  | [] => false
  | [word] => basename word != "rustup".toList
  | _ => true

theorem effectiveWords_append {words : List Word} (known : decided words = true) (more : List Word) :
    effectiveWords (words ++ more) = effectiveWords words ++ more := by
  obtain ⟨_, runners, split, fits, bare⟩ := effectiveWords_spec words
  rw [decided] at known
  have still : ¬ StartsRunner (effectiveWords words ++ more) ∧
      (effectiveWords words ++ more).head? = (effectiveWords words).head? := by
    cases effective : effectiveWords words with
    | nil =>
      rw [effective] at known
      cases known
    | cons word rest =>
      rw [effective] at known bare
      refine ⟨?_, rfl⟩
      rw [StartsRunner, not_or] at bare
      rw [List.cons_append, StartsRunner, not_or]
      refine ⟨?_, bare.2⟩
      cases rest with
      | nil =>
        rw [rustupRun, Bool.and_eq_true]
        exact fun run => bne_iff_ne.mp known (beq_iff_eq.mp run.1)
      | cons next rest => exact bare.1
  have passed : (words ++ more).dropWhile commandAssignment =
      runners.flatMap Runner.words ++ (effectiveWords words ++ more) := by
    rw [List.dropWhile_append, split]
    have some : effectiveWords words ≠ [] := by
      intro none
      rw [none] at known
      cases known
    rw [if_neg (by simp [some]), List.append_assoc]
  have bound := (List.dropWhile_suffix (l := words ++ more) commandAssignment).length_le
  rw [passed] at bound
  rw [effectiveWords, passed, stripRunners_runners (still.2 ▸ fits) still.1 (by omega), Option.getD_some]

theorem commandName_extends {words others : List Word} (known : decided words = true) (front : words <+: others) :
    commandName others = commandName words := by
  obtain ⟨more, rfl⟩ := front
  rw [commandName, commandName, effectiveWords_append known]
  cases effective : effectiveWords words with
  | nil =>
    rw [decided, effective] at known
    cases known
  | cons word rest => rfl

/-- Behind the leading assignments and complete runners an assignment stands that is no runner itself. -/
def AssignmentBehind (words : List Word) : Prop :=
  ∃ runners assignment rest, words.dropWhile commandAssignment = runners.flatMap Runner.words ++ assignment :: rest ∧
    Runners (some assignment) runners ∧ commandAssignment assignment = true ∧ ¬ StartsRunner (assignment :: rest)

theorem startsAssignment_effectiveWords {words : List Word} :
    StartsAssignment (effectiveWords words) ↔ AssignmentBehind words := by
  constructor
  · rintro ⟨assignment, here, assigned⟩
    obtain ⟨rest, same⟩ := List.head?_eq_some_iff.mp here
    obtain ⟨_, runners, split, fits, bare⟩ := effectiveWords_spec words
    rw [same] at split fits bare
    exact ⟨runners, assignment, rest, split, fits, assigned, bare⟩
  · rintro ⟨runners, assignment, rest, split, fits, assigned, bare⟩
    have bound := (List.dropWhile_suffix (l := words) commandAssignment).length_le
    have stripped : stripRunners (words.length + 1) (words.dropWhile commandAssignment) =
        some (assignment :: rest) := by
      rw [split] at bound ⊢
      exact stripRunners_runners fits bare (by omega)
    rw [effectiveWords, stripped]
    exact ⟨assignment, rfl, assigned⟩

theorem effectiveWords_fixed {words : List Word} (plain : ¬ StartsAssignment words) (bare : ¬ StartsRunner words) :
    effectiveWords words = words := by
  have kept : words.dropWhile commandAssignment = words := by
    cases words with
    | nil => rfl
    | cons word rest =>
      rw [List.dropWhile_cons_of_neg]
      exact fun assigned => plain ⟨word, rfl, assigned⟩
  rw [effectiveWords, kept, stripRunners_fixed bare, Option.getD_some]

theorem effectiveWords_shorter {words : List Word} (assigned : StartsAssignment words) :
    effectiveWords words ≠ words := by
  obtain ⟨word, here, assigned⟩ := assigned
  obtain ⟨rest, rfl⟩ := List.head?_eq_some_iff.mp here
  intro same
  obtain ⟨_, runners, split, _⟩ := effectiveWords_spec (word :: rest)
  have bound := congrArg List.length split
  have dropped := (List.dropWhile_suffix (l := rest) commandAssignment).length_le
  rw [same, List.dropWhile_cons_of_pos assigned, List.length_append, List.length_cons] at bound
  omega

/-- The loop ends, and the prefixes it knows are all gone from its result. The result is a normal form, with no
    assignment in front, exactly where none stands directly behind the runners. -/
theorem effectiveWords_normal_form (words : List Word) :
    stripRunners (words.length + 1) (words.dropWhile commandAssignment) = some (effectiveWords words) ∧
      ¬ StartsRunner (effectiveWords words) ∧
      (effectiveWords (effectiveWords words) = effectiveWords words ↔ ¬ AssignmentBehind words) ∧
      (¬ StartsAssignment (effectiveWords words) ↔ ¬ AssignmentBehind words) := by
  obtain ⟨ended, _, _, _, bare⟩ := effectiveWords_spec words
  rw [← startsAssignment_effectiveWords]
  refine ⟨ended, bare, ⟨?_, fun plain => effectiveWords_fixed plain bare⟩, Iff.rfl⟩
  intro fixed assigned
  exact effectiveWords_shorter assigned fixed

/-- An assignment that a keyword of the shell stands before, as in `then X=1 curl`. -/
theorem assignment_behind_keyword_stays :
    let words := ["then", "X=1", "curl"].map String.toList
    effectiveWords words = ["X=1", "curl"].map String.toList ∧
      effectiveWords (effectiveWords words) = ["curl"].map String.toList ∧
      containsCommand "then X=1 curl".toList "curl".toList = false := by
  decide +kernel

end Koine.SupplyChain
