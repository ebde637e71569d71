import Koine.SupplyChain.Lines

namespace Koine.SupplyChain

open Library

/-- `text.split(/\r?\n/u)`. -/
def splitLines : Text → List Text
  | [] => [[]]
  | '\n' :: rest => [] :: splitLines rest
  | '\r' :: '\n' :: rest => [] :: splitLines rest
  | c :: rest =>
    match splitLines rest with
    | [] => [[c]]
    | line :: lines => (c :: line) :: lines

def trailing (line : Text) : Nat := (line.reverse.takeWhile (· == '\\')).length

structure LogicalLine where
  value : Text
  number : Nat
deriving DecidableEq

/-- The loop of `logicalLines` from an index on. -/
def logicalFrom (index : Nat) (buffer : Text) (startLine : Nat) : List Text → List LogicalLine
  | [] => if buffer ≠ [] then [⟨buffer, startLine⟩] else []
  | line :: rest =>
    let startLine := if buffer = [] then index + 1 else startLine
    if trailing line % 2 = 1 then logicalFrom (index + 1) (buffer ++ line.dropLast) startLine rest
    else ⟨buffer ++ line, startLine⟩ :: logicalFrom (index + 1) [] startLine rest

def logicalLines (text : Text) : List LogicalLine := logicalFrom 0 [] 1 (splitLines text)

/-- The white space of `String.prototype.trim`. -/
def isSpace (c : Char) : Bool :=
  c ∈ ['\t', '\n', '\x0b', '\x0c', '\r', ' ', '\u00a0', '\u1680', '\u2028', '\u2029', '\u202f', '\u205f', '\u3000',
    '\ufeff'] || '\u2000' ≤ c && c ≤ '\u200a'

def trim (text : Text) : Text := ((text.dropWhile isSpace).reverse.dropWhile isSpace).reverse

def cargoMacheteInstall : Text := "cargo install cargo-machete --version 0.9.2 --locked".toList

def validateShellCommands (command : Text) (location : String) : Except String Unit := do
  if containsShellIndirection command then
    throw ("shell command indirection is forbidden: " ++ location)
  if containsCargoInstall command && command != cargoMacheteInstall then
    throw ("unapproved cargo install: " ++ location ++ ": " ++ String.ofList command)

def validateNpmCommand (command : Text) (location : String) (allowed : List Text) : Except String Unit := do
  if !containsCommand command "npm".toList && !containsCommand command "npx".toList then
    return
  if !allowed.contains command then
    throw ("unapproved npm command: " ++ location ++ ": " ++ String.ofList command)

/-- The body of the inner loop of `validateShellScripts`. -/
def validateLine (relative : String) (logical : LogicalLine) : Except String Unit := do
  let line := trim logical.value
  if line = [] then
    return
  let location := relative ++ ":" ++ toString logical.number
  validateShellCommands line location
  if containsCommand line "curl".toList || containsCommand line "wget".toList then
    throw ("unapproved executable download: " ++ location)
  validateNpmCommand line location []

/-- `validateShellScripts` on the scripts that were found, with their relative paths. -/
def validateShellScripts (scripts : List (String × Text)) : Except String Unit :=
  scripts.forM fun script => (logicalLines script.2).forM (validateLine script.1)

/-! ### The lines of a text -/

theorem splitLines_whole {text : Text} : ∀ line ∈ splitLines text, '\n' ∉ line := by
  fun_induction splitLines text with
  | case1 => simp
  | case2 rest ih | case3 rest ih => simpa using ih
  | case4 c rest notNewline _ _ ih => simpa using Ne.symm notNewline
  | case5 c rest notNewline _ line lines split ih =>
    rw [split, List.forall_mem_cons] at ih
    rw [List.forall_mem_cons, List.mem_cons, not_or]
    exact ⟨⟨Ne.symm notNewline, ih.1⟩, ih.2⟩

theorem logicalFrom_whole {index startLine : Nat} {buffer : Text} {lines : List Text}
    (whole : ∀ line ∈ lines, '\n' ∉ line) (begun : '\n' ∉ buffer) :
    ∀ logical ∈ logicalFrom index buffer startLine lines, '\n' ∉ logical.value := by
  induction lines generalizing index startLine buffer with
  | nil =>
    rw [logicalFrom]
    split
    · simpa using begun
    · rintro _ ⟨⟩
  | cons line lines ih =>
    rw [List.forall_mem_cons] at whole
    rw [logicalFrom]
    split
    · refine ih whole.2 ?_
      rw [List.mem_append, not_or]
      exact ⟨begun, fun member => whole.1 (List.mem_of_mem_dropLast member)⟩
    · rw [List.forall_mem_cons]
      refine ⟨?_, ih whole.2 List.not_mem_nil⟩
      rw [List.mem_append, not_or]
      exact ⟨begun, whole.1⟩

theorem logicalLines_whole {text : Text} : ∀ logical ∈ logicalLines text, '\n' ∉ logical.value :=
  logicalFrom_whole splitLines_whole List.not_mem_nil

theorem mem_of_mem_trim {c : Char} {text : Text} (member : c ∈ trim text) : c ∈ text := by
  rw [trim, List.mem_reverse] at member
  have kept := List.mem_reverse.mp ((List.dropWhile_suffix _).subset member)
  exact (List.dropWhile_suffix _).subset kept

/-! ### The scripts -/

theorem forM_error {α : Type} {f : α → Except String Unit} {items : List α} {item : α} (member : item ∈ items)
    (refused : ∃ message, f item = .error message) : ∃ message, items.forM f = .error message := by
  induction items with
  | nil => cases member
  | cons first items ih =>
    have unfolded : (first :: items).forM f = f first >>= fun _ => items.forM f := rfl
    rw [unfolded]
    cases verdict : f first with
    | error message => exact ⟨message, rfl⟩
    | ok _ =>
      rcases List.mem_cons.mp member with rfl | member
      · obtain ⟨message, refused⟩ := refused
        rw [verdict] at refused
        cases refused
      · exact ih member

def forbidden : List Word := ["curl", "wget", "npm", "npx"].map String.toList

theorem validateNpmCommand_error {command : Text} {location : String}
    (found : containsCommand command "npm".toList = true ∨ containsCommand command "npx".toList = true) :
    ∃ message, validateNpmCommand command location [] = .error message := by
  have runs : ¬ (!containsCommand command "npm".toList && !containsCommand command "npx".toList) = true := by
    rcases found with found | found <;> rw [found]
    · exact Bool.false_ne_true
    · rw [Bool.not_true, Bool.and_false]
      exact Bool.false_ne_true
  rw [validateNpmCommand, if_neg runs]
  exact ⟨_, rfl⟩

theorem validateLine_error {relative : String} {logical : LogicalLine} {name : Word} (listed : name ∈ forbidden)
    (found : containsCommand (trim logical.value) name = true) :
    ∃ message, validateLine relative logical = .error message := by
  have nonempty : trim logical.value ≠ [] := by
    intro empty
    rw [empty] at found
    cases found
  simp only [validateLine, if_neg nonempty]
  cases validateShellCommands (trim logical.value) (relative ++ ":" ++ toString logical.number) with
  | error message => exact ⟨message, rfl⟩
  | ok _ =>
    by_cases download : (containsCommand (trim logical.value) "curl".toList ||
      containsCommand (trim logical.value) "wget".toList) = true
    · rw [if_pos download]
      exact ⟨_, rfl⟩
    · rw [if_neg download]
      refine validateNpmCommand_error ?_
      simp only [forbidden, List.map_cons, List.map_nil, List.mem_cons, List.not_mem_nil, or_false] at listed
      rcases listed with rfl | rfl | rfl | rfl <;> simp_all

/-- Where the text runs a command of the name, one stands clear on the lines. -/
def ShownOn (lines : List Text) (text : Text) (name : Word) : Prop :=
  containsCommand text name = true → name ∈ names (clear lines)

instance (lines : List Text) (text : Text) (name : Word) : Decidable (ShownOn lines text name) :=
  inferInstanceAs (Decidable (_ → _))

def spreadScript : Text := "echo 'a\n b'\nsudo cu\\\nrl \"$(\n  npm i)\"\n".toList

/-- A line of a string that reads like a command is found in its place. -/
example :
    let text := "echo \"\ncurl x\n\"; curl y".toList
    ¬ ShownOn ((logicalLines text).map (·.value)) text "curl".toList ∧
      ∃ logical ∈ logicalLines text, containsCommand logical.value "curl".toList = true := by
  decide +kernel

end Koine.SupplyChain
