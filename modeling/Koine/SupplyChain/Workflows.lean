import Koine.Library.Checks
import Koine.SupplyChain.Scripts
import Mathlib.Data.List.Perm.Subperm
import Mathlib.Logic.Function.Basic

namespace Koine.SupplyChain

open Library

/-- A parsed YAML or JSON document; an object lists its members as `Object.entries` does. No check of a
    workflow reads a number. -/
inductive Node where
  | null
  | bool (value : Bool)
  | number
  | string (value : Text)
  | array (items : List Node)
  | object (entries : List (String × Node))

namespace Node

/-- A property of the value; `undefined` is none. -/
def get (key : String) : Node → Option Node
  | object entries => entries.lookup key
  | _ => none

def isObject : Node → Bool
  | object _ => true
  | _ => false

end Node

def approvedActions : List (Text × Text) :=
  [("actions/checkout@3d3c42e5aac5ba805825da76410c181273ba90b1", "v7.0.1"),
    ("actions-rust-lang/setup-rust-toolchain@166cdcfd11aee3cb47222f9ddb555ce30ddb9659", "v1.17.0"),
    ("EmbarkStudios/cargo-deny-action@3c6349835b2b7b196a839186cb8b78e02f7b5f25", "v2.1.1"),
    ("crate-ci/typos@bee27e3a4fd1ea2111cf90ab89cd076c870fce14", "v1.48.0"),
    ("actions/setup-java@03ad4de0992f5dab5e18fcb136590ce7c4a0ac95", "v5.6.0"),
    ("actions/setup-node@a0853c24544627f65ddf259abe73b1d18a591444", "v5.0.0")].map fun (action, release) =>
      (action.toList, release.toList)

def checkout : Text := "actions/checkout@3d3c42e5aac5ba805825da76410c181273ba90b1".toList

def setupJava : Text := "actions/setup-java@03ad4de0992f5dab5e18fcb136590ce7c4a0ac95".toList

def setupNode : Text := "actions/setup-node@a0853c24544627f65ddf259abe73b1d18a591444".toList

def npmCi : Text := "npm ci --ignore-scripts".toList

def markdownCommand : Text :=
  "npm exec -- markdownlint-cli2 \"**/*.md\" \"!_archive\" \"!target\" \"!node_modules\" \"!docs/superpowers\" \"!.superpowers\" \"!.worktrees\"".toList

def gitleaksExactCommand : Text :=
  ("curl -fsSL \"https://github.com/gitleaks/gitleaks/releases/download/v$\x7bGITLEAKS_VERSION\x7d/gitleaks_$\x7bGITLEAKS_VERSION\x7d_linux_x64.tar.gz\" -o gitleaks.tgz\n" ++
    "echo \"9991e0b2903da4c8f6122b5c3186448b927a5da4deef1fe45271c3793f4ee29c  gitleaks.tgz\" | sha256sum -c\n" ++
    "tar -xzf gitleaks.tgz gitleaks\n" ++
    "./gitleaks detect --source . --redact --verbose").toList

def postgresImage : Text :=
  "postgres:17@sha256:a426e44bac0b759c95894d68e1a0ac03ecc20b619f498a91aae373bf06d8508d".toList

/-- A `- uses:` line of a workflow's source. -/
structure ActionRecord where
  target : Text
  comment : Text
  line : Nat
deriving DecidableEq

/-- `\s+` at the front of a text. -/
def dropSpaces : Text → Option Text
  | c :: rest => if isSpace c then some (rest.dropWhile isSpace) else none
  | [] => none

/-- What the second group of `actionLine` captures, and the end of the line. -/
def matchComment (rest : Text) : Option Text := do
  let rest ← dropSpaces rest
  let rest ← if rest.head? = some '#' then dropSpaces rest.tail else none
  let comment := rest.takeWhile fun c => !isSpace c
  if comment ≠ [] && (rest.dropWhile fun c => !isSpace c).all isSpace then some comment else none

/-- The groups of `actionLine` on a line: each run of characters is as long as it can be, since what the
    pattern goes on with cannot start inside it. -/
def matchActionLine (line : Text) : Option (Text × Text) := do
  let rest := line.dropWhile isSpace
  let rest ← if rest.head? = some '-' then dropSpaces rest.tail else none
  let rest ← if "uses:".toList.isPrefixOf rest then dropSpaces (rest.drop 5) else none
  let target := rest.takeWhile fun c => !isSpace c && c ≠ '#'
  let rest := rest.dropWhile fun c => !isSpace c && c ≠ '#'
  if target = [] then none
  else if rest.all isSpace then some (target, [])
  else (matchComment rest).map fun comment => (target, comment)

def actionRecords (text : Text) : List ActionRecord :=
  (splitLines text).zipIdx.filterMap fun (line, index) =>
    (matchActionLine line).map fun (target, comment) => ⟨target, comment, index + 1⟩

def semanticCounts (actions : List Text) : Text → Nat :=
  actions.foldl (fun counts action => Function.update counts action (counts action + 1)) fun _ => 0

/-- The loop of `validateActionSource` over the records. -/
def validateRecords (label : String) : (Text → Nat) → List ActionRecord → Except String Unit
  | _, [] => .ok ()
  | counts, record :: rest =>
    let place := label ++ ":" ++ toString record.line
    let count := counts record.target
    if count = 0 then .error ("action source/semantic mismatch in " ++ place)
    else if "./".toList.isPrefixOf record.target then
      validateRecords label (Function.update counts record.target (count - 1)) rest
    else
      match approvedActions.lookup record.target with
      | none =>
        .error ("floating or unapproved GitHub Action: " ++ place ++ ": " ++ String.ofList record.target)
      | some expected =>
        if record.comment ≠ expected then
          .error ("GitHub Action lacks its approved release comment '" ++ String.ofList expected ++ "': " ++ place)
        else validateRecords label (Function.update counts record.target (count - 1)) rest

def validateActionSource (text : Text) (semanticActions : List Text) (label : String) : Except String Unit :=
  let records := actionRecords text
  if records.length ≠ semanticActions.length then
    .error ("unsupported action syntax in " ++ label ++ "; use one unquoted block '- uses:' per step")
  else validateRecords label (semanticCounts semanticActions) records

/-- `/@sha256:[0-9a-f]{64}$/u`. -/
def digestPinned (image : Text) : Bool :=
  let digest := image.drop (image.length - 72)
  digest.length = 72 && "@sha256:".toList.isPrefixOf digest &&
    (digest.drop 8).all fun c => c.isDigit || 'a' ≤ c && c ≤ 'f'

def validateImage (image : Option Node) (location : String) : Except String Unit :=
  match image with
  | some (.string image) =>
    if location = "compose.yaml:services.postgres" && image ≠ postgresImage then
      .error ("Postgres image identity drifted: " ++ location ++ ": " ++ String.ofList image)
    else if digestPinned image then .ok ()
    else .error ("container image must use a sha256 digest: " ++ location ++ ": " ++ String.ofList image)
  | _ => .error ("container image must be a string: " ++ location)

/-- `JSON.stringify` of the sorted keys differs where the sorted lists do. -/
def exactKeys (value : Option Node) (expected : List String) (label : String) : Except String Unit :=
  match value with
  | some (.object entries) =>
    let actual := (entries.map (·.1)).mergeSort fun left right => left ≤ right
    if actual ≠ expected.mergeSort fun left right => left ≤ right then
      .error (label ++ " keys drifted: " ++ ", ".intercalate actual)
    else .ok ()
  | _ => .error (label ++ " must be an object")

def Node.isString (value : Option Node) (text : Text) : Bool :=
  match value with
  | some (.string found) => found = text
  | _ => false

/-- `if (condition) fail(message)`. -/
def failIf (condition : Bool) (message : String) : Except String Unit :=
  if condition then .error message else .ok ()

def validateSetupNodeStep (step : Node) (location : String) : Except String Unit := do
  failIf (!Node.isString (step.get "uses") setupNode) (location ++ " must use the approved setup-node action")
  exactKeys (some step) ["uses", "with"] location
  let inputs := (step.get "with").getD .null
  exactKeys (some inputs) ["node-version", "package-manager-cache"] (location ++ ".with")
  failIf (!Node.isString (inputs.get "node-version") "22.23.1".toList) ("Node version drift: " ++ location)
  match inputs.get "package-manager-cache" with
  | some (.bool false) => pure ()
  | _ => .error (location ++ " package-manager-cache must be false")

def validateSetupJavaStep (step : Node) (location : String) : Except String Unit := do
  failIf (!Node.isString (step.get "uses") setupJava) (location ++ " must use the approved setup-java action")
  exactKeys (some step) ["uses", "with"] location
  let inputs := (step.get "with").getD .null
  exactKeys (some inputs) ["distribution", "java-version"] (location ++ ".with")
  failIf (!Node.isString (inputs.get "distribution") "temurin".toList) ("Java distribution drift: " ++ location)
  failIf (!Node.isString (inputs.get "java-version") "21.0.11+10".toList) ("Java version drift: " ++ location)

def trimEnd (text : Text) : Text := (text.reverse.dropWhile isSpace).reverse

def ciWorkflow : String := ".github/workflows/ci.yml"

def validateUses (relative jobName location : String) (action : Text) : Except String Unit := do
  failIf ("./".toList.isPrefixOf action)
    ("local composite action is unscanned and forbidden: " ++ location ++ ": " ++ String.ofList action)
  failIf (approvedActions.lookup action).isNone
    ("floating or unapproved GitHub Action: " ++ location ++ ": " ++ String.ofList action)
  failIf (action = setupNode && !(relative = ciWorkflow && ["markdownlint", "supply-chain"].contains jobName))
    ("setup-node is approved only in the markdownlint job and supply-chain job: " ++ location)
  failIf (action = setupJava && !(relative = ciWorkflow && jobName = "tla"))
    ("setup-java is approved only in the tla job: " ++ location)

def validateRun (relative jobName location : String) (run : Text) : Except String Unit := do
  validateShellCommands run location
  failIf ((containsCommand run "curl".toList || containsCommand run "wget".toList) &&
      !(relative = ciWorkflow && jobName = "gitleaks" && trimEnd run = gitleaksExactCommand))
    ("unapproved executable download: " ++ location)
  validateNpmCommand run location [npmCi, markdownCommand]

/-- The first half of a turn of the loop over the steps: the action that it adds to `semanticActions`. -/
def stepUses (relative jobName location : String) (step : Node) : Except String (List Text) :=
  match step.get "uses" with
  | none => .ok []
  | some (.string action) => (validateUses relative jobName location action).map fun _ => [action]
  | some _ => .error ("workflow action must be a string: " ++ location)

def stepRun (relative jobName location : String) (step : Node) : Except String Unit :=
  match step.get "run" with
  | none => .ok ()
  | some (.string run) => validateRun relative jobName location run
  | some _ => .error ("workflow run must be a string: " ++ location)

def validateStep (relative jobName location : String) (step : Node) : Except String (List Text) := do
  failIf (!step.isObject) ("workflow step must be an object: " ++ location)
  let actions ← stepUses relative jobName location step
  stepRun relative jobName location step
  pure actions

def jobContainer (location : String) (job : Node) : Except String Unit :=
  match job.get "container" with
  | none => .ok ()
  | some (.string image) => validateImage (some (.string image)) (location ++ ".container")
  | some container => validateImage (container.get "image") (location ++ ".container")

def jobServices (location : String) (job : Node) : Except String Unit :=
  match job.get "services" with
  | none => .ok ()
  | some (.object services) =>
    services.forM fun (serviceName, service) =>
      validateImage (service.get "image") (location ++ ".services." ++ serviceName)
  | some _ => .error ("workflow services must be an object: " ++ location)

/-- A turn of the loop over the jobs. -/
def validateJob (relative : String) (entry : String × Node) : Except String (List Text) := do
  let location := relative ++ ":jobs." ++ entry.1
  failIf (!entry.2.isObject) ("workflow job must be an object: " ++ location)
  failIf (!Node.isString (entry.2.get "runs-on") "ubuntu-24.04".toList) ("hosted runner drift: " ++ location)
  jobContainer location entry.2
  jobServices location entry.2
  match entry.2.get "steps" with
  | some (.array steps) =>
    let actions ← steps.zipIdx.mapM fun (step, index) =>
      validateStep relative entry.1 (location ++ ".steps[" ++ toString index ++ "]") step
    pure actions.flatten
  | _ => .error ("workflow steps must be an array: " ++ location)

def jobSteps (jobs : List (String × Node)) (name : String) : Option (List Node) :=
  match jobs.lookup name with
  | some job =>
    match job.get "steps" with
    | some (.array steps) => some steps
    | _ => some []
  | none => none

/-- The markdownlint job and the supply-chain job of `ci.yml`. -/
def validateNodeJob (jobs : List (String × Node)) (name missing : String) (command : Text) :
    Except String Unit :=
  match jobSteps jobs name with
  | some [first, second, third, fourth] => do
    failIf (!Node.isString (first.get "uses") checkout) (name ++ " job must checkout first")
    validateSetupNodeStep second (name ++ " setup-node step")
    failIf (!(Node.isString (third.get "run") npmCi && Node.isString (fourth.get "run") command))
      (name ++ " job association/order drifted")
  | _ => .error missing

def validateTlaJob (jobs : List (String × Node)) : Except String Unit :=
  match jobSteps jobs "tla" with
  | some [first, second, third] => do
    failIf (!Node.isString (first.get "uses") checkout) "tla job must checkout first"
    validateSetupJavaStep second "tla setup-java step"
    failIf (!Node.isString (third.get "run") "make tla".toList) "tla setup-java association/order drifted"
  | _ => .error "tla job must have exactly three approved steps"

def validateGitleaksJob (jobs : List (String × Node)) : Except String Unit :=
  match jobSteps jobs "gitleaks" with
  | none => .error "gitleaks job missing"
  | some steps =>
    match steps.find? fun step => (step.get "run").isSome with
    | none => .error "gitleaks executable identity drifted"
    | some step =>
      match step.get "run" with
      | some (.string run) => do
        failIf (trimEnd run ≠ gitleaksExactCommand) "gitleaks executable identity drifted"
        failIf (!Node.isString ((step.get "env").bind (Node.get "GITLEAKS_VERSION")) "8.24.3".toList)
          "gitleaks version drifted"
      | _ => .error "gitleaks executable identity drifted"

def validateCi (jobs : List (String × Node)) : Except String Unit := do
  validateNodeJob jobs "markdownlint" "markdownlint job must have exactly four approved steps" markdownCommand
  validateNodeJob jobs "supply-chain" "supply-chain job must have four approved steps" "make supply-chain".toList
  validateTlaJob jobs
  validateGitleaksJob jobs

/-- Whether the workflow that passes is the canonical one. -/
def validateWorkflow (document : Node) (text : Text) (relative : String) : Except String Bool :=
  match document.get "jobs" with
  | some (.object jobs) => do
    let actions ← jobs.mapM (validateJob relative)
    validateActionSource text actions.flatten relative
    if relative ≠ ciWorkflow then pure false
    else
      validateCi jobs
      pure true
  | _ => .error ("workflow jobs must be an object: " ++ relative)

/-! ### The lines of the source and the steps of the document -/

theorem foldl_count (actions : List Text) (counts : Text → Nat) (target : Text) :
    actions.foldl (fun counts action => Function.update counts action (counts action + 1)) counts target =
      counts target + actions.count target := by
  induction actions generalizing counts with
  | nil => rfl
  | cons action actions ih =>
    rw [List.foldl_cons, ih, List.count_cons]
    by_cases same : action = target
    · subst same
      simp
      omega
    · simp [same, Function.update_of_ne (Ne.symm same)]

theorem semanticCounts_eq (actions : List Text) (target : Text) :
    semanticCounts actions target = actions.count target := by
  rw [semanticCounts, foldl_count, Nat.zero_add]

def ActionRecord.Approved (record : ActionRecord) : Prop :=
  "./".toList <+: record.target ∨ (record.target, record.comment) ∈ approvedActions

theorem validateRecords_ok {label : String} {records : List ActionRecord} {counts : Text → Nat}
    (accepted : validateRecords label counts records = .ok ()) :
    (∀ target, (records.map (·.target)).count target ≤ counts target) ∧ ∀ record ∈ records, record.Approved := by
  induction records generalizing counts with
  | nil => exact ⟨fun _ => Nat.zero_le _, fun _ member => absurd member List.not_mem_nil⟩
  | cons record records ih =>
    have spent (later : ∀ target, (records.map (·.target)).count target ≤
        Function.update counts record.target (counts record.target - 1) target) (remains : counts record.target ≠ 0)
        (target : Text) : ((record :: records).map (·.target)).count target ≤ counts target := by
      have bound := later target
      rw [List.map_cons, List.count_cons]
      by_cases same : record.target = target
      · subst same
        rw [Function.update_self] at bound
        simp only [beq_self_eq_true, if_true]
        omega
      · rw [Function.update_of_ne (Ne.symm same)] at bound
        simpa [same] using bound
    simp only [validateRecords] at accepted
    split_ifs at accepted with missing within
    · obtain ⟨later, approved⟩ := ih accepted
      refine ⟨spent later missing, List.forall_mem_cons.mpr ⟨.inl ?_, approved⟩⟩
      exact List.isPrefixOf_iff_prefix.mp within
    · split at accepted
      · cases accepted
      · rename_i expected listed
        split_ifs at accepted with drifted
        obtain ⟨later, approved⟩ := ih accepted
        refine ⟨spent later missing, List.forall_mem_cons.mpr ⟨.inr ?_, approved⟩⟩
        obtain ⟨front, back, split, _⟩ := List.lookup_eq_some_iff.mp listed
        rw [split, not_not.mp drifted]
        exact List.mem_append_right _ List.mem_cons_self

theorem validateActionSource_ok {text : Text} {actions : List Text} {label : String}
    (accepted : validateActionSource text actions label = .ok ()) :
    ((actionRecords text).map (·.target)).Perm actions ∧ ∀ record ∈ actionRecords text, record.Approved := by
  simp only [validateActionSource] at accepted
  split_ifs at accepted with apart
  obtain ⟨counts, approved⟩ := validateRecords_ok accepted
  refine ⟨?_, approved⟩
  have inside : ((actionRecords text).map (·.target)).Subperm actions := by
    rw [List.subperm_ext_iff]
    intro target _
    have bound := counts target
    rwa [semanticCounts_eq] at bound
  refine inside.perm_of_length_le ?_
  rw [List.length_map, not_not.mp apart]

/-! ### The loops over the jobs and steps -/

def stepAction (step : Node) : Option Text :=
  match step.get "uses" with
  | some (.string action) => some action
  | _ => none

/-- A `run` text in which the functions of the gate detect no shell that runs a string, and no install or download
    but what is pinned. -/
structure RunSound (relative jobName : String) (run : Text) : Prop where
  direct : containsShellIndirection run = false
  cargo : containsCargoInstall run = true → run = cargoMacheteInstall
  download : containsCommand run "curl".toList = true ∨ containsCommand run "wget".toList = true →
    relative = ciWorkflow ∧ jobName = "gitleaks" ∧ trimEnd run = gitleaksExactCommand
  npm : containsCommand run "npm".toList = true ∨ containsCommand run "npx".toList = true →
    run ∈ [npmCi, markdownCommand]

structure StepSound (relative jobName : String) (step : Node) : Prop where
  action : ∀ action, step.get "uses" = some action → ∃ text, action = .string text ∧ ¬ "./".toList <+: text ∧
    (approvedActions.lookup text).isSome = true
  run : ∀ run, step.get "run" = some run → ∃ text, run = .string text ∧ RunSound relative jobName text

theorem failIf_ok {condition : Bool} {message : String} : failIf condition message = .ok () ↔ condition = false := by
  cases condition <;> simp [failIf]

theorem validateUses_ok {relative jobName location : String} {action : Text}
    (accepted : validateUses relative jobName location action = .ok ()) :
    ¬ "./".toList <+: action ∧ (approvedActions.lookup action).isSome = true := by
  obtain ⟨_, within, accepted⟩ := Except.bind_eq_ok.mp accepted
  obtain ⟨_, floating, _⟩ := Except.bind_eq_ok.mp accepted
  rw [failIf_ok] at within floating
  refine ⟨fun here => ?_, ?_⟩
  · rw [List.isPrefixOf_iff_prefix.mpr here] at within
    cases within
  · rwa [Option.isNone_eq_false_iff] at floating

theorem validateShellCommands_ok {command : Text} {location : String}
    (accepted : validateShellCommands command location = .ok ()) :
    containsShellIndirection command = false ∧
      (containsCargoInstall command = true → command = cargoMacheteInstall) := by
  unfold validateShellCommands at accepted
  cases indirect : containsShellIndirection command with
  | true =>
    rw [indirect] at accepted
    cases accepted
  | false =>
    rw [indirect] at accepted
    refine ⟨rfl, fun installs => ?_⟩
    by_contra other
    rw [installs, bne_iff_ne.mpr other] at accepted
    cases accepted

theorem validateNpmCommand_ok {command : Text} {location : String} {allowed : List Text}
    (accepted : validateNpmCommand command location allowed = .ok ())
    (npm : containsCommand command "npm".toList = true ∨ containsCommand command "npx".toList = true) :
    command ∈ allowed := by
  unfold validateNpmCommand at accepted
  have named : (!containsCommand command "npm".toList && !containsCommand command "npx".toList) = false := by
    rcases npm with npm | npx
    · rw [npm]; rfl
    · rw [npx, Bool.not_true, Bool.and_false]
  rw [named] at accepted
  by_contra other
  rw [← List.contains_iff_mem, Bool.not_eq_true] at other
  rw [other] at accepted
  cases accepted

theorem validateRun_ok {relative jobName location : String} {run : Text}
    (accepted : validateRun relative jobName location run = .ok ()) : RunSound relative jobName run := by
  obtain ⟨_, shell, accepted⟩ := Except.bind_eq_ok.mp accepted
  obtain ⟨_, approved, npm⟩ := Except.bind_eq_ok.mp accepted
  obtain ⟨direct, cargo⟩ := validateShellCommands_ok shell
  refine ⟨direct, cargo, fun downloads => ?_, validateNpmCommand_ok npm⟩
  rw [failIf_ok, Bool.or_eq_true_iff.mpr downloads, Bool.true_and, Bool.not_eq_false'] at approved
  simpa [and_assoc] using approved

theorem validateStep_ok {relative jobName location : String} {step : Node} {actions : List Text}
    (accepted : validateStep relative jobName location step = .ok actions) :
    actions = (stepAction step).toList ∧ StepSound relative jobName step := by
  obtain ⟨_, _, accepted⟩ := Except.bind_eq_ok.mp accepted
  obtain ⟨read, uses, accepted⟩ := Except.bind_eq_ok.mp accepted
  obtain ⟨_, runs, accepted⟩ := Except.bind_eq_ok.mp accepted
  cases accepted
  have sound : ∀ run, step.get "run" = some run → ∃ text, run = .string text ∧ RunSound relative jobName text := by
    intro run found
    rw [stepRun, found] at runs
    cases run with
    | string text => exact ⟨text, rfl, validateRun_ok runs⟩
    | _ => cases runs
  unfold stepUses at uses
  unfold stepAction
  split at uses
  · rename_i nothing
    cases uses
    refine ⟨by rw [nothing]; rfl, ⟨fun action found => ?_, sound⟩⟩
    rw [nothing] at found
    cases found
  · rename_i action found
    cases checked : validateUses relative jobName location action with
    | error message =>
      rw [checked] at uses
      cases uses
    | ok _ =>
      rw [checked] at uses
      cases uses
      refine ⟨by rw [found]; rfl, ⟨fun other same => ?_, sound⟩⟩
      cases found.symm.trans same
      exact ⟨action, rfl, validateUses_ok checked⟩
  · cases uses

def Node.jobs (document : Node) : List (String × Node) :=
  match document.get "jobs" with
  | some (.object jobs) => jobs
  | _ => []

def Node.steps (job : Node) : List Node :=
  match job.get "steps" with
  | some (.array steps) => steps
  | _ => []

def jobActions (job : Node) : List Text := job.steps.filterMap stepAction

def workflowActions (document : Node) : List Text := document.jobs.flatMap fun entry => jobActions entry.2

def DigestPinned (image : Option Node) : Prop := ∃ text, image = some (.string text) ∧ digestPinned text = true

structure JobSound (relative : String) (entry : String × Node) : Prop where
  hosted : Node.isString (entry.2.get "runs-on") "ubuntu-24.04".toList = true
  container : ∀ container, entry.2.get "container" = some container →
    DigestPinned (some container) ∨ DigestPinned (container.get "image")
  services : ∀ services, entry.2.get "services" = some services → ∃ listed, services = .object listed ∧
    ∀ service ∈ listed, DigestPinned (service.2.get "image")
  steps : ∀ step ∈ entry.2.steps, StepSound relative entry.1 step

theorem validateImage_ok {image : Option Node} {location : String} (accepted : validateImage image location = .ok ()) :
    DigestPinned image := by
  unfold validateImage at accepted
  split at accepted
  · split_ifs at accepted with drifted pinned
    exact ⟨_, rfl, pinned⟩
  · cases accepted

theorem jobContainer_ok {location : String} {job : Node} (accepted : jobContainer location job = .ok ()) :
    ∀ container, job.get "container" = some container →
      DigestPinned (some container) ∨ DigestPinned (container.get "image") := by
  intro container found
  rw [jobContainer, found] at accepted
  split at accepted
  · rename_i nothing
    cases nothing
  · rename_i image same
    rw [same]
    exact .inl (validateImage_ok accepted)
  · rename_i other _ same
    cases same
    exact .inr (validateImage_ok accepted)

theorem jobServices_ok {location : String} {job : Node} (accepted : jobServices location job = .ok ()) :
    ∀ services, job.get "services" = some services → ∃ listed, services = .object listed ∧
      ∀ service ∈ listed, DigestPinned (service.2.get "image") := by
  intro services found
  rw [jobServices, found] at accepted
  cases services with
  | object listed =>
    exact ⟨listed, rfl, fun service member => validateImage_ok (Checks.forM_ok.mp accepted service member)⟩
  | _ => cases accepted

theorem validateJob_ok {relative : String} {entry : String × Node} {actions : List Text}
    (accepted : validateJob relative entry = .ok actions) :
    actions = jobActions entry.2 ∧ JobSound relative entry := by
  obtain ⟨_, _, accepted⟩ := Except.bind_eq_ok.mp accepted
  obtain ⟨_, hosted, accepted⟩ := Except.bind_eq_ok.mp accepted
  obtain ⟨_, container, accepted⟩ := Except.bind_eq_ok.mp accepted
  obtain ⟨_, services, accepted⟩ := Except.bind_eq_ok.mp accepted
  rw [failIf_ok, Bool.not_eq_false'] at hosted
  split at accepted
  · rename_i steps found
    obtain ⟨read, loop, accepted⟩ := Except.bind_eq_ok.mp accepted
    cases accepted
    have each : List.Forall₂ (fun step result => result = (stepAction step).toList ∧
        StepSound relative entry.1 step) (steps.zipIdx.map Prod.fst) read := by
      rw [List.forall₂_map_left_iff]
      exact (Checks.mapM_ok loop).imp fun _ _ here => validateStep_ok here
    rw [List.zipIdx_map_fst] at each
    have same : entry.2.steps = steps := by rw [Node.steps, found]
    refine ⟨?_, hosted, jobContainer_ok container, jobServices_ok services, ?_⟩
    · rw [jobActions, same]
      exact Checks.flatten_toList (each.imp fun _ _ here => here.1)
    · rw [same]
      exact Checks.forall_left each fun _ _ here => here.2
  · cases accepted

/-- A workflow that passes: the `- uses:` lines of its source are its actions, each as often, each an approved
    commit with its release comment; every job runs on the pinned image, and every step is sound. -/
structure WorkflowSound (document : Node) (text : Text) (relative : String) : Prop where
  actions : ((actionRecords text).map (·.target)).Perm (workflowActions document)
  approved : ∀ record ∈ actionRecords text, (record.target, record.comment) ∈ approvedActions
  jobs : ∀ entry ∈ document.jobs, JobSound relative entry

theorem mem_workflowActions {document : Node} {relative : String} {action : Text}
    (jobs : ∀ entry ∈ document.jobs, JobSound relative entry) (member : action ∈ workflowActions document) :
    ¬ "./".toList <+: action := by
  obtain ⟨entry, listed, member⟩ := List.mem_flatMap.mp member
  obtain ⟨step, stands, uses⟩ := List.mem_filterMap.mp member
  unfold stepAction at uses
  split at uses
  · rename_i found
    cases uses
    obtain ⟨text, same, external, _⟩ := ((jobs entry listed).steps step stands).action _ found
    cases same
    exact external
  · cases uses

theorem accepted_workflow_sound {document : Node} {text : Text} {relative : String} {canonical : Bool}
    (accepted : validateWorkflow document text relative = .ok canonical) :
    WorkflowSound document text relative := by
  unfold validateWorkflow at accepted
  split at accepted
  · rename_i jobs found
    obtain ⟨read, loop, accepted⟩ := Except.bind_eq_ok.mp accepted
    obtain ⟨_, source, _⟩ := Except.bind_eq_ok.mp accepted
    have each := (Checks.mapM_ok loop).imp fun _ _ here => validateJob_ok here
    have same : document.jobs = jobs := by rw [Node.jobs, found]
    have sound : ∀ entry ∈ document.jobs, JobSound relative entry := by
      rw [same]
      exact Checks.forall_left each fun _ _ here => here.2
    have collected : read.flatten = workflowActions document := by
      have mapped : List.Forall₂ Eq (jobs.map fun entry => jobActions entry.2) read := by
        rw [List.forall₂_map_left_iff]
        exact each.imp fun _ _ here => here.1.symm
      rw [List.forall₂_eq_eq_eq] at mapped
      rw [workflowActions, same, List.flatMap_def, mapped]
    obtain ⟨perm, approved⟩ := validateActionSource_ok source
    rw [collected] at perm
    refine ⟨perm, fun record member => ?_, sound⟩
    -- a record is an action of the document, so the exemption of local actions is never used
    have external := mem_workflowActions sound (perm.subset (List.mem_map_of_mem member))
    exact (approved record member).resolve_left external
  · cases accepted

def Sample.workflow : Node :=
  .object [("jobs", .object [("build", .object [("runs-on", .string "ubuntu-24.04".toList),
    ("steps", .array [.object [("uses", .string checkout)], .object [("run", .string "make ci".toList)]])])])]

def Sample.source : Text :=
  ("jobs:\n  build:\n    runs-on: ubuntu-24.04\n    steps:\n      - uses: ".toList ++ checkout ++
    " # v7.0.1\n      - run: make ci\n".toList)

theorem accepted_workflow_sound_build :
    validateWorkflow Sample.workflow Sample.source ".github/workflows/build.yml" = .ok false ∧
      WorkflowSound Sample.workflow Sample.source ".github/workflows/build.yml" := by
  have accepted : validateWorkflow Sample.workflow Sample.source ".github/workflows/build.yml" = .ok false := by
    decide +kernel
  exact ⟨accepted, accepted_workflow_sound accepted⟩

end Koine.SupplyChain
