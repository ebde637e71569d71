import Koine.Library.Outcome

namespace Library

/-- Programs that issue statements and go on with the replies. -/
inductive Program (S : Type) (Reply : S → Type) (ε α : Type) where
  | done (result : Outcome ε α)
  | call (statement : S) (next : Reply statement → Program S Reply ε α)

namespace Program

variable {S : Type} {Reply : S → Type} {ε δ α β : Type}

def bind : Program S Reply ε α → (α → Program S Reply ε β) → Program S Reply ε β
  | .done (.ok value), rest => rest value
  | .done (.err error), _ => .done (.err error)
  | .done .panic, _ => .done .panic
  | .call statement next, rest => .call statement fun reply => (next reply).bind rest

instance : Monad (Program S Reply ε) where
  pure value := .done (.ok value)
  bind := bind

def issue (statement : S) : Program S Reply ε (Reply statement) :=
  .call statement fun reply => .done (.ok reply)

def fail (error : ε) : Program S Reply ε α := .done (.err error)

def mapErr (inject : ε → δ) : Program S Reply ε α → Program S Reply δ α
  | .done result => .done (result.mapErr inject)
  | .call statement next => .call statement fun reply => (next reply).mapErr inject

/-- The same statements with the result, whatever it is, returned as a value. -/
def capture (wrap : Outcome ε α → β) : Program S Reply ε α → Program S Reply Unit β
  | .done result => .done (.ok (wrap result))
  | .call statement next => .call statement fun reply => (next reply).capture wrap

def shape : Program S Reply ε α → Program S Reply Unit Unit
  | .done _ => .done (.ok ())
  | .call statement next => .call statement fun reply => (next reply).shape

theorem shape_capture (wrap : Outcome ε α → β) (program : Program S Reply ε α) :
    (program.capture wrap).shape = program.shape := by
  induction program with
  | done result => rfl
  | call statement next ih =>
    simp only [capture, shape, ih]

theorem shape_call {program : Program S Reply ε α} {statement : S}
    {next : Reply statement → Program S Reply δ β} (same : program.shape = (call statement next).shape) :
    ∃ rest, program = .call statement rest ∧ ∀ reply, (rest reply).shape = (next reply).shape := by
  cases program with
  | done result => cases same
  | call other rest =>
    rw [shape, shape, call.injEq] at same
    obtain ⟨rfl, equal⟩ := same
    exact ⟨rest, rfl, congrFun (eq_of_heq equal)⟩

def erase : Program S Reply ε α → Program S Reply Unit Unit
  | .done (.ok _) => .done (.ok ())
  | .done (.err _) => .done (.err ())
  | .done .panic => .done .panic
  | .call statement next => .call statement fun reply => (next reply).erase

theorem shape_erase (program : Program S Reply ε α) : program.erase.shape = program.shape := by
  induction program with
  | done result => cases result <;> rfl
  | call statement next ih =>
    simp only [erase, shape, ih]

section Obeys

variable {P : Type} {permits : P → S → Prop} {after : P → (statement : S) → Reply statement → P}

/-- Every statement is permitted in the phase the replies so far lead to, and a value is returned
    only in a phase that satisfies `post`. -/
def Obeys (permits : P → S → Prop) (after : P → (statement : S) → Reply statement → P)
    (post : P → α → Prop) : Program S Reply ε α → P → Prop
  | .done (.ok value), phase => post phase value
  | .done _, _ => True
  | .call statement next, phase =>
    permits phase statement ∧ ∀ reply, (next reply).Obeys permits after post (after phase statement reply)

theorem obeys_done {post : P → α → Prop} {result : Outcome ε α} {phase : P} :
    (done result : Program S Reply ε α).Obeys permits after post phase ↔
      ∀ value, result = .ok value → post phase value := by
  cases result with
  | ok value => simp [Obeys]
  | err error => simp [Obeys]
  | panic => simp [Obeys]

theorem obeys_bind {post : P → β → Prop} {program : Program S Reply ε α}
    {rest : α → Program S Reply ε β} {phase : P} :
    (program >>= rest).Obeys permits after post phase ↔
      program.Obeys permits after (fun phase value => (rest value).Obeys permits after post phase) phase := by
  induction program generalizing phase with
  | done result =>
    cases result with
    | ok value => exact Iff.rfl
    | err error => exact Iff.rfl
    | panic => exact Iff.rfl
  | call statement next ih => exact and_congr_right fun _ => forall_congr' fun reply => ih reply

theorem Obeys.mono {post other : P → α → Prop} {program : Program S Reply ε α} {phase : P}
    (weaker : ∀ phase value, post phase value → other phase value)
    (obeys : program.Obeys permits after post phase) : program.Obeys permits after other phase := by
  induction program generalizing phase with
  | done result =>
    cases result with
    | ok value => exact weaker _ _ obeys
    | err error => trivial
    | panic => trivial
  | call statement next ih => exact ⟨obeys.1, fun reply => ih reply (obeys.2 reply)⟩

theorem Obeys.image {Q : Type} {allows : Q → S → Prop} {later : Q → (statement : S) → Reply statement → Q}
    {post : P → α → Prop} {also : Q → α → Prop} {program : Program S Reply ε α} {phase : P}
    (obeys : program.Obeys permits after post phase) (read : P → Q)
    (permitted : ∀ phase statement, permits phase statement → allows (read phase) statement)
    (next : ∀ phase statement reply, read (after phase statement reply) = later (read phase) statement reply)
    (returns : ∀ phase value, post phase value → also (read phase) value) :
    program.Obeys allows later also (read phase) := by
  induction program generalizing phase with
  | done result =>
    cases result with
    | ok value => exact returns _ _ obeys
    | err error => trivial
    | panic => trivial
  | call statement rest ih =>
    refine ⟨permitted _ _ obeys.1, fun reply => ?_⟩
    rw [← next]
    exact ih reply (obeys.2 reply)

theorem Obeys.weaken {permits' : P → S → Prop} {post : P → α → Prop} {program : Program S Reply ε α} {phase : P}
    (weaker : ∀ phase statement, permits phase statement → permits' phase statement)
    (obeys : program.Obeys permits after post phase) : program.Obeys permits' after post phase :=
  obeys.image id weaker (fun _ _ _ => rfl) fun _ _ returned => returned

theorem obeys_mapErr {post : P → α → Prop} {program : Program S Reply ε α} {inject : ε → δ} {phase : P} :
    (program.mapErr inject).Obeys permits after post phase ↔ program.Obeys permits after post phase := by
  induction program generalizing phase with
  | done result =>
    cases result with
    | ok value => exact Iff.rfl
    | err error => exact Iff.rfl
    | panic => exact Iff.rfl
  | call statement next ih => exact and_congr_right fun _ => forall_congr' fun reply => ih reply

theorem Obeys.capture {post : P → α → Prop} (wrap : Outcome ε α → β) {program : Program S Reply ε α} {phase : P}
    (obeys : program.Obeys permits after post phase) :
    (program.capture wrap).Obeys permits after (fun phase answer => ∃ result, answer = wrap result ∧
      ∀ value, result = .ok value → post phase value) phase := by
  induction program generalizing phase with
  | done result =>
    refine ⟨result, rfl, ?_⟩
    rintro value rfl
    exact obeys
  | call statement next ih => exact ⟨obeys.1, fun reply => ih reply (obeys.2 reply)⟩

theorem obeys_nothing (program : Program S Reply ε α) :
    program.Obeys (fun _ _ => True) (fun _ _ _ => ()) (fun _ _ => True) () := by
  induction program with
  | done result => cases result <;> trivial
  | call statement next ih => exact ⟨trivial, ih⟩

theorem Obeys.prod {Q : Type} {allows : Q → S → Prop} {later : Q → (statement : S) → Reply statement → Q}
    {post : P → α → Prop} {also : Q → α → Prop} {program : Program S Reply ε α} {phase : P} {stage : Q}
    (one : program.Obeys permits after post phase) (two : program.Obeys allows later also stage) :
    program.Obeys (fun both statement => permits both.1 statement ∧ allows both.2 statement)
      (fun both statement reply => (after both.1 statement reply, later both.2 statement reply))
      (fun both value => post both.1 value ∧ also both.2 value) (phase, stage) := by
  induction program generalizing phase stage with
  | done result => cases result <;> first | exact ⟨one, two⟩ | trivial
  | call statement next ih => exact ⟨⟨one.1, two.1⟩, fun reply => ih reply (one.2 reply) (two.2 reply)⟩

theorem Obeys.of_shape {δ β : Type} {left : Program S Reply ε α} {right : Program S Reply δ β} {phase : P}
    (same : left.shape = right.shape) (obeys : left.Obeys permits after (fun _ _ => True) phase) :
    right.Obeys permits after (fun _ _ => True) phase := by
  induction right generalizing left phase with
  | done result => cases result <;> trivial
  | call statement next ih =>
    obtain ⟨rest, rfl, shapes⟩ := shape_call same
    exact ⟨obeys.1, fun reply => ih reply (shapes reply) (obeys.2 reply)⟩

theorem Obeys.erase {post : P → α → Prop} {program : Program S Reply ε α} {phase : P}
    (obeys : program.Obeys permits after post phase) :
    program.erase.Obeys permits after (fun _ _ => True) phase := by
  induction program generalizing phase with
  | done result => cases result <;> trivial
  | call statement next ih => exact ⟨obeys.1, fun reply => ih reply (obeys.2 reply)⟩

end Obeys

section Ends

variable {P : Type} {after : P → (statement : S) → Reply statement → P}

/-- However the program ends, with a value or without one, its result suits the phase that the replies lead to. -/
def Ends (after : P → (statement : S) → Reply statement → P) (post : P → Outcome ε α → Prop) :
    Program S Reply ε α → P → Prop
  | .done result, phase => post phase result
  | .call statement next, phase => ∀ reply, (next reply).Ends after post (after phase statement reply)

theorem ends_any {post : P → Outcome ε α → Prop} (always : ∀ phase result, post phase result)
    (program : Program S Reply ε α) (phase : P) : program.Ends after post phase := by
  induction program generalizing phase with
  | done result => exact always phase result
  | call statement next ih => exact fun reply => ih reply _

theorem Ends.mono {post other : P → Outcome ε α → Prop} {program : Program S Reply ε α} {phase : P}
    (ends : program.Ends after post phase) (weaker : ∀ phase result, post phase result → other phase result) :
    program.Ends after other phase := by
  induction program generalizing phase with
  | done result => exact weaker phase result ends
  | call statement next ih => exact fun reply => ih reply (ends reply)

theorem Ends.bind {post : P → Outcome ε β → Prop} {program : Program S Reply ε α}
    {rest : α → Program S Reply ε β} {phase : P}
    (ends : program.Ends after (fun phase result => (∀ value, result = .ok value → (rest value).Ends after post phase) ∧
      ((∀ value, result ≠ .ok value) → ∀ failure, (∀ value, failure ≠ .ok value) → post phase failure)) phase) :
    (program >>= rest).Ends after post phase := by
  induction program generalizing phase with
  | done result =>
    cases result with
    | ok value => exact ends.1 value rfl
    | err error => exact ends.2 nofun (.err error) nofun
    | panic => exact ends.2 nofun .panic nofun
  | call statement next ih => exact fun reply => ih reply (ends reply)

theorem ends_issue {post : P → Outcome ε β → Prop} {statement : S} {rest : Reply statement → Program S Reply ε β}
    {phase : P} : (issue statement >>= rest).Ends after post phase ↔
      ∀ reply, (rest reply).Ends after post (after phase statement reply) := Iff.rfl

theorem Ends.of_done {post : P → Outcome ε β → Prop} {result : Outcome ε α} {rest : α → Program S Reply ε β}
    {phase : P} (failed : ∀ failure, (∀ value, failure ≠ .ok value) → post phase failure)
    (ok : ∀ value, result = .ok value → (rest value).Ends after post phase) :
    ((done result : Program S Reply ε α) >>= rest).Ends after post phase :=
  Ends.bind ⟨ok, fun _ => failed⟩

theorem Ends.mapErr {post : P → Outcome δ α → Prop} {program : Program S Reply ε α} {inject : ε → δ} {phase : P}
    (ends : program.Ends after (fun phase result => post phase (result.mapErr inject)) phase) :
    (program.mapErr inject).Ends after post phase := by
  induction program generalizing phase with
  | done result => exact ends
  | call statement next ih => exact fun reply => ih reply (ends reply)

theorem Ends.capture {post : P → Outcome ε α → Prop} {program : Program S Reply ε α} {phase : P}
    (ends : program.Ends after post phase) (wrap : Outcome ε α → β) :
    (program.capture wrap).Ends after (fun phase answer => ∃ result, answer = .ok (wrap result) ∧ post phase result)
      phase := by
  induction program generalizing phase with
  | done result => exact ⟨result, rfl, ends⟩
  | call statement next ih => exact fun reply => ih reply (ends reply)

theorem Obeys.and_ends {permits : P → S → Prop} {post also : P → α → Prop} {program : Program S Reply ε α} {phase : P}
    (obeys : program.Obeys permits after post phase)
    (ends : program.Ends after (fun phase result => ∀ value, result = .ok value → also phase value) phase) :
    program.Obeys permits after (fun phase value => post phase value ∧ also phase value) phase := by
  induction program generalizing phase with
  | done result =>
    cases result with
    | ok value => exact ⟨obeys, ends value rfl⟩
    | err error => trivial
    | panic => trivial
  | call statement next ih => exact ⟨obeys.1, fun reply => ih reply (obeys.2 reply) (ends reply)⟩

end Ends

def Errs (allowed : ε → Prop) : Program S Reply ε α → Prop
  | .done (.err error) => allowed error
  | .done _ => True
  | .call _ next => ∀ reply, (next reply).Errs allowed

theorem Errs.bind {allowed : ε → Prop} {program : Program S Reply ε α} {rest : α → Program S Reply ε β}
    (first : program.Errs allowed) (later : ∀ value, (rest value).Errs allowed) :
    (program >>= rest).Errs allowed := by
  induction program with
  | done result =>
    cases result with
    | ok value => exact later value
    | err error => exact first
    | panic => trivial
  | call statement next ih => exact fun reply => ih reply (first reply)

theorem Errs.mapErr {allowed : ε → Prop} {permitted : δ → Prop} {inject : ε → δ}
    {program : Program S Reply ε α} (errs : program.Errs allowed)
    (carried : ∀ error, allowed error → permitted (inject error)) :
    (program.mapErr inject).Errs permitted := by
  induction program with
  | done result =>
    cases result with
    | ok value => trivial
    | err error => exact carried error errs
    | panic => trivial
  | call statement next ih => exact fun reply => ih reply (errs reply)

section Run

variable {σ : Type} (exec : (statement : S) → σ → σ × Reply statement)

def run : Program S Reply ε α → σ → σ × Outcome ε α
  | .done result, state => (state, result)
  | .call statement next, state => (next (exec statement state).2).run (exec statement state).1

/-- A property that every permitted statement keeps holds when an obedient program has run. -/
theorem Obeys.run {P : Type} {permits : P → S → Prop} {after : P → (statement : S) → Reply statement → P}
    {post : P → α → Prop} (holds : σ → Prop)
    (step : ∀ phase statement state, permits phase statement → holds state → holds (exec statement state).1)
    {program : Program S Reply ε α} {phase : P} (obeys : program.Obeys permits after post phase) {state : σ}
    (initial : holds state) : holds (program.run exec state).1 := by
  induction program generalizing phase state with
  | done result => exact initial
  | call statement next ih => exact ih _ (obeys.2 _) (step phase statement state obeys.1 initial)

/-- Two runs of an obedient program from states related by its phase get the same replies when every permitted
    statement does, and end in related states with the same result. -/
theorem Obeys.run_related {P : Type} {permits : P → S → Prop}
    {after : P → (statement : S) → Reply statement → P} {post : P → α → Prop} (related : P → σ → σ → Prop)
    (step : ∀ phase statement left right, permits phase statement → related phase left right →
      (exec statement left).2 = (exec statement right).2 ∧
        related (after phase statement (exec statement right).2) (exec statement left).1 (exec statement right).1)
    {program : Program S Reply ε α} {phase : P} (obeys : program.Obeys permits after post phase)
    {left right : σ} (initial : related phase left right) :
    (program.run exec left).2 = (program.run exec right).2 ∧
      ∃ last, related last (program.run exec left).1 (program.run exec right).1 := by
  induction program generalizing phase left right with
  | done result => exact ⟨rfl, phase, initial⟩
  | call statement next ih =>
    obtain ⟨reply, onward⟩ := step phase statement left right obeys.1 initial
    rw [Program.run, Program.run, reply]
    exact ih _ (obeys.2 _) onward

theorem Errs.run {allowed : ε → Prop} {program : Program S Reply ε α} (errs : program.Errs allowed)
    {state : σ} {error : ε} (failed : (program.run exec state).2 = .err error) : allowed error := by
  induction program generalizing state with
  | done result =>
    simp only [Program.run] at failed
    subst failed
    exact errs
  | call statement next ih => exact ih _ (errs _) failed

theorem run_bind (program : Program S Reply ε α) (rest : α → Program S Reply ε β) (state : σ) :
    (program >>= rest).run exec state =
      match program.run exec state with
      | (state, .ok value) => (rest value).run exec state
      | (state, .err error) => (state, .err error)
      | (state, .panic) => (state, .panic) := by
  induction program generalizing state with
  | done result => cases result <;> rfl
  | call statement next ih => exact ih _ _

theorem run_bind_ok {program : Program S Reply ε α} {state next : σ} {value : α}
    (ran : program.run exec state = (next, .ok value)) (rest : α → Program S Reply ε β) :
    (program >>= rest).run exec state = (rest value).run exec next := by
  rw [run_bind, ran]

theorem run_bind_err {program : Program S Reply ε α} {state next : σ} {error : ε}
    (ran : program.run exec state = (next, .err error)) (rest : α → Program S Reply ε β) :
    (program >>= rest).run exec state = (next, .err error) := by
  rw [run_bind, ran]

theorem run_bind_panic {program : Program S Reply ε α} {state next : σ}
    (ran : program.run exec state = (next, .panic)) (rest : α → Program S Reply ε β) :
    (program >>= rest).run exec state = (next, .panic) := by
  rw [run_bind, ran]

theorem run_bind_eq_ok {program : Program S Reply ε α} {rest : α → Program S Reply ε β} {state last : σ}
    {result : β} :
    (program >>= rest).run exec state = (last, .ok result) ↔
      ∃ middle value, program.run exec state = (middle, .ok value) ∧
        (rest value).run exec middle = (last, .ok result) := by
  rw [run_bind]
  rcases program.run exec state with ⟨middle, _ | _ | _⟩
  · constructor
    · exact fun ran => ⟨middle, _, rfl, ran⟩
    · rintro ⟨_, _, same, ran⟩
      cases same
      exact ran
  · simp
  · simp

theorem run_done_eq_ok {result : Outcome ε α} {state last : σ} {value : α} :
    (.done result : Program S Reply ε α).run exec state = (last, .ok value) ↔
      last = state ∧ result = .ok value := by
  rw [run, Prod.mk.injEq, eq_comm]

theorem run_keeps (holds : σ → Prop) (step : ∀ statement state, holds state → holds (exec statement state).1)
    (program : Program S Reply ε α) {state : σ} (initial : holds state) :
    holds (program.run exec state).1 := by
  induction program generalizing state with
  | done result => exact initial
  | call statement next ih => exact ih _ (step statement state initial)

theorem run_mapErr (program : Program S Reply ε α) (inject : ε → δ) (state : σ) :
    (program.mapErr inject).run exec state =
      ((program.run exec state).1, (program.run exec state).2.mapErr inject) := by
  induction program generalizing state with
  | done result => rfl
  | call statement next ih => exact ih _ _

theorem run_mapErr_eq_ok {program : Program S Reply ε α} {inject : ε → δ} {state last : σ} {result : α} :
    (program.mapErr inject).run exec state = (last, .ok result) ↔
      program.run exec state = (last, .ok result) := by
  rw [run_mapErr, Prod.mk.injEq, Outcome.mapErr_eq_ok, Prod.ext_iff]

end Run

end Program

end Library
