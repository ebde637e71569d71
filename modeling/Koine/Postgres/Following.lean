import Koine.Postgres.Cluster

namespace Koine.Postgres

open Library Domain Application

variable {J : Type} [Serde J] [BuildProfile]

/-- The statements of a connection with the answer its caller gets; a relay pass has none. -/
def Work.answering : Work → Tx J Unit (Option Answer)
  | .operation (.append stream expectedVersion envelopes) =>
    (append stream expectedVersion envelopes).capture (some ∘ .appended)
  | .operation (.load stream) => (load stream).capture (some ∘ .loaded)
  | .operation (.leaseNext ports queue worker ttl) => (claim ports queue worker ttl).capture (some ∘ .leased)
  | .operation (.extendLease ports lease ttl) => (extendLease ports lease ttl).capture (some ∘ .extended)
  | .operation (.retireNextExpiredLease ports) => (retireOne ports).capture (some ∘ .retired)
  | .relay batch => (relayOnce batch).capture fun _ => none

theorem Work.answering_shape (work : Work) : (work.answering : Tx J Unit _).shape = work.program.shape := by
  cases work with
  | relay batch => exact (Program.shape_capture _ _).trans (Program.shape_erase _).symm
  | operation operation =>
    cases operation <;> exact (Program.shape_capture _ _).trans (Program.shape_erase _).symm

def resumed (record : Record (Cluster J) Label Unit) (ticket : Nat) (verdict : Verdict) :
    Tx J Unit (Option Answer) → Option (Tx J Unit (Option Answer))
  | .done _ => none
  | .call statement next =>
    (record.before.sessions.lookup ticket).map fun session =>
      next (statement.exec (record.before.others ticket) verdict record.before.world session.tx).2

/-- What a connection has still to do, with its answer, after the steps of a run. -/
def pending : List (Record (Cluster J) Label Unit) → Nat → Option (Tx J Unit (Option Answer))
  | [], _ => none
  | record :: older, ticket =>
    match record.label with
    | .start other work => if other = ticket then some work.answering else pending older ticket
    | .abort other => if other = ticket then none else pending older ticket
    | .advance other verdict =>
      if other = ticket then (pending older ticket).bind (resumed record ticket verdict)
      else pending older ticket

def Label.ticket : Label → Nat
  | .start ticket _ | .advance ticket _ | .abort ticket => ticket

theorem pending_other {record : Record (Cluster J) Label Unit} {ticket : Nat} (other : record.label.ticket ≠ ticket)
    (older : List (Record (Cluster J) Label Unit)) : pending (record :: older) ticket = pending older ticket := by
  rw [pending]
  cases label : record.label <;> rw [label] at other <;> exact if_neg other

section Rule

variable {P : Type} (permits : P → Stmt J → Prop) (next : P → (statement : Stmt J) → statement.Reply → P)
  (post : P → Option Answer → Prop)

def Following (history : List (Record (Cluster J) Label Unit)) (cluster : Cluster J) (phases : Nat → P) : Prop :=
  ∀ ticket session, cluster.sessions.lookup ticket = some session → ∃ program,
    pending history ticket = some program ∧ program.shape = session.program.shape ∧
      program.Obeys permits next post (phases ticket)

variable {permits next post}

theorem Following.resume {history : List (Record (Cluster J) Label Unit)} {cluster : Cluster J} {phases : Nat → P}
    (following : Following permits next post history cluster phases) {record : Record (Cluster J) Label Unit}
    {ticket : Nat} {world : World J} {session : Session J} {phase : P}
    (here : ∃ program, pending (record :: history) ticket = some program ∧
      program.shape = session.program.shape ∧ program.Obeys permits next post phase)
    (step : record.label.ticket = ticket) :
    Following permits next post (record :: history) (cluster.resume ticket world session)
      (Function.update phases ticket phase) := by
  intro other found present
  rcases lookup_resume present with ⟨rfl, rfl⟩ | ⟨different, before⟩
  · rw [Function.update_self]
    exact here
  · rw [Function.update_of_ne different, pending_other (step.trans_ne different.symm)]
    exact following other found before

theorem Following.close {history : List (Record (Cluster J) Label Unit)} {cluster : Cluster J} {phases : Nat → P}
    (following : Following permits next post history cluster phases) {record : Record (Cluster J) Label Unit}
    {ticket : Nat} (step : record.label.ticket = ticket) :
    Following permits next post (record :: history) (cluster.close ticket) phases := by
  intro other found present
  obtain ⟨different, before⟩ := lookup_close present
  rw [pending_other (step.trans_ne different.symm)]
  exact following other found before

theorem Following.permitted {history : List (Record (Cluster J) Label Unit)} {cluster : Cluster J}
    {phases : Nat → P} (following : Following permits next post history cluster phases) {ticket : Nat}
    {work : Work} {statement : Stmt J} {rest : statement.Reply → Tx J Unit Unit} {tx : Transaction J}
    (found : cluster.sessions.lookup ticket = some ⟨work, .call statement rest, tx⟩) :
    permits (phases ticket) statement := by
  obtain ⟨program, _, same, obeys⟩ := following ticket _ found
  obtain ⟨_, rfl, _⟩ := Program.shape_call same
  exact obeys.1

/-- The invariant rule of the cluster for any protocol of the statements. -/
theorem Run.following (first : Work → P) (allowed : Record (Cluster J) Label Unit → Prop)
    (holds : List (Record (Cluster J) Label Unit) → Cluster J → (Nat → P) → Prop)
    (obeys : ∀ cluster after ticket work, allowed ⟨cluster, .start ticket work, (), after⟩ →
      (work.answering : Tx J Unit _).Obeys permits next post (first work))
    {origin : Cluster J} (quiet : ∀ ticket, origin.sessions.lookup ticket = none) (phases : Nat → P)
    (initial : holds [] origin phases)
    (start : ∀ history cluster phases ticket work, holds history cluster phases →
      cluster.sessions.lookup ticket = none →
      let after := cluster.resume ticket cluster.world ⟨work, work.program, .begin⟩
      allowed ⟨cluster, .start ticket work, (), after⟩ →
      holds (⟨cluster, .start ticket work, (), after⟩ :: history) after
        (Function.update phases ticket (first work)))
    (close : ∀ history cluster phases ticket label, holds history cluster phases →
      (label = .abort ticket ∨ ∃ verdict, label = .advance ticket verdict) →
      holds (⟨cluster, label, (), cluster.close ticket⟩ :: history) (cluster.close ticket) phases)
    (advance : ∀ history cluster phases ticket verdict work statement rest tx, holds history cluster phases →
      cluster.sessions.lookup ticket = some ⟨work, .call statement rest, tx⟩ →
      permits (phases ticket) statement →
      statement.waits (tx.view cluster.world.tables) (cluster.others ticket) = false →
      let ran := statement.exec (cluster.others ticket) verdict cluster.world tx
      let after := cluster.resume ticket ran.1.1 ⟨work, rest ran.2, ran.1.2⟩
      allowed ⟨cluster, .advance ticket verdict, (), after⟩ →
      holds (⟨cluster, .advance ticket verdict, (), after⟩ :: history) after
        (Function.update phases ticket (next (phases ticket) statement ran.2)))
    {history : List (Record (Cluster J) Label Unit)} {cluster : Cluster J}
    (run : Run Cluster.Step origin history cluster) (kinds : ∀ record ∈ history, allowed record) :
    ∃ phases, Following permits next post history cluster phases ∧ holds history cluster phases := by
  induction run with
  | refl =>
    refine ⟨phases, ?_, initial⟩
    intro ticket session found
    rw [quiet ticket] at found
    cases found
  | step run taken ih =>
    rename_i older before after label result
    rw [List.forall_mem_cons] at kinds
    obtain ⟨phases, following, kept⟩ := ih kinds.2
    unfold Cluster.Step at taken
    cases label with
    | start ticket work =>
      simp only [Label.step] at taken
      split at taken
      · cases taken
      · rename_i free
        cases taken
        refine ⟨_, ?_, start older before phases ticket work kept free kinds.1⟩
        refine Following.resume following ⟨work.answering, if_pos rfl, work.answering_shape, ?_⟩ rfl
        exact obeys _ _ ticket work kinds.1
    | abort ticket =>
      cases taken
      exact ⟨phases, following.close rfl, close older before phases ticket _ kept (.inl rfl)⟩
    | advance ticket verdict =>
      simp only [Label.step] at taken
      split at taken
      · cases taken
      · cases taken
        exact ⟨phases, following.close rfl, close older before phases ticket _ kept (.inr ⟨verdict, rfl⟩)⟩
      · rename_i work statement rest tx found
        split at taken
        · cases taken
        · rename_i ready
          cases taken
          obtain ⟨program, due, same, keeps⟩ := following ticket _ found
          obtain ⟨others, rfl, shapes⟩ := Program.shape_call same
          refine ⟨_, ?_, advance older before phases ticket verdict work statement rest tx kept found keeps.1
            (by simpa using ready) kinds.1⟩
          refine Following.resume following ⟨others _, ?_, shapes _, keeps.2 _⟩ rfl
          simp only [pending, if_true, due, Option.bind_some, resumed, found, Option.map_some]

end Rule

end Koine.Postgres
