import Koine.Library.History
import Koine.Postgres.Adapters

namespace Koine.Postgres

open Library Domain Application

inductive Work where
  | operation (operation : Operation)
  | relay (batch : Nat)

def Work.isRelay : Work → Bool
  | .operation _ => false
  | .relay _ => true

structure Session (J : Type) where
  work : Work
  program : Tx J Unit Unit
  tx : Transaction J

/-- The database and its open connections, each under a ticket of its own. -/
structure Cluster (J : Type) where
  world : World J
  sessions : AList fun _ : Nat => Session J

def Cluster.empty {J : Type} : Cluster J := ⟨.empty, ∅⟩

/-- A connection takes up work, runs its next statement, or breaks off (an error, a deadlock, a
    crash) and is rolled back. A `COMMIT` that takes effect and is answered with an error is the statement
    with a break behind it. -/
inductive Label where
  | start (ticket : Nat) (work : Work)
  | advance (ticket : Nat) (verdict : Verdict)
  | abort (ticket : Nat)

variable {J : Type}

def Cluster.others (cluster : Cluster J) (ticket : Nat) : List (Transaction J) :=
  (cluster.sessions.erase ticket).entries.map (·.2.tx)

def Cluster.close (cluster : Cluster J) (ticket : Nat) : Cluster J :=
  { cluster with sessions := cluster.sessions.erase ticket }

def Cluster.resume (cluster : Cluster J) (ticket : Nat) (world : World J) (session : Session J) :
    Cluster J :=
  ⟨world, cluster.sessions.insert ticket session⟩

theorem mem_others {cluster : Cluster J} {ticket : Nat} {tx : Transaction J} :
    tx ∈ cluster.others ticket ↔
      ∃ other session, other ≠ ticket ∧ cluster.sessions.lookup other = some session ∧ session.tx = tx := by
  unfold Cluster.others
  rw [List.mem_map]
  constructor
  · intro ⟨⟨other, session⟩, member, same⟩
    have found := AList.mem_lookup_iff.mpr member
    by_cases here : other = ticket
    · rw [here, AList.lookup_erase] at found
      cases found
    · rw [AList.lookup_erase_ne here] at found
      exact ⟨other, session, here, found, same⟩
  · intro ⟨other, session, here, found, same⟩
    rw [← AList.lookup_erase_ne here] at found
    exact ⟨⟨other, session⟩, AList.mem_lookup_iff.mp found, same⟩

theorem lookup_resume {cluster : Cluster J} {ticket other : Nat} {world : World J}
    {session found : Session J} (present : (cluster.resume ticket world session).sessions.lookup other =
      some found) :
    (other = ticket ∧ found = session) ∨
      (other ≠ ticket ∧ cluster.sessions.lookup other = some found) := by
  by_cases same : other = ticket
  · subst same
    rw [Cluster.resume, AList.lookup_insert] at present
    exact .inl ⟨rfl, (Option.some.inj present).symm⟩
  · rw [Cluster.resume, AList.lookup_insert_ne same] at present
    exact .inr ⟨same, present⟩

theorem lookup_close {cluster : Cluster J} {ticket other : Nat} {found : Session J}
    (present : (cluster.close ticket).sessions.lookup other = some found) :
    other ≠ ticket ∧ cluster.sessions.lookup other = some found := by
  by_cases same : other = ticket
  · subst same
    rw [Cluster.close, AList.lookup_erase] at present
    cases present
  · rw [Cluster.close, AList.lookup_erase_ne same] at present
    exact ⟨same, present⟩

section Sessions

variable {φ : Type} {cluster : Cluster J} {ticket : Nat} {world : World J} {session : Session J}
  (phases : Nat → φ) (phase : φ)

theorem each_resume (holds : φ → Session J → Prop) (here : holds phase session)
    (rest : ∀ other rival, other ≠ ticket → cluster.sessions.lookup other = some rival →
      holds (phases other) rival) :
    ∀ other found, (cluster.resume ticket world session).sessions.lookup other = some found →
      holds (Function.update phases ticket phase other) found := by
  intro other found present
  rcases lookup_resume present with ⟨rfl, rfl⟩ | ⟨different, before⟩
  · rw [Function.update_self]
    exact here
  · rw [Function.update_of_ne different]
    exact rest other found different before

theorem between_resume (holds : φ → Session J → φ → Session J → Prop)
    (symmetric : ∀ first left second right, holds first left second right → holds second right first left)
    (here : ∀ other rival, other ≠ ticket → cluster.sessions.lookup other = some rival →
      holds phase session (phases other) rival)
    (rest : ∀ first second left right, second ≠ first → cluster.sessions.lookup first = some left →
      cluster.sessions.lookup second = some right → holds (phases first) left (phases second) right) :
    ∀ first second left right, second ≠ first →
      (cluster.resume ticket world session).sessions.lookup first = some left →
      (cluster.resume ticket world session).sessions.lookup second = some right →
      holds (Function.update phases ticket phase first) left
        (Function.update phases ticket phase second) right := by
  intro first second left right different found ongoing
  rcases lookup_resume found with ⟨rfl, rfl⟩ | ⟨away, before⟩
  · rcases lookup_resume ongoing with ⟨same, _⟩ | ⟨_, after⟩
    · exact absurd same different
    · rw [Function.update_self, Function.update_of_ne different]
      exact here second right different after
  · rw [Function.update_of_ne away]
    rcases lookup_resume ongoing with ⟨rfl, rfl⟩ | ⟨apart, after⟩
    · rw [Function.update_self]
      exact symmetric _ _ _ _ (here first left away before)
    · rw [Function.update_of_ne apart]
      exact rest first second left right different before after

end Sessions

variable [Serde J] [BuildProfile]

def Work.program : Work → Tx J Unit Unit
  | .operation (.append stream expectedVersion envelopes) => (append stream expectedVersion envelopes).erase
  | .operation (.load stream) => (load stream).erase
  | .operation (.leaseNext ports queue worker ttl) => (claim ports queue worker ttl).erase
  | .operation (.extendLease ports lease ttl) => (extendLease ports lease ttl).erase
  | .operation (.retireNextExpiredLease ports) => (retireOne ports).erase
  | .relay batch => (relayOnce batch).erase

/-- One statement of one connection, or none where the label is not enabled. A connection whose
    program has returned is closed, and with it whatever it did not commit. -/
def Label.step (label : Label) (cluster : Cluster J) : Option (Cluster J) :=
  match label with
  | .start ticket work =>
    match cluster.sessions.lookup ticket with
    | some _ => none
    | none => some (cluster.resume ticket cluster.world ⟨work, work.program, .begin⟩)
  | .advance ticket verdict =>
    match cluster.sessions.lookup ticket with
    | none => none
    | some ⟨_, .done _, _⟩ => some (cluster.close ticket)
    | some ⟨work, .call statement next, tx⟩ =>
      if statement.waits (tx.view cluster.world.tables) (cluster.others ticket) then none
      else
        let ((world, tx), reply) := statement.exec (cluster.others ticket) verdict cluster.world tx
        some (cluster.resume ticket world ⟨work, next reply, tx⟩)
  | .abort ticket => some (cluster.close ticket)

def Cluster.Step (before : Cluster J) (label : Label) (_ : Unit) (after : Cluster J) : Prop :=
  label.step before = some after

def Label.attempt (labels : List Label) :
    Option (List (Record (Cluster J) Label Unit) × Cluster J) :=
  Run.attempt (fun label cluster => (label.step cluster).map (·, ())) .empty labels

theorem Label.of_attempt {labels : List Label} {history : List (Record (Cluster J) Label Unit)}
    {cluster : Cluster J} (ran : Label.attempt labels = some (history, cluster)) :
    Run Cluster.Step .empty history cluster ∧ history.map (·.label) = labels := by
  refine Run.of_attempt ?_ ran
  intro label before after result taken
  simpa [Cluster.Step] using taken

def Label.advances (ticket count : Nat) : List Label := List.replicate count (.advance ticket .accepts)

end Koine.Postgres
