import Mathlib.Tactic.Common

namespace Library

/-- A channel with any number of readers that keeps its newest messages, oldest first. Nothing waits for a reader:
    one that falls behind misses messages and is told so. -/
structure Broadcast (α : Type) (capacity : Nat) where
  sent : Nat
  kept : List α
  closed : Bool
  full : kept.length = min sent capacity

inductive Received (α : Type) where
  | message (value : α)
  | lagged (missed : Nat)
  | empty
  | closed
deriving DecidableEq

namespace Broadcast

variable {α : Type} {capacity : Nat}

def new (α : Type) (capacity : Nat) : Broadcast α capacity := ⟨0, [], false, (Nat.zero_min _).symm⟩

def send (hub : Broadcast α capacity) (message : α) : Broadcast α capacity where
  sent := hub.sent + 1
  kept := (hub.kept ++ [message]).drop (hub.kept.length + 1 - capacity)
  closed := hub.closed
  full := by
    have full := hub.full
    rw [List.length_drop, List.length_append, List.length_singleton]
    omega

def oldest (hub : Broadcast α capacity) : Nat := hub.sent - hub.kept.length

def recv (hub : Broadcast α capacity) (next : Nat) : Received α × Nat :=
  if next < hub.oldest then (.lagged (hub.oldest - next), hub.oldest)
  else
    match hub.kept[next - hub.oldest]? with
    | some message => (.message message, next + 1)
    | none => (if hub.closed then .closed else .empty, next)

/-- The message went out at the position; whether it is still kept is another matter. -/
def Sent (hub : Broadcast α capacity) (position : Nat) (message : α) : Prop :=
  position < hub.sent ∧ (hub.oldest ≤ position → hub.kept[position - hub.oldest]? = some message)

theorem oldest_add (hub : Broadcast α capacity) : hub.oldest + hub.kept.length = hub.sent := by
  have full := hub.full
  unfold oldest
  omega

theorem sent_le (hub : Broadcast α capacity) : hub.sent ≤ hub.oldest + capacity := by
  have total := hub.oldest_add
  have full := hub.full
  omega

theorem oldest_send (hub : Broadcast α capacity) (message : α) :
    (hub.send message).oldest = hub.oldest + (hub.kept.length + 1 - capacity) := by
  have full := hub.full
  simp only [oldest, send, List.length_drop, List.length_append, List.length_singleton]
  omega

theorem kept_send {hub : Broadcast α capacity} {message : α} {position : Nat}
    (kept : (hub.send message).oldest ≤ position) :
    (hub.send message).kept[position - (hub.send message).oldest]? =
      (hub.kept ++ [message])[position - hub.oldest]? := by
  rw [oldest_send] at kept ⊢
  simp only [send, List.getElem?_drop]
  congr 1
  omega

theorem sent_send (hub : Broadcast α capacity) (message : α) : (hub.send message).Sent hub.sent message := by
  refine ⟨Nat.lt_succ_self _, fun kept => ?_⟩
  have last : hub.sent - hub.oldest = hub.kept.length := by
    have total := hub.oldest_add
    omega
  rw [kept_send kept, last]
  exact List.getElem?_concat_length

theorem Sent.send {hub : Broadcast α capacity} {position : Nat} {message : α} (sent : hub.Sent position message)
    (other : α) : (hub.send other).Sent position message := by
  obtain ⟨before, found⟩ := sent
  refine ⟨Nat.lt_succ_of_lt before, fun kept => ?_⟩
  have here : hub.oldest ≤ position := by
    rw [oldest_send] at kept
    omega
  have inside : position - hub.oldest < hub.kept.length := by
    have total := hub.oldest_add
    omega
  rw [kept_send kept, List.getElem?_append_left inside]
  exact found here

theorem Sent.ready {hub : Broadcast α capacity} {position next : Nat} {message : α} (sent : hub.Sent position message)
    (before : next ≤ position) : (hub.recv next).1 ≠ .empty := by
  unfold recv
  split
  · nofun
  · split
    · nofun
    · rename_i missing
      have past := List.getElem?_eq_none_iff.mp missing
      have total := hub.oldest_add
      have reached := sent.1
      omega

theorem recv_message {hub : Broadcast α capacity} {next after : Nat} {message : α}
    (read : hub.recv next = (.message message, after)) :
    after = next + 1 ∧ hub.oldest ≤ next ∧ next < hub.sent ∧ hub.kept[next - hub.oldest]? = some message := by
  unfold recv at read
  split at read
  · cases read
  · rename_i behind
    split at read
    · rename_i found
      cases read
      have inside := (List.getElem?_eq_some_iff.mp found).1
      have total := hub.oldest_add
      exact ⟨rfl, by omega, by omega, found⟩
    · split at read <;> cases read

theorem Sent.passed {hub : Broadcast α capacity} {position next after : Nat} {message other : α}
    (sent : hub.Sent position message) (before : next ≤ position)
    (read : hub.recv next = (.message other, after)) (different : other ≠ message) : after ≤ position := by
  obtain ⟨rfl, kept, _, found⟩ := recv_message read
  rcases Nat.lt_or_eq_of_le before with less | rfl
  · exact less
  · rw [sent.2 kept] at found
    exact absurd (Option.some.inj found).symm different

end Broadcast

end Library
