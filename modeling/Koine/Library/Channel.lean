import Mathlib.Tactic.Common

namespace Library

/-- A bounded channel with one receiver, oldest message first. What a dropped receiver has not taken
    is lost. -/
structure Channel (α : Type) (capacity : Nat) where
  buffer : List α
  dropped : Bool
  bounded : buffer.length ≤ capacity
  emptied : dropped = true → buffer = []

inductive Sent (α : Type) (capacity : Nat) where
  | stored (channel : Channel α capacity)
  | disconnected
  | full

namespace Channel

variable {α : Type} {capacity : Nat}

def new (α : Type) (capacity : Nat) : Channel α capacity := ⟨[], false, Nat.zero_le _, fun _ => rfl⟩

def send (channel : Channel α capacity) (message : α) : Sent α capacity :=
  if channel.dropped then .disconnected
  else if room : channel.buffer.length < capacity then
    .stored ⟨channel.buffer ++ [message], false, by rw [List.length_append]; exact room, Bool.noConfusion⟩
  else .full

def recv (channel : Channel α capacity) : Option (α × Channel α capacity) :=
  if channel.dropped then none
  else
    match held : channel.buffer with
    | [] => none
    | message :: rest =>
      some (message, ⟨rest, false, Nat.le_of_succ_le (held ▸ channel.bounded :), Bool.noConfusion⟩)

def drop (_ : Channel α capacity) : Channel α capacity := ⟨[], true, Nat.zero_le _, fun _ => rfl⟩

theorem send_stored {channel after : Channel α capacity} {message : α}
    (sent : channel.send message = .stored after) :
    channel.dropped = false ∧ after.dropped = false ∧ after.buffer = channel.buffer ++ [message] := by
  unfold send at sent
  split at sent
  · cases sent
  · rename_i connected
    split at sent
    · cases sent
      exact ⟨Bool.eq_false_iff.mpr connected, rfl, rfl⟩
    · cases sent

theorem send_disconnected {channel : Channel α capacity} {message : α} :
    channel.send message = .disconnected ↔ channel.dropped = true := by
  unfold send
  split
  · simp_all
  · split <;> simp_all

theorem recv_some {channel after : Channel α capacity} {message : α}
    (taken : channel.recv = some (message, after)) :
    channel.dropped = false ∧ after.dropped = false ∧ channel.buffer = message :: after.buffer := by
  unfold recv at taken
  split at taken
  · cases taken
  · rename_i connected
    split at taken
    · cases taken
    · rename_i held
      cases taken
      exact ⟨Bool.eq_false_iff.mpr connected, rfl, held⟩

end Channel

end Library
