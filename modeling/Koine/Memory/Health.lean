import Koine.Memory.Fencing
import Koine.Memory.Index

namespace Koine.Memory

open Library Domain Application

/-- The deadline `now + ttl` exists, or the TTL is refused before it is added. -/
def representable (now : DateTime) (ttl : Duration) : Bool :=
  match TimeDelta.fromStd ttl with
  | none => true
  | some delta => (now.checkedAddSigned delta).isSome

/-- A claim adds its TTL only where it finds a job, a heartbeat always. -/
def Action.representable (before : System) : Action → Bool
  | .leaseNext ports queue _ ttl =>
    (before.store.inner.pickEligible queue ports.now).isNone || Memory.representable ports.now ttl
  | .extendLease ports _ ttl => Memory.representable ports.now ttl
  | _ => true

theorem representable_some {now : DateTime} {ttl : Duration} {delta : TimeDelta}
    (fits : representable now ttl = true) (converted : TimeDelta.fromStd ttl = some delta) :
    now.checkedAddSigned delta ≠ none := by
  intro overflow
  simp [representable, converted, overflow] at fits

theorem locked_unpoisoned {α : Type} {store : InMemoryEventStore}
    {body : Inner → Inner × Outcome EventStoreError α} (healthy : store.poisoned = false)
    (calm : (body store.inner).2 ≠ .panic) : (store.locked body).1.poisoned = false := by
  rcases ran : store.locked body with ⟨after, result⟩
  rcases locked_cases ran with ⟨poisoned, _, _⟩ | ⟨_, called, unwound⟩
  · rw [healthy] at poisoned
    cases poisoned
  · rw [called] at calm
    simpa [calm] using unwound

theorem extendLease_calm {inner : Inner} {ports : Ports} {lease : LeaseId} {ttl : Duration}
    (fits : representable ports.now ttl = true) : (inner.extendLease ports lease ttl).2 ≠ .panic := by
  unfold Inner.extendLease
  split
  · simp
  · rename_i delta converted
    split
    · rename_i overflow
      exact absurd overflow (representable_some fits converted)
    · split
      · simp
      · split <;> simp

variable [BuildProfile]

theorem claim_calm {inner : Inner} {ports : Ports} {queue : QueueName} {worker : WorkerId}
    {ttl : Duration} (consistent : inner.Consistent)
    (fits : inner.pickEligible queue ports.now = none ∨ representable ports.now ttl = true) :
    (inner.claim ports queue worker ttl).2 ≠ .panic := by
  rcases called : inner.claim ports queue worker ttl with ⟨after, result⟩
  cases picked : inner.pickEligible queue ports.now with
  | none =>
    simp only [Inner.claim, picked] at called
    cases called
    simp
  | some id =>
    obtain ⟨_, stream, job, _, _, stored, folded, _⟩ := consistent.picked picked
    rcases claim_picked picked stored folded called with ⟨_, _, _, _, rfl⟩ | ⟨_, _, rfl⟩ | ⟨unwound, _⟩
    · simp
    · simp
    · obtain ⟨delta, converted, overflow⟩ := Job.lease_panic unwound
      rw [picked] at fits
      exact absurd overflow (representable_some (fits.resolve_left (Option.some_ne_none id)) converted)

theorem retireOne_calm {inner : Inner} {ports : Ports} (consistent : inner.Consistent)
    (accounted : ∀ id stream job, inner.streams.lookup id = some stream →
      Job.fromEvents stream = .ok job → Accounted stream job) :
    (inner.retireOne ports).2 ≠ .panic := by
  rcases called : inner.retireOne ports with ⟨after, result⟩
  cases picked : inner.pickExpired ports.now with
  | none =>
    simp only [Inner.retireOne, picked] at called
    cases called
    simp
  | some id =>
    obtain ⟨_, _, stream, job, _, _, _, stored, folded, _⟩ := consistent.expired picked
    rcases retireOne_picked picked stored folded called with ⟨_, _, rfl⟩ | ⟨_, _, rfl⟩ | ⟨unwound, _⟩
    · simp
    · simp
    · have full := (Job.expireLease_panic.mp unwound).1
      exact absurd full (u32Succ_of_room (accounted id stream job stored folded).room)

theorem append_unpoisoned {store written : InMemoryEventStore} {stream : JobId} {expected : Nat}
    {envelopes : List EventEnvelope} {result : Outcome EventStoreError Unit}
    (ran : store.append stream expected envelopes = (written, result)) (healthy : store.poisoned = false)
    (calm : result ≠ .panic) : written.poisoned = false := by
  rcases locked_cases ran with ⟨poisoned, _, _⟩ | ⟨_, _, unwound⟩
  · rw [healthy] at poisoned
    cases poisoned
  · simpa [calm] using unwound

theorem enqueue_unpoisoned {store after : InMemoryEventStore} {ports : Ports} {cmd : EnqueueCommand}
    {result : Outcome EnqueueError JobId} (healthy : store.poisoned = false)
    (ran : EnqueueJob.execute store ports cmd = (after, result)) : after.poisoned = false := by
  unfold EnqueueJob.execute at ran
  split at ran
  · cases ran
    exact healthy
  · rcases appended : EventStore.append store ports.jobId 0 (cmd.envelopes ports) with
      ⟨written, _ | _ | _⟩
    · rw [appended] at ran
      cases ran
      exact append_unpoisoned appended healthy (by simp)
    · rw [appended] at ran
      cases ran
      exact append_unpoisoned appended healthy (by simp)
    · obtain ⟨length, unwound⟩ := append_panic appended
      rw [List.eq_nil_of_length_eq_zero length, List.nil_append, enqueued_opens] at unwound
      cases unwound

theorem System.Step.unpoisoned {before after : System} {action : Action} {response : Response}
    (sound : before.Sound) (accounted : before.Streams Accounted)
    (healthy : before.store.poisoned = false) (fits : action.representable before = true)
    (taken : System.Step before action response after) : after.store.poisoned = false := by
  have calm := taken
  obtain ⟨shuffled, order, ran⟩ := taken
  have consistent := sound.consistent.reorder order
  have usable : (⟨shuffled, before.store.poisoned⟩ : InMemoryEventStore).poisoned = false := healthy
  cases action with
  | enqueue ports cmd =>
    cases ran
    exact enqueue_unpoisoned usable rfl
  | leaseNext ports queue worker ttl =>
    simp only [Action.exec, leaseNext_eq, Prod.mk.injEq] at ran
    rw [← ran.1]
    rw [Action.representable, Bool.or_eq_true, Option.isNone_iff_eq_none, pickEligible_none] at fits
    refine locked_unpoisoned usable (claim_calm consistent ?_)
    rw [pickEligible_none]
    simpa only [order.index] using fits
  | extendLease ports lease ttl =>
    simp only [Action.exec, extendLease_eq, Prod.mk.injEq] at ran
    rw [← ran.1]
    exact locked_unpoisoned usable (extendLease_calm fits)
  | retireNextExpiredLease ports =>
    simp only [Action.exec, retireNextExpiredLease_eq, Prod.mk.injEq] at ran
    rw [← ran.1]
    refine locked_unpoisoned usable (retireOne_calm consistent ?_)
    intro id stream job stored folded
    rw [order.streams] at stored
    exact accounted.stored id stream job stored folded
  | load ticket jobId call =>
    simp only [Action.exec] at ran
    split at ran <;> (cases ran; exact healthy)
  | append ticket ports =>
    simp only [Action.exec] at ran
    split at ran
    · cases ran
      exact healthy
    · rename_i flight ongoing
      have answered := answered_ne_panic sound ongoing (accounted.loaded ticket flight ongoing) calm
      cases ran
      unfold Call.finish at answered ⊢
      split
      · exact healthy
      · exact healthy
      · rename_i reply events command
        rcases appended : EventStore.append (⟨shuffled, before.store.poisoned⟩ : InMemoryEventStore)
          flight.loaded.job.id flight.loaded.job.version (flight.loaded.envelopes ports events) with
          ⟨written, _ | _ | _⟩
        · exact append_unpoisoned appended healthy (by simp)
        · exact append_unpoisoned appended healthy (by simp)
        · simp only [command, appended] at answered
          exact absurd rfl answered

theorem Run.unpoisoned {history : Trace} {system : System} (run : Run System.Step .new history system)
    (fits : ∀ record ∈ history, record.label.representable record.before = true) : system.store.poisoned = false := by
  induction run with
  | refl => rfl
  | step run taken ih =>
    rw [List.forall_mem_cons] at fits
    exact taken.unpoisoned (Run.sound run) (Run.accounted run) (ih fits.2) fits.1

end Koine.Memory
