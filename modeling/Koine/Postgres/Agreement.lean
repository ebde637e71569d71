import Koine.Postgres.Behaviour

namespace Koine.Postgres

open Library Domain Application Memory

variable {J : Type} [Serde J] [BuildProfile]

def Twin (before : InMemoryEventStore × World J) (operation : Operation) (answers : Answer × Answer)
    (after : InMemoryEventStore × World J) : Prop :=
  StoreStep before.1 operation answers.1 after.1 ∧ operation.exec before.2 = (after.2, answers.2)

abbrev TwinRecord (J : Type) := Record (InMemoryEventStore × World J) Operation (Answer × Answer)

def batchOf : Operation → List EventEnvelope
  | .append _ _ envelopes => envelopes
  | _ => []

def readings : Operation → List DateTime
  | .append .. | .load _ => []
  | .leaseNext ports .. | .retireNextExpiredLease ports => [ports.now]
  | .extendLease ports _ ttl =>
    ports.now :: ((TimeDelta.fromStd ttl).bind ports.now.checkedAddSigned).toList

/-- What the operation submits, and the log it leaves, can be kept in the tables. -/
structure Ordinary (record : TwinRecord J) : Prop where
  distinct : DistinctIds record.after.1.inner
  kept : ∀ id, ∀ envelope ∈ record.after.1.inner.stream id, Fits J envelope
  batch : ∀ envelope ∈ batchOf record.label, Fits J envelope
  readings : Precise (readings record.label)

def panicked : Answer → Bool
  | .appended .panic | .loaded .panic | .leased .panic | .extended .panic | .retired .panic => true
  | _ => false

/-- The operation does not panic, and a heartbeat has at most one entry to move. -/
structure Undisturbed (record : TwinRecord J) : Prop where
  calm : panicked record.result.1 = false
  once : ∀ ports lease ttl, record.label = .extendLease ports lease ttl → HeldOnce record.before.1.inner lease

omit [Serde J] [BuildProfile] in
theorem HeldOnce.reordered {inner shuffled : Inner} {lease : LeaseId} (once : HeldOnce inner lease)
    (order : inner.Reordered shuffled) : HeldOnce shuffled lease := by
  intro left right first second
  simp only [Inner.Holds, order.index] at first second
  exact once left right first second

omit [Serde J] [BuildProfile] in
theorem locked_calm {α : Type} {shuffled : Inner} {written : InMemoryEventStore}
    {body : Inner → Inner × Outcome EventStoreError α} {result : Outcome EventStoreError α}
    (ran : InMemoryEventStore.locked ⟨shuffled, false⟩ body = (written, result)) (calm : result ≠ .panic) :
    body shuffled = (written.inner, result) ∧ written.poisoned = false := by
  rcases locked_cases ran with ⟨poisoned, _⟩ | ⟨_, called, panics⟩
  · cases poisoned
  · exact ⟨called, by simpa using panics.not.mpr calm⟩

/-- An operation that stays within these bounds answers alike on twinned stores, and leaves them twinned
    unless the two retire different jobs. -/
theorem Twin.agree {before after : InMemoryEventStore × World J} {operation : Operation}
    {answers : Answer × Answer} (healthy : before.1.poisoned = false)
    (twinned : Twinned before.1.inner before.2) (taken : Twin before operation answers after)
    (ordinary : Ordinary (J := J) ⟨before, operation, answers, after⟩)
    (undisturbed : Undisturbed (J := J) ⟨before, operation, answers, after⟩) :
    after.1.poisoned = false ∧ Agree answers.1 answers.2 ∧
      (retiredJob answers.1 = retiredJob answers.2 → Twinned after.1.inner after.2) := by
  obtain ⟨store, world⟩ := before
  obtain ⟨final, next⟩ := after
  obtain ⟨left, right⟩ := answers
  obtain ⟨⟨shuffled, order, ran⟩, exec⟩ := taken
  obtain ⟨distinct, kept, batch, readings⟩ := ordinary
  obtain ⟨calm, once⟩ := undisturbed
  simp only at healthy ran exec distinct kept batch readings calm once
  rw [healthy] at ran
  have twinned := twinned.reordered order
  simp only at twinned
  cases operation with
  | append stream expected envelopes =>
    simp only [Operation.exec, EventStore.append] at ran
    rcases called : InMemoryEventStore.append ⟨shuffled, false⟩ stream expected envelopes with ⟨written, result⟩
    rw [called] at ran
    cases ran
    have quiet : result ≠ .panic := by
      rintro rfl
      cases calm
    obtain ⟨body, unpoisoned⟩ := locked_calm called quiet
    simp only [batchOf] at batch
    obtain ⟨_, answer, appended, same, related⟩ := twinned.append_agrees batch body quiet distinct kept
    simp only [Operation.exec, appended] at exec
    cases exec
    exact ⟨unpoisoned, same, fun _ => related⟩
  | load stream =>
    have loads := twinned.load_agrees stream
    simp only [Operation.exec, EventStore.load] at ran exec loads
    rw [loads] at ran
    cases ran
    cases exec
    exact ⟨rfl, rfl, fun _ => twinned⟩
  | leaseNext ports queue worker ttl =>
    simp only [Operation.exec, Dispatcher.leaseNext, leaseNext_eq] at ran
    rcases called : InMemoryEventStore.locked ⟨shuffled, false⟩ fun inner => inner.claim ports queue worker ttl
      with ⟨written, result⟩
    rw [called] at ran
    cases ran
    have quiet : result ≠ .panic := by
      rintro rfl
      cases calm
    obtain ⟨body, unpoisoned⟩ := locked_calm called quiet
    obtain ⟨_, answer, leased, same, related⟩ :=
      twinned.claim_agrees body quiet (readings _ List.mem_cons_self) distinct kept
    simp only [Operation.exec, leased] at exec
    cases exec
    exact ⟨unpoisoned, same, fun _ => related⟩
  | extendLease ports lease ttl =>
    simp only [Operation.exec, Dispatcher.extendLease, extendLease_eq] at ran
    rcases called : InMemoryEventStore.locked ⟨shuffled, false⟩ fun inner => inner.extendLease ports lease ttl
      with ⟨written, result⟩
    rw [called] at ran
    cases ran
    have quiet : result ≠ .panic := by
      rintro rfl
      cases calm
    obtain ⟨body, unpoisoned⟩ := locked_calm called quiet
    have sharp : ∀ delta deadline, TimeDelta.fromStd ttl = some delta →
        ports.now.checkedAddSigned delta = some deadline → timestamptz deadline = deadline := by
      intro delta deadline converted added
      refine readings deadline ?_
      simp [Postgres.readings, converted, added]
    obtain ⟨_, answer, extended, same, related⟩ := twinned.extend_agrees body quiet
      (readings _ List.mem_cons_self) sharp ((once ports lease ttl rfl).reordered order)
    simp only [Operation.exec, extended] at exec
    cases exec
    exact ⟨unpoisoned, same, fun _ => related⟩
  | retireNextExpiredLease ports =>
    simp only [Operation.exec, Dispatcher.retireNextExpiredLease, retireNextExpiredLease_eq] at ran
    rcases called : InMemoryEventStore.locked ⟨shuffled, false⟩ fun inner => inner.retireOne ports
      with ⟨written, result⟩
    rw [called] at ran
    cases ran
    have quiet : result ≠ .panic := by
      rintro rfl
      cases calm
    obtain ⟨body, unpoisoned⟩ := locked_calm called quiet
    obtain ⟨_, answer, retired, same, related⟩ :=
      twinned.retire_agrees body quiet (readings _ List.mem_cons_self) distinct kept
    simp only [Operation.exec, retired] at exec
    cases exec
    exact ⟨unpoisoned, same, related⟩

/-- The run has met no panic and no shared lease, and the stores retired the same jobs. -/
def Even (history : List (TwinRecord J)) : Prop :=
  ∀ record ∈ history, Ordinary record ∧ Undisturbed record ∧
    retiredJob record.result.1 = retiredJob record.result.2

theorem run_twinned {history : List (TwinRecord J)} {state : InMemoryEventStore × World J}
    (run : Run Twin (.new, .empty) history state) (even : Even history) :
    state.1.poisoned = false ∧ Twinned state.1.inner state.2 := by
  induction run with
  | refl => exact ⟨rfl, Twinned.empty⟩
  | step run taken ih =>
    rw [Even, List.forall_mem_cons] at even
    obtain ⟨⟨ordinary, undisturbed, same⟩, past⟩ := even
    obtain ⟨healthy, twinned⟩ := ih past
    obtain ⟨unpoisoned, _, related⟩ := taken.agree healthy twinned ordinary undisturbed
    exact ⟨unpoisoned, related same⟩

theorem adapters_are_twins {history : List (TwinRecord J)} {state : InMemoryEventStore × World J}
    (run : Run Twin (.new, .empty) history state) (even : Even history) :
    Related state.1.inner state.2.tables ∧
      ∀ operation answers after, Twin state operation answers after →
        Ordinary (J := J) ⟨state, operation, answers, after⟩ →
        Undisturbed (J := J) ⟨state, operation, answers, after⟩ →
        Agree answers.1 answers.2 ∧
          (retiredJob answers.1 = retiredJob answers.2 → Related after.1.inner after.2.tables) := by
  obtain ⟨healthy, twinned⟩ := run_twinned run even
  refine ⟨twinned.related, ?_⟩
  intro operation answers after taken ordinary undisturbed
  obtain ⟨_, agree, related⟩ := taken.agree healthy twinned ordinary undisturbed
  exact ⟨agree, fun same => (related same).related⟩

section Decidable

omit [BuildProfile]

def eventsOf (inner : Inner) : List EventEnvelope := inner.streams.entries.flatMap (·.2)

theorem mem_eventsOf {inner : Inner} {envelope : EventEnvelope} :
    envelope ∈ eventsOf inner ↔ ∃ id, envelope ∈ inner.stream id := by
  unfold eventsOf Inner.stream
  rw [List.mem_flatMap]
  constructor
  · intro ⟨⟨id, stream⟩, listed, member⟩
    exact ⟨id, by rw [AList.mem_lookup_iff.mpr listed]; exact member⟩
  · intro ⟨id, member⟩
    cases stored : inner.streams.lookup id with
    | none =>
      rw [stored] at member
      cases member
    | some stream =>
      rw [stored] at member
      exact ⟨⟨id, stream⟩, AList.mem_lookup_iff.mp stored, member⟩

theorem forall_stream {inner : Inner} {holds : EventEnvelope → Prop} :
    (∀ envelope ∈ eventsOf inner, holds envelope) ↔ ∀ id, ∀ envelope ∈ inner.stream id, holds envelope := by
  simp only [mem_eventsOf]
  constructor
  · exact fun all id envelope member => all envelope ⟨id, member⟩
  · exact fun all envelope ⟨id, member⟩ => all id envelope member

theorem distinctIds_of_nodup {inner : Inner} (nodup : ((eventsOf inner).map (·.eventId)).Nodup) :
    DistinctIds inner := by
  unfold eventsOf at nodup
  rw [List.map_flatMap, List.nodup_flatMap] at nodup
  obtain ⟨within, across⟩ := nodup
  intro left right i j a b first second same
  have stored : ∀ id (k : Nat) envelope, (inner.stream id)[k]? = some envelope →
      (⟨id, inner.stream id⟩ : (_ : JobId) × List EventEnvelope) ∈ inner.streams.entries := by
    intro id k envelope found
    unfold Inner.stream at found ⊢
    cases stored : inner.streams.lookup id with
    | none =>
      rw [stored] at found
      cases found
    | some stream => exact AList.mem_lookup_iff.mp stored
  have listed := stored left i a first
  have here : left = right := by
    by_contra different
    have : Std.Symm (Function.onFun List.Disjoint fun entry : (_ : JobId) × List EventEnvelope =>
        entry.2.map (·.eventId)) := ⟨fun _ _ disjoint _ listed member => disjoint member listed⟩
    have apart := across.forall listed (stored right j b second)
      (fun equal => different (congrArg Sigma.fst equal))
    refine apart (List.mem_map_of_mem (List.mem_of_getElem? first)) ?_
    rw [same]
    exact List.mem_map_of_mem (List.mem_of_getElem? second)
  subst here
  refine ⟨rfl, ?_⟩
  have single := within _ listed
  have bound := (List.getElem?_eq_some_iff.mp first).1
  refine (List.getElem?_inj (by simpa using bound) single).mp ?_
  rw [List.getElem?_map, List.getElem?_map, first, second, Option.map_some, Option.map_some, same]

instance (inner : Inner) (id : JobId) (lease : LeaseId) : Decidable (inner.Holds id lease) :=
  decidable_of_iff ((inner.index.lookup id).any fun entry => entry.lease.any (·.lease = lease)) (by
    simp [Inner.Holds, Option.any_eq_true])

theorem heldOnce_iff {inner : Inner} {lease : LeaseId} :
    (∀ left ∈ inner.index.keys, ∀ right ∈ inner.index.keys, inner.Holds left lease →
      inner.Holds right lease → left = right) ↔ HeldOnce inner lease := by
  have listed : ∀ id, inner.Holds id lease → id ∈ inner.index.keys := by
    intro id ⟨entry, _, present, _⟩
    rw [← AList.mem_keys, ← AList.lookup_isSome, present]
    rfl
  constructor
  · exact fun all left right first second => all left (listed left first) right (listed right second) first second
  · exact fun once left _ right _ first second => once left right first second

instance (inner : Inner) (lease : LeaseId) : Decidable (HeldOnce inner lease) :=
  decidable_of_iff _ heldOnce_iff

instance (instants : List DateTime) : Decidable (Precise instants) :=
  inferInstanceAs (Decidable (∀ time ∈ instants, timestamptz time = time))

theorem typedJson_fits {envelope : EventEnvelope} :
    (envelope.schemaVersion = 1 ∧ envelope.version < 2 ^ 63 ∧
      timestamptz envelope.recordedAt = envelope.recordedAt ∧ Precise (times envelope.event)) ↔
      Fits TypedJson envelope := by
  constructor
  · exact fun ⟨schema, version, recorded, times⟩ => ⟨schema, version, recorded, times, ⟨_, rfl, rfl⟩, ⟨_, rfl⟩⟩
  · exact fun fits => ⟨fits.schema, fits.version, fits.recorded, fits.times⟩

instance (envelope : EventEnvelope) : Decidable (Fits TypedJson envelope) :=
  decidable_of_iff _ typedJson_fits

def checked (record : TwinRecord TypedJson) : Bool :=
  ((eventsOf record.after.1.inner).map (·.eventId)).Nodup &&
    decide (∀ envelope ∈ eventsOf record.after.1.inner ++ batchOf record.label, Fits TypedJson envelope) &&
    decide (Precise (readings record.label))

theorem Ordinary.of_checked {record : TwinRecord TypedJson} (checks : checked record = true) :
    Ordinary record := by
  simp only [checked, Bool.and_eq_true, decide_eq_true_eq] at checks
  obtain ⟨⟨nodup, fits⟩, precise⟩ := checks
  refine ⟨distinctIds_of_nodup nodup, forall_stream.mp ?_, ?_, precise⟩
  · exact fun envelope member => fits envelope (List.mem_append_left _ member)
  · exact fun envelope member => fits envelope (List.mem_append_right _ member)

def steady (record : TwinRecord TypedJson) : Bool :=
  !panicked record.result.1 &&
    match record.label with
    | .extendLease _ lease _ => decide (HeldOnce record.before.1.inner lease)
    | _ => true

theorem Undisturbed.of_steady {record : TwinRecord TypedJson} (holds : steady record = true) :
    Undisturbed record := by
  simp only [steady, Bool.and_eq_true, Bool.not_eq_true'] at holds
  refine ⟨holds.1, ?_⟩
  intro ports lease ttl label
  have once := holds.2
  rw [label] at once
  exact of_decide_eq_true once

end Decidable

def twinExec (operation : Operation) (state : InMemoryEventStore × World TypedJson) :
    (InMemoryEventStore × World TypedJson) × (Answer × Answer) :=
  (((operation.exec state.1).1, (operation.exec state.2).1),
    ((operation.exec state.1).2, (operation.exec state.2).2))

theorem Twin.of_exec (operation : Operation) (state : InMemoryEventStore × World TypedJson) :
    Twin state operation (twinExec operation state).2 (twinExec operation state).1 :=
  ⟨StoreStep.of_exec operation state.1, rfl⟩

omit [BuildProfile] in
theorem Even.of_checks {history : List (TwinRecord TypedJson)}
    (checks : ∀ record ∈ history, checked record = true ∧ steady record = true ∧
      retiredJob record.result.1 = retiredJob record.result.2) : Even history :=
  fun record member => ⟨.of_checked (checks record member).1, .of_steady (checks record member).2.1,
    (checks record member).2.2⟩

def replayTwins (operations : List Operation) : List (TwinRecord TypedJson) × InMemoryEventStore × World TypedJson :=
  Run.replay twinExec (.new, .empty) operations

def lastRecord (operation : Operation) (older : List Operation) : TwinRecord TypedJson :=
  ⟨(replayTwins older).2, operation, (twinExec operation (replayTwins older).2).2,
    (twinExec operation (replayTwins older).2).1⟩

theorem lastRecord_taken (operation : Operation) (older : List Operation) :
    Run Twin (.new, .empty) (replayTwins older).1 (lastRecord operation older).before ∧
      Twin (lastRecord operation older).before (lastRecord operation older).label
        (lastRecord operation older).result (lastRecord operation older).after :=
  ⟨Run.of_replay Twin.of_exec older, Twin.of_exec operation _⟩

omit [BuildProfile] in
theorem adapters_are_twins_sample :
    let _ := BuildProfile.release
    let record := lastRecord (.retireNextExpiredLease (Sample.ports 200 4)) sampleOperations.tail
    Related record.before.1.inner record.before.2.tables ∧ Agree record.result.1 record.result.2 ∧
      Related record.after.1.inner record.after.2.tables := by
  intro _
  have general (operation : Operation) (older : List Operation) (even : Even (replayTwins older).1)
      (checks : checked (lastRecord operation older) = true ∧ steady (lastRecord operation older) = true ∧
        retiredJob (lastRecord operation older).result.1 = retiredJob (lastRecord operation older).result.2) :
      let record := lastRecord operation older
      Related record.before.1.inner record.before.2.tables ∧ Agree record.result.1 record.result.2 ∧
        Related record.after.1.inner record.after.2.tables := by
    obtain ⟨run, taken⟩ := lastRecord_taken operation older
    obtain ⟨related, agree⟩ := adapters_are_twins run even
    obtain ⟨same, onward⟩ := agree _ _ _ taken (.of_checked checks.1) (.of_steady checks.2.1)
    exact ⟨related, same, onward checks.2.2⟩
  exact general _ _ (.of_checks (by decide +kernel)) (by decide +kernel)

/-- Two jobs appended as held under one lease. -/
def sharedLease : List Operation :=
  [.append ⟨2⟩ 0 (Sample.command.envelopes (Sample.ports 0 2) ++
      wrapEvents (Sample.ports 1 4) ⟨2⟩ 1 ⟨1⟩ none none [.leased Sample.worker ⟨9⟩ (Sample.instant 11)]),
    .append ⟨1⟩ 0 (Sample.command.envelopes (Sample.ports 0 1) ++
      wrapEvents (Sample.ports 1 3) ⟨1⟩ 1 ⟨1⟩ none none [.leased Sample.worker ⟨9⟩ (Sample.instant 11)])]

omit [BuildProfile] in
theorem shared_lease_and_panic_part_twins :
    let _ := BuildProfile.release
    (∃ (history : List (TwinRecord TypedJson)) (record : TwinRecord TypedJson),
      Run Twin (.new, .empty) history record.before ∧
      Twin record.before record.label record.result record.after ∧
      (∀ past ∈ record :: history, Ordinary past) ∧
      Related record.before.1.inner record.before.2.tables ∧
      ¬ Related record.after.1.inner record.after.2.tables) ∧
    ∃ (history : List (TwinRecord TypedJson)) (record : TwinRecord TypedJson),
      Run Twin (.new, .empty) history record.before ∧
      Twin record.before record.label record.result record.after ∧
      (∀ past ∈ record :: history, Ordinary past) ∧
      Related record.before.1.inner record.before.2.tables ∧ ¬ Agree record.result.1 record.result.2 := by
  intro _
  constructor
  · -- the heartbeat moves one of two entries, and both rows
    obtain ⟨run, taken⟩ := lastRecord_taken (.extendLease (Sample.ports 5 5) ⟨9⟩ (.fromSecs 100)) sharedLease
    have even : Even (replayTwins sharedLease).1 := Even.of_checks (by decide +kernel)
    have checks : ∀ record ∈ lastRecord (.extendLease (Sample.ports 5 5) ⟨9⟩ (.fromSecs 100)) sharedLease ::
        (replayTwins sharedLease).1, checked record = true := by decide +kernel
    refine ⟨_, _, run, taken, fun record member => .of_checked (checks record member),
      (run_twinned run even).2.related, ?_⟩
    intro related
    have both := And.intro (related.dispatch ⟨1⟩) (related.dispatch ⟨2⟩)
    revert both
    decide +kernel
  · -- a heartbeat past the last representable instant panics, and poisons the mutex of one
    obtain ⟨run, taken⟩ := lastRecord_taken (.load ⟨1⟩)
      [.extendLease (Sample.ports 1 2) ⟨9⟩ (.fromSecs 9000000000000)]
    have checks : ∀ record ∈ lastRecord (.load ⟨1⟩)
        [.extendLease (Sample.ports 1 2) ⟨9⟩ (.fromSecs 9000000000000)] ::
        (replayTwins [.extendLease (Sample.ports 1 2) ⟨9⟩ (.fromSecs 9000000000000)]).1,
        checked record = true := by decide +kernel
    refine ⟨_, _, run, taken, fun record member => .of_checked (checks record member),
      Twinned.empty.related, ?_⟩
    intro agree
    cases agree

end Koine.Postgres
