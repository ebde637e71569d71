import Koine.Library.History
import Koine.Memory.Atomicity

namespace Koine.Memory

open Library Domain Application

/-- The index entry of a job says what the job's fold says, deadlines aside. -/
def Mirrors (job : Job) : Option DispatchEntry → Prop
  | none => job.state.dispatchable = false
  | some entry =>
    entry.queue = job.queue ∧ entry.priority = job.priority ∧
      match job.state with
      | .pending notBefore => entry.lease = none ∧ entry.notBefore = notBefore
      | .leased worker lease _ | .running worker lease _ =>
        entry.notBefore = none ∧
          ∃ state, entry.lease = some state ∧ state.lease = lease ∧ state.worker = worker
      | _ => False

theorem mirrors_entryOf (job : Job) (seq : Nat) : Mirrors job (entryOf job seq) := by
  cases state : job.state <;> simp [entryOf, Mirrors, state, JobState.dispatchable]

theorem entryOf_seq {job : Job} {seq : Nat} {entry : DispatchEntry}
    (projected : entryOf job seq = some entry) : entry.seq = seq := by
  unfold entryOf at projected
  split at projected <;> cases projected <;> rfl

theorem Mirrors.held {job : Job} {entry : DispatchEntry} {state : LeaseState}
    (mirrors : Mirrors job (some entry)) (live : entry.lease = some state) :
    job.state.held = some state.lease := by
  have content := mirrors.2.2
  split at content
  · rw [content.1] at live
    cases live
  · rename_i shape
    obtain ⟨_, held, present, same, _⟩ := content
    rw [present] at live
    cases live
    rw [shape, ← same]
    rfl
  · rename_i shape
    obtain ⟨_, held, present, same, _⟩ := content
    rw [present] at live
    cases live
    rw [shape, ← same]
    rfl
  · cases content

theorem Mirrors.pending {job : Job} {entry : DispatchEntry} (mirrors : Mirrors job (some entry))
    (free : entry.lease = none) : job.state = .pending entry.notBefore := by
  have content := mirrors.2.2
  split at content
  · rename_i shape
    rw [shape, content.2]
  · obtain ⟨_, _, present, _⟩ := content
    rw [present] at free
    cases free
  · obtain ⟨_, _, present, _⟩ := content
    rw [present] at free
    cases free
  · cases content

theorem Mirrors.lease {job : Job} {entry : DispatchEntry} {lease : LeaseId}
    (mirrors : Mirrors job (some entry)) (held : job.state.held = some lease) :
    ∃ state, entry.lease = some state ∧ state.lease = lease := by
  have content := mirrors.2.2
  obtain ⟨worker, expiresAt, shape | shape⟩ := JobState.held_eq_some.mp held
  · simp only [shape] at content
    obtain ⟨_, state, present, same, _⟩ := content
    exact ⟨state, present, same⟩
  · simp only [shape] at content
    obtain ⟨_, state, present, same, _⟩ := content
    exact ⟨state, present, same⟩

theorem Mirrors.extend {job : Job} {entry : DispatchEntry} {state : LeaseState} (deadline : DateTime)
    (mirrors : Mirrors job (some entry)) (live : entry.lease = some state) :
    Mirrors job (some { entry with lease := some { state with expiresAt := deadline } }) := by
  refine ⟨mirrors.1, mirrors.2.1, ?_⟩
  have content := mirrors.2.2
  obtain ⟨worker, expiresAt, shape | shape⟩ := JobState.held_eq_some.mp (mirrors.held live)
  all_goals
    simp only [shape] at content ⊢
    obtain ⟨notBefore, old, before, lease, holder⟩ := content
    rw [live] at before
    cases before
    exact ⟨notBefore, _, rfl, lease, holder⟩

def Inner.Holds (inner : Inner) (id : JobId) (lease : LeaseId) : Prop :=
  ∃ entry state, inner.index.lookup id = some entry ∧ entry.lease = some state ∧ state.lease = lease

def Inner.Reordered (inner shuffled : Inner) : Prop :=
  inner.streams.entries.Perm shuffled.streams.entries ∧
    inner.index.entries.Perm shuffled.index.entries ∧ inner.seq = shuffled.seq

theorem Inner.Reordered.refl (inner : Inner) : inner.Reordered inner := ⟨.refl _, .refl _, rfl⟩

theorem Inner.Reordered.streams {inner shuffled : Inner} (order : inner.Reordered shuffled) (id : JobId) :
    shuffled.streams.lookup id = inner.streams.lookup id := (AList.perm_lookup order.1).symm

theorem Inner.Reordered.stream {inner shuffled : Inner} (order : inner.Reordered shuffled) (id : JobId) :
    shuffled.stream id = inner.stream id := by
  unfold Inner.stream
  rw [order.streams]

theorem Inner.Reordered.index {inner shuffled : Inner} (order : inner.Reordered shuffled) (id : JobId) :
    shuffled.index.lookup id = inner.index.lookup id := (AList.perm_lookup order.2.1).symm

theorem Inner.Reordered.holds {inner shuffled : Inner} (order : inner.Reordered shuffled) {id : JobId}
    {lease : LeaseId} : shuffled.Holds id lease ↔ inner.Holds id lease := by
  unfold Inner.Holds
  simp only [order.index]

section Invariant

variable [BuildProfile]

/-- Streams fold, the index mirrors the folds, and sequence numbers are used once. -/
structure Inner.Consistent (inner : Inner) : Prop where
  folds : ∀ id stream, inner.streams.lookup id = some stream →
    ∃ job, Job.fromEvents stream = .ok job ∧ Mirrors job (inner.index.lookup id)
  orphan : ∀ id, inner.streams.lookup id = none → inner.index.lookup id = none
  seq_le : ∀ id entry, inner.index.lookup id = some entry → entry.seq ≤ inner.seq
  seq_injective : ∀ left right first second, inner.index.lookup left = some first →
    inner.index.lookup right = some second → first.seq = second.seq → left = right

theorem Inner.Consistent.empty : Inner.empty.Consistent where
  folds := by intro id stream found; cases found
  orphan := by intro id _; rfl
  seq_le := by intro id entry found; cases found
  seq_injective := by intro left right first second found; cases found

theorem Inner.Consistent.reorder {inner shuffled : Inner} (consistent : inner.Consistent)
    (order : inner.Reordered shuffled) : shuffled.Consistent where
  folds := by simpa only [order.streams, order.index] using consistent.folds
  orphan := by simpa only [order.streams, order.index] using consistent.orphan
  seq_le := by simpa only [order.index, ← order.2.2] using consistent.seq_le
  seq_injective := by simpa only [order.index] using consistent.seq_injective

theorem Inner.Consistent.entry {inner : Inner} (consistent : inner.Consistent) {id : JobId}
    {entry : DispatchEntry} (present : inner.index.lookup id = some entry) :
    ∃ stream job, inner.streams.lookup id = some stream ∧ Job.fromEvents stream = .ok job ∧
      Mirrors job (some entry) := by
  cases stored : inner.streams.lookup id with
  | none =>
    rw [consistent.orphan id stored] at present
    cases present
  | some stream =>
    obtain ⟨job, folded, mirrors⟩ := consistent.folds id stream stored
    rw [present] at mirrors
    exact ⟨stream, job, rfl, folded, mirrors⟩

theorem Inner.Consistent.holds_iff {inner : Inner} (consistent : inner.Consistent) {id : JobId}
    {lease : LeaseId} :
    inner.Holds id lease ↔
      ∃ stream job, inner.streams.lookup id = some stream ∧ Job.fromEvents stream = .ok job ∧
        job.state.held = some lease := by
  constructor
  · rintro ⟨entry, state, present, live, rfl⟩
    obtain ⟨stream, job, stored, folded, mirrors⟩ := consistent.entry present
    exact ⟨stream, job, stored, folded, mirrors.held live⟩
  · rintro ⟨stream, job, stored, folded, held⟩
    obtain ⟨other, refolded, mirrors⟩ := consistent.folds id stream stored
    rw [folded] at refolded
    cases refolded
    cases present : inner.index.lookup id with
    | none =>
      rw [present] at mirrors
      obtain ⟨worker, expiresAt, shape | shape⟩ := JobState.held_eq_some.mp held
      · rw [Mirrors, shape] at mirrors
        cases mirrors
      · rw [Mirrors, shape] at mirrors
        cases mirrors
    | some entry =>
      rw [present] at mirrors
      obtain ⟨state, live, same⟩ := mirrors.lease held
      exact ⟨entry, state, present, live, same⟩

theorem Inner.Consistent.appended {inner after : Inner} {stream : JobId} {batch : List EventEnvelope}
    {job : Job} (consistent : inner.Consistent) (effects : Appended inner after stream batch job) :
    after.Consistent where
  folds := by
    intro id found stored
    by_cases same : id = stream
    · subst same
      rw [effects.stream_self] at stored
      cases stored
      refine ⟨job, effects.folded, ?_⟩
      rw [effects.index_self]
      exact mirrors_entryOf _ _
    · rw [effects.stream_other id same] at stored
      rw [effects.index_other id same]
      exact consistent.folds id found stored
  orphan := by
    intro id missing
    by_cases same : id = stream
    · subst same
      rw [effects.stream_self] at missing
      cases missing
    · rw [effects.stream_other id same] at missing
      rw [effects.index_other id same]
      exact consistent.orphan id missing
  seq_le := by
    intro id entry present
    rw [effects.seq, Inner.seqAfter]
    by_cases same : id = stream
    · subst same
      rw [effects.index_self] at present
      rw [entryOf_seq present, Inner.seqFor]
      split
      · simp
      · rename_i old before
        exact consistent.seq_le _ _ before
    · rw [effects.index_other id same] at present
      have bound := consistent.seq_le _ _ present
      split <;> omega
  seq_injective := by
    have fresh : ∀ entry id other, after.index.lookup stream = some entry → id ≠ stream →
        after.index.lookup id = some other → entry.seq ≠ other.seq := by
      intro entry id other present different rival
      rw [effects.index_self] at present
      rw [effects.index_other id different] at rival
      rw [entryOf_seq present, Inner.seqFor]
      split
      · have bound := consistent.seq_le _ _ rival
        omega
      · rename_i old before
        intro clash
        exact different (consistent.seq_injective _ _ _ _ rival before clash.symm)
    intro left right first second presentLeft presentRight clash
    by_cases leftSame : left = stream
    · by_cases rightSame : right = stream
      · rw [leftSame, rightSame]
      · subst leftSame
        exact absurd clash (fresh first right second presentLeft rightSame presentRight)
    · by_cases rightSame : right = stream
      · subst rightSame
        exact absurd clash.symm (fresh second left first presentRight leftSame presentLeft)
      · rw [effects.index_other left leftSame] at presentLeft
        rw [effects.index_other right rightSame] at presentRight
        exact consistent.seq_injective _ _ _ _ presentLeft presentRight clash

theorem Inner.Consistent.extended {inner after : Inner} {id : JobId} {entry : DispatchEntry}
    {state : LeaseState} {deadline : DateTime} (consistent : inner.Consistent)
    (effects : Extended inner after id entry state deadline) : after.Consistent := by
  have seqs : ∀ job moved, after.index.lookup job = some moved →
      ∃ old, inner.index.lookup job = some old ∧ old.seq = moved.seq := by
    intro job moved found
    by_cases same : job = id
    · subst same
      rw [effects.index_self] at found
      cases found
      exact ⟨entry, effects.present, rfl⟩
    · rw [effects.index_other job same] at found
      exact ⟨moved, found, rfl⟩
  refine ⟨?_, ?_, ?_, ?_⟩
  · intro job stream stored
    rw [effects.streams] at stored
    obtain ⟨folded, fold, mirrors⟩ := consistent.folds job stream stored
    refine ⟨folded, fold, ?_⟩
    by_cases same : job = id
    · subst same
      rw [effects.present] at mirrors
      rw [effects.index_self]
      exact mirrors.extend deadline effects.live
    · rw [effects.index_other job same]
      exact mirrors
  · intro job missing
    rw [effects.streams] at missing
    have absent := consistent.orphan job missing
    by_cases same : job = id
    · subst same
      rw [effects.present] at absent
      cases absent
    · rw [effects.index_other job same]
      exact absent
  · intro job moved found
    obtain ⟨old, before, seq⟩ := seqs job moved found
    rw [← seq, effects.seq]
    exact consistent.seq_le _ _ before
  · intro left right first second foundLeft foundRight clash
    obtain ⟨oldLeft, beforeLeft, seqLeft⟩ := seqs left first foundLeft
    obtain ⟨oldRight, beforeRight, seqRight⟩ := seqs right second foundRight
    exact consistent.seq_injective _ _ _ _ beforeLeft beforeRight (by omega)

end Invariant

end Koine.Memory
