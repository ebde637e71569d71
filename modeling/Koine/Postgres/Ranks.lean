import Koine.Postgres.Serial

namespace Koine.Postgres

open Library Domain Application

section Ranks

variable {J : Type}

structure Ranked (tables : Tables J) (top : Nat) : Prop where
  below : ∀ id ∈ tables.dispatch, tables.rank id ≤ top
  distinct : ∀ id ∈ tables.dispatch, ∀ other ∈ tables.dispatch, tables.rank id = tables.rank other → id = other

theorem mem_dispatch {tables : Tables J} {id : JobId} :
    id ∈ tables.dispatch ↔ ∃ row, tables.dispatch.lookup id = some row := by
  rw [← AList.lookup_isSome, Option.isSome_iff_exists]

section

variable {left right : Tables J} {top : Nat}

theorem Ranked.mono (ranked : Ranked left top) {higher : Nat} (above : top ≤ higher) : Ranked left higher where
  below := fun id member => (ranked.below id member).trans above
  distinct := ranked.distinct

theorem rank_of_undated {left right : Tables J} {id : JobId}
    (same : (left.dispatch.lookup id).map DispatchRow.undated = (right.dispatch.lookup id).map DispatchRow.undated) :
    left.rank id = right.rank id ∧ (id ∈ left.dispatch ↔ id ∈ right.dispatch) := by
  have factors : ∀ row : Option DispatchRow,
      row.elim 0 (·.seq) = (row.map DispatchRow.undated).elim 0 (·.seq) := by
    intro row
    cases row <;> rfl
  constructor
  · rw [Tables.rank, factors, same, ← factors, Tables.rank]
  · rw [← AList.lookup_isSome, ← AList.lookup_isSome, ← Option.isSome_map (f := DispatchRow.undated), same,
      Option.isSome_map]

theorem Ranked.undated (ranked : Ranked left top) {higher : Nat} (above : top ≤ higher)
    (same : ∀ id, (right.dispatch.lookup id).map DispatchRow.undated =
      (left.dispatch.lookup id).map DispatchRow.undated) : Ranked right higher where
  below := by
    intro id member
    obtain ⟨rank, listed⟩ := rank_of_undated (same id)
    rw [rank]
    exact (ranked.below id (listed.mp member)).trans above
  distinct := by
    intro id member other present
    obtain ⟨rank, listed⟩ := rank_of_undated (same id)
    obtain ⟨equal, known⟩ := rank_of_undated (same other)
    rw [rank, equal]
    exact ranked.distinct id (listed.mp member) other (known.mp present)

theorem Ranked.congr (ranked : Ranked left top) (same : ∀ id, right.dispatch.lookup id = left.dispatch.lookup id) :
    Ranked right top :=
  ranked.undated le_rfl fun id => congrArg (Option.map DispatchRow.undated) (same id)

theorem rank_put (tables : Tables J) (id other : JobId) (row : DispatchRow) :
    (Write.apply tables (.put id row)).rank other = if other = id then row.seq else tables.rank other := by
  rw [Tables.rank, Write.apply]
  split
  · rename_i here
    rw [here, AList.lookup_insert]
    rfl
  · rename_i away
    rw [AList.lookup_insert_ne away]
    rfl

theorem mem_put {tables : Tables J} {id other : JobId} {row : DispatchRow} :
    other ∈ (Write.apply tables (.put id row)).dispatch ↔ other = id ∨ other ∈ tables.dispatch :=
  AList.mem_insert _

section Upsert

variable {id : JobId} {row : Nat → DispatchRow} (numbered : ∀ seq, (row seq).seq = seq) {drawn : Nat}

include numbered

theorem rank_upsert_old (known : id ∈ left.dispatch) (other : JobId) :
    (Write.apply left (.put id (row ((left.dispatch.lookup id).elim drawn (·.seq))))).rank other =
      left.rank other := by
  rw [rank_put, numbered]
  obtain ⟨old, present⟩ := mem_dispatch.mp known
  split
  · rename_i here
    rw [here, rank_of_lookup present, present]
    rfl
  · rfl

theorem rank_upsert_new (unknown : id ∉ left.dispatch) (other : JobId) :
    (Write.apply left (.put id (row ((left.dispatch.lookup id).elim drawn (·.seq))))).rank other =
      if other = id then drawn else left.rank other := by
  rw [rank_put, numbered, AList.lookup_eq_none.mpr unknown]
  rfl

theorem Ranked.put (ranked : Ranked left top) :
    Ranked (Write.apply left (.put id (row ((left.dispatch.lookup id).elim (top + 1) (·.seq))))) (top + 1) := by
  by_cases known : id ∈ left.dispatch
  · have old : ∀ other, other = id ∨ other ∈ left.dispatch → other ∈ left.dispatch := by
      rintro other (rfl | member)
      · exact known
      · exact member
    refine ⟨?_, ?_⟩
    · intro other member
      rw [rank_upsert_old numbered known]
      exact (ranked.below other (old other (mem_put.mp member))).trans (Nat.le_succ _)
    · intro first one second two
      rw [rank_upsert_old numbered known, rank_upsert_old numbered known]
      exact ranked.distinct first (old first (mem_put.mp one)) second (old second (mem_put.mp two))
  · refine ⟨?_, ?_⟩
    · intro other member
      rw [rank_upsert_new numbered known]
      split
      · exact le_rfl
      · rename_i away
        exact (ranked.below other ((mem_put.mp member).resolve_left away)).trans (Nat.le_succ _)
    · intro first one second two
      rw [rank_upsert_new numbered known, rank_upsert_new numbered known]
      rw [mem_put] at one two
      by_cases here : first = id <;> by_cases there : second = id
      · exact fun _ => here.trans there.symm
      · have below := ranked.below second (two.resolve_left there)
        rw [if_pos here, if_neg there]
        omega
      · have below := ranked.below first (one.resolve_left here)
        rw [if_neg here, if_pos there]
        omega
      · rw [if_neg here, if_neg there]
        exact ranked.distinct first (one.resolve_left here) second (two.resolve_left there)

end Upsert

theorem rank_drop {tables : Tables J} {id other : JobId} (member : other ∈ (Write.apply tables (.drop id)).dispatch) :
    other ∈ tables.dispatch ∧ (Write.apply tables (.drop id)).rank other = tables.rank other := by
  obtain ⟨away, listed⟩ := AList.mem_erase.mp member
  rw [Tables.rank, Write.apply, AList.lookup_erase_ne away]
  exact ⟨listed, rfl⟩

theorem Ranked.drop (ranked : Ranked left top) (id : JobId) : Ranked (Write.apply left (.drop id)) top where
  below := by
    intro other member
    obtain ⟨listed, same⟩ := rank_drop member
    rw [same]
    exact ranked.below other listed
  distinct := by
    intro first one second two
    obtain ⟨here, same⟩ := rank_drop one
    obtain ⟨there, equal⟩ := rank_drop two
    rw [same, equal]
    exact ranked.distinct first here second there

end

/-! ### The row that is claimed next -/

/-- A row that may be claimed and that no other such row precedes in `ORDER BY priority DESC, seq`. -/
structure Tables.Foremost (tables : Tables J) (queue : QueueName) (now : DateTime) (id : JobId) (row : DispatchRow) :
    Prop where
  present : tables.dispatch.lookup id = some row
  eligible : row.eligible queue now = true
  ahead : ∀ other rival, tables.dispatch.lookup other = some rival → rival.eligible queue now = true →
    rival.claimLe row = true

/-- `ORDER BY priority DESC, seq LIMIT 1`. -/
def Tables.pick (tables : Tables J) (queue : QueueName) (now : DateTime) : Option JobId :=
  (maxBy (fun left right => left.2.claimLe right.2)
    (tables.dispatch.entries.filter fun entry => entry.2.eligible queue now)).map (·.1)

theorem pick_eq_none {tables : Tables J} {queue : QueueName} {now : DateTime} :
    tables.pick queue now = none ↔
      ∀ id row, tables.dispatch.lookup id = some row → row.eligible queue now = false := by
  rw [Tables.pick, Option.map_eq_none_iff, maxBy_eq_none, List.filter_eq_nil_iff]
  constructor
  · intro none id row present
    simpa using none ⟨id, row⟩ (AList.mem_lookup_iff.mp present)
  · intro none entry member
    simpa using none entry.1 entry.2 (AList.mem_lookup_iff.mpr member)

theorem pick_eq_some {tables : Tables J} {queue : QueueName} {now : DateTime} {id : JobId}
    (picked : tables.pick queue now = some id) :
    ∃ row, tables.Foremost queue now id row := by
  rw [Tables.pick, Option.map_eq_some_iff] at picked
  obtain ⟨entry, best, rfl⟩ := picked
  obtain ⟨member, all⟩ := @maxBy_some ((_ : JobId) × DispatchRow)
    (fun left right => left.2.claimLe right.2) claimLe_total claimLe_trans _ _ best
  rw [List.mem_filter] at member
  refine ⟨entry.2, AList.mem_lookup_iff.mpr member.1, member.2, ?_⟩
  intro other rival present eligible
  exact all ⟨other, rival⟩ (List.mem_filter.mpr ⟨AList.mem_lookup_iff.mp present, eligible⟩)

theorem Ranked.foremost_unique {tables : Tables J} {top : Nat} (ranked : Ranked tables top) {queue : QueueName}
    {now : DateTime} {id other : JobId} {row rival : DispatchRow} (first : tables.Foremost queue now id row)
    (second : tables.Foremost queue now other rival) : id = other := by
  have lower := claimLe_iff.mp (first.ahead other rival second.present second.eligible)
  have upper := claimLe_iff.mp (second.ahead id row first.present first.eligible)
  have tied : tables.rank id = tables.rank other := by
    rw [rank_of_lookup first.present, rank_of_lookup second.present]
    omega
  exact ranked.distinct id (mem_dispatch.mpr ⟨row, first.present⟩) other (mem_dispatch.mpr ⟨rival, second.present⟩)
    tied

theorem Ranked.pick_eq_some_iff {tables : Tables J} {top : Nat} (ranked : Ranked tables top) {queue : QueueName}
    {now : DateTime} {id : JobId} :
    tables.pick queue now = some id ↔ ∃ row, tables.Foremost queue now id row := by
  refine ⟨pick_eq_some, ?_⟩
  rintro ⟨row, foremost⟩
  cases picked : tables.pick queue now with
  | none =>
    have refused := pick_eq_none.mp picked id row foremost.present
    rw [foremost.eligible] at refused
    cases refused
  | some other =>
    obtain ⟨rival, chosen⟩ := pick_eq_some picked
    rw [ranked.foremost_unique foremost chosen]

theorem selectEligible_pick (world : World J) (queue : QueueName) (now : DateTime) :
    ((Stmt.selectEligible queue now : Stmt J).alone (world, .begin)).2 =
      world.tables.pick queue (timestamptz now) := by
  simp only [Stmt.alone, Stmt.exec, Tables.pick, List.any_nil, Bool.not_false, Bool.and_true]
  split <;> rename_i best
  · exact (congrArg (Option.map Sigma.fst) best).symm
  · exact (congrArg (Option.map Sigma.fst) best).symm

end Ranks

section Runs

variable {J : Type} [Serde J] [BuildProfile]

omit [Serde J] [BuildProfile] in
theorem rowOf_shape (job : Job) :
    (∀ seq, rowOf job seq = none) ∨
      ∃ row : Nat → DispatchRow, (∀ seq, rowOf job seq = some (row seq)) ∧ ∀ seq, (row seq).seq = seq := by
  unfold rowOf
  cases job.state with
  | pending | leased | running => exact .inr ⟨_, fun _ => rfl, fun _ => rfl⟩
  | _ => exact .inl fun _ => rfl

theorem Grown.ranked {before after : World J} {stream : JobId} {rows : List (EventRow J)} {job : Job}
    (grown : Grown before after stream rows job) (ranked : Ranked before.tables before.dispatchSeq) :
    Ranked after.tables after.dispatchSeq := by
  rcases rowOf_shape job with none | ⟨row, shape, numbered⟩
  · have le : before.dispatchSeq ≤ after.dispatchSeq := by
      rcases grown.drawn with drawn | ⟨drawn, _⟩ <;> omega
    refine ((ranked.drop stream).mono le).congr ?_
    intro id
    rw [Write.apply]
    by_cases here : id = stream
    · subst here
      rw [grown.self, none, AList.lookup_erase]
    · rw [grown.other id here, AList.lookup_erase_ne here]
  · have drawn : after.dispatchSeq = before.dispatchSeq + 1 := by
      rcases grown.drawn with drawn | ⟨_, none⟩
      · exact drawn
      · have impossible := none 0
        rw [shape] at impossible
        cases impossible
    have put : Ranked (Write.apply before.tables (.put stream _)) (before.dispatchSeq + 1) :=
      ranked.put numbered
    rw [drawn]
    refine put.congr ?_
    intro id
    rw [Write.apply]
    by_cases here : id = stream
    · subst here
      rw [grown.self, shape, AList.lookup_insert]
      rfl
    · rw [grown.other id here, AList.lookup_insert_ne here]

theorem Moves.ranked {before after : World J} (moves : Moves before after)
    (ranked : Ranked before.tables before.dispatchSeq) : Ranked after.tables after.dispatchSeq := by
  cases moves with
  | still tables _ dispatchSeq =>
    rw [tables]
    exact ranked.mono dispatchSeq
  | grown _ _ _ grown => exact grown.ranked ranked
  | beaten _ _ dispatchSeq rows => exact ranked.undated dispatchSeq.ge rows

omit [Serde J] [BuildProfile] in
theorem Ranked.empty : Ranked (World.empty : World J).tables (World.empty : World J).dispatchSeq where
  below := fun _ member => absurd member (AList.notMem_empty _)
  distinct := fun _ member => absurd member (AList.notMem_empty _)

theorem Run.ranked {history : List (Record (World J) Operation Answer)} {world : World J}
    (run : Run Serially .empty history world) : Ranked world.tables world.dispatchSeq :=
  Run.invariant (fun world => Ranked world.tables world.dispatchSeq) .empty
    (fun _ _ _ _ ranked step => (Serially.moves step).ranked ranked) run

end Runs

end Koine.Postgres
