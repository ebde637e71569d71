import Koine.Library.Checks
import Koine.SupplyChain.RustLexer
import Mathlib.Data.List.Nodup

namespace Koine.SupplyChain.Rust

open Library

def postgresTestcontainersTag : Text :=
  "17@sha256:a426e44bac0b759c95894d68e1a0ac03ecc20b619f498a91aae373bf06d8508d".toList

def postgresTestcontainersHelpers : List String :=
  ["crates/koine-store-postgres/tests/support/mod.rs", "crates/koine-grpc/tests/support/mod.rs"]

def Token.identifier (name : String) : Token := ⟨.identifier, name.toList⟩

def Token.punctuation (c : Char) : Token := ⟨.punctuation, [c]⟩

def postgresDefault : List Token :=
  [.identifier "Postgres", .punctuation ':', .punctuation ':', .identifier "default", .punctuation '(',
    .punctuation ')']

def beforeTag : List Token := [.punctuation '.', .identifier "with_tag", .punctuation '(']

def afterTag : List Token := [.punctuation ')', .punctuation '.', .identifier "start", .punctuation '(']

def rustTokensMatch (tokens : List Token) (index : Nat) (expected : List Token) : Bool :=
  expected.zipIdx.all fun (token, offset) => tokens[index + offset]? = some token

/-- The tag that the loop reads behind a use of `Postgres::default()`, where the call is as it expects. -/
def pinnedTag (tokens : List Token) (index : Nat) : Option Text :=
  let cursor := index + postgresDefault.length
  if rustTokensMatch tokens cursor beforeTag then
    match tokens[cursor + beforeTag.length]? with
    | some ⟨.string, tag⟩ =>
      if rustTokensMatch tokens (cursor + beforeTag.length + 1) afterTag then some tag else none
    | _ => none
  else none

def consumers (tokens : List Token) : List Nat :=
  (List.range tokens.length).filter fun index => rustTokensMatch tokens index postgresDefault

def pinnedConsumers (tokens : List Token) : List (Nat × Text) :=
  (consumers tokens).filterMap fun index => (pinnedTag tokens index).map (index, ·)

/-- The body of the loop of `validatePostgresTestcontainersHelpers`. -/
def validateHelper (relative : String) (source : Text) : Except String Unit := do
  let tokens ← lexRustHelper source relative
  match consumers tokens, pinnedConsumers tokens with
  | [consumer], [(index, tag)] =>
    if consumer ≠ index then
      .error ("testcontainers Postgres pin count drifted: " ++ relative ++ ": 1/1")
    else if tag ≠ postgresTestcontainersTag then
      .error ("testcontainers Postgres image identity drifted: " ++ relative ++ ": " ++ String.ofList tag)
    else pure ()
  | found, pinned =>
    .error ("testcontainers Postgres pin count drifted: " ++ relative ++ ": " ++ toString pinned.length ++ "/" ++
      toString found.length)

/-- The files are what `readText` makes of them. -/
def validatePostgresTestcontainersHelpers (readText : String → Except String Text) : Except String Unit :=
  postgresTestcontainersHelpers.forM fun relative => do
    let source ← readText relative
    validateHelper relative source

theorem rustTokensMatch_iff {tokens expected : List Token} {index : Nat} :
    rustTokensMatch tokens index expected = true ↔ expected <+: tokens.drop index := by
  have pointwise : rustTokensMatch tokens index expected = true ↔
      ∀ offset token, expected[offset]? = some token → tokens[index + offset]? = some token := by
    simp only [rustTokensMatch, List.all_eq_true, decide_eq_true_eq, Prod.forall, List.mk_mem_zipIdx_iff_getElem?]
    exact ⟨fun all offset token => all token offset, fun all token offset => all offset token⟩
  rw [pointwise, List.prefix_iff_getElem?]
  constructor
  · intro all offset inside
    rw [List.getElem?_drop]
    exact all offset _ (List.getElem?_eq_getElem inside)
  · intro all offset token found
    obtain ⟨inside, rfl⟩ := List.getElem?_eq_some_iff.mp found
    rw [← List.getElem?_drop]
    exact all offset inside

theorem prefix_drop_iff {expected tokens : List Token} {index : Nat} (nonempty : expected ≠ []) :
    expected <+: tokens.drop index ↔ ∃ front rest, tokens = front ++ expected ++ rest ∧ front.length = index := by
  constructor
  · rintro ⟨rest, behind⟩
    have inside : index ≤ tokens.length := by
      have total := congrArg List.length behind
      have positive := List.length_pos_iff.mpr nonempty
      rw [List.length_append, List.length_drop] at total
      omega
    refine ⟨tokens.take index, rest, ?_, List.length_take_of_le inside⟩
    rw [List.append_assoc, behind, List.take_append_drop]
  · rintro ⟨front, rest, rfl, rfl⟩
    rw [List.append_assoc, List.drop_left]
    exact List.prefix_append ..

theorem postgresDefault_ne_nil : postgresDefault ≠ [] := List.cons_ne_nil _ _

theorem mem_consumers {tokens : List Token} {index : Nat} :
    index ∈ consumers tokens ↔ postgresDefault <+: tokens.drop index := by
  rw [consumers, List.mem_filter, rustTokensMatch_iff, List.mem_range]
  refine and_iff_right_of_imp fun found => ?_
  obtain ⟨front, rest, rfl, rfl⟩ := (prefix_drop_iff postgresDefault_ne_nil).mp found
  have positive := List.length_pos_iff.mpr postgresDefault_ne_nil
  simp only [List.length_append]
  omega

theorem append_prefix_drop {front back tokens : List Token} {index : Nat} :
    front ++ back <+: tokens.drop index ↔
      front <+: tokens.drop index ∧ back <+: tokens.drop (index + front.length) := by
  constructor
  · rintro ⟨rest, whole⟩
    refine ⟨⟨back ++ rest, by rw [← List.append_assoc, whole]⟩, rest, ?_⟩
    rw [← List.drop_drop, ← whole, List.append_assoc, List.drop_left]
  · rintro ⟨⟨behind, whole⟩, ⟨rest, later⟩⟩
    rw [← List.drop_drop, ← whole, List.drop_left] at later
    exact ⟨rest, by rw [List.append_assoc, later, whole]⟩

theorem pinnedTag_some {tokens : List Token} {index : Nat} {tag : Text} :
    pinnedTag tokens index = some tag ↔
      beforeTag ++ (⟨.string, tag⟩ :: afterTag) <+: tokens.drop (index + postgresDefault.length) := by
  have single (place : Nat) (token : Token) : [token] <+: tokens.drop place ↔ tokens[place]? = some token := by
    rw [List.prefix_iff_getElem?]
    simp
  rw [← List.singleton_append, append_prefix_drop, append_prefix_drop, single, ← rustTokensMatch_iff,
    ← rustTokensMatch_iff]
  unfold pinnedTag
  constructor
  · intro read
    simp only at read
    split at read
    · rename_i before
      split at read
      · rename_i value string
        split at read
        · rename_i after
          cases read
          exact ⟨before, string, after⟩
        · cases read
      · cases read
    · cases read
  · rintro ⟨before, string, after⟩
    simp only [before, string, if_true]
    exact if_pos after

def pinnedCall : List Token := postgresDefault ++ (beforeTag ++ ⟨.string, postgresTestcontainersTag⟩ :: afterTag)

theorem pinnedCall_ne_nil : pinnedCall ≠ [] := List.cons_ne_nil _ _

def Pinned (tokens : List Token) : Prop :=
  ∃ front back, tokens = front ++ pinnedCall ++ back ∧
    ∀ other rest, tokens = other ++ postgresDefault ++ rest → other = front

theorem consumers_eq_singleton {tokens : List Token} {index : Nat} :
    consumers tokens = [index] ↔ ∀ other, postgresDefault <+: tokens.drop other ↔ other = index := by
  simp only [← mem_consumers]
  have distinct : (consumers tokens).Nodup := List.nodup_range.filter _
  constructor
  · intro one other
    rw [one, List.mem_singleton]
  · intro all
    have same : (consumers tokens).Perm [index] := by
      rw [List.perm_ext_iff_of_nodup distinct (List.nodup_singleton index)]
      intro other
      rw [List.mem_singleton, all]
    exact List.perm_singleton.mp same

theorem pinnedConsumers_eq {tokens : List Token} {index : Nat} (one : consumers tokens = [index]) :
    pinnedConsumers tokens = ((pinnedTag tokens index).map (index, ·)).toList := by
  rw [pinnedConsumers, one]
  cases tag : pinnedTag tokens index <;> simp [tag]

theorem validateHelper_ok {relative : String} {source : Text} :
    validateHelper relative source = .ok () ↔
      ∃ tokens index, lexRustHelper source relative = .ok tokens ∧ consumers tokens = [index] ∧
        pinnedTag tokens index = some postgresTestcontainersTag := by
  unfold validateHelper
  constructor
  · intro accepted
    obtain ⟨tokens, lexed, accepted⟩ := Except.bind_eq_ok.mp accepted
    split at accepted
    · rename_i consumer index tag one pinned
      split_ifs at accepted with apart drifted
      rw [pinnedConsumers_eq one] at pinned
      refine ⟨tokens, consumer, lexed, one, ?_⟩
      cases read : pinnedTag tokens consumer with
      | none =>
        rw [read] at pinned
        cases pinned
      | some value =>
        rw [read] at pinned
        cases pinned
        rw [not_not.mp drifted]
    · cases accepted
  · rintro ⟨tokens, index, lexed, one, pinned⟩
    have pins := pinnedConsumers_eq one
    rw [pinned] at pins
    simp only [lexed, one, pins, bind, Except.bind, Option.map_some, Option.toList_some]
    simp only [ne_eq, not_true_eq_false, if_false]
    rfl

theorem pinned_iff {tokens : List Token} :
    (∃ index, consumers tokens = [index] ∧ pinnedTag tokens index = some postgresTestcontainersTag) ↔
      Pinned tokens := by
  simp only [consumers_eq_singleton, pinnedTag_some, Pinned]
  constructor
  · rintro ⟨index, only, later⟩
    have pins : pinnedCall <+: tokens.drop index := append_prefix_drop.mpr ⟨(only index).mpr rfl, later⟩
    obtain ⟨front, back, whole, place⟩ := (prefix_drop_iff pinnedCall_ne_nil).mp pins
    refine ⟨front, back, whole, fun other rest split => ?_⟩
    have use := (only other.length).mp ((prefix_drop_iff postgresDefault_ne_nil).mpr ⟨other, rest, split, rfl⟩)
    rw [whole, List.append_assoc, List.append_assoc] at split
    exact (List.append_inj_left split (place.trans use.symm)).symm
  · rintro ⟨front, back, whole, only⟩
    have pins := (prefix_drop_iff pinnedCall_ne_nil).mpr ⟨front, back, whole, rfl⟩
    obtain ⟨here, later⟩ := append_prefix_drop.mp pins
    refine ⟨front.length, fun other => ⟨fun use => ?_, fun same => same ▸ here⟩, later⟩
    obtain ⟨before, rest, split, place⟩ := (prefix_drop_iff postgresDefault_ne_nil).mp use
    rw [← place, only before rest split]

/-- The check passes exactly where each helper is a text of Rust lexemes whose tokens have
    `Postgres :: default ( )` once, with the pinned tag behind it: comments, white space and the spelling of the
    tag's literal do not matter. Other ways to name the function, as `Postgres::r#default()`, are other tokens. -/
theorem helpers_pass_iff_pinned (readText : String → Except String Text) :
    validatePostgresTestcontainersHelpers readText = .ok () ↔
      ∀ relative ∈ postgresTestcontainersHelpers, ∃ lexemes : List Lexeme,
        readText relative = .ok (lexemes.flatMap Lexeme.text) ∧ Placed Lexeme.text Lexeme.Fits [] lexemes ∧
          Pinned (lexemes.filterMap Lexeme.token) := by
  rw [validatePostgresTestcontainersHelpers, Checks.forM_ok]
  refine forall₂_congr fun relative _ => ?_
  rw [Except.bind_eq_ok]
  constructor
  · rintro ⟨source, text, accepted⟩
    obtain ⟨tokens, index, lexed, one, pinned⟩ := validateHelper_ok.mp accepted
    obtain ⟨lexemes, rfl, placed, rfl⟩ := lexRustHelper_ok.mp lexed
    exact ⟨lexemes, text, placed, pinned_iff.mp ⟨index, one, pinned⟩⟩
  · rintro ⟨lexemes, text, placed, pinned⟩
    obtain ⟨index, one, tag⟩ := pinned_iff.mpr pinned
    exact ⟨_, text, validateHelper_ok.mpr ⟨_, index, lexRustHelper_ok.mpr ⟨lexemes, rfl, placed, rfl⟩, one, tag⟩⟩

end Koine.SupplyChain.Rust
