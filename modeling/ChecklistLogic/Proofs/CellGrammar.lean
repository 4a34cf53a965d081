import ChecklistLogic.Proofs.LeftNested
import ChecklistLogic.Proofs.Sentences

/-!
# ChecklistLogic — the grammar of cells

Which token lists are cells of scoring rules: rules with a semicolon between any two of them. A cell
is read by cutting it at all of its semicolons, and that takes no rule apart, because no draft takes
a semicolon (`Rule.Spelled.kind_ne_semicolon`).

Main results:

* `ScoringRule.ofClause_eq_ok_iff` — a piece is read as a scoring rule if and only if its tokens
  spell that rule and the policy has nothing against it.
* `ScoringLogic.ofClause_eq_ok_iff` — the same for a whole cell.
* `ScoringLogic.Spelled.regular` — the rules of a cell are nested to the left and have options
  where they select.
-/

namespace ChecklistLogic

/-- Tokens that spell scoring rules, with a semicolon between any two of them. -/
inductive ScoringLogic.Spelled : List ScoringRule → List Token → Prop where
  | single {rule : ScoringRule} {tokens : List Token} (hRule : (Rule.scoring rule).Spelled tokens) :
      Spelled [rule] tokens
  | more {rule : ScoringRule} {rules : List ScoringRule} {front back : List Token}
      {semicolon : Token} (hRule : (Rule.scoring rule).Spelled front)
      (hSemicolon : semicolon.kind = .semicolon) (hRules : Spelled rules back) :
      Spelled (rule :: rules) (front ++ semicolon :: back)

-- ---------------------------------------------------------------------------
-- Semicolons
-- ---------------------------------------------------------------------------

theorem Draft.kind_ne_semicolon_of_read {draft last : Draft} {tokens : List Token}
    (hRead : draft.read tokens = .ok last) : ∀ token ∈ tokens, token.kind ≠ .semicolon := by
  induction tokens generalizing draft with
  | nil => simp
  | cons first rest ih =>
    rw [read_cons] at hRead
    obtain ⟨next, hStep, hRest⟩ := Except.bind_eq_ok_iff.1 hRead
    rintro token hMem hKind
    rcases List.mem_cons.1 hMem with rfl | hOther
    · exact kind_ne_of_step hStep (by simp) hKind
    · exact ih hRest token hOther hKind

/-- No rule is spelled with a semicolon. -/
theorem Rule.Spelled.kind_ne_semicolon {rule : Rule} {tokens : List Token}
    (hSpelled : rule.Spelled tokens) : ∀ token ∈ tokens, token.kind ≠ .semicolon :=
  Draft.kind_ne_semicolon_of_read hSpelled.read

/-- A token list spells rules if and only if its pieces spell them one by one. -/
theorem ScoringLogic.spelled_iff_pieces {rules : List ScoringRule} {tokens : List Token}
    (stop : Nat) :
    Spelled rules tokens ↔
      List.Forall₂ (fun piece rule => (Rule.scoring rule).Spelled piece.tokens)
        (Clause.pieces ⟨tokens, stop⟩) rules := by
  constructor
  · intro hSpelled
    induction hSpelled with
    | single hRule =>
      rw [Clause.pieces_of_no_semicolon hRule.kind_ne_semicolon]
      exact .cons hRule .nil
    | more hRule hSemicolon _ ih =>
      rw [Clause.pieces_append_semicolon hRule.kind_ne_semicolon hSemicolon]
      exact .cons hRule ih
  · intro hPieces
    induction tokens using firstInduction (p := fun token : Token => token.kind = .semicolon)
        generalizing rules with
    | last tokens hNone =>
      rw [Clause.pieces_of_no_semicolon hNone] at hPieces
      obtain _ | ⟨hRule, _ | _⟩ := hPieces
      exact .single hRule
    | cut front semicolon rest hFront hSemicolon ih =>
      rw [Clause.pieces_append_semicolon hFront hSemicolon] at hPieces
      obtain _ | ⟨hRule, hRest⟩ := hPieces
      exact .more hRule hSemicolon (ih hRest)

-- ---------------------------------------------------------------------------
-- Reading
-- ---------------------------------------------------------------------------

/-- A clause is read as a scoring rule if and only if it spells the rule and the rule is valid. -/
theorem ScoringRule.ofClause_eq_ok_iff {policy : Policy} {clause : Clause} {rule : ScoringRule} :
    ScoringRule.ofClause policy clause = .ok rule ↔
      (Rule.scoring rule).Spelled clause.tokens ∧
        (Rule.scoring rule).validate policy = .ok () := by
  rw [← Rule.ofClause_eq_ok_iff, Rule.validate_eq_ok_iff]
  unfold ScoringRule.ofClause
  cases hRead : Rule.ofClause clause with
  | error e => simp
  | ok found =>
    cases found with
    | skip other => simp
    | scoring other =>
      simp only [Except.ok.injEq, Rule.scoring.injEq]
      cases hViolation : other.condition.violation? policy with
      | none =>
        constructor
        · intro hSame
          cases hSame
          exact ⟨rfl, hViolation⟩
        · rintro ⟨rfl, -⟩
          rfl
      | some violation =>
        constructor
        · intro hOk
          cases hOk
        · rintro ⟨rfl, hValid⟩
          rw [Rule.violation?, hViolation] at hValid
          cases hValid

namespace ScoringLogic

/-- A clause is read as scoring logic if and only if it spells the rules and all of them are
valid. -/
theorem ofClause_eq_ok_iff {policy : Policy} {clause : Clause} {logic : ScoringLogic} :
    ofClause policy clause = .ok logic ↔ Spelled logic.rules clause.tokens ∧
      ∀ rule ∈ logic.rules, (Rule.scoring rule).validate policy = .ok () := by
  have hRules : ofClause policy clause = .ok logic ↔
      clause.pieces.mapM (ScoringRule.ofClause policy) = .ok logic.rules := by
    unfold ofClause
    rw [Except.map_eq_ok_iff]
    constructor
    · rintro ⟨rules, hMap, rfl⟩
      exact hMap
    · intro hMap
      exact ⟨_, hMap, rfl⟩
  rw [hRules, Except.mapM_eq_ok_iff, spelled_iff_pieces clause.stop]
  simp only [ScoringRule.ofClause_eq_ok_iff]
  constructor
  · intro hPieces
    refine ⟨hPieces.imp fun _ _ => And.left, ?_⟩
    exact ((List.forall₂_and_left _ _).1 (hPieces.flip.imp fun _ _ => And.symm)).1
  · rintro ⟨hSpelled, hValid⟩
    exact ((List.forall₂_and_left _ _).2 ⟨hValid, hSpelled.flip⟩).flip.imp fun _ _ => And.symm

/-- The rules of a cell are as reading gives them. -/
theorem Spelled.regular {rules : List ScoringRule} {tokens : List Token}
    (hSpelled : Spelled rules tokens) : rules ≠ [] ∧ ∀ rule ∈ rules,
      (Rule.scoring rule).IsLeftNested ∧ (Rule.scoring rule).HasOptions := by
  induction hSpelled with
  | single hRule =>
    refine ⟨by simp, fun rule hMem => ?_⟩
    obtain rfl := List.mem_singleton.1 hMem
    exact ⟨hRule.isLeftNested, hRule.hasOptions⟩
  | more hRule _ _ ih =>
    exact ⟨by simp, List.forall_mem_cons.2 ⟨⟨hRule.isLeftNested, hRule.hasOptions⟩, ih.2⟩⟩

end ScoringLogic

end ChecklistLogic
