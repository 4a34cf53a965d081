import ChecklistLogic.Proofs.RuleTexts

/-!
# ChecklistLogic — cells of one rule

A text without semicolons can be read as a rule or as a cell that happens to have one rule. The two
ways go through different code: one cuts the text into pieces and checks the rule of each of them,
the other reads the text as it stands and checks whatever rule comes out; one writes a list of
rules with a fallback behind them, the other a single choice.

* `Clause.pieces_of_ofText` — without a semicolon there is nothing to cut.
* `Translator.ruleOfClause_eq_map` — on a clause that is no skip rule both ways check the same, in
  the same order.
* `ScoringLogic.calculation_singleton` — a list of one rule is written as the rule itself.

Main result: `Translator.readLogic_agrees_with_readRule`.
-/

namespace ChecklistLogic

open Form

-- ---------------------------------------------------------------------------
-- Reading
-- ---------------------------------------------------------------------------

/-- A text without semicolons is the only piece of itself. -/
theorem Clause.pieces_of_ofText {text : String} {clause : Clause} (hNone : ';' ∉ text.toList)
    (hClause : Clause.ofText text = .ok clause) : clause.pieces = [clause] :=
  pieces_of_no_semicolon
    ((Clause.ofText_eq_ok_iff.1 hClause).kind_ne_of_not_mem Lexeme.isSign_semicolon hNone)

namespace Translator

variable {t : Translator} {text : String}

/-- A clause that makes up no skip rule is read as a rule in the way it is read as a scoring
rule. -/
theorem ruleOfClause_eq_map {clause : Clause}
    (hFamily : ∀ rule, Rule.ofClause clause ≠ .ok (.skip rule)) :
    t.ruleOfClause clause = Rule.scoring <$> ScoringRule.ofClause t.policy clause := by
  unfold ruleOfClause ScoringRule.ofClause
  cases hRule : Rule.ofClause clause with
  | error e => rfl
  | ok rule =>
    cases rule with
    | skip rule => exact absurd hRule (hFamily rule)
    | scoring rule =>
      show ((Rule.scoring rule).validate t.policy).mapError LogicError.violation >>= _ = _
      have hSame : (Rule.scoring rule).violation? t.policy = rule.condition.violation? t.policy :=
        rfl
      unfold Rule.validate
      rw [hSame]
      simp only
      cases rule.condition.violation? t.policy <;> rfl

theorem readLogic_of_clause {clause : Clause} (hNone : ';' ∉ text.toList)
    (hClause : Clause.ofText text = .ok clause) :
    t.readLogic text =
      (fun rule => ⟨[rule]⟩) <$> ScoringRule.ofClause t.policy clause := by
  unfold readLogic ScoringLogic.ofText
  rw [hClause]
  show ScoringLogic.ofClause t.policy clause = _
  unfold ScoringLogic.ofClause
  rw [Clause.pieces_of_ofText hNone hClause]
  cases hRule : ScoringRule.ofClause t.policy clause with
  | error e => rw [Except.mapM_cons_of_error hRule]; rfl
  | ok rule => rw [Except.mapM_cons_of_ok hRule]; rfl

/-- Read as a rule and as a cell, a text without semicolons comes to the same, unless it makes up a
skip rule. -/
theorem readLogic_eq_or_error (hNone : ';' ∉ text.toList)
    (hFamily : ∀ rule, Rule.ofText text ≠ .ok (.skip rule)) :
    (∃ rule, t.readRule text = .ok (.scoring rule) ∧ t.readLogic text = .ok ⟨[rule]⟩) ∨
      ∃ e, t.readRule text = .error e ∧ t.readLogic text = .error e := by
  unfold readRule
  cases hClause : Clause.ofText text with
  | error e =>
    refine .inr ⟨.lex e, rfl, ?_⟩
    unfold readLogic ScoringLogic.ofText
    rw [hClause]
    rfl
  | ok clause =>
    have hOwn : ∀ rule, Rule.ofClause clause ≠ .ok (.skip rule) := by
      intro rule hRule
      refine hFamily rule ?_
      rw [Rule.ofText_of_clause hClause, hRule]
      rfl
    show (∃ rule, t.ruleOfClause clause = _ ∧ _) ∨ ∃ e, t.ruleOfClause clause = _ ∧ _
    rw [ruleOfClause_eq_map hOwn, readLogic_of_clause hNone hClause]
    cases ScoringRule.ofClause t.policy clause with
    | error e => exact .inr ⟨e, rfl, rfl⟩
    | ok rule => exact .inl ⟨rule, rfl, rfl⟩

theorem readLogic_of_readRule {rule : ScoringRule}
    (hRule : t.readRule text = .ok (.scoring rule)) : t.readLogic text = .ok ⟨[rule]⟩ := by
  obtain ⟨hText, -⟩ := readRule_eq_ok_iff_ofText.1 hRule
  have hFamily : ∀ other, Rule.ofText text ≠ .ok (.skip other) := by
    intro other hOther
    rw [hText] at hOther
    cases hOther
  rcases readLogic_eq_or_error (t := t) (Rule.semicolon_not_mem_of_ofText hText) hFamily with
    ⟨own, hOwn, hLogic⟩ | ⟨e, hError, -⟩
  · rw [hRule] at hOwn
    cases hOwn
    exact hLogic
  · rw [hRule] at hError
    cases hError

end Translator

-- ---------------------------------------------------------------------------
-- Writing
-- ---------------------------------------------------------------------------

/-- One rule with the fallback score behind it is written as that rule is by itself. -/
theorem ScoringLogic.calculation_singleton (options : FormOptions) (rule : ScoringRule)
    (fieldName : String) :
    calculation options ⟨[rule]⟩ fieldName (some options.fallbackScore.expr) =
      (Rule.scoring rule).expression options fieldName := by
  unfold calculation Rule.expression
  cases FormField.ofName fieldName <;> rfl

namespace Translator

/--
**A cell of one rule is a rule.** A text that is read as a scoring rule is also read as a cell,
which then holds exactly that rule, and the calculation of the cell is the expression of the rule or
fails as that does, whatever the field. A text that has no semicolon and makes up no skip rule is
read both ways or neither, and what is reported is the same error at the same place.
-/
theorem readLogic_agrees_with_readRule (t : Translator) (text fieldName : String) :
    (∀ rule, t.readRule text = .ok (.scoring rule) →
      t.scoringCalculation text fieldName none =
        ((Rule.scoring rule).expression t.options fieldName).mapError .form ∧
      t.readLogic text = .ok ⟨[rule]⟩) ∧
    (';' ∉ text.toList → (∀ rule, Rule.ofText text ≠ .ok (.skip rule)) →
      (∃ rule, t.readRule text = .ok (.scoring rule) ∧ t.readLogic text = .ok ⟨[rule]⟩) ∨
        ∃ e, t.readRule text = .error e ∧ t.readLogic text = .error e) := by
  refine ⟨fun rule hRule => ?_, readLogic_eq_or_error⟩
  have hLogic := readLogic_of_readRule hRule
  refine ⟨?_, hLogic⟩
  unfold scoringCalculation
  rw [hLogic]
  show (ScoringLogic.calculation t.options ⟨[rule]⟩ fieldName
    (some t.options.fallbackScore.expr)).mapError LogicError.form = _
  rw [ScoringLogic.calculation_singleton]

/-- A rule that has no legal field, and a range whose bounds are inverted. -/
theorem readLogic_agrees_with_readRule_illegal_and_inverted :
    scoringCalculation {} "If Y = Red" "1st" none = .error (.form (.invalidField "1st")) ∧
    readLogic {} "If 5-3 = Red" = .error (.violation (.invertedRange 5 3)) := by
  constructor
  · have hRule : readRule {} "If Y = Red" = .ok (.scoring ⟨.common (.answer .yes), .red⟩) := by
      decide +kernel
    rw [((readLogic_agrees_with_readRule {} "If Y = Red" "1st").1 _ hRule).1]
    decide +kernel
  · have hRange : Rule.ofText "If 5-3 = Red" = .ok (.scoring ⟨.range ⟨5, 3⟩, .red⟩) := by
      decide +kernel
    have hRefused : readRule {} "If 5-3 = Red" = .error (.violation (.invertedRange 5 3)) := by
      decide +kernel
    have hFamily : ∀ rule, Rule.ofText "If 5-3 = Red" ≠ .ok (.skip rule) := by
      intro rule hSkip
      rw [hRange] at hSkip
      cases hSkip
    rcases (readLogic_agrees_with_readRule {} "If 5-3 = Red" "").2 (by decide) hFamily with
      ⟨rule, hRule, -⟩ | ⟨e, hError, hLogic⟩
    · rw [hRefused] at hRule
      cases hRule
    · rw [hRefused] at hError
      cases hError
      exact hLogic

end Translator

end ChecklistLogic
