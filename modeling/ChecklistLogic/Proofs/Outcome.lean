import ChecklistLogic.Proofs.CellGrammar
import ChecklistLogic.Proofs.Readback
import ChecklistLogic.Proofs.XPath.Value
import ChecklistLogic.Translator
import Mathlib.Tactic.Linarith

/-!
# ChecklistLogic — the score of a cell

The text that a translator makes of a cell of scoring rules, read and computed as an XPath
expression, gives the score that the rules mean. The argument goes through all stages:

* **Reading** — rules that have been read have their comparisons nested to the left and select
  among options that are there (`ScoringLogic.regular_of_ofText`).
* **Conditions** — for such rules the value of a condition's tree is its truth
  (`ScoringRule.value_term`). This is where nesting to the left meets the levels of XPath: the
  tree that the text shows is the tree that was read, not the one that XPath would make of the
  chain without brackets.
* **Choice** — nested choices give the score of the first rule whose condition holds
  (`ScoringLogic.value_firstTerm`).

Main result: `Translator.scoringCalculation_meaning`.
-/

namespace ChecklistLogic

open Form XPath

variable {options : FormOptions} {field : FormField} {i : Interpretation}

-- ---------------------------------------------------------------------------
-- The value of a condition
-- ---------------------------------------------------------------------------

theorem Answer.value_term (answer : Answer) :
    (answer.term options field).value i = .truth (answer.holds options i.toAnswers field) := by
  cases hNegate : options.negateBoolean with
  | false => cases answer <;> simp [term, holds, hNegate]
  | true => cases answer <;> simp [term, holds, hNegate, Value.isTrue]

/-- A fraction is compared with the hundredth part as the percentage with the whole threshold. -/
theorem Comparator.holds_div (comparator : Comparator) (value threshold : Rat) :
    comparator.holds value (threshold / 100) = comparator.holds (100 * value) threshold := by
  cases comparator <;> simp only [holds, decide_eq_decide] <;> constructor <;> intro hHolds <;>
    linarith

theorem Comparison.value_term (c : Comparison) :
    (c.term options field).value i = .truth (c.holds options i.toAnswers field) := by
  obtain ⟨comparator, threshold, isPercent⟩ := c
  cases isPercent with
  | false => simp [term, measureTerm, bound, holds, Interpretation.operate, relationHolds]
  | true =>
    cases hFraction : options.percentAsFraction with
    | false =>
      simp [term, measureTerm, bound, holds, Interpretation.operate, relationHolds,
        Answers.percentage, hFraction]
    | true =>
      simp [term, measureTerm, bound, holds, Interpretation.operate, relationHolds,
        Answers.percentage, hFraction, Comparator.holds_div]

/-- A tree that is nested to the left has the truth of its comparisons taken from left to right. -/
theorem ComparisonTree.value_term {tree : ComparisonTree} (hTree : tree.IsLeftNested) :
    (tree.term options field).value i = .truth (tree.holds options i.toAnswers field) := by
  induction tree with
  | atom c => exact c.value_term
  | join connective left right ihLeft _ =>
    obtain ⟨hLeft, last, rfl⟩ := hTree
    have hJoined : (join connective left (.atom last)).holds options i.toAnswers field =
        connective.apply (left.holds options i.toAnswers field)
          (last.holds options i.toAnswers field) := left.holds_append (connective, last)
    rw [hJoined]
    simp [term, ihLeft hLeft, last.value_term, Interpretation.operate, Value.isTrue]

theorem CountRange.value_term (range : CountRange) :
    (range.term field).value i = .truth (range.holds i.toAnswers field) := by
  simp [term, holds, Interpretation.operate, relationHolds, Comparator.holds, Value.isTrue,
    Connective.apply]

/-- Further options add to the truth of those before them. -/
theorem Selection.value_foldl {first : Term} {truth : Bool} (hFirst : first.value i = .truth truth)
    (more : List UInt32) :
    ((more.map fun option => Term.selected field (optionChoice field.name option)).foldl
        (.binary (.connective .or)) first).value i =
      .truth (truth ||
        more.any fun option => i.isSelected field (optionChoice field.name option)) := by
  induction more generalizing first truth with
  | nil => simpa using hFirst
  | cons option rest ih =>
    have hJoined : (Term.binary (.connective .or) first
        (.selected field (optionChoice field.name option))).value i =
        .truth (truth || i.isSelected field (optionChoice field.name option)) := by
      simp [hFirst, Interpretation.operate, Value.isTrue, Connective.apply]
    rw [List.map_cons, List.foldl_cons, ih hJoined, List.any_cons, Bool.or_assoc]

theorem Selection.value_term {selection : Selection} (hOptions : selection.options ≠ []) :
    (selection.term field).value i = .truth (selection.holds i.toAnswers field) := by
  obtain ⟨chosen⟩ := selection
  cases chosen with
  | nil => exact absurd rfl hOptions
  | cons option rest => exact value_foldl (value_selected i field _) rest

theorem Condition.value_term {condition : Condition}
    (hNested : ∀ tree ∈ condition.tree?, tree.IsLeftNested) :
    (condition.term options field).value i =
      .truth (condition.holds options i.toAnswers field) := by
  cases condition with
  | answer a => exact a.value_term
  | count n => simp [term, holds, Interpretation.operate, relationHolds]
  | comparison tree => exact ComparisonTree.value_term (hNested tree rfl)

/-- A scoring rule as reading gives it. -/
def ScoringRule.IsRegular (rule : ScoringRule) : Prop :=
  (Rule.scoring rule).IsLeftNested ∧ (Rule.scoring rule).HasOptions

/-- The value of a condition's tree is the truth of the condition. -/
theorem ScoringRule.value_term {rule : ScoringRule} (hRule : rule.IsRegular) :
    (rule.condition.term options field).value i =
      .truth (rule.condition.holds options i.toAnswers field) := by
  obtain ⟨condition, target⟩ := rule
  obtain ⟨hNested, hOptions⟩ := hRule
  cases condition with
  | common c => exact Condition.value_term hNested
  | range r => exact r.value_term
  | selection s => exact Selection.value_term (hOptions s rfl)

-- ---------------------------------------------------------------------------
-- The first rule whose condition holds
-- ---------------------------------------------------------------------------

namespace ScoringLogic

/-- The tree of nested choices between the scores of rules. -/
def firstTerm (options : FormOptions) (field : FormField) (rules : List ScoringRule)
    (otherwise : Term) : Term :=
  rules.foldr
    (fun rule rest => .branch (rule.condition.term options field)
      (.literal rule.target.choiceName) rest)
    otherwise

theorem shows_firstMatch (hOptions : options.Quotable) {rules : List ScoringRule}
    (hRules : ∀ rule ∈ rules, rule.IsRegular) {e : Expr} {otherwise : Term}
    (hOtherwise : e.Shows otherwise) :
    (firstMatch options field rules e).Shows (firstTerm options field rules otherwise) := by
  induction rules with
  | nil => exact hOtherwise
  | cons rule rest ih =>
    have hRule : rule.IsRegular := hRules rule (by simp)
    have hRest := ih fun other hMem => hRules other (by simp [hMem])
    have hCondition : (rule.condition.expr options field).Shows
        (rule.condition.term options field) := Rule.shows_conditionExpr hOptions hRule.2
    exact .branch hCondition (.quoted (noApostrophe_choiceName _)) hRest

/-- Nested choices have the score of the first rule whose condition holds for their value. -/
theorem value_firstTerm {rules : List ScoringRule} (hRules : ∀ rule ∈ rules, rule.IsRegular)
    (otherwise : Term) :
    (firstTerm options field rules otherwise).value i =
      match ScoringRule.firstScore? options i.toAnswers field rules with
      | some score => .text score.choiceName
      | none => otherwise.value i := by
  induction rules with
  | nil => rfl
  | cons rule rest ih =>
    have hCondition : (rule.condition.term options field).value i = _ :=
      ScoringRule.value_term (hRules rule (by simp))
    have hRest := ih fun other hMem => hRules other (by simp [hMem])
    simp only [firstTerm, List.foldr_cons, value_branch] at hRest ⊢
    rw [hCondition, hRest]
    cases hHolds : rule.condition.holds options i.toAnswers field with
    | false => simp [ScoringRule.firstScore?, hHolds, Value.isTrue]
    | true => simp [ScoringRule.firstScore?, hHolds, Value.isTrue]

-- ---------------------------------------------------------------------------
-- The calculation of a cell
-- ---------------------------------------------------------------------------

/-- A text that is read gives at least one rule, and all of them are regular. -/
theorem regular_of_ofText {policy : Policy} {text : String} {logic : ScoringLogic}
    (hRead : ofText policy text = .ok logic) :
    logic.rules ≠ [] ∧ ∀ rule ∈ logic.rules, rule.IsRegular := by
  obtain ⟨clause, -, hLogic⟩ := Except.bind_eq_ok_iff.1 hRead
  exact (ofClause_eq_ok_iff.1 hLogic).1.regular

/-- The score of a single rule, and that of several rules. -/
theorem outcome_concat {answers : Answers} {logic : ScoringLogic} {front : List ScoringRule}
    {last : ScoringRule} (hRules : logic.rules = front ++ [last]) :
    logic.outcome options answers field =
      if front = [] then
        (ScoringRule.firstScore? options answers field [last]).getD options.fallbackScore
      else (ScoringRule.firstScore? options answers field front).getD last.target := by
  unfold outcome
  rw [hRules, List.getLast?_concat, List.dropLast_concat]
  simp [List.length_append, List.length_eq_zero_iff]

end ScoringLogic

/-- What nested choices give if a score is what they fall back on. -/
theorem ScoringLogic.value_firstTerm_score {rules : List ScoringRule}
    (hRules : ∀ rule ∈ rules, rule.IsRegular) (otherwise : Score) :
    (firstTerm options field rules (.literal otherwise.choiceName)).value i =
      .text
        ((ScoringRule.firstScore? options i.toAnswers field rules).getD otherwise).choiceName := by
  rw [value_firstTerm hRules]
  cases ScoringRule.firstScore? options i.toAnswers field rules <;> rfl

namespace Translator

variable {t : Translator} {text : String} {logic : ScoringLogic}

theorem scoringCalculation_some (hRead : t.readLogic text = .ok logic) (e : Expr) :
    t.scoringCalculation text field.name (some e) =
      .ok (ScoringLogic.firstMatch t.options field logic.rules e) := by
  unfold scoringCalculation
  rw [hRead]
  show (logic.calculation t.options field.name (some e)).mapError LogicError.form = _
  rw [ScoringLogic.calculation_some]
  rfl

/-- Without an expression to fall back on, the calculation is a choice between rules and a score
behind them: all rules and the fallback score, or all rules but the last and its score. -/
theorem exists_firstMatch (field : FormField) (hRead : t.readLogic text = .ok logic)
    (hNonempty : logic.rules ≠ []) :
    ∃ (rules : List ScoringRule) (score : Score), rules ⊆ logic.rules ∧
      t.scoringCalculation text field.name none =
        .ok (ScoringLogic.firstMatch t.options field rules score.expr) ∧
      ∀ answers, logic.outcome t.options answers field =
        (ScoringRule.firstScore? t.options answers field rules).getD score := by
  obtain ⟨front, last, hRules⟩ : ∃ front last, logic.rules = front ++ [last] :=
    ⟨_, _, (List.dropLast_concat_getLast hNonempty).symm⟩
  by_cases hSingle : front = []
  · subst hSingle
    have hFallback : t.fallback? logic = some t.options.fallbackScore.expr := by
      unfold fallback?
      simp [hRules]
    refine ⟨logic.rules, t.options.fallbackScore, List.Subset.refl _, ?_, fun answers => ?_⟩
    · rw [← scoringCalculation_some hRead]
      unfold scoringCalculation
      rw [hRead]
      show (logic.calculation t.options field.name (t.fallback? logic)).mapError LogicError.form = _
      rw [hFallback]
      rfl
    · rw [ScoringLogic.outcome_concat hRules, if_pos rfl, hRules]
      rfl
  · have hFallback : t.fallback? logic = none := by
      unfold fallback?
      simp [hRules, hSingle]
    refine ⟨front, last.target, ?_, ?_, fun answers => ?_⟩
    · rw [hRules]
      exact List.subset_append_left front [last]
    · unfold scoringCalculation
      rw [hRead]
      show (logic.calculation t.options field.name (t.fallback? logic)).mapError LogicError.form = _
      rw [hFallback, ScoringLogic.calculation_none hRules hSingle]
      rfl
    · rw [ScoringLogic.outcome_concat hRules, if_neg hSingle]

/--
**The expression of a cell means what its rules mean.** For choices that may stand between
apostrophes and a legal field, the calculation of a cell whose rules have been read is a text that
reads as an XPath expression, and its value is the choice of the score that the rules give, under
every interpretation of the answers: the first rule whose condition holds decides, the last of
several rules decides if no other does, and a single rule has the fallback score behind it. With an
expression to fall back on, every rule needs its condition, and if none holds the value is that of
the expression. Whatever its text, it stands at the same place of the same text. It has a value here
if `Term.ofText?` reads it, that is, if it is made of literals, numbers, fields, calls, operators
and brackets. Location paths, unions and variables, whose values do not come from the answers, are
not read.
-/
theorem scoringCalculation_meaning (t : Translator) (text : String) (logic : ScoringLogic)
    (field : FormField) (hOptions : t.options.Quotable) (hRead : t.readLogic text = .ok logic) :
    (∃ e term, t.scoringCalculation text field.name none = .ok e ∧
      Term.ofText? e.render = some term ∧
      ∀ i : Interpretation,
        term.value i = .text (logic.outcome t.options i.toAnswers field).choiceName) ∧
    ∃ opening closing, ∀ other, ∃ e,
      t.scoringCalculation text field.name (some (.verbatim other)) = .ok e ∧
      e.render = opening ++ other ++ closing ∧
      ∀ otherTerm, Term.ofText? other = some otherTerm →
        ∃ term, Term.ofText? e.render = some term ∧
          ∀ i : Interpretation, term.value i =
            match ScoringRule.firstScore? t.options i.toAnswers field logic.rules with
            | some score => .text score.choiceName
            | none => otherTerm.value i := by
  obtain ⟨hNonempty, hRegular⟩ := ScoringLogic.regular_of_ofText hRead
  constructor
  · obtain ⟨rules, score, hSubset, hOk, hOutcome⟩ := exists_firstMatch field hRead hNonempty
    have hRules : ∀ rule ∈ rules, rule.IsRegular := fun rule hMem => hRegular rule (hSubset hMem)
    have hScore : score.expr.Shows (.literal score.choiceName) :=
      .quoted (noApostrophe_choiceName score)
    have hShows : (ScoringLogic.firstMatch t.options field rules score.expr).Shows _ :=
      ScoringLogic.shows_firstMatch hOptions hRules hScore
    refine ⟨_, _, hOk, hShows.ofText?_render, fun i => ?_⟩
    rw [ScoringLogic.value_firstTerm_score hRules, hOutcome]
  · obtain ⟨opening, closing, hText⟩ :=
      ScoringLogic.exists_render_firstMatch t.options field logic.rules
    refine ⟨opening, closing, fun other => ⟨_, scoringCalculation_some hRead (.verbatim other),
      hText (.verbatim other), fun otherTerm hOther => ?_⟩⟩
    have hShows : (ScoringLogic.firstMatch t.options field logic.rules (.verbatim other)).Shows _ :=
      ScoringLogic.shows_firstMatch hOptions hRegular (.verbatim hOther)
    exact ⟨_, hShows.ofText?_render, fun i => ScoringLogic.value_firstTerm hRegular _⟩

/-- Two rules, the first of which mixes the connectives. -/
theorem scoringCalculation_meaning_two_rules :
    let field : FormField := ⟨"Q1", rfl⟩
    let tree : ComparisonTree := .chain ⟨.lessThan, 2, false⟩
      [(.or, ⟨.moreThan, 8, false⟩), (.and, ⟨.lessThan, 10, false⟩)]
    let logic : ScoringLogic :=
      ⟨[⟨.common (.comparison tree), .green⟩, ⟨.common (.answer .no), .red⟩]⟩
    ∃ e term, scoringCalculation {} "If <2 or >8 and <10 = Green; If N = Red" "Q1" none = .ok e ∧
      Term.ofText? e.render = some term ∧
      ∀ i : Interpretation,
        term.value i = .text (logic.outcome {} i.toAnswers field).choiceName := by
  intro field tree logic
  have hRead : readLogic {} "If <2 or >8 and <10 = Green; If N = Red" = .ok logic := by
    decide +kernel
  exact (scoringCalculation_meaning {} _ logic field FormOptions.quotable_default hRead).1

end Translator

end ChecklistLogic
