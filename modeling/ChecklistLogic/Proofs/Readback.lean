import ChecklistLogic.Proofs.LeftNested
import ChecklistLogic.Proofs.XPath.Rendering
import ChecklistLogic.Rule.Expression

/-!
# ChecklistLogic — conditions read back

What an XPath processor makes of the text of a rule's condition. The tree that it reads is given
here for each kind of condition, without regard to how the condition is rendered: for a tree of
comparisons it is that tree, node for node, whatever its nesting.

Main results:

* `Rule.shows_conditionExpr` / `Rule.shows_expr` — the expression of a rule shows the tree of the
  rule.
* `ComparisonTree.term_injective` — two trees of comparisons have two trees as expressions.
* `Rule.readback` — so the text of a condition is read back as its tree, trees of comparisons
  differ in their texts, and no field but that of the rule is referred to.
-/

namespace ChecklistLogic

open Form XPath

-- ---------------------------------------------------------------------------
-- The tree of a condition
-- ---------------------------------------------------------------------------

/-- The tree for an answer to a yes/no question. -/
def Answer.term (options : FormOptions) (field : FormField) : Answer → Term
  | .yes =>
    if options.negateBoolean then .call "not" [.selected field options.noChoice]
    else .selected field options.yesChoice
  | .no =>
    if options.negateBoolean then .call "not" [.selected field options.yesChoice]
    else .selected field options.noChoice

/-- What a comparison looks at: a percentage at the answer as a number, any other threshold at the
count of chosen answers. -/
def Comparison.measureTerm (field : FormField) (c : Comparison) : Term :=
  if c.isPercent then .numberOf field else .selectedCount field

/-- The number that a comparison is about: its threshold, or the hundredth part of a percentage
where percentages are fractions. -/
def Comparison.bound (options : FormOptions) (c : Comparison) : Rat :=
  if c.isPercent && options.percentAsFraction then (c.threshold.toNat : Rat) / 100
  else c.threshold.toNat

/-- The tree of a comparison. -/
def Comparison.term (options : FormOptions) (field : FormField) (c : Comparison) : Term :=
  .binary (.relation (.order c.comparator)) (c.measureTerm field) (.number (c.bound options))

/-- The tree of joined comparisons, node for node. -/
def ComparisonTree.term (options : FormOptions) (field : FormField) : ComparisonTree → Term
  | .atom c => c.term options field
  | .join connective left right =>
    .binary (.connective connective) (left.term options field) (right.term options field)

/-- The tree of a range: both bounds hold. -/
def CountRange.term (field : FormField) (range : CountRange) : Term :=
  .binary (.connective .and)
    (.binary (.relation (.order .atLeast)) (.selectedCount field) (.number range.low.toNat))
    (.binary (.relation (.order .atMost)) (.selectedCount field) (.number range.high.toNat))

/-- The tree of a selection: its options in order, joined from the left. -/
def Selection.term (field : FormField) (selection : Selection) : Term :=
  match selection.options.map fun option => .selected field (optionChoice field.name option) with
  | [] => .literal ""
  | first :: rest => rest.foldl (.binary (.connective .or)) first

/-- The tree of a condition that both kinds of rule may have. -/
def Condition.term (options : FormOptions) (field : FormField) : Condition → Term
  | .answer a => a.term options field
  | .count n => .binary (.relation .equal) (.selectedCount field) (.number n.toNat)
  | .comparison tree => tree.term options field

/-- The tree of a scoring rule's condition. -/
def ScoringCondition.term (options : FormOptions) (field : FormField) : ScoringCondition → Term
  | .common c => c.term options field
  | .range r => r.term field
  | .selection s => s.term field

/-- The tree of a rule's condition. -/
def Rule.conditionTerm (options : FormOptions) (field : FormField) : Rule → Term
  | .scoring rule => rule.condition.term options field
  | .skip rule => rule.condition.term options field

/-- The tree of a whole rule. -/
def Rule.term (options : FormOptions) (field : FormField) : Rule → Term
  | .scoring rule =>
    .branch (rule.condition.term options field) (.literal rule.target.choiceName)
      (.literal options.fallbackScore.choiceName)
  | .skip rule => rule.condition.term options field

-- ---------------------------------------------------------------------------
-- Expressions show the trees of their conditions
-- ---------------------------------------------------------------------------

/-- The choices for "yes" and "no" may stand between apostrophes. -/
def FormOptions.Quotable (options : FormOptions) : Prop :=
  NoApostrophe options.yesChoice ∧ NoApostrophe options.noChoice

variable {options : FormOptions} {field : FormField}

theorem hundredthsValue_whole (n : Nat) : hundredthsValue (.whole n) = n := by
  have hHundred : (100 : Rat) ≠ 0 := by decide
  unfold hundredthsValue Hundredths.whole
  rw [Nat.cast_mul]
  exact mul_div_cancel_left₀ (n : Rat) hHundred

theorem noApostrophe_optionChoice (field : FormField) (option : UInt32) :
    NoApostrophe (optionChoice field.name option) := by
  intro c hMem hApostrophe
  subst hApostrophe
  have hParts : '\'' ∈ field.name.toList ∨ '\'' ∈ (Numeral.text option).toList := by
    simpa [optionChoice] using hMem
  rcases hParts with hName | hDigits
  · exact absurd (field.isNamePart_of_mem_name hName) (by decide)
  · exact absurd (Numeral.isDigit_of_mem_text hDigits) (by decide)

theorem noApostrophe_choiceName (score : Score) : NoApostrophe score.choiceName := by
  cases score <;> simp [NoApostrophe, Score.choiceName]

theorem FormOptions.quotable_default : FormOptions.Quotable {} := by
  simp [Quotable, NoApostrophe]

theorem Answer.shows_expr (hOptions : options.Quotable) (answer : Answer) :
    (answer.expr options field).Shows (answer.term options field) := by
  obtain ⟨hYes, hNo⟩ := hOptions
  cases hNegate : options.negateBoolean with
  | false => cases answer <;> simp only [expr, term, hNegate] <;> exact .selected (by assumption)
  | true =>
    cases answer <;> simp only [expr, term, hNegate] <;> exact .not (.selected (by assumption))

theorem Comparison.shows_expr (c : Comparison) :
    (c.expr options field).Shows (c.term options field) := by
  obtain ⟨comparator, threshold, isPercent⟩ := c
  cases isPercent with
  | false =>
    have hBound : bound options ⟨comparator, threshold, false⟩ =
        hundredthsValue (.whole threshold.toNat) := (hundredthsValue_whole _).symm
    simp only [expr, term, hBound]
    exact .compare
  | true =>
    have hBound : bound options ⟨comparator, threshold, true⟩ =
        hundredthsValue (options.percentBound threshold) := by
      unfold bound FormOptions.percentBound
      cases options.percentAsFraction with
      | false => exact (hundredthsValue_whole _).symm
      | true => rfl
    simp only [expr, term, hBound]
    exact .compare

theorem ComparisonTree.not_isVerbatim_expr (tree : ComparisonTree) :
    ¬ (tree.expr options field).IsVerbatim := by
  cases tree with
  | join => exact id
  | atom c =>
    unfold expr Comparison.expr
    split <;> exact id

/-- The expression of a tree of comparisons shows the tree, whatever its nesting. -/
theorem ComparisonTree.shows_expr (tree : ComparisonTree) :
    (tree.expr options field).Shows (tree.term options field) := by
  induction tree with
  | atom c => exact c.shows_expr
  | join connective left right ihLeft ihRight =>
    exact .join ihLeft ihRight left.not_isVerbatim_expr right.not_isVerbatim_expr

theorem CountRange.shows_expr (range : CountRange) :
    (range.expr field).Shows (range.term field) := by
  unfold expr term
  rw [← hundredthsValue_whole, ← hundredthsValue_whole]
  exact .join .compare .compare id id

theorem Selection.shows_foldl {e : Expr} {first : Term} (hFirst : e.Shows first)
    (hOwn : ¬ e.IsVerbatim) (more : List UInt32) :
    ((more.map fun option => Expr.selected field (optionChoice field.name option)).foldl
        (.join .or) e).Shows
      ((more.map fun option => Term.selected field (optionChoice field.name option)).foldl
        (.binary (.connective .or)) first) := by
  induction more generalizing e first with
  | nil => exact hFirst
  | cons option rest ih =>
    have hOption : (Expr.selected field (optionChoice field.name option)).Shows _ :=
      .selected (noApostrophe_optionChoice field option)
    exact ih (.join hFirst hOption hOwn id) id

theorem Selection.shows_expr {selection : Selection} (hOptions : selection.options ≠ []) :
    (selection.expr field).Shows (selection.term field) := by
  obtain ⟨chosen⟩ := selection
  cases chosen with
  | nil => exact absurd rfl hOptions
  | cons option rest =>
    exact shows_foldl (.selected (noApostrophe_optionChoice field option)) id rest

theorem Condition.shows_expr (hOptions : options.Quotable) (condition : Condition) :
    (condition.expr options field).Shows (condition.term options field) := by
  cases condition with
  | answer a => exact a.shows_expr hOptions
  | count n =>
    simp only [expr, term]
    rw [← hundredthsValue_whole]
    exact .compare
  | comparison tree => exact tree.shows_expr

theorem ScoringCondition.shows_expr (hOptions : options.Quotable) {condition : ScoringCondition}
    (hSelection : ∀ selection, condition = .selection selection → selection.options ≠ []) :
    (condition.expr options field).Shows (condition.term options field) := by
  cases condition with
  | common c => exact c.shows_expr hOptions
  | range r => exact r.shows_expr
  | selection s => exact Selection.shows_expr (hSelection s rfl)

namespace Rule

theorem shows_conditionExpr (hOptions : options.Quotable) {rule : Rule}
    (hSelection : rule.HasOptions) :
    (rule.conditionExpr options field).Shows (rule.conditionTerm options field) := by
  cases rule with
  | skip rule => exact rule.condition.shows_expr hOptions
  | scoring rule =>
    obtain ⟨condition, target⟩ := rule
    refine ScoringCondition.shows_expr hOptions ?_
    rintro selection rfl
    exact hSelection selection rfl

theorem shows_expr (hOptions : options.Quotable) {rule : Rule} (hSelection : rule.HasOptions) :
    (rule.expr options field).Shows (rule.term options field) := by
  have hCondition : (rule.conditionExpr options field).Shows (rule.conditionTerm options field) :=
    shows_conditionExpr hOptions hSelection
  cases rule with
  | skip rule => exact hCondition
  | scoring rule =>
    exact .branch hCondition (.quoted (noApostrophe_choiceName _))
      (.quoted (noApostrophe_choiceName _))

end Rule

-- ---------------------------------------------------------------------------
-- No other field
-- ---------------------------------------------------------------------------

namespace XPath

/-- No other field stands in the tree. -/
def Term.Within (field : FormField) (term : Term) : Prop :=
  ∀ other, term.Mentions other → other = field

theorem Term.within_literal (text : String) : (Term.literal text).Within field := by
  rintro other ⟨⟩

theorem Term.within_number (value : Rat) : (Term.number value).Within field := by
  rintro other ⟨⟩

theorem Term.within_field : (Term.field field).Within field := by
  rintro other ⟨⟩
  rfl

theorem Term.Within.binary {operator : Operator} {left right : Term} (hLeft : left.Within field)
    (hRight : right.Within field) : (Term.binary operator left right).Within field := by
  intro other hMentions
  cases hMentions with
  | left hMentions => exact hLeft other hMentions
  | right hMentions => exact hRight other hMentions

theorem Term.within_call {function : String} {arguments : List Term}
    (hArguments : ∀ argument ∈ arguments, argument.Within field) :
    (Term.call function arguments).Within field := by
  intro other hMentions
  cases hMentions with
  | argument hMem hMentions => exact hArguments _ hMem other hMentions

theorem Term.within_selected (choice : String) : (Term.selected field choice).Within field := by
  refine within_call ?_
  simpa using ⟨within_field, within_literal choice⟩

theorem Term.within_selectedCount : (Term.selectedCount field).Within field := by
  refine within_call ?_
  simpa using within_field

theorem Term.within_numberOf : (Term.numberOf field).Within field := by
  refine within_call ?_
  simpa using within_field

end XPath

theorem Answer.within_term (answer : Answer) : (answer.term options field).Within field := by
  have hNot : ∀ choice, (Term.call "not" [.selected field choice]).Within field := by
    intro choice
    refine Term.within_call ?_
    simpa using Term.within_selected choice
  cases hNegate : options.negateBoolean with
  | false => cases answer <;> simp only [term, hNegate] <;> exact Term.within_selected _
  | true => cases answer <;> simp only [term, hNegate] <;> exact hNot _

theorem ComparisonTree.within_term (tree : ComparisonTree) :
    (tree.term options field).Within field := by
  induction tree with
  | atom c =>
    have hMeasure : (c.measureTerm field).Within field := by
      unfold Comparison.measureTerm
      split
      · exact Term.within_numberOf
      · exact Term.within_selectedCount
    exact hMeasure.binary (Term.within_number _)
  | join _ left right ihLeft ihRight => exact ihLeft.binary ihRight

theorem Selection.within_term (selection : Selection) : (selection.term field).Within field := by
  have hJoined : ∀ (more : List UInt32) {first : Term}, first.Within field →
      ((more.map fun option => Term.selected field (optionChoice field.name option)).foldl
        (.binary (.connective .or)) first).Within field := by
    intro more
    induction more with
    | nil => exact id
    | cons option rest ih => exact fun hFirst => ih (hFirst.binary (Term.within_selected _))
  obtain ⟨chosen⟩ := selection
  cases chosen with
  | nil => exact Term.within_literal ""
  | cons option rest => exact hJoined rest (Term.within_selected _)

/-- The tree of a condition refers to the field of the condition only. -/
theorem Rule.within_conditionTerm (rule : Rule) :
    (rule.conditionTerm options field).Within field := by
  have hCommon : ∀ condition : Condition, (condition.term options field).Within field := by
    intro condition
    cases condition with
    | answer a => exact a.within_term
    | count n => exact .binary Term.within_selectedCount (Term.within_number _)
    | comparison tree => exact tree.within_term
  cases rule with
  | skip rule => exact hCommon rule.condition
  | scoring rule =>
    obtain ⟨condition, target⟩ := rule
    cases condition with
    | common c => exact hCommon c
    | range r =>
      exact .binary (.binary Term.within_selectedCount (Term.within_number _))
        (.binary Term.within_selectedCount (Term.within_number _))
    | selection s => exact s.within_term

-- ---------------------------------------------------------------------------
-- Different trees, different texts
-- ---------------------------------------------------------------------------

theorem Comparison.term_injective {first second : Comparison}
    (hSame : first.term options field = second.term options field) : first = second := by
  obtain ⟨hRelation, hMeasure, hNumber⟩ := Term.binary.inj hSame
  have hComparator : first.comparator = second.comparator :=
    Relation.order.inj (Operator.relation.inj hRelation)
  have hPercent : first.isPercent = second.isPercent := by
    unfold measureTerm Term.numberOf Term.selectedCount at hMeasure
    cases hFirst : first.isPercent <;> cases hSecond : second.isPercent <;>
      simp [hFirst, hSecond] at hMeasure ⊢
  have hThreshold : first.threshold = second.threshold := by
    have hBound := Term.number.inj hNumber
    have hCast : (first.threshold.toNat : Rat) = second.threshold.toNat := by
      unfold bound at hBound
      rw [hPercent] at hBound
      split at hBound
      · exact (div_left_inj' (by decide)).1 hBound
      · exact hBound
    exact UInt32.toNat_inj.1 (by exact_mod_cast hCast)
  cases first
  cases second
  simp_all

/-- Trees of comparisons that differ are read back as different trees. -/
theorem ComparisonTree.term_injective {first second : ComparisonTree}
    (hSame : first.term options field = second.term options field) : first = second := by
  induction first generalizing second with
  | atom c =>
    cases second with
    | atom other => rw [Comparison.term_injective hSame]
    | join => cases (Term.binary.inj hSame).1
  | join connective left right ihLeft ihRight =>
    cases second with
    | atom other => cases (Term.binary.inj hSame).1
    | join otherConnective otherLeft otherRight =>
      obtain ⟨hOperator, hLeft, hRight⟩ := Term.binary.inj hSame
      rw [Operator.connective.inj hOperator, ihLeft hLeft, ihRight hRight]

-- ---------------------------------------------------------------------------
-- Reading a rule's expression
-- ---------------------------------------------------------------------------

/--
**Conditions read back as the same tree.** For a legal field, and choices that may stand between
apostrophes, the condition of a rule that has options where it selects is rendered as a text that
reads back as the tree of the condition: the same tree of comparisons node for node, both bounds of
a range, or the options of a selection in order. The only field in the text is that of the rule. The
expression of the rule reads back as the choice between its score and the fallback score, or as the
condition alone for a skip rule. Trees of comparisons that differ have different texts.
-/
theorem Rule.readback (options : FormOptions) (field : FormField) (rule : Rule)
    (hOptions : options.Quotable) (hSelection : rule.HasOptions) :
    (∃ e, rule.condition options field.name = .ok e ∧
      Term.ofText? e.render = some (rule.conditionTerm options field) ∧
      ∀ tokens, XPath.Token.ofText? e.render = some tokens →
        ∀ other, .field other ∈ tokens → other = field) ∧
    (∃ e, rule.expression options field.name = .ok e ∧
      Term.ofText? e.render = some (rule.term options field)) ∧
    ∀ first second : ComparisonTree,
      (first.expr options field).render = (second.expr options field).render → first = second := by
  have hShows : (rule.conditionExpr options field).Shows (rule.conditionTerm options field) :=
    shows_conditionExpr hOptions hSelection
  refine ⟨⟨_, rule.condition_name options field, hShows.ofText?_render, ?_⟩,
    ⟨_, rule.expression_name options field, (shows_expr hOptions hSelection).ofText?_render⟩, ?_⟩
  · intro tokens hTokens other hMem
    obtain ⟨own, hOwn, hWritten⟩ := hShows.exists_tokens
    obtain rfl : own = tokens := Option.some.inj (hOwn.symm.trans hTokens)
    exact rule.within_conditionTerm other ((hWritten 0 (Nat.zero_le _)).mentions hMem)
  · intro first second hText
    have hFirst : Term.ofText? (first.expr options field).render = _ :=
      first.shows_expr.ofText?_render
    rw [hText, second.shows_expr.ofText?_render] at hFirst
    exact (ComparisonTree.term_injective (Option.some.inj hFirst)).symm

/-- A tree with a join on the right, under the usual options. -/
theorem Rule.readback_right_nested :
    let field : FormField := ⟨"Q1", rfl⟩
    let tree : ComparisonTree := .join .and (.atom ⟨.lessThan, 1, false⟩)
      (.join .or (.atom ⟨.moreThan, 5, false⟩) (.atom ⟨.atLeast, 80, true⟩))
    ∃ e, Rule.condition {} (.skip ⟨.comparison tree, ⟨4⟩⟩) "Q1" = .ok e ∧
      Term.ofText? e.render = some (tree.term {} field) := by
  intro field tree
  have hSelection : (Rule.skip ⟨.comparison tree, ⟨4⟩⟩).HasOptions := by
    rintro selection ⟨⟩
  obtain ⟨⟨e, hCondition, hRead, -⟩, -⟩ :=
    Rule.readback {} field _ FormOptions.quotable_default hSelection
  exact ⟨e, hCondition, hRead⟩

end ChecklistLogic
