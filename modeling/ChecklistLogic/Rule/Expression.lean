import ChecklistLogic.Form.Expr
import ChecklistLogic.Form.Options
import ChecklistLogic.LogicError

/-!
# ChecklistLogic — expressions of rules

What a rule becomes in a form. Its condition is bound to a field; a scoring rule then becomes a
choice between its score and the fallback score, a skip rule is its condition alone.

Each kind of condition has an `expr`. A selection of no options has the empty text for its
expression; a rule with such a selection is not valid.
-/

namespace ChecklistLogic

open Form

/-- The expression that a yes/no question has an answer. -/
def Answer.expr (options : FormOptions) (field : FormField) : Answer → Expr
  | .yes =>
    if options.negateBoolean then .not (.selected field options.noChoice)
    else .selected field options.yesChoice
  | .no =>
    if options.negateBoolean then .not (.selected field options.yesChoice)
    else .selected field options.noChoice

/-- The threshold of a percentage, as it stands or as a fraction of one. -/
def FormOptions.percentBound (options : FormOptions) (threshold : UInt32) : Hundredths :=
  if options.percentAsFraction then ⟨threshold.toNat⟩ else .whole threshold.toNat

/-- The expression of a comparison: a percentage is the answer as a number, any other threshold
is for the count of chosen answers. -/
def Comparison.expr (options : FormOptions) (field : FormField) (c : Comparison) : Expr :=
  if c.isPercent then
    .compare .number field (.order c.comparator) (options.percentBound c.threshold)
  else
    .compare .selectedCount field (.order c.comparator) (.whole c.threshold.toNat)

/-- The expression of a tree of comparisons, node for node. -/
def ComparisonTree.expr (options : FormOptions) (field : FormField) : ComparisonTree → Expr
  | .atom c => c.expr options field
  | .join connective left right =>
    .join connective (left.expr options field) (right.expr options field)

/-- The expression of a range: the count is between both bounds. -/
def CountRange.expr (field : FormField) (range : CountRange) : Expr :=
  .join .and
    (.compare .selectedCount field (.order .atLeast) (.whole range.low.toNat))
    (.compare .selectedCount field (.order .atMost) (.whole range.high.toNat))

/-- The expression of a selection: one of its options is selected. -/
def Selection.expr (field : FormField) (selection : Selection) : Expr :=
  match selection.options.map fun option => .selected field (optionChoice field.name option) with
  | [] => .verbatim ""
  | first :: rest => rest.foldl (.join .or) first

/-- The expression of a condition that both kinds of rule may have. -/
def Condition.expr (options : FormOptions) (field : FormField) : Condition → Expr
  | .answer a => a.expr options field
  | .count n => .compare .selectedCount field .equal (.whole n.toNat)
  | .comparison tree => tree.expr options field

/-- The expression of a scoring rule's condition. -/
def ScoringCondition.expr (options : FormOptions) (field : FormField) : ScoringCondition → Expr
  | .common c => c.expr options field
  | .range r => r.expr field
  | .selection s => s.expr field

/-- The expression of a score. -/
def Score.expr (score : Score) : Expr :=
  .quoted score.choiceName

namespace Rule

/-- The expression of a rule's condition. -/
def conditionExpr (options : FormOptions) (field : FormField) : Rule → Expr
  | .scoring rule => rule.condition.expr options field
  | .skip rule => rule.condition.expr options field

/-- The expression of a whole rule. -/
def expr (options : FormOptions) (field : FormField) : Rule → Expr
  | .scoring rule =>
    .branch (rule.condition.expr options field) rule.target.expr options.fallbackScore.expr
  | .skip rule => rule.condition.expr options field

/-- The expression of a rule's condition for the field of the given name. -/
def condition (options : FormOptions) (rule : Rule) (fieldName : String) :
    Except FormError Expr :=
  rule.conditionExpr options <$> FormField.ofName fieldName

/-- The expression of a whole rule for the field of the given name. -/
def expression (options : FormOptions) (rule : Rule) (fieldName : String) :
    Except FormError Expr :=
  rule.expr options <$> FormField.ofName fieldName

theorem condition_name (options : FormOptions) (rule : Rule) (field : FormField) :
    rule.condition options field.name = .ok (rule.conditionExpr options field) := by
  unfold condition
  rw [FormField.ofName_name]
  rfl

theorem expression_name (options : FormOptions) (rule : Rule) (field : FormField) :
    rule.expression options field.name = .ok (rule.expr options field) := by
  unfold expression
  rw [FormField.ofName_name]
  rfl

end Rule

end ChecklistLogic
