import ChecklistLogic.Translator

/-!
# ChecklistLogic — cells

A row of a checklist has a cell for its scoring logic and a cell for its skip logic. A scoring cell
may hold several rules and becomes a calculation; a skip cell holds one skip rule and becomes a
condition together with the question to go on with.

* `Translator.translateCell` translates a cell of either column.
-/

namespace ChecklistLogic

/-- The columns of a checklist that hold rules. -/
inductive LogicColumn where
  | scoring
  | skip
  deriving DecidableEq

/-- How reports name a column. -/
def LogicColumn.name : LogicColumn → String
  | .scoring => "scoring_logic"
  | .skip => "skip_logic"

/-- A cell of a checklist. Its conditions are about the question with the given field. -/
structure LogicCell where
  row : UInt64
  column : LogicColumn
  fieldName : String
  text : String
  deriving DecidableEq

/-- The expression of a cell and, for a skip cell, the question to go on with. -/
structure TranslatedCell where
  row : UInt64
  column : LogicColumn
  fieldName : String
  expression : String
  target : Option Question
  deriving DecidableEq

namespace Translator

/-- Reads a skip cell: its rule, which has to be a skip rule. A scoring rule is refused at its `=`,
where a skip rule has a comma. -/
def readSkipRule (t : Translator) (text : String) : Except LogicError SkipRule := do
  let clause ← (Clause.ofText text).mapError .lex
  match ← t.ruleOfClause clause with
  | .skip rule => .ok rule
  | .scoring _ => .error (.parse ((clause.dropTo .equals).refusal [.comma]))

/-- The expression of a cell and the question it goes on with. -/
def cellContent (t : Translator) (cell : LogicCell) :
    Except LogicError (Form.Expr × Option Question) :=
  match cell.column with
  | .scoring => do
    let expression ← t.scoringCalculation cell.text cell.fieldName none
    return (expression, none)
  | .skip => do
    let rule ← t.readSkipRule cell.text
    let condition ← ((Rule.skip rule).condition t.options cell.fieldName).mapError .form
    return (condition, some rule.target)

/-- Translates a cell. -/
def translateCell (t : Translator) (cell : LogicCell) : Except LogicError TranslatedCell :=
  (fun (expression, target) =>
    ⟨cell.row, cell.column, cell.fieldName, expression.render, target⟩) <$> t.cellContent cell

end Translator

end ChecklistLogic
