import ChecklistLogic.Cell
import ChecklistLogic.Serial.Rule

/-!
# ChecklistLogic — serialized cells

The stored forms of cells, before and after they are translated. A translated cell without a
question to go on with is stored with `null` there; when it is read from an object the member may
be missing as well.
-/

namespace ChecklistLogic

open Serial (Value)

/-- The stored name of a column. -/
def LogicColumn.storedName : LogicColumn → String
  | .scoring => "Scoring"
  | .skip => "Skip"

/-- The stored form of a column. -/
def LogicColumn.toValue (column : LogicColumn) : Value :=
  .text column.storedName

/-- Reads a stored column. -/
def LogicColumn.ofValue? (value : Value) : Option LogicColumn :=
  value.named? [.scoring, .skip] LogicColumn.storedName

/-- The field names of a stored cell. -/
def LogicCell.fieldNames : List String := ["row", "column", "field", "text"]

/-- The stored form of a cell. -/
def LogicCell.toValue (cell : LogicCell) : Value :=
  .record fieldNames
    [.ofUInt64 cell.row, cell.column.toValue, .text cell.fieldName, .text cell.text]

/-- Reads a stored cell. -/
def LogicCell.ofValue? (value : Value) : Option LogicCell := do
  let [row, column, field, text] ← value.fields? fieldNames | none
  return ⟨← row.uint64?, ← LogicColumn.ofValue? column, ← field.text?, ← text.text?⟩

namespace TranslatedCell

/-- The stored form of a question that need not be there. -/
def targetToValue : Option Question → Value
  | none => .null
  | some question => question.toValue

/-- Reads the stored form of a question that need not be there. -/
def targetOfValue? : Value → Option (Option Question)
  | .null => some none
  | value => some <$> Question.ofValue? value

/-- The field names of a stored translated cell. -/
def fieldNames : List String := ["row", "column", "field", "expression", "target_question"]

/-- The stored form of a translated cell. -/
def toValue (cell : TranslatedCell) : Value :=
  .record fieldNames [.ofUInt64 cell.row, cell.column.toValue, .text cell.fieldName,
    .text cell.expression, targetToValue cell.target]

/-- Reads a stored translated cell. -/
def ofValue? (value : Value) : Option TranslatedCell := do
  let [row, column, field, expression, target] ← value.fields? fieldNames | none
  return ⟨← row.uint64?, ← LogicColumn.ofValue? column, ← field.text?, ← expression.text?,
    ← targetOfValue? target⟩

end TranslatedCell

end ChecklistLogic
