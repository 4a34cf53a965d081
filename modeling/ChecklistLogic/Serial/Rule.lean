import ChecklistLogic.ScoringLogic
import ChecklistLogic.Serial.Value

/-!
# ChecklistLogic — serialized rules

Each type of the rule model has a `toValue` and an `ofValue?` that reads it back. A choice between
several forms is an object whose only member is named for the form; a form without content is
written as its name alone. All other types are records, each with its `fieldNames`. Reading checks
this shape and nothing else, so a stored rule need not be valid.
-/

namespace ChecklistLogic

open Serial (Value)

/-! ## Names -/

/-- The stored form of a score is its written name. -/
def Score.toValue (score : Score) : Value :=
  .text score.name

/-- Reads a stored score. -/
def Score.ofValue? (value : Value) : Option Score :=
  value.named? Score.all Score.name

/-- The stored name of an answer. -/
def Answer.storedName : Answer → String
  | .yes => "Yes"
  | .no => "No"

/-- The stored form of an answer. -/
def Answer.toValue (answer : Answer) : Value :=
  .text answer.storedName

/-- Reads a stored answer. -/
def Answer.ofValue? (value : Value) : Option Answer :=
  value.named? [.yes, .no] Answer.storedName

/-- The stored name of a comparator. -/
def Comparator.storedName : Comparator → String
  | .atLeast => "Ge"
  | .moreThan => "Gt"
  | .atMost => "Le"
  | .lessThan => "Lt"

/-- The stored form of a comparator. -/
def Comparator.toValue (comparator : Comparator) : Value :=
  .text comparator.storedName

/-- Reads a stored comparator. -/
def Comparator.ofValue? (value : Value) : Option Comparator :=
  value.named? Comparator.all Comparator.storedName

/-- The tag under which joined comparisons are stored. -/
def Connective.tag : Connective → String
  | .and => "And"
  | .or => "Or"

/-- The connective with the given tag. -/
def Connective.ofTag? (tag : String) : Option Connective :=
  [Connective.and, Connective.or].find? fun connective => connective.tag = tag

/-! ## Conditions -/

/-- The field names of a stored comparison. -/
def Comparison.fieldNames : List String := ["comparator", "threshold", "is_percent"]

/-- The stored form of a comparison. -/
def Comparison.toValue (c : Comparison) : Value :=
  .record fieldNames [c.comparator.toValue, .ofUInt32 c.threshold, .bool c.isPercent]

/-- Reads a stored comparison. -/
def Comparison.ofValue? (value : Value) : Option Comparison := do
  let [comparator, threshold, isPercent] ← value.fields? fieldNames | none
  return ⟨← Comparator.ofValue? comparator, ← threshold.uint32?, ← isPercent.bool?⟩

namespace ComparisonTree

/-- The stored form of a tree of comparisons. -/
def toValue : ComparisonTree → Value
  | .atom c => .variant "Leaf" c.toValue
  | .join connective left right => .variant connective.tag (.array [left.toValue, right.toValue])

/-- Reads a stored tree of comparisons. -/
def ofValue? : Value → Option ComparisonTree
  | .object [("Leaf", content)] => .atom <$> Comparison.ofValue? content
  | .object [(tag, .array [left, right])] => do
    let connective ← Connective.ofTag? tag
    return .join connective (← ofValue? left) (← ofValue? right)
  | _ => none

end ComparisonTree

/-- The field names of a stored range. -/
def CountRange.fieldNames : List String := ["low", "high"]

/-- The stored form of a range. -/
def CountRange.toValue (range : CountRange) : Value :=
  .record fieldNames [.ofUInt32 range.low, .ofUInt32 range.high]

/-- Reads a stored range. -/
def CountRange.ofValue? (value : Value) : Option CountRange := do
  let [low, high] ← value.fields? fieldNames | none
  return ⟨← low.uint32?, ← high.uint32?⟩

/-- The field names of a stored selection. -/
def Selection.fieldNames : List String := ["options"]

/-- The stored form of a selection. -/
def Selection.toValue (selection : Selection) : Value :=
  .record fieldNames [.array (selection.options.map .ofUInt32)]

/-- Reads a stored selection. -/
def Selection.ofValue? (value : Value) : Option Selection := do
  let [options] ← value.fields? fieldNames | none
  return ⟨← (← options.elements?).mapM Value.uint32?⟩

/-- The stored form of a condition that both kinds of rule may have. -/
def Condition.toValue : Condition → Value
  | .answer a => .variant "Boolean" a.toValue
  | .count n => .variant "Count" (.ofUInt32 n)
  | .comparison tree => .variant "Comparison" tree.toValue

/-- Reads a stored condition that both kinds of rule may have. -/
def Condition.ofValue? (value : Value) : Option Condition := do
  let (tag, content) ← value.variant?
  match tag with
  | "Boolean" => .answer <$> Answer.ofValue? content
  | "Count" => .count <$> content.uint32?
  | "Comparison" => .comparison <$> ComparisonTree.ofValue? content
  | _ => none

/-- The stored form of a scoring rule's condition. -/
def ScoringCondition.toValue : ScoringCondition → Value
  | .common c => c.toValue
  | .range r => .variant "Range" r.toValue
  | .selection s => .variant "Selection" s.toValue

/-- Reads the stored condition of a scoring rule. -/
def ScoringCondition.ofValue? (value : Value) : Option ScoringCondition := do
  let (tag, content) ← value.variant?
  match tag with
  | "Range" => .range <$> CountRange.ofValue? content
  | "Selection" => .selection <$> Selection.ofValue? content
  | _ => .common <$> Condition.ofValue? value

/-! ## Rules -/

/-- The field names of a stored question. -/
def Question.fieldNames : List String := ["number"]

/-- The stored form of a question. -/
def Question.toValue (question : Question) : Value :=
  .record fieldNames [.ofUInt32 question.number]

/-- Reads a stored question. -/
def Question.ofValue? (value : Value) : Option Question := do
  let [number] ← value.fields? fieldNames | none
  return ⟨← number.uint32?⟩

/-- The field names of a stored scoring rule. -/
def ScoringRule.fieldNames : List String := ["condition", "target"]

/-- The stored form of a scoring rule. -/
def ScoringRule.toValue (rule : ScoringRule) : Value :=
  .record fieldNames [rule.condition.toValue, rule.target.toValue]

/-- Reads a stored scoring rule. -/
def ScoringRule.ofValue? (value : Value) : Option ScoringRule := do
  let [condition, target] ← value.fields? fieldNames | none
  return ⟨← ScoringCondition.ofValue? condition, ← Score.ofValue? target⟩

/-- The field names of a stored skip rule. -/
def SkipRule.fieldNames : List String := ["condition", "target_question"]

/-- The stored form of a skip rule. -/
def SkipRule.toValue (rule : SkipRule) : Value :=
  .record fieldNames [rule.condition.toValue, rule.target.toValue]

/-- Reads a stored skip rule. -/
def SkipRule.ofValue? (value : Value) : Option SkipRule := do
  let [condition, target] ← value.fields? fieldNames | none
  return ⟨← Condition.ofValue? condition, ← Question.ofValue? target⟩

/-- The stored form of a rule. -/
def Rule.toValue : Rule → Value
  | .scoring rule => .variant "Scoring" rule.toValue
  | .skip rule => .variant "Skip" rule.toValue

/-- Reads a stored rule. -/
def Rule.ofValue? (value : Value) : Option Rule := do
  let (tag, content) ← value.variant?
  match tag with
  | "Scoring" => .scoring <$> ScoringRule.ofValue? content
  | "Skip" => .skip <$> SkipRule.ofValue? content
  | _ => none

/-- The field names of stored scoring logic. -/
def ScoringLogic.fieldNames : List String := ["rules"]

/-- The stored form of scoring logic. -/
def ScoringLogic.toValue (logic : ScoringLogic) : Value :=
  .record fieldNames [.array (logic.rules.map ScoringRule.toValue)]

/-- Reads stored scoring logic, which may be empty. -/
def ScoringLogic.ofValue? (value : Value) : Option ScoringLogic := do
  let [rules] ← value.fields? fieldNames | none
  return ⟨← (← rules.elements?).mapM ScoringRule.ofValue?⟩

end ChecklistLogic
