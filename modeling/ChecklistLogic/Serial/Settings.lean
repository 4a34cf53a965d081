import ChecklistLogic.Serial.Rule

/-!
# ChecklistLogic — serialized settings

The stored forms of policies and form options: records in which every field has to be present.
-/

namespace ChecklistLogic

open Serial (Value)

/-- The field names of a stored policy. -/
def Policy.fieldNames : List String := ["allow_duplicate_options"]

/-- The stored form of a policy. -/
def Policy.toValue (policy : Policy) : Value :=
  .record fieldNames [.bool policy.allowDuplicateOptions]

/-- Reads a stored policy. -/
def Policy.ofValue? (value : Value) : Option Policy := do
  let [allow] ← value.fields? fieldNames | none
  return ⟨← allow.bool?⟩

/-- The field names of stored form options. -/
def FormOptions.fieldNames : List String :=
  ["yes_choice", "no_choice", "negate_boolean", "percent_as_fraction", "fallback_score"]

/-- The stored form of form options. -/
def FormOptions.toValue (options : FormOptions) : Value :=
  .record fieldNames [.text options.yesChoice, .text options.noChoice,
    .bool options.negateBoolean, .bool options.percentAsFraction, options.fallbackScore.toValue]

/-- Reads stored form options. -/
def FormOptions.ofValue? (value : Value) : Option FormOptions := do
  let [yesChoice, noChoice, negateBoolean, percentAsFraction, fallbackScore] ←
    value.fields? fieldNames | none
  return ⟨← yesChoice.text?, ← noChoice.text?, ← negateBoolean.bool?, ← percentAsFraction.bool?,
    ← Score.ofValue? fallbackScore⟩

end ChecklistLogic
