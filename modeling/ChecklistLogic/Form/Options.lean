import ChecklistLogic.Score

/-!
# ChecklistLogic — form options

How a form names its choices and how conditions are to be rendered in it.
-/

namespace ChecklistLogic

/-- The rendering choices of a form. -/
structure FormOptions where
  /-- The choice that stands for "yes" in a yes/no question. -/
  yesChoice : String := "yes"
  /-- The choice that stands for "no" in a yes/no question. -/
  noChoice : String := "no"
  /-- Whether an answer is rendered as the other one not being selected, so that a question
  without an answer meets the condition. -/
  negateBoolean : Bool := true
  /-- Whether percentages are fractions of one. -/
  percentAsFraction : Bool := false
  /-- The score of a single rule whose condition fails. -/
  fallbackScore : Score := .gray
  deriving DecidableEq

end ChecklistLogic
