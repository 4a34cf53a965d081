import ChecklistLogic.Condition
import ChecklistLogic.Score

/-!
# ChecklistLogic — rules

A rule is one sentence of a checklist cell. A scoring rule gives a score if its condition holds,
as in `If 3-5 = Yellow`; a skip rule names the question to go on with, as in `If N, then Q5`.

`Rule.text` is the canonical text of a rule: one space between words, comparisons without inner
spaces, and two-character ASCII signs.
-/

namespace ChecklistLogic

/-- A question of the checklist by its number. Questions are counted from one. -/
structure Question where
  number : UInt32
  deriving DecidableEq

/-- A question as a rule names it, such as `Q5`. -/
def Question.text (question : Question) : String :=
  "Q" ++ Numeral.text question.number

/-- Gives `target` to a question whose answers meet the condition. -/
structure ScoringRule where
  condition : ScoringCondition
  target : Score
  deriving DecidableEq

/-- A scoring rule in canonical text. -/
def ScoringRule.text (rule : ScoringRule) : String :=
  "If " ++ rule.condition.text ++ " = " ++ rule.target.name

/-- Goes on with the question `target` if the answers meet the condition. -/
structure SkipRule where
  condition : Condition
  target : Question
  deriving DecidableEq

/-- A skip rule in canonical text. -/
def SkipRule.text (rule : SkipRule) : String :=
  "If " ++ rule.condition.text ++ ", then " ++ rule.target.text

/-- One rule of either kind. -/
inductive Rule where
  | scoring (rule : ScoringRule)
  | skip (rule : SkipRule)
  deriving DecidableEq

/-- A rule in canonical text. -/
def Rule.text : Rule → String
  | .scoring rule => rule.text
  | .skip rule => rule.text

end ChecklistLogic
