import ChecklistLogic.Proofs.LeftNested
import ChecklistLogic.ScoringLogic
import Mathlib.Algebra.Order.Field.Rat

/-!
# ChecklistLogic — what rules mean

When a condition holds, given the answers to a question, and which score a list of scoring rules
gives. This is the meaning of rule text; expressions of a form do not occur in it.

* Joined comparisons are taken from left to right, `and` and `or` alike: each connective joins all
  that stands before it with one more comparison.
* An answer to a yes/no question is looked up as the choice for it or, if answers are negated, as
  the other choice not being selected.
* `ScoringLogic.outcome` is the score of the first rule whose condition holds. The last of several
  rules needs no condition to hold; a single rule has the fallback score of the form behind it.

Main result: `ComparisonTree.holds_append` — a comparison that is joined to a tree is joined to the
truth of the whole tree.
-/

namespace ChecklistLogic

/-- What has been answered to the questions of a form. -/
structure Answers where
  /-- Whether a choice of the field is selected. -/
  isSelected : FormField → String → Bool
  /-- The number of choices that are selected. -/
  selectedCount : FormField → Nat
  /-- The answer as a number. -/
  number : FormField → Rat

/-- Whether a value lies on the right side of a threshold. -/
def Comparator.holds (value threshold : Rat) : Comparator → Bool
  | .atLeast => threshold ≤ value
  | .moreThan => threshold < value
  | .atMost => value ≤ threshold
  | .lessThan => value < threshold

/-- The truth of two joined conditions. -/
def Connective.apply (first second : Bool) : Connective → Bool
  | .and => first && second
  | .or => first || second

variable (options : FormOptions) (answers : Answers) (field : FormField)

/-- The answer as a percentage. -/
def Answers.percentage : Rat :=
  if options.percentAsFraction then 100 * answers.number field else answers.number field

/-- Whether the chosen answers, or the percentage, meet a threshold. -/
def Comparison.holds (c : Comparison) : Bool :=
  if c.isPercent then c.comparator.holds (answers.percentage options field) c.threshold.toNat
  else c.comparator.holds (answers.selectedCount field) c.threshold.toNat

/-- Whether joined comparisons hold, taken from left to right. -/
def ComparisonTree.holds (tree : ComparisonTree) : Bool :=
  tree.links.foldl
    (fun truth link => link.1.apply truth (link.2.holds options answers field))
    (tree.first.holds options answers field)

/-- Whether a yes/no question has the answer. -/
def Answer.holds : Answer → Bool
  | .yes =>
    if options.negateBoolean then !answers.isSelected field options.noChoice
    else answers.isSelected field options.yesChoice
  | .no =>
    if options.negateBoolean then !answers.isSelected field options.yesChoice
    else answers.isSelected field options.noChoice

/-- Whether the number of chosen answers lies in the range. -/
def CountRange.holds (range : CountRange) : Bool :=
  range.low.toNat ≤ answers.selectedCount field && answers.selectedCount field ≤ range.high.toNat

/-- Whether one of the options is chosen. -/
def Selection.holds (selection : Selection) : Bool :=
  selection.options.any fun option => answers.isSelected field (optionChoice field.name option)

/-- Whether a condition that both kinds of rule may have holds. -/
def Condition.holds : Condition → Bool
  | .answer a => a.holds options answers field
  | .count n => answers.selectedCount field = n.toNat
  | .comparison tree => tree.holds options answers field

/-- Whether the condition of a scoring rule holds. -/
def ScoringCondition.holds : ScoringCondition → Bool
  | .common c => c.holds options answers field
  | .range r => r.holds answers field
  | .selection s => s.holds answers field

/-- The score of the first rule whose condition holds. -/
def ScoringRule.firstScore? (rules : List ScoringRule) : Option Score :=
  (rules.find? fun rule => rule.condition.holds options answers field).map ScoringRule.target

/-- The score that scoring rules give by themselves. -/
def ScoringLogic.outcome (logic : ScoringLogic) : Score :=
  match logic.rules.getLast? with
  | none => options.fallbackScore
  | some last =>
    if logic.rules.length = 1 then
      (ScoringRule.firstScore? options answers field [last]).getD options.fallbackScore
    else
      (ScoringRule.firstScore? options answers field logic.rules.dropLast).getD last.target

variable {options answers field}

/-- A comparison that is joined to a tree is joined to the truth of the whole tree. -/
theorem ComparisonTree.holds_append (tree : ComparisonTree) (link : Connective × Comparison) :
    (tree.append link).holds options answers field =
      link.1.apply (tree.holds options answers field) (link.2.holds options answers field) := by
  simp [holds, append, links, first]

end ChecklistLogic
