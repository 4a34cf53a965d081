import ChecklistLogic.Rule

/-!
# ChecklistLogic — what makes a rule invalid

A rule that can be written need not make sense: a range may be inverted, an option may be named
twice. `Rule.violation?` is the first violation of a rule in the order in which it is written,
except that a skip rule's question is looked at before its condition.

* `Policy` says which violations are tolerated.
* `Rule.validate` fails with the first violation.
-/

namespace ChecklistLogic

/-- Which rules are accepted beyond those that always make sense. -/
structure Policy where
  /-- Whether a selection may name an option more than once. -/
  allowDuplicateOptions : Bool := false
  deriving DecidableEq

/-- Why a rule makes no sense. -/
inductive Violation where
  | invertedRange (low high : UInt32)
  | emptySelection
  | duplicateOption (option : UInt32)
  | zeroOption
  | zeroQuestion
  | percentOutOfRange (threshold : UInt32)
  deriving DecidableEq

/-- The report of a violation. -/
def Violation.message : Violation → String
  | .invertedRange low high =>
    "inverted range " ++ Numeral.text low ++ "-" ++ Numeral.text high ++
      ": lower bound exceeds upper bound"
  | .emptySelection => "selection has no options"
  | .duplicateOption option =>
    "option #" ++ Numeral.text option ++ " is selected more than once"
  | .zeroOption => "option #0 is not a valid answer option; indices start at 1"
  | .zeroQuestion => "Q0 is not a valid skip target; question numbers start at 1"
  | .percentOutOfRange threshold =>
    "percentage threshold " ++ Numeral.text threshold ++ "% exceeds 100%"

/-- A percentage above one hundred can never be reached. -/
def Comparison.violation? (c : Comparison) : Option Violation :=
  if c.isPercent && c.threshold > 100 then some (.percentOutOfRange c.threshold) else none

/-- The violation of the leftmost comparison that has one. -/
def ComparisonTree.violation? (tree : ComparisonTree) : Option Violation :=
  tree.atoms.findSome? Comparison.violation?

/-- A range holds no number if its bounds are inverted. -/
def CountRange.violation? (range : CountRange) : Option Violation :=
  if range.high < range.low then some (.invertedRange range.low range.high) else none

namespace Selection

/-- The first option that is no option or, unless duplicates are allowed, one of those `seen`
before it. -/
def firstViolation? (policy : Policy) (seen : List UInt32) : List UInt32 → Option Violation
  | [] => none
  | option :: rest =>
    if option = 0 then some .zeroOption
    else if !policy.allowDuplicateOptions && seen.contains option then
      some (.duplicateOption option)
    else firstViolation? policy (option :: seen) rest

/-- A selection needs at least one option, options are counted from one, and naming an option
twice may be forbidden. -/
def violation? (policy : Policy) (selection : Selection) : Option Violation :=
  if selection.options.isEmpty then some .emptySelection
  else firstViolation? policy [] selection.options

end Selection

/-- The first violation of a condition that both kinds of rule may have. -/
def Condition.violation? : Condition → Option Violation
  | .answer _ | .count _ => none
  | .comparison tree => tree.violation?

/-- The first violation of a scoring rule's condition. -/
def ScoringCondition.violation? (policy : Policy) : ScoringCondition → Option Violation
  | .common c => c.violation?
  | .range r => r.violation?
  | .selection s => s.violation? policy

/-- The first violation of a rule. -/
def Rule.violation? (policy : Policy) : Rule → Option Violation
  | .scoring rule => rule.condition.violation? policy
  | .skip rule => if rule.target.number = 0 then some .zeroQuestion else rule.condition.violation?

/-- Accepts a rule without violations. -/
def Rule.validate (policy : Policy) (rule : Rule) : Except Violation Unit :=
  match rule.violation? policy with
  | none => .ok ()
  | some violation => .error violation

theorem Rule.validate_eq_ok_iff {policy : Policy} {rule : Rule} :
    rule.validate policy = .ok () ↔ rule.violation? policy = none := by
  unfold validate
  cases rule.violation? policy <;> simp

theorem Rule.validate_eq_error_iff {policy : Policy} {rule : Rule} {violation : Violation} :
    rule.validate policy = .error violation ↔ rule.violation? policy = some violation := by
  unfold validate
  cases rule.violation? policy <;> simp

end ChecklistLogic
