import ChecklistLogic.Comparison
import ChecklistLogic.Form.Field
import ChecklistLogic.Form.Hundredths

/-!
# ChecklistLogic — form expressions

The XPath expressions that a form is given, as trees. `Expr.render` writes a tree as text.

In XPath `and` binds more tightly than `or`, and both associate to the left. `render` puts an
operand of a connective in brackets if it is itself joined by a connective, unless it is a left
operand of the same one; so the text shows the tree.
-/

namespace ChecklistLogic.Form

/-- What a threshold is compared with. -/
inductive Measure where
  /-- The number of chosen answers. -/
  | selectedCount
  /-- The answer as a number. -/
  | number
  deriving DecidableEq

/-- The function that takes a measure of a field. -/
def Measure.function : Measure → String
  | .selectedCount => "count-selected"
  | .number => "number"

/-- The relations between numbers. -/
inductive Relation where
  | equal
  | order (comparator : Comparator)
  deriving DecidableEq

/-- The sign of a relation in an expression. -/
def Relation.sign : Relation → String
  | .equal => "="
  | .order .atLeast => ">="
  | .order .moreThan => ">"
  | .order .atMost => "<="
  | .order .lessThan => "<"

/-- A form expression. -/
inductive Expr where
  /-- A choice of the field is selected. -/
  | selected (field : FormField) (choice : String)
  /-- A measure of the field stands in a relation to a number. -/
  | compare (measure : Measure) (field : FormField) (relation : Relation) (bound : Hundredths)
  | not (body : Expr)
  | join (connective : Connective) (left right : Expr)
  /-- One of two expressions, depending on a condition. -/
  | branch (condition consequent alternative : Expr)
  /-- A text in quotes. -/
  | quoted (text : String)
  /-- An expression that is given by its text. -/
  | verbatim (text : String)
  deriving DecidableEq

/-- The text of a choice between two expressions, given the texts of its parts. -/
def branchText (condition consequent alternative : String) : String :=
  "if(" ++ condition ++ ", " ++ consequent ++ ", " ++ alternative ++ ")"

/-- A text in quotes. -/
def quote (text : String) : String :=
  "'" ++ text ++ "'"

/-- Puts a text in brackets if asked to. -/
def bracketIf (needed : Bool) (text : String) : String :=
  if needed then "(" ++ text ++ ")" else text

namespace Expr

/-- Whether an expression, as the left operand of a connective, needs brackets. -/
def needsBracketsLeftOf (connective : Connective) : Expr → Bool
  | .join own _ _ => own ≠ connective
  | _ => false

/-- Whether an expression, as the right operand of a connective, needs brackets. -/
def needsBracketsOnRight : Expr → Bool
  | .join _ _ _ => true
  | _ => false

/-- The text of an expression. -/
def render : Expr → String
  | .selected field choice => "selected(" ++ field.reference ++ ", " ++ quote choice ++ ")"
  | .compare measure field relation bound =>
    measure.function ++ "(" ++ field.reference ++ ") " ++ relation.sign ++ " " ++ bound.text
  | .not body => "not(" ++ body.render ++ ")"
  | .join connective left right =>
    bracketIf (left.needsBracketsLeftOf connective) left.render ++ " " ++ connective.word ++ " " ++
      bracketIf right.needsBracketsOnRight right.render
  | .branch condition consequent alternative =>
    branchText condition.render consequent.render alternative.render
  | .quoted text => quote text
  | .verbatim text => text

end Expr

end ChecklistLogic.Form
