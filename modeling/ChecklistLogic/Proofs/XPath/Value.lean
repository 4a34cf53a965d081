import ChecklistLogic.Proofs.Meaning
import ChecklistLogic.Proofs.XPath.Rendering

/-!
# ChecklistLogic — values of XPath expressions

What an XPath processor computes for a tree, given the answers of a form. The functions that tell
about answers, the connectives, the relations between numbers and the choice between two
expressions have their meaning here. Everything else — further functions, conversions between kinds
of values, division — is left to an `Interpretation`, which may be any: expressions of rules do not
depend on it, and an expression that stands in for a missing rule may use it freely.
-/

namespace ChecklistLogic.XPath

open Form

/-- A value of an expression. -/
inductive Value where
  | truth (truth : Bool)
  | number (value : Rat)
  | text (text : String)
  deriving DecidableEq

/-- Whether a value counts as true: a number other than zero, a text that is not empty. -/
def Value.isTrue : Value → Bool
  | .truth t => t
  | .number v => v ≠ 0
  | .text t => t ≠ ""

/-- The answers of a form and all that is left open here. -/
structure Interpretation extends Answers where
  /-- A field where it stands by itself. -/
  bareField : FormField → Value
  /-- A minus sign in front of a value that is no number. -/
  negation : Value → Value
  /-- An operator between values of other kinds. -/
  operation : Operator → Value → Value → Value
  /-- Any other function, or a function with other arguments. -/
  function : String → List Value → Value

/-- Whether two numbers stand in a relation. -/
def relationHolds (left right : Rat) : Relation → Bool
  | .equal => left = right
  | .order comparator => comparator.holds left right

/-- An operator applied to the values of its operands. -/
def Interpretation.operate (i : Interpretation) : Operator → Value → Value → Value
  | .connective connective, left, right => .truth (connective.apply left.isTrue right.isTrue)
  | .relation relation, .number left, .number right => .truth (relationHolds left right relation)
  | .unequal, .number left, .number right => .truth (left ≠ right)
  | .plus, .number left, .number right => .number (left + right)
  | .minus, .number left, .number right => .number (left - right)
  | .times, .number left, .number right => .number (left * right)
  | operator, left, right => i.operation operator left right

/-- A function applied to its arguments. The functions of answers look at the field that is named,
all others at values. -/
def Interpretation.apply (i : Interpretation) (function : String) (arguments : List Term)
    (values : List Value) : Value :=
  match function, arguments, values with
  | "selected", [.field field, .literal choice], _ => .truth (i.isSelected field choice)
  | "count-selected", [.field field], _ => .number (i.selectedCount field)
  | "number", [.field field], _ => .number (i.number field)
  | "not", _, [value] => .truth (!value.isTrue)
  | "if", _, [condition, consequent, alternative] =>
    if condition.isTrue then consequent else alternative
  | _, _, _ => i.function function values

mutual

/-- The value of a tree. -/
def Term.value (i : Interpretation) : Term → Value
  | .literal text => .text text
  | .number value => .number value
  | .field own => i.bareField own
  | .negate operand =>
    match operand.value i with
    | .number value => .number (-value)
    | value => i.negation value
  | .binary operator left right => i.operate operator (left.value i) (right.value i)
  | .call function arguments => i.apply function arguments (Term.values i arguments)

/-- The values of several trees. -/
def Term.values (i : Interpretation) : List Term → List Value
  | [] => []
  | term :: rest => term.value i :: Term.values i rest

end

variable (i : Interpretation) (field : FormField)

@[simp]
theorem value_literal (text : String) : (Term.literal text).value i = .text text := rfl

@[simp]
theorem value_number (value : Rat) : (Term.number value).value i = .number value := rfl

@[simp]
theorem value_binary (operator : Operator) (left right : Term) :
    (Term.binary operator left right).value i =
      i.operate operator (left.value i) (right.value i) := rfl

@[simp]
theorem value_selected (choice : String) :
    (Term.selected field choice).value i = .truth (i.isSelected field choice) := rfl

@[simp]
theorem value_selectedCount :
    (Term.selectedCount field).value i = .number (i.selectedCount field) := rfl

@[simp]
theorem value_numberOf : (Term.numberOf field).value i = .number (i.number field) := rfl

@[simp]
theorem value_not (term : Term) :
    (Term.call "not" [term]).value i = .truth (!(term.value i).isTrue) := rfl

@[simp]
theorem value_branch (condition consequent alternative : Term) :
    (Term.branch condition consequent alternative).value i =
      if (condition.value i).isTrue then consequent.value i else alternative.value i := rfl

end ChecklistLogic.XPath
