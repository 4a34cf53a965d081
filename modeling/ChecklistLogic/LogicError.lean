import ChecklistLogic.Form.Field
import ChecklistLogic.ParseError
import ChecklistLogic.Token.Cursor
import ChecklistLogic.Violation

/-!
# ChecklistLogic — why a text is not translated

The failures of all stages: reading tokens, reading rules, checking rules, and writing expressions.

* `FormError` holds the failures of the last stage, `LogicError` the failures of all stages.
* `LogicError.position?` is the place in the text, which only the first two stages know.
-/

namespace ChecklistLogic

/-- Why rules cannot be put into a form. -/
inductive FormError where
  /-- No field may have this name. -/
  | invalidField (name : String)
  /-- There is one scoring rule at most, and nothing to go on with where it does not apply. -/
  | missingFallback
  deriving DecidableEq

/-- The report of why rules cannot be put into a form. -/
def FormError.message : FormError → String
  | .invalidField name => "'" ++ name ++ "' is not a valid field reference"
  | .missingFallback => "a single scoring rule needs an else expression to fall back on"

/-- The field of a legal name. -/
def FormField.ofName (name : String) : Except FormError FormField :=
  match FormField.ofName? name with
  | some field => .ok field
  | none => .error (.invalidField name)

@[simp]
theorem FormField.ofName_name (field : FormField) : ofName field.name = .ok field := by
  unfold ofName
  rw [ofName?_name]

theorem FormField.ofName_of_not_legal {name : String} (hIllegal : isLegalName name = false) :
    ofName name = .error (.invalidField name) := by
  unfold ofName ofName?
  simp [hIllegal]

/-- Why a text cannot be translated. -/
inductive LogicError where
  | lex (error : LexError)
  | parse (error : ParseError)
  | violation (violation : Violation)
  | form (error : FormError)
  deriving DecidableEq

namespace LogicError

/-- The report of why a text cannot be translated. -/
def message : LogicError → String
  | .lex e => e.message
  | .parse e => e.message
  | .violation v => v.message
  | .form e => e.message

/-- The byte offset of a failure that stands at some place of the text. -/
def position? : LogicError → Option Nat
  | .lex e => some e.position
  | .parse e => some e.position
  | .violation _ | .form _ => none

end LogicError

end ChecklistLogic
