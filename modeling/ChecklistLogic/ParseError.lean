import ChecklistLogic.Token

/-!
# ChecklistLogic — faults in the order of tokens

What can be wrong with tokens that do not make up a rule, and how it is reported. Every fault is
reported at the offset of the token it concerns, or where the rule ends too early.
-/

namespace ChecklistLogic

/-- What is wrong with a list of tokens. -/
inductive ParseFault where
  /-- A token stands where only the expected kinds may stand. -/
  | unexpected (expected : List TokenKind) (found : String)
  /-- The rule ends where one of the expected kinds has to follow. -/
  | unterminated (expected : List TokenKind)
  /-- A token follows a complete rule. -/
  | trailing (found : String)
  /-- A number does not fit into 32 bits. -/
  | numberOutOfRange (text : String)
  deriving DecidableEq

/-- A fault and the offset at which it stands. -/
structure ParseError where
  position : Nat
  fault : ParseFault
  deriving DecidableEq

/-- The kinds that would have been right, as reports list them. -/
def expectedText : List TokenKind → String
  | [kind] => "expected " ++ kind.label
  | kinds => "expected one of " ++ String.intercalate ", " (kinds.map TokenKind.label)

/-- The report of a fault. -/
def ParseFault.message : ParseFault → String
  | .unexpected expected found => expectedText expected ++ ", found '" ++ found ++ "'"
  | .unterminated expected => "unterminated expression, " ++ expectedText expected
  | .trailing found => "trailing input '" ++ found ++ "'"
  | .numberOutOfRange text => "number '" ++ text ++ "' is out of range"

/-- The report of a fault and where it stands. -/
def ParseError.message (e : ParseError) : String :=
  "parse error at offset " ++ toString e.position ++ ": " ++ e.fault.message

end ChecklistLogic
