import ChecklistLogic.Comparison

/-!
# ChecklistLogic — tokens

A token is a piece of rule text together with its kind and the byte offset at which it stands.

* `TokenKind.label` names a kind in reports.
* `Token.stop` is the offset just behind a token.
-/

namespace ChecklistLogic

/-- The kinds of tokens. -/
inductive TokenKind where
  /-- `Y` or `N`. -/
  | answer
  /-- The name of a score. -/
  | score
  | digits
  /-- `Q` followed by digits. -/
  | question
  /-- `#`, which stands before the number of an answer option. -/
  | hash
  | percent
  | comma
  | semicolon
  /-- `If` or `if`. -/
  | ifWord
  | thenWord
  | connective (connective : Connective)
  | equals
  | comparator (comparator : Comparator)
  /-- `-` between the bounds of a range. -/
  | dash
  /-- Letters and digits that have no other kind; no rule contains such a word. -/
  | word
  | endOfInput
  deriving DecidableEq

namespace TokenKind

/-- How reports call a kind. -/
def label : TokenKind → String
  | .answer => "BOOLEAN"
  | .score => "CEE_SCORE"
  | .digits => "DIGITS"
  | .question => "QUESTION"
  | .hash => "'#'"
  | .percent => "'%'"
  | .comma => "','"
  | .semicolon => "';'"
  | .ifWord => "'If'"
  | .thenWord => "'then'"
  | .connective c => "'" ++ c.word ++ "'"
  | .equals => "'='"
  | .comparator c => "'" ++ c.sign ++ "'"
  | .dash => "'-'"
  | .word => "word"
  | .endOfInput => "end of input"

/-- Every kind, each of them once. -/
def all : List TokenKind :=
  [.answer, .score, .digits, .question, .hash, .percent, .comma, .semicolon, .ifWord, .thenWord,
    .connective .and, .connective .or, .equals] ++ Comparator.all.map .comparator ++
    [.dash, .word, .endOfInput]

/-- Whether a kind is one of the four comparison signs. -/
def isComparator : TokenKind → Bool
  | .comparator _ => true
  | _ => false

/-- The kind that reports call by the given label. -/
def ofLabel? (label : String) : Option TokenKind :=
  all.find? fun kind => kind.label = label

theorem mem_all (kind : TokenKind) : kind ∈ all := by
  cases kind with
  | connective c => cases c <;> simp [all]
  | comparator c => simp [all, Comparator.mem_all]
  | _ => simp [all]

@[simp]
theorem ofLabel?_label (kind : TokenKind) : ofLabel? kind.label = some kind := by
  cases kind with
  | connective c => cases c <;> decide
  | comparator c => cases c <;> decide
  | _ => decide

end TokenKind

/-- A piece of rule text. The position counts the bytes before it. -/
structure Token where
  kind : TokenKind
  text : String
  position : Nat
  deriving DecidableEq

namespace Token

/-- The end marker at a position. -/
def endAt (position : Nat) : Token :=
  ⟨.endOfInput, "", position⟩

/-- The number of bytes up to the end of a token. -/
def stop (token : Token) : Nat :=
  token.position + token.text.utf8ByteSize

/-- A token as reports show it: its text in quotes, or the name of the end marker. -/
def display (token : Token) : String :=
  if token.kind = .endOfInput then token.kind.label else "'" ++ token.text ++ "'"

end Token

end ChecklistLogic
