import ChecklistLogic.Condition
import ChecklistLogic.Score
import ChecklistLogic.Token

/-!
# ChecklistLogic — lexemes

The smallest pieces of rule text: words, runs of digits, and signs. Letters and digits are those
of ASCII, and a blank is a space, a tab, a carriage return or a line feed.

* `TokenKind.ofWord` is the kind of a word.
* `Lexeme.split?` cuts the longest lexeme off the front of a text. It loses no character
  (`chars_append_of_split?`), takes at least one (`chars_ne_nil_of_split?`), and fails only on an
  empty text or one that starts with a character of no lexeme.
-/

namespace ChecklistLogic

/-- The characters that may stand between lexemes. -/
def isBlank (c : Char) : Bool :=
  c = ' ' || c = '\t' || c = '\r' || c = '\n'

/-- Whether a word names a question: `Q` and at least one digit after it. -/
def isQuestionName (word : String) : Bool :=
  match word.toList with
  | 'Q' :: digits => !digits.isEmpty && digits.all Char.isDigit
  | _ => false

/-- The kind of a word. Case matters, but `if` may start a rule as well as `If`. -/
def TokenKind.ofWord (word : String) : TokenKind :=
  if word = "If" || word = "if" then .ifWord
  else if word = "then" then .thenWord
  else if word = "and" then .connective .and
  else if word = "or" then .connective .or
  else if (Answer.ofText? word).isSome then .answer
  else if (Score.ofName? word).isSome then .score
  else if isQuestionName word then .question
  else .word

/-- A kind with the characters that have it. -/
structure Lexeme where
  kind : TokenKind
  chars : List Char
  deriving DecidableEq

namespace Lexeme

/-- The token of a lexeme that stands at a position. -/
def token (lexeme : Lexeme) (position : Nat) : Token :=
  ⟨lexeme.kind, String.ofList lexeme.chars, position⟩

/-- Cuts a sign off the front of a text. Of two signs that start alike the longer one is taken. -/
def splitSign? : List Char → Option (Lexeme × List Char)
  | '>' :: '=' :: rest => some (⟨.comparator .atLeast, ['>', '=']⟩, rest)
  | '≥' :: rest => some (⟨.comparator .atLeast, ['≥']⟩, rest)
  | '>' :: rest => some (⟨.comparator .moreThan, ['>']⟩, rest)
  | '=' :: '<' :: rest => some (⟨.comparator .atMost, ['=', '<']⟩, rest)
  | '≤' :: rest => some (⟨.comparator .atMost, ['≤']⟩, rest)
  | '<' :: rest => some (⟨.comparator .lessThan, ['<']⟩, rest)
  | '=' :: rest => some (⟨.equals, ['=']⟩, rest)
  | '-' :: rest => some (⟨.dash, ['-']⟩, rest)
  | '#' :: rest => some (⟨.hash, ['#']⟩, rest)
  | '%' :: rest => some (⟨.percent, ['%']⟩, rest)
  | ',' :: rest => some (⟨.comma, [',']⟩, rest)
  | ';' :: rest => some (⟨.semicolon, [';']⟩, rest)
  | _ => none

/-- Cuts the longest lexeme off the front of a text. -/
def split? : List Char → Option (Lexeme × List Char)
  | [] => none
  | c :: rest =>
    if c.isAlpha then
      let word := c :: rest.takeWhile Char.isAlphanum
      some (⟨.ofWord (String.ofList word), word⟩, rest.dropWhile Char.isAlphanum)
    else if c.isDigit then
      some (⟨.digits, c :: rest.takeWhile Char.isDigit⟩, rest.dropWhile Char.isDigit)
    else splitSign? (c :: rest)

theorem isAlpha_eq_false_of_isDigit {c : Char} (hDigit : c.isDigit = true) : c.isAlpha = false := by
  have hBounds : '0'.val.toNat = 48 ∧ '9'.val.toNat = 57 ∧ 'A'.val.toNat = 65 ∧
      'Z'.val.toNat = 90 ∧ 'a'.val.toNat = 97 ∧ 'z'.val.toNat = 122 := by decide
  have hAlpha : c.isAlpha = (decide ('A'.val ≤ c.val ∧ c.val ≤ 'Z'.val) ||
      (decide ('a'.val ≤ c.val) && decide (c.val ≤ 'z'.val))) := rfl
  rw [hAlpha]
  simp only [Char.isDigit, Bool.and_eq_true, decide_eq_true_eq, Bool.or_eq_false_iff,
    Bool.and_eq_false_iff, decide_eq_false_iff_not, UInt32.le_iff_toNat_le] at hDigit ⊢
  omega

theorem chars_append_of_splitSign? {text rest : List Char} {lexeme : Lexeme}
    (hSplit : splitSign? text = some (lexeme, rest)) : lexeme.chars ++ rest = text := by
  unfold splitSign? at hSplit
  split at hSplit <;> cases hSplit <;> rfl

theorem chars_ne_nil_of_splitSign? {text rest : List Char} {lexeme : Lexeme}
    (hSplit : splitSign? text = some (lexeme, rest)) : lexeme.chars ≠ [] := by
  unfold splitSign? at hSplit
  split at hSplit <;> cases hSplit <;> simp

/-- A lexeme and what follows it make up the text. -/
theorem chars_append_of_split? {text rest : List Char} {lexeme : Lexeme}
    (hSplit : split? text = some (lexeme, rest)) : lexeme.chars ++ rest = text := by
  cases text with
  | nil => simp [split?] at hSplit
  | cons c more =>
    simp only [split?] at hSplit
    split at hSplit
    · obtain ⟨rfl, rfl⟩ : _ ∧ _ := by simpa using hSplit
      simp
    · split at hSplit
      · obtain ⟨rfl, rfl⟩ : _ ∧ _ := by simpa using hSplit
        simp
      · exact chars_append_of_splitSign? hSplit

/-- No lexeme is empty. -/
theorem chars_ne_nil_of_split? {text rest : List Char} {lexeme : Lexeme}
    (hSplit : split? text = some (lexeme, rest)) : lexeme.chars ≠ [] := by
  cases text with
  | nil => simp [split?] at hSplit
  | cons c more =>
    simp only [split?] at hSplit
    split at hSplit
    · obtain ⟨rfl, rfl⟩ : _ ∧ _ := by simpa using hSplit
      simp
    · split at hSplit
      · obtain ⟨rfl, rfl⟩ : _ ∧ _ := by simpa using hSplit
        simp
      · exact chars_ne_nil_of_splitSign? hSplit

/-- Cutting a lexeme off leaves a shorter text. -/
theorem length_lt_of_split? {text rest : List Char} {lexeme : Lexeme}
    (hSplit : split? text = some (lexeme, rest)) : rest.length < text.length := by
  have hChars := List.length_pos_iff.2 (chars_ne_nil_of_split? hSplit)
  rw [← chars_append_of_split? hSplit, List.length_append]
  omega

end Lexeme

end ChecklistLogic
