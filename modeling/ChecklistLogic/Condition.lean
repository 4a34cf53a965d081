import ChecklistLogic.Comparison

/-!
# ChecklistLogic — conditions

What a rule may ask of the answers to a question. `Condition` holds the conditions that both kinds
of rule share; a scoring rule may also ask for a range of counts or for chosen answer options
(`ScoringCondition`).

Each type has a `text`, the condition as it is written in a rule.
-/

namespace ChecklistLogic

/-- The answer to a yes/no question. -/
inductive Answer where
  | yes
  | no
  deriving DecidableEq

/-- An answer as it is written in a rule. -/
def Answer.text : Answer → String
  | .yes => "Y"
  | .no => "N"

/-- The answer that a rule writes as the given text, if there is one. -/
def Answer.ofText? (text : String) : Option Answer :=
  [Answer.yes, Answer.no].find? fun answer => answer.text = text

@[simp]
theorem Answer.ofText?_text (answer : Answer) : Answer.ofText? answer.text = some answer := by
  cases answer <;> simp [ofText?, text]

theorem Answer.ofText?_eq_some_iff {text : String} {answer : Answer} :
    Answer.ofText? text = some answer ↔ text = answer.text := by
  constructor
  · intro hFound
    have hText := List.find?_some hFound
    simpa using (of_decide_eq_true hText).symm
  · rintro rfl
    exact Answer.ofText?_text answer

/-- A number of chosen answers between two bounds, both of them allowed. -/
structure CountRange where
  low : UInt32
  high : UInt32
  deriving DecidableEq

/-- A range as it is written, such as `3-5`. -/
def CountRange.text (range : CountRange) : String :=
  Numeral.text range.low ++ "-" ++ Numeral.text range.high

/-- Answer options of which at least one is to be chosen, in the order in which they are written.
Options are counted from one. -/
structure Selection where
  options : List UInt32
  deriving DecidableEq

namespace Selection

/-- An answer option as it is written, such as `#2`. -/
def optionText (option : UInt32) : String :=
  "#" ++ Numeral.text option

/-- A selection as it is written, such as `#2 or #3`. -/
def text (selection : Selection) : String :=
  String.intercalate " or " (selection.options.map optionText)

/-- Allows one more option. -/
def or (selection : Selection) (option : UInt32) : Selection :=
  ⟨selection.options ++ [option]⟩

end Selection

/-- A condition that either kind of rule may have. -/
inductive Condition where
  /-- A yes/no question has this answer. -/
  | answer (answer : Answer)
  /-- Exactly this many answers are chosen. -/
  | count (number : UInt32)
  /-- The tree of comparisons holds. -/
  | comparison (tree : ComparisonTree)
  deriving DecidableEq

/-- A condition as it is written. -/
def Condition.text : Condition → String
  | .answer a => a.text
  | .count n => Numeral.text n
  | .comparison tree => tree.text

/-- A condition that a scoring rule may have. -/
inductive ScoringCondition where
  /-- A condition that skip rules know too. -/
  | common (condition : Condition)
  /-- The number of chosen answers lies in the range. -/
  | range (range : CountRange)
  /-- At least one of the options is chosen. -/
  | selection (selection : Selection)
  deriving DecidableEq

/-- A condition as it is written. -/
def ScoringCondition.text : ScoringCondition → String
  | .common c => c.text
  | .range r => r.text
  | .selection s => s.text

end ChecklistLogic
