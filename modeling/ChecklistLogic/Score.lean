/-!
# ChecklistLogic — scores

The four outcomes a scoring rule can give, with the two names each of them has: the name written
in rule text and the choice name used in the generated form.

* `Score.ofName` reads exactly the four written names (`ofName_eq_ok_iff`) and refuses every
  other text with an `UnknownScore`.
-/

namespace ChecklistLogic

/-- The outcome a scoring rule gives to a checklist question. -/
inductive Score where
  | gray
  | green
  | red
  | yellow
  deriving DecidableEq

/-- A text that is not the name of a score. -/
structure UnknownScore where
  text : String
  deriving DecidableEq

/-- The report of a text that is not the name of a score. -/
def UnknownScore.message (e : UnknownScore) : String :=
  "unknown cee score '" ++ e.text ++ "'"

namespace Score

/-- Every score, in alphabetical order. -/
def all : List Score := [.gray, .green, .red, .yellow]

/-- The name of a score in rule text; case matters. -/
def name : Score → String
  | .gray => "Gray"
  | .green => "Green"
  | .red => "Red"
  | .yellow => "Yellow"

/-- The choice that stands for a score in the generated form. -/
def choiceName : Score → String
  | .gray => "gray"
  | .green => "green"
  | .red => "red"
  | .yellow => "yellow"

/-- The score with the given written name, if there is one. -/
def ofName? (text : String) : Option Score :=
  all.find? fun score => score.name = text

/-- Reads the written name of a score. -/
def ofName (text : String) : Except UnknownScore Score :=
  match ofName? text with
  | some score => .ok score
  | none => .error ⟨text⟩

theorem mem_all (score : Score) : score ∈ all := by
  cases score <;> simp [all]

@[simp]
theorem ofName?_name (score : Score) : ofName? score.name = some score := by
  cases score <;> simp [ofName?, all, name]

theorem ofName?_eq_some_iff {text : String} {score : Score} :
    ofName? text = some score ↔ text = score.name := by
  constructor
  · intro hFound
    have hName := List.find?_some hFound
    simpa using (of_decide_eq_true hName).symm
  · rintro rfl
    exact ofName?_name score

theorem ofName_eq_ok_iff {text : String} {score : Score} :
    ofName text = .ok score ↔ text = score.name := by
  rw [← ofName?_eq_some_iff, ofName]
  cases ofName? text <;> simp

end Score

end ChecklistLogic
