/-!
# ChecklistLogic — numbers with two decimal places

Expressions compare with whole numbers and with hundredths. `Hundredths.text` writes such a number
exactly, without trailing zeros and without a point if it is whole.
-/

namespace ChecklistLogic.Form

/-- A number given as a count of hundredths. -/
structure Hundredths where
  count : Nat
  deriving DecidableEq

namespace Hundredths

/-- A whole number. -/
def whole (n : Nat) : Hundredths :=
  ⟨100 * n⟩

/-- The decimal places of a number below one, without trailing zeros. -/
def places (count : Nat) : String :=
  if count = 0 then ""
  else if count % 10 = 0 then "." ++ toString (count / 10)
  else if count < 10 then ".0" ++ toString count
  else "." ++ toString count

/-- A number in the fewest decimal digits. -/
def text (n : Hundredths) : String :=
  toString (n.count / 100) ++ places (n.count % 100)

@[simp]
theorem text_whole (n : Nat) : (whole n).text = toString n := by
  simp [text, whole, places]

end Hundredths

end ChecklistLogic.Form
