import ChecklistLogic.Numeral

/-!
# ChecklistLogic — form fields

A field is a question of the form by its name. Inside an expression it is referred to by a dollar
sign and the name in braces, so only certain names are legal.

* `FormField.ofName?` accepts exactly the legal names (`isSome_ofName?`).
* A legal name consists of `isNamePart` characters (`isNamePart_of_mem_name`).
* `optionChoice` names the choice of an answer option.
-/

namespace ChecklistLogic

namespace FormField

/-- Whether a name may begin with this character: an ASCII letter or an underscore. -/
def isNameStart (c : Char) : Bool :=
  c.isAlpha || c = '_'

/-- Whether a name may go on with this character: an ASCII letter or digit, an underscore, a full
stop or a hyphen. -/
def isNamePart (c : Char) : Bool :=
  c.isAlphanum || c = '_' || c = '.' || c = '-'

/-- Whether a field may have this name. -/
def isLegalName (name : String) : Bool :=
  match name.toList with
  | [] => false
  | first :: rest => isNameStart first && rest.all isNamePart

end FormField

/-- A form question with a legal name. -/
structure FormField where
  name : String
  legal : FormField.isLegalName name = true
  deriving DecidableEq

namespace FormField

/-- The field of a name, if the name is legal. -/
def ofName? (name : String) : Option FormField :=
  if hLegal : isLegalName name = true then some ⟨name, hLegal⟩ else none

/-- How an expression refers to a field. -/
def reference (field : FormField) : String :=
  "$\x7b" ++ field.name ++ "\x7d"

@[simp]
theorem ofName?_name (field : FormField) : ofName? field.name = some field := by
  unfold ofName?
  rw [dif_pos field.legal]

/-- Every character of a legal name may stand inside a name. -/
theorem isNamePart_of_mem_name (field : FormField) {c : Char} (hMem : c ∈ field.name.toList) :
    isNamePart c = true := by
  have hLegal := field.legal
  unfold isLegalName at hLegal
  cases hName : field.name.toList with
  | nil => simp [hName] at hMem
  | cons first rest =>
    simp only [hName, Bool.and_eq_true, List.all_eq_true] at hLegal
    obtain ⟨hFirst, hRest⟩ := hLegal
    rw [hName] at hMem
    rcases List.mem_cons.1 hMem with rfl | hInRest
    · simp only [isNameStart, Bool.or_eq_true] at hFirst
      rcases hFirst with hAlpha | hUnderscore
      · simp [isNamePart, Char.isAlphanum, hAlpha]
      · simp [isNamePart, hUnderscore]
    · exact hRest c hInRest

end FormField

/-- The choice that stands for an answer option of the question with the given name. -/
def optionChoice (name : String) (option : UInt32) : String :=
  name ++ "_" ++ Numeral.text option

end ChecklistLogic
