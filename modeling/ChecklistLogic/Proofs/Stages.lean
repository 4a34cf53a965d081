import ChecklistLogic.Proofs.Columns
import ChecklistLogic.Proofs.Outcome
import Mathlib.Computability.RegularExpressions

/-!
# ChecklistLogic — why a cell is not translated

A cell is read first and written afterwards, and writing can fail for one reason only: the field has
no legal name. So an illegal field comes to light only where the text is beyond reproach, and no
choice of options and no text makes the writing of an accepted cell fail. In particular nothing ever
lacks a fallback, because a cell that has been read holds at least one rule and a single rule has
the fallback score behind it.

* `FormField.namePattern` is the regular expression `[A-Za-z_][A-Za-z0-9_.-]*`, and
  `FormField.isLegalName_iff_matches` says that the legal names are its words.
* `Translator.exists_scoringCalculation` — for a legal field a calculation is written, whatever has
  been read and whatever is given to fall back on.
* `ScoringLogic.ofText_ne_form` and `Translator.readSkipRule_ne_form` — reading knows of no field.

Main result: `Translator.fails_in_stages`.
-/

namespace ChecklistLogic

open Form

-- ---------------------------------------------------------------------------
-- Legal names
-- ---------------------------------------------------------------------------

namespace FormField

/-- The characters from one to another, both of them included. -/
def between (first last : Char) : List Char :=
  (List.range' first.toNat (last.toNat + 1 - first.toNat)).map Char.ofNat

/-- The words of one character, which is among those given. -/
def oneOf (chars : List Char) : RegularExpression Char :=
  (chars.map RegularExpression.char).sum

/-- The names that fields may have: `[A-Za-z_][A-Za-z0-9_.-]*`. -/
def namePattern : RegularExpression Char :=
  oneOf (between 'A' 'Z' ++ between 'a' 'z' ++ ['_']) *
    (oneOf (between 'A' 'Z' ++ between 'a' 'z' ++ between '0' '9' ++ ['_', '.', '-'])).star

theorem mem_between_iff {first last c : Char} (hAscii : last.toNat < 128) :
    c ∈ between first last ↔ first.toNat ≤ c.toNat ∧ c.toNat ≤ last.toNat := by
  unfold between
  rw [List.mem_map]
  constructor
  · rintro ⟨n, hRange, rfl⟩
    obtain ⟨hFirst, hLast⟩ := List.mem_range'_1.1 hRange
    have hValid : n.isValidChar := .inl (by omega)
    have hNumber : (Char.ofNat n).toNat = n := by
      unfold Char.ofNat
      rw [dif_pos hValid]
      rfl
    omega
  · rintro ⟨hFirst, hLast⟩
    exact ⟨c.toNat, List.mem_range'_1.2 ⟨hFirst, by omega⟩, Char.ofNat_toNat c⟩

theorem mem_oneOf_iff {chars word : List Char} :
    word ∈ (oneOf chars).matches' ↔ ∃ c ∈ chars, word = [c] := by
  induction chars with
  | nil => simp [oneOf, Language.notMem_zero]
  | cons c rest ih =>
    have hSum : oneOf (c :: rest) = .char c + oneOf rest := List.sum_cons
    have hWord : word ∈ (RegularExpression.char c).matches' ↔ word = [c] := Iff.rfl
    rw [hSum, RegularExpression.matches'_add, Language.mem_add, hWord, ih, List.exists_mem_cons_iff]

theorem mem_star_oneOf_iff {chars word : List Char} :
    word ∈ (oneOf chars).star.matches' ↔ ∀ c ∈ word, c ∈ chars := by
  rw [RegularExpression.matches'_star, Language.mem_kstar]
  constructor
  · rintro ⟨parts, rfl, hParts⟩ c hMem
    obtain ⟨part, hPart, hInside⟩ := List.mem_flatten.1 hMem
    obtain ⟨own, hOwn, rfl⟩ := mem_oneOf_iff.1 (hParts part hPart)
    rwa [List.mem_singleton.1 hInside]
  · intro hChars
    refine ⟨word.map fun c => [c], ?_, ?_⟩
    · rw [← List.flatMap_def, List.flatMap_singleton']
    · intro part hPart
      obtain ⟨c, hMem, rfl⟩ := List.mem_map.1 hPart
      exact mem_oneOf_iff.2 ⟨c, hChars c hMem, rfl⟩

theorem isAlpha_iff {c : Char} :
    c.isAlpha = true ↔ c ∈ between 'A' 'Z' ∨ c ∈ between 'a' 'z' := by
  have hAlpha : c.isAlpha = (decide ('A'.val ≤ c.val ∧ c.val ≤ 'Z'.val) ||
      (decide ('a'.val ≤ c.val) && decide (c.val ≤ 'z'.val))) := rfl
  rw [hAlpha, mem_between_iff (by decide), mem_between_iff (by decide)]
  simp [UInt32.le_iff_toNat_le]

theorem isDigit_iff {c : Char} : c.isDigit = true ↔ c ∈ between '0' '9' := by
  rw [mem_between_iff (by decide), Char.isDigit_iff_toNat]

/-- The classes of characters that names are made of, as the regular expression spells them. -/
theorem isNameStart_iff {c : Char} :
    isNameStart c = true ↔ c ∈ between 'A' 'Z' ++ between 'a' 'z' ++ ['_'] := by
  simp [isNameStart, isAlpha_iff, or_assoc]

theorem isNamePart_iff {c : Char} :
    isNamePart c = true ↔
      c ∈ between 'A' 'Z' ++ between 'a' 'z' ++ between '0' '9' ++ ['_', '.', '-'] := by
  simp [isNamePart, Char.isAlphanum, isAlpha_iff, isDigit_iff, or_assoc]

/-- The legal names are the words of the pattern. -/
theorem isLegalName_iff_matches {name : String} :
    isLegalName name = true ↔ name.toList ∈ namePattern.matches' := by
  unfold isLegalName namePattern
  rw [RegularExpression.matches'_mul, Language.mem_mul]
  constructor
  · intro hLegal
    cases hName : name.toList with
    | nil => simp [hName] at hLegal
    | cons first rest =>
      simp only [hName, Bool.and_eq_true, List.all_eq_true] at hLegal
      obtain ⟨hFirst, hRest⟩ := hLegal
      exact ⟨[first], mem_oneOf_iff.2 ⟨first, isNameStart_iff.1 hFirst, rfl⟩, rest,
        mem_star_oneOf_iff.2 fun c hMem => isNamePart_iff.1 (hRest c hMem), rfl⟩
  · rintro ⟨start, hStart, rest, hRest, hName⟩
    obtain ⟨first, hFirst, rfl⟩ := mem_oneOf_iff.1 hStart
    rw [← hName]
    simp only [List.cons_append, List.nil_append, Bool.and_eq_true, List.all_eq_true]
    exact ⟨isNameStart_iff.2 hFirst, fun c hMem =>
      isNamePart_iff.2 (mem_star_oneOf_iff.1 hRest c hMem)⟩

end FormField

-- ---------------------------------------------------------------------------
-- Reading knows of no field
-- ---------------------------------------------------------------------------

theorem Clause.ofText_ne_form {text : String} {cause : FormError} :
    (Clause.ofText text).mapError LogicError.lex ≠ .error (.form cause) := by
  intro hError
  obtain ⟨e, -, hSame⟩ := Except.mapError_eq_error_iff.1 hError
  cases hSame

theorem ScoringRule.ofClause_ne_form {policy : Policy} {clause : Clause} {cause : FormError} :
    ScoringRule.ofClause policy clause ≠ .error (.form cause) := by
  unfold ofClause
  cases Rule.ofClause clause with
  | error e => simp
  | ok rule =>
    cases rule with
    | skip rule => simp
    | scoring rule => cases hValid : rule.condition.violation? policy <;> simp [hValid]

/-- No text is refused as scoring logic on account of a field. -/
theorem ScoringLogic.ofText_ne_form {policy : Policy} {text : String} {cause : FormError} :
    ofText policy text ≠ .error (.form cause) := by
  intro hError
  rcases Except.bind_eq_error_iff.1 hError with hLex | ⟨clause, -, hRules⟩
  · exact Clause.ofText_ne_form hLex
  · obtain ⟨-, piece, -, -, -, hPiece⟩ :=
      Except.mapM_eq_error_iff.1 (Except.map_eq_error_iff.1 hRules)
    exact ScoringRule.ofClause_ne_form hPiece

namespace Translator

variable {t : Translator} {text fieldName : String} {cause : FormError}

theorem readRule_ne_form : t.readRule text ≠ .error (.form cause) := by
  intro hError
  rcases Except.bind_eq_error_iff.1 hError with hLex | ⟨clause, -, hRule⟩
  · exact Clause.ofText_ne_form hLex
  · rcases Except.bind_eq_error_iff.1 hRule with hParse | ⟨rule, -, hRest⟩
    · obtain ⟨e, -, hSame⟩ := Except.mapError_eq_error_iff.1 hParse
      cases hSame
    · rcases Except.bind_eq_error_iff.1 hRest with hValid | ⟨-, -, hDone⟩
      · obtain ⟨violation, -, hSame⟩ := Except.mapError_eq_error_iff.1 hValid
        cases hSame
      · cases hDone

/-- What a skip cell holds is a valid rule of its family. -/
theorem readSkipRule_eq_ok_iff {rule : SkipRule} :
    t.readSkipRule text = .ok rule ↔ t.readRule text = .ok (.skip rule) := by
  refine ⟨fun hSkip => ?_, readSkipRule_of_skip⟩
  cases hRule : t.readRule text with
  | error e =>
    rw [readSkipRule_of_error hRule] at hSkip
    cases hSkip
  | ok found =>
    cases found with
    | scoring other =>
      obtain ⟨_, _, -, -, -, hRefused⟩ := readSkipRule_of_scoring hRule
      rw [hRefused] at hSkip
      cases hSkip
    | skip other =>
      rw [readSkipRule_of_skip hRule] at hSkip
      cases hSkip
      rfl

/-- No text is refused as a skip rule on account of a field. -/
theorem readSkipRule_ne_form : t.readSkipRule text ≠ .error (.form cause) := by
  intro hError
  cases hRule : t.readRule text with
  | error e =>
    rw [readSkipRule_of_error hRule] at hError
    cases hError
    exact readRule_ne_form hRule
  | ok found =>
    cases found with
    | scoring other =>
      obtain ⟨_, _, -, -, -, hRefused⟩ := readSkipRule_of_scoring hRule
      rw [hRefused] at hError
      cases hError
    | skip other =>
      rw [readSkipRule_of_skip hRule] at hError
      cases hError

-- ---------------------------------------------------------------------------
-- Writing what has been read
-- ---------------------------------------------------------------------------

/-- For a legal field a calculation is written, whatever has been read: there is at least one rule,
and a single one has the fallback score behind it. -/
theorem exists_scoringCalculation {logic : ScoringLogic} (field : FormField)
    (hRead : t.readLogic text = .ok logic) (otherwise : Option Expr) :
    ∃ e, t.scoringCalculation text field.name otherwise = .ok e := by
  cases otherwise with
  | some e => exact ⟨_, scoringCalculation_some hRead e⟩
  | none =>
    have hRules := (ScoringLogic.regular_of_ofText hRead).1
    obtain ⟨_, _, -, hOk, -⟩ := exists_firstMatch field hRead hRules
    exact ⟨_, hOk⟩

theorem scoringCalculation_of_not_legal {logic : ScoringLogic}
    (hRead : t.readLogic text = .ok logic) (hIllegal : FormField.isLegalName fieldName = false)
    (otherwise : Option Expr) :
    t.scoringCalculation text fieldName otherwise = .error (.form (.invalidField fieldName)) := by
  unfold scoringCalculation
  rw [hRead]
  show (logic.calculation t.options fieldName (otherwise <|> t.fallback? logic)).mapError _ = _
  rw [ScoringLogic.calculation_of_not_legal hIllegal]
  rfl

theorem scoringCalculation_of_error {e : LogicError} (hRead : t.readLogic text = .error e)
    (otherwise : Option Expr) : t.scoringCalculation text fieldName otherwise = .error e := by
  unfold scoringCalculation
  rw [hRead]
  rfl

theorem scoringCalculation_eq_form_iff (otherwise : Option Expr) :
    t.scoringCalculation text fieldName otherwise = .error (.form cause) ↔
      (∃ logic, t.readLogic text = .ok logic) ∧ FormField.isLegalName fieldName = false ∧
        cause = .invalidField fieldName := by
  cases hRead : t.readLogic text with
  | error e =>
    rw [scoringCalculation_of_error hRead]
    constructor
    · intro hError
      cases hError
      exact absurd hRead ScoringLogic.ofText_ne_form
    · rintro ⟨⟨logic, hOk⟩, -⟩
      cases hOk
  | ok logic =>
    cases hLegal : FormField.isLegalName fieldName with
    | false =>
      rw [scoringCalculation_of_not_legal hRead hLegal]
      simp [eq_comm]
    | true =>
      obtain ⟨e, hOk⟩ := exists_scoringCalculation ⟨fieldName, hLegal⟩ hRead otherwise
      rw [show t.scoringCalculation text fieldName otherwise = .ok e from hOk]
      simp

theorem scoringCalculation_isOk_iff (otherwise : Option Expr) :
    (∃ e, t.scoringCalculation text fieldName otherwise = .ok e) ↔
      (∃ logic, t.readLogic text = .ok logic) ∧ FormField.isLegalName fieldName = true := by
  cases hRead : t.readLogic text with
  | error e =>
    rw [scoringCalculation_of_error hRead]
    simp
  | ok logic =>
    cases hLegal : FormField.isLegalName fieldName with
    | false =>
      rw [scoringCalculation_of_not_legal hRead hLegal]
      simp
    | true => simpa using exists_scoringCalculation ⟨fieldName, hLegal⟩ hRead otherwise

-- ---------------------------------------------------------------------------
-- Cells
-- ---------------------------------------------------------------------------

/-- Whether the text of a cell is one that its column can hold: scoring logic, or a valid skip
rule. -/
def Accepts (t : Translator) (cell : LogicCell) : Prop :=
  match cell.column with
  | .scoring => ∃ logic, t.readLogic cell.text = .ok logic
  | .skip => ∃ rule, t.readRule cell.text = .ok (.skip rule)

variable {row : UInt64}

theorem translateCell_scoring :
    t.translateCell ⟨row, .scoring, fieldName, text⟩ =
      (fun e => ⟨row, .scoring, fieldName, e.render, none⟩) <$>
        t.scoringCalculation text fieldName none := by
  unfold translateCell cellContent
  simp only
  cases t.scoringCalculation text fieldName none <;> rfl

/-- A skip rule is written unless the field is illegal. -/
theorem translateCell_skip_of_not_legal {rule : SkipRule}
    (hRule : t.readSkipRule text = .ok rule) (hIllegal : FormField.isLegalName fieldName = false) :
    t.translateCell ⟨row, .skip, fieldName, text⟩ =
      .error (.form (.invalidField fieldName)) := by
  have hCondition : (Rule.skip rule).condition t.options fieldName =
      .error (.invalidField fieldName) := by
    unfold Rule.condition
    rw [FormField.ofName_of_not_legal hIllegal]
    rfl
  unfold translateCell cellContent
  simp only [hRule]
  show _ <$> (((Rule.skip rule).condition t.options fieldName).mapError LogicError.form >>= _) = _
  rw [hCondition]
  rfl

theorem translateCell_isOk_iff {cell : LogicCell} :
    (∃ translated, t.translateCell cell = .ok translated) ↔
      t.Accepts cell ∧ FormField.isLegalName cell.fieldName = true := by
  obtain ⟨row, column, fieldName, text⟩ := cell
  cases column with
  | scoring =>
    show _ ↔ (∃ logic, t.readLogic text = .ok logic) ∧ _
    rw [translateCell_scoring, ← scoringCalculation_isOk_iff none]
    simp [Except.map_eq_ok_iff]
  | skip =>
    show _ ↔ (∃ rule, t.readRule text = .ok (.skip rule)) ∧ _
    simp only [← readSkipRule_eq_ok_iff]
    cases hRule : t.readSkipRule text with
    | error e =>
      rw [translateCell_skip_of_error hRule]
      simp
    | ok rule =>
      cases hLegal : FormField.isLegalName fieldName with
      | false =>
        rw [translateCell_skip_of_not_legal hRule hLegal]
        simp
      | true =>
        obtain ⟨condition, -, hOk⟩ := translateCell_skip_of_ok hRule ⟨fieldName, hLegal⟩
        simpa using ⟨_, hOk⟩

theorem translateCell_eq_form_iff {cell : LogicCell} :
    t.translateCell cell = .error (.form cause) ↔
      t.Accepts cell ∧ FormField.isLegalName cell.fieldName = false ∧
        cause = .invalidField cell.fieldName := by
  obtain ⟨row, column, fieldName, text⟩ := cell
  cases column with
  | scoring =>
    show _ ↔ (∃ logic, t.readLogic text = .ok logic) ∧ _
    rw [translateCell_scoring, Except.map_eq_error_iff, scoringCalculation_eq_form_iff]
  | skip =>
    show _ ↔ (∃ rule, t.readRule text = .ok (.skip rule)) ∧ _
    simp only [← readSkipRule_eq_ok_iff]
    cases hRule : t.readSkipRule text with
    | error e =>
      rw [translateCell_skip_of_error hRule]
      constructor
      · intro hError
        cases hError
        exact absurd hRule readSkipRule_ne_form
      · rintro ⟨⟨rule, hOk⟩, -⟩
        cases hOk
    | ok rule =>
      cases hLegal : FormField.isLegalName fieldName with
      | false =>
        rw [translateCell_skip_of_not_legal hRule hLegal]
        simp [eq_comm]
      | true =>
        obtain ⟨translated, hOk⟩ : ∃ translated,
            t.translateCell ⟨row, .skip, fieldName, text⟩ = .ok translated := by
          obtain ⟨condition, -, hOk⟩ := translateCell_skip_of_ok hRule ⟨fieldName, hLegal⟩
          exact ⟨_, hOk⟩
        rw [hOk]
        simp

/--
**Cells fail in stages.** A calculation fails as its text does if that is not read, and a text is
never refused on account of a field. Once the text has been read, the calculation fails exactly if
the name of the field is no word of the pattern for names, and then for that reason. So whatever
the options and whatever is given to fall back on, a fallback is never missing. The same holds of
cells in both columns: a cell is translated exactly if its column can hold its text and its field is
legal, and it fails in writing exactly if its column can hold its text and its field is not legal.
-/
theorem fails_in_stages (t : Translator) (text fieldName : String) (otherwise : Option Expr) :
    (∀ e, t.readLogic text = .error e →
      t.scoringCalculation text fieldName otherwise = .error e ∧ ∀ cause, e ≠ .form cause) ∧
    (∀ logic, t.readLogic text = .ok logic →
      (t.scoringCalculation text fieldName otherwise = .error (.form (.invalidField fieldName)) ↔
        fieldName.toList ∉ FormField.namePattern.matches') ∧
      ((∃ e, t.scoringCalculation text fieldName otherwise = .ok e) ↔
        fieldName.toList ∈ FormField.namePattern.matches')) ∧
    t.scoringCalculation text fieldName otherwise ≠ .error (.form .missingFallback) ∧
    ∀ cell : LogicCell,
      t.translateCell cell ≠ .error (.form .missingFallback) ∧
      ((∃ translated, t.translateCell cell = .ok translated) ↔
        t.Accepts cell ∧ cell.fieldName.toList ∈ FormField.namePattern.matches') ∧
      ∀ cause, t.translateCell cell = .error (.form cause) ↔
        t.Accepts cell ∧ cell.fieldName.toList ∉ FormField.namePattern.matches' ∧
          cause = .invalidField cell.fieldName := by
  simp only [← FormField.isLegalName_iff_matches, Bool.not_eq_true]
  refine ⟨fun e hRead => ⟨scoringCalculation_of_error hRead otherwise, ?_⟩,
    fun logic hRead => ⟨?_, ?_⟩, ?_, fun cell => ⟨?_, translateCell_isOk_iff,
      fun cause => translateCell_eq_form_iff⟩⟩
  · rintro cause rfl
    exact ScoringLogic.ofText_ne_form hRead
  · rw [scoringCalculation_eq_form_iff]
    simp [hRead]
  · rw [scoringCalculation_isOk_iff]
    simp [hRead]
  · rw [ne_eq, scoringCalculation_eq_form_iff]
    rintro ⟨-, -, ⟨⟩⟩
  · rw [ne_eq, translateCell_eq_form_iff]
    rintro ⟨-, -, ⟨⟩⟩

/-- One rule with nothing to fall back on, for a field that is legal and for one that is not, and a
faulty text in both columns, where the field does not matter. -/
theorem fails_in_stages_single_rule :
    (∃ e, scoringCalculation {} "If Y = Red" "_q.1" none = .ok e) ∧
    scoringCalculation {} "If Y = Red" "q:1" none = .error (.form (.invalidField "q:1")) ∧
    scoringCalculation {} "If Y = Red;" "q:1" none =
      .error (.parse ⟨11, .unterminated [.ifWord]⟩) ∧
    translateCell {} ⟨4, .skip, "q:1", "If Y, then Q2"⟩ =
      .error (.form (.invalidField "q:1")) := by
  have hRead : readLogic {} "If Y = Red" = .ok ⟨[⟨.common (.answer .yes), .red⟩]⟩ := by
    decide +kernel
  have hEnd : readLogic {} "If Y = Red;" = .error (.parse ⟨11, .unterminated [.ifWord]⟩) := by
    decide +kernel
  have hLegal : "_q.1".toList ∈ FormField.namePattern.matches' :=
    FormField.isLegalName_iff_matches.1 (by decide)
  have hIllegal : "q:1".toList ∉ FormField.namePattern.matches' :=
    fun hMatch => absurd (FormField.isLegalName_iff_matches.2 hMatch) (by decide)
  have hSkip : Accepts {} ⟨4, .skip, "q:1", "If Y, then Q2"⟩ :=
    ⟨⟨.answer .yes, ⟨2⟩⟩, by decide +kernel⟩
  refine ⟨((fails_in_stages {} "If Y = Red" "_q.1" none).2.1 _ hRead).2.2 hLegal,
    ((fails_in_stages {} "If Y = Red" "q:1" none).2.1 _ hRead).1.2 hIllegal,
    ((fails_in_stages {} "If Y = Red;" "q:1" none).1 _ hEnd).1, ?_⟩
  exact (((fails_in_stages {} "" "" none).2.2.2 ⟨4, .skip, "q:1", "If Y, then Q2"⟩).2.2 _).2
    ⟨hSkip, hIllegal, rfl⟩

end Translator

end ChecklistLogic
