import ChecklistLogic.Proofs.LeftNested
import ChecklistLogic.Proofs.Scanning
import ChecklistLogic.Translator
import Mathlib.Data.List.Induction

/-!
# ChecklistLogic — canonical text

What a rule becomes when its canonical text is read again. Every part of a canonical text scans as
tokens that spell the part, the comparisons being nested to the left (`Rule.scansAs_text`): behind
a number stands a blank, a percent sign, a dash or nothing, never a letter or a digit, so no lexeme
runs into the next one. `Rule.ofClause_eq_ok_iff` then says what is read.

Main results:

* `Rule.exists_clause_text` — the canonical text of a rule is read as the left-nested rule.
* `Rule.read_text` — so a rule survives exactly if its comparisons are nested to the left; what a
  translator has read once it reads again from the canonical text.
-/

namespace ChecklistLogic

-- ---------------------------------------------------------------------------
-- Lexemes of canonical text
-- ---------------------------------------------------------------------------

namespace Lexeme

/-- The digits of a number. -/
def number (n : UInt32) : Lexeme :=
  ⟨.digits, (Numeral.text n).toList⟩

/-- The name of a question. -/
def question (question : Question) : Lexeme :=
  ⟨.question, question.text.toList⟩

theorem isDigit_eq_false_of_isAlphanum {c : Char} (hApart : c.isAlphanum = false) :
    c.isDigit = false := by
  simp only [Char.isAlphanum, Bool.or_eq_false_iff] at hApart
  exact hApart.2

theorem exists_toList_number (n : UInt32) : ∃ first more, (Numeral.text n).toList = first :: more ∧
    first.isDigit = true ∧ ∀ c ∈ more, c.isDigit = true := by
  obtain ⟨first, more, hText⟩ := List.exists_cons_of_ne_nil (Numeral.toList_text_ne_nil n)
  have hDigits : ∀ c ∈ first :: more, c.isDigit = true := fun c hMem =>
    Numeral.isDigit_of_mem_text (hText ▸ hMem)
  exact ⟨first, more, hText, hDigits first (by simp), fun c hMem => hDigits c (by simp [hMem])⟩

theorem isWhole_number (n : UInt32) : (number n).IsWhole := by
  obtain ⟨first, more, hText, hFirst, hMore⟩ := exists_toList_number n
  unfold IsWhole number
  rw [hText]
  simp only [split?, isAlpha_eq_false_of_isDigit hFirst, hFirst, if_true, Bool.false_eq_true,
    if_false]
  rw [List.takeWhile_eq_self_iff.2 hMore, List.dropWhile_eq_nil_iff.2 hMore]

theorem growsWith_number (n : UInt32) (c : Char) : (number n).growsWith c = c.isDigit := by
  obtain ⟨first, more, hText, hFirst, -⟩ := exists_toList_number n
  unfold growsWith number
  rw [hText]
  simp [isAlpha_eq_false_of_isDigit hFirst, hFirst]

theorem isNumber_token (n : UInt32) (position : Nat) : ((number n).token position).IsNumber n := by
  refine ⟨rfl, ?_⟩
  show Numeral.read? (String.ofList (Numeral.text n).toList) = some n
  rw [String.ofList_toList, Numeral.read?_text]

theorem kind_ofWord_question (q : Question) : TokenKind.ofWord q.text = .question := by
  obtain ⟨first, more, hText, hFirst, hMore⟩ := exists_toList_number q.number
  have hChars : q.text.toList = 'Q' :: first :: more := by
    rw [Question.text, String.toList_append, hText]
    rfl
  -- no fixed word begins with `Q`
  have hOther : ∀ word : String, word.toList.head? ≠ some 'Q' → q.text ≠ word := by
    intro word hHead hSame
    rw [← hSame, hChars] at hHead
    exact hHead rfl
  have hAnswer : Answer.ofText? q.text = none := by
    refine Option.eq_none_iff_forall_ne_some.2 fun answer hFound => ?_
    exact hOther answer.text (by cases answer <;> decide) (Answer.ofText?_eq_some_iff.1 hFound)
  have hScore : Score.ofName? q.text = none := by
    refine Option.eq_none_iff_forall_ne_some.2 fun score hFound => ?_
    exact hOther score.name (by cases score <;> decide) (Score.ofName?_eq_some_iff.1 hFound)
  have hQuestion : isQuestionName q.text = true := by
    unfold isQuestionName
    rw [hChars]
    simpa [hFirst] using hMore
  unfold TokenKind.ofWord
  simp [hOther "If" (by decide), hOther "if" (by decide), hOther "then" (by decide),
    hOther "and" (by decide), hOther "or" (by decide), hAnswer, hScore, hQuestion]

theorem isWhole_question (q : Question) : (question q).IsWhole := by
  have hChars : q.text.toList = 'Q' :: (Numeral.text q.number).toList := by
    rw [Question.text, String.toList_append]
    rfl
  have hAlphanum : ∀ c ∈ (Numeral.text q.number).toList, c.isAlphanum = true := by
    intro c hMem
    simp [Char.isAlphanum, Numeral.isDigit_of_mem_text hMem]
  have hKind := kind_ofWord_question q
  rw [← String.ofList_toList (s := q.text), hChars] at hKind
  unfold IsWhole question
  rw [hChars, split?, if_pos (by decide), List.takeWhile_eq_self_iff.2 hAlphanum,
    List.dropWhile_eq_nil_iff.2 hAlphanum]
  simp only [hKind]

theorem isQuestion_token (q : Question) (position : Nat) :
    ((question q).token position).IsQuestion q := by
  refine ⟨rfl, Numeral.text q.number, ?_, ?_, Numeral.read?_text q.number⟩
  · rw [ne_eq, ← String.toList_inj]
    exact Numeral.toList_text_ne_nil q.number
  · show String.ofList q.text.toList = _
    rw [String.ofList_toList, Question.text]

end Lexeme

-- ---------------------------------------------------------------------------
-- What canonical text spells
-- ---------------------------------------------------------------------------

namespace ScansAs

/-- A number with a text behind it that starts neither with a letter nor with a digit. -/
theorem number_append {n : UInt32} {more : List Char} {after : List Token → Prop}
    (hMore : ScansAs more after) (hNonempty : more ≠ [])
    (hHead : ∀ c ∈ more.head?, c.isAlphanum = false) :
    ScansAs ((Numeral.text n).toList ++ more) fun tokens => ∃ (digits : Token) (back : List Token),
      digits.IsNumber n ∧ after back ∧ tokens = digits :: back := by
  have hApart : ∀ c ∈ more.head?, (Lexeme.number n).growsWith c = false := fun c hMem => by
    rw [Lexeme.growsWith_number, Lexeme.isDigit_eq_false_of_isAlphanum (hHead c hMem)]
  refine (lexeme_append (Lexeme.isWhole_number n) hMore hNonempty hApart).imp ?_
  rintro tokens ⟨position, back, hBack, rfl⟩
  exact ⟨_, back, Lexeme.isNumber_token n position, hBack, rfl⟩

theorem number (n : UInt32) :
    ScansAs (Numeral.text n).toList fun tokens =>
      ∃ digits : Token, digits.IsNumber n ∧ tokens = [digits] := by
  have hApart : ∀ c : Char, c.isAlphanum = false → (Lexeme.number n).growsWith c = false :=
    fun c hOther => by
      rw [Lexeme.growsWith_number, Lexeme.isDigit_eq_false_of_isAlphanum hOther]
  refine (lexeme (Lexeme.isWhole_number n) hApart).imp ?_
  rintro tokens ⟨position, rfl⟩
  exact ⟨_, Lexeme.isNumber_token n position, rfl⟩

end ScansAs

/-- The sign of a comparison with a text behind it that starts with a digit. -/
theorem Comparator.scansAs_sign_append (comparator : Comparator) {more : List Char}
    {after : List Token → Prop} (hMore : ScansAs more after) (hNonempty : more ≠ [])
    (hHead : ∀ c ∈ more.head?, c.isDigit = true) :
    ScansAs (comparator.sign.toList ++ more) fun tokens => ∃ (sign : Token) (back : List Token),
      sign.kind = .comparator comparator ∧ after back ∧ tokens = sign :: back := by
  have hWhole : Lexeme.IsWhole ⟨.comparator comparator, comparator.sign.toList⟩ := by
    cases comparator <;> rfl
  have hApart : ∀ c ∈ more.head?,
      Lexeme.growsWith ⟨.comparator comparator, comparator.sign.toList⟩ c = false := by
    intro c hMem
    have hDigit := hHead c hMem
    have hEquals : c ≠ '=' := by rintro rfl; exact absurd hDigit (by decide)
    have hLess : c ≠ '<' := by rintro rfl; exact absurd hDigit (by decide)
    cases comparator <;> simp [Lexeme.growsWith, Comparator.sign, hEquals, hLess]
  refine (ScansAs.lexeme_append hWhole hMore hNonempty hApart).imp ?_
  rintro tokens ⟨position, back, hBack, rfl⟩
  exact ⟨_, back, rfl, hBack, rfl⟩

theorem Comparison.scansAs_text (comparison : Comparison) :
    ScansAs comparison.text.toList comparison.Spelled := by
  obtain ⟨comparator, threshold, isPercent⟩ := comparison
  have hNonempty := Numeral.toList_text_ne_nil threshold
  have hHead : ∀ c ∈ (Numeral.text threshold).toList.head?, c.isDigit = true := fun c hMem =>
    Numeral.isDigit_of_mem_text (List.mem_of_head? hMem)
  cases isPercent with
  | false =>
    have hChars : (text ⟨comparator, threshold, false⟩).toList =
        comparator.sign.toList ++ (Numeral.text threshold).toList := by simp [text]
    rw [hChars]
    refine (comparator.scansAs_sign_append (.number threshold) hNonempty hHead).imp ?_
    rintro tokens ⟨sign, back, hSign, ⟨digits, hDigits, rfl⟩, rfl⟩
    exact .count hSign hDigits
  | true =>
    have hChars : (text ⟨comparator, threshold, true⟩).toList =
        comparator.sign.toList ++ ((Numeral.text threshold).toList ++ ['%']) := by simp [text]
    have hPercent : ScansAs ['%'] fun tokens =>
        ∃ position, tokens = [Lexeme.token ⟨.percent, ['%']⟩ position] :=
      .lexeme rfl fun _ _ => rfl
    have hDigits := ScansAs.number_append (n := threshold) hPercent (by simp) (by simp)
    rw [hChars]
    refine (comparator.scansAs_sign_append hDigits (by simp)
      (ScansAs.head_append hNonempty hHead _)).imp ?_
    rintro tokens ⟨sign, back, hSign, ⟨digits, last, hDigits, ⟨position, rfl⟩, rfl⟩, rfl⟩
    exact .percentage hSign hDigits rfl

/-- The word between two conditions, behind one blank and in front of another. -/
theorem Connective.scansAs_word_append (connective : Connective) {more : List Char}
    {after : List Token → Prop} (hMore : ScansAs more after) :
    ScansAs (' ' :: (connective.word.toList ++ ' ' :: more)) fun tokens =>
      ∃ (word : Token) (back : List Token),
        word.kind = .connective connective ∧ after back ∧ tokens = word :: back := by
  have hWhole : Lexeme.IsWhole ⟨.connective connective, connective.word.toList⟩ := by
    cases connective <;> rfl
  have hApart : ∀ c ∈ (' ' :: more).head?,
      Lexeme.growsWith ⟨.connective connective, connective.word.toList⟩ c = false := by
    rintro c ⟨⟩
    cases connective <;> rfl
  refine (ScansAs.lexeme_append hWhole (hMore.blank rfl) (by simp) hApart).blank rfl |>.imp ?_
  rintro tokens ⟨position, back, hBack, rfl⟩
  exact ⟨_, back, rfl, hBack, rfl⟩

/-- A tree whose joins associate to the left is spelled by its text. -/
theorem ComparisonTree.scansAs_text {tree : ComparisonTree} (hTree : tree.IsLeftNested) :
    ScansAs tree.text.toList tree.Spelled := by
  induction tree with
  | atom comparison => exact comparison.scansAs_text.imp fun _ hAtom => .atom hAtom
  | join connective left right ihLeft _ =>
    obtain ⟨hLeft, last, rfl⟩ := hTree
    have hChars : (text (.join connective left (.atom last))).toList =
        left.text.toList ++ ' ' :: (connective.word.toList ++ ' ' :: last.text.toList) := by
      simp [text]
    rw [hChars]
    refine ((ihLeft hLeft).append (connective.scansAs_word_append last.scansAs_text) (by simp)
      (by simp)).imp ?_
    rintro tokens ⟨front, back, hFront, ⟨word, rest, hWord, hLast, rfl⟩, rfl⟩
    exact .join hFront hWord hLast

theorem Selection.scansAs_optionText (option : UInt32) :
    ScansAs (optionText option).toList fun tokens => ∃ hash digits : Token,
      hash.kind = .hash ∧ digits.IsNumber option ∧ tokens = [hash, digits] := by
  have hChars : (optionText option).toList = ['#'] ++ (Numeral.text option).toList := by
    simp [optionText]
  have hApart : ∀ c ∈ (Numeral.text option).toList.head?,
      Lexeme.growsWith ⟨.hash, ['#']⟩ c = false := fun _ _ => rfl
  have hWhole : Lexeme.IsWhole ⟨.hash, ['#']⟩ := rfl
  rw [hChars]
  refine (ScansAs.lexeme_append hWhole (.number option) (Numeral.toList_text_ne_nil option)
    hApart).imp ?_
  rintro tokens ⟨position, back, ⟨digits, hDigits, rfl⟩, rfl⟩
  exact ⟨_, digits, rfl, hDigits, rfl⟩

theorem Selection.scansAs_text {options : List UInt32} (hOptions : options ≠ []) :
    ScansAs (text ⟨options⟩).toList (OptionsSpelled options) := by
  induction options using List.reverseRecOn with
  | nil => exact absurd rfl hOptions
  | append_singleton front last ih =>
    by_cases hFront : front = []
    · subst hFront
      refine (scansAs_optionText last).imp ?_
      rintro tokens ⟨hash, digits, hHash, hDigits, rfl⟩
      exact .single hHash hDigits
    · have hChars : (text ⟨front ++ [last]⟩).toList =
          (text ⟨front⟩).toList ++
            ' ' :: (Connective.or.word.toList ++ ' ' :: (optionText last).toList) := by
        have hMap : front.map optionText ≠ [] := by simpa using hFront
        simp only [text, List.map_append, List.map_cons, List.map_nil]
        rw [String.intercalate_append_of_ne_nil hMap (by simp)]
        simp [Connective.word]
      rw [hChars]
      refine ((ih hFront).append (Connective.or.scansAs_word_append (scansAs_optionText last))
        (by simp) (by simp)).imp ?_
      rintro tokens ⟨before, back, hBefore, ⟨word, rest, hWord, hLast, rfl⟩, rfl⟩
      obtain ⟨hash, digits, hHash, hDigits, rfl⟩ := hLast
      exact .more hBefore hWord hHash hDigits

theorem CountRange.scansAs_text (range : CountRange) :
    ScansAs range.text.toList range.Spelled := by
  have hChars : range.text.toList =
      (Numeral.text range.low).toList ++ (['-'] ++ (Numeral.text range.high).toList) := by
    simp [text]
  have hApart : ∀ c ∈ (Numeral.text range.high).toList.head?,
      Lexeme.growsWith ⟨.dash, ['-']⟩ c = false := fun _ _ => rfl
  have hWhole : Lexeme.IsWhole ⟨.dash, ['-']⟩ := rfl
  have hDash := ScansAs.lexeme_append hWhole (.number range.high)
    (Numeral.toList_text_ne_nil range.high) hApart
  rw [hChars]
  refine (ScansAs.number_append hDash (by simp) (by simp)).imp ?_
  rintro tokens ⟨low, back, hLow, ⟨position, rest, ⟨high, hHigh, rfl⟩, rfl⟩, rfl⟩
  exact ⟨low, _, high, hLow, rfl, hHigh, rfl⟩

/-- A condition of either kind, with its comparisons nested to the left. -/
theorem Condition.scansAs_text (condition : Condition) :
    ScansAs condition.text.toList condition.leftNested.Spelled := by
  cases condition with
  | answer answer =>
    have hWhole : Lexeme.IsWhole ⟨.answer, answer.text.toList⟩ := by cases answer <;> rfl
    have hApart : ∀ c : Char, c.isAlphanum = false →
        Lexeme.growsWith ⟨.answer, answer.text.toList⟩ c = false := by
      intro c hOther
      cases answer <;> exact hOther
    refine (ScansAs.lexeme hWhole hApart).imp ?_
    rintro tokens ⟨position, rfl⟩
    exact .answer rfl (by simp [Lexeme.token])
  | count n =>
    refine (ScansAs.number n).imp ?_
    rintro tokens ⟨digits, hDigits, rfl⟩
    exact .count hDigits
  | comparison tree =>
    rw [← text_leftNested]
    exact (ComparisonTree.scansAs_text tree.isLeftNested_leftNested).imp fun _ hTree =>
      .comparison hTree

theorem ScoringCondition.scansAs_text {condition : ScoringCondition}
    (hOptions : ∀ options, condition = .selection ⟨options⟩ → options ≠ []) :
    ScansAs condition.text.toList condition.leftNested.Spelled := by
  cases condition with
  | common c => exact c.scansAs_text.imp fun _ hCommon => .common hCommon
  | range r => exact r.scansAs_text.imp fun _ hRange => .range hRange
  | selection s =>
    exact (Selection.scansAs_text (hOptions s.options rfl)).imp fun _ hSelection =>
      .selection hSelection

/-- What stands in a rule behind the blank that ends its first word. -/
theorem ScansAs.rule {body : List Char} {spelled : List Token → Prop}
    (hBody : ScansAs body spelled) : ScansAs ("If".toList ++ ' ' :: body) fun tokens =>
      ∃ (word : Token) (rest : List Token),
        word.kind = .ifWord ∧ spelled rest ∧ tokens = word :: rest := by
  have hWhole : Lexeme.IsWhole ⟨.ifWord, "If".toList⟩ := rfl
  refine (lexeme_append hWhole (hBody.blank rfl) (by simp) (by rintro c ⟨⟩; rfl)).imp ?_
  rintro tokens ⟨position, rest, hRest, rfl⟩
  exact ⟨_, rest, rfl, hRest, rfl⟩

theorem ScoringRule.scansAs_text {rule : ScoringRule} (hOptions : (Rule.scoring rule).HasOptions) :
    ScansAs rule.text.toList (Rule.scoring rule).leftNested.Spelled := by
  obtain ⟨condition, target⟩ := rule
  have hCondition : ScansAs condition.text.toList condition.leftNested.Spelled := by
    refine ScoringCondition.scansAs_text ?_
    rintro options rfl
    exact hOptions ⟨options⟩ rfl
  have hWholeName : Lexeme.IsWhole ⟨.score, target.name.toList⟩ := by cases target <;> rfl
  have hName := ScansAs.lexeme hWholeName fun c hOther => by cases target <;> exact hOther
  have hWholeEquals : Lexeme.IsWhole ⟨.equals, ['=']⟩ := rfl
  have hEquals := ScansAs.lexeme_append hWholeEquals (hName.blank (c := ' ') rfl) (by simp)
    (by rintro c ⟨⟩; rfl)
  have hBody := hCondition.append (hEquals.blank (c := ' ') rfl) (by simp) (by simp)
  have hChars : (text ⟨condition, target⟩).toList = "If".toList ++ ' ' :: (condition.text.toList ++
      ' ' :: (['='] ++ ' ' :: target.name.toList)) := by simp [text]
  rw [hChars]
  refine hBody.rule.imp ?_
  rintro tokens ⟨word, rest, hWord, ⟨front, back, hFront, hBack, rfl⟩, rfl⟩
  obtain ⟨place, last, ⟨position, rfl⟩, rfl⟩ := hBack
  exact .scoring hWord hFront rfl rfl (by simp [Lexeme.token])

theorem SkipRule.scansAs_text (rule : SkipRule) :
    ScansAs rule.text.toList (Rule.skip rule).leftNested.Spelled := by
  obtain ⟨condition, target⟩ := rule
  have hName := ScansAs.lexeme (Lexeme.isWhole_question target) fun c hOther => by
    have hFirst : target.text.toList = 'Q' :: (Numeral.text target.number).toList := by
      rw [Question.text, String.toList_append]
      rfl
    unfold Lexeme.growsWith Lexeme.question
    rw [hFirst]
    exact hOther
  have hWholeThen : Lexeme.IsWhole ⟨.thenWord, "then".toList⟩ := rfl
  have hThen := ScansAs.lexeme_append hWholeThen (hName.blank (c := ' ') rfl) (by simp)
    (by rintro c ⟨⟩; rfl)
  have hWholeComma : Lexeme.IsWhole ⟨.comma, [',']⟩ := rfl
  have hComma := ScansAs.lexeme_append hWholeComma (hThen.blank (c := ' ') rfl) (by simp)
    (by rintro c ⟨⟩; rfl)
  have hBody := condition.scansAs_text.append hComma (by simp) (by simp)
  have hChars : (text ⟨condition, target⟩).toList = "If".toList ++ ' ' :: (condition.text.toList ++
      ([','] ++ ' ' :: ("then".toList ++ ' ' :: target.text.toList))) := by simp [text]
  rw [hChars]
  refine hBody.rule.imp ?_
  rintro tokens ⟨word, rest, hWord, ⟨front, back, hFront, hBack, rfl⟩, rfl⟩
  obtain ⟨comma, others, ⟨thenWord, last, ⟨position, rfl⟩, rfl⟩, rfl⟩ := hBack
  exact .skip hWord hFront rfl rfl (Lexeme.isQuestion_token target position)

/-- The canonical text of a rule spells the rule with its comparisons nested to the left. -/
theorem Rule.scansAs_text {rule : Rule} (hOptions : rule.HasOptions) :
    ScansAs rule.text.toList rule.leftNested.Spelled := by
  cases rule with
  | scoring rule => exact ScoringRule.scansAs_text hOptions
  | skip rule => exact rule.scansAs_text

-- ---------------------------------------------------------------------------
-- Reading canonical text
-- ---------------------------------------------------------------------------

/-- The canonical text of a rule is a clause that is read as the left-nested rule. -/
theorem Rule.exists_clause_text {rule : Rule} (hOptions : rule.HasOptions) :
    ∃ clause, Clause.ofText rule.text = .ok clause ∧
      Rule.ofClause clause = .ok rule.leftNested := by
  obtain ⟨clause, hClause, hSpelled⟩ := (Rule.scansAs_text hOptions).ofText
  exact ⟨clause, hClause, Rule.ofClause_eq_ok_iff.2 hSpelled⟩

/-- A translator reads the rule that the clause of a text makes up, if that rule is valid. -/
theorem Translator.readRule_eq_ok_iff {t : Translator} {text : String} {rule : Rule} :
    t.readRule text = .ok rule ↔ ∃ clause, Clause.ofText text = .ok clause ∧
      Rule.ofClause clause = .ok rule ∧ rule.validate t.policy = .ok () := by
  unfold readRule ruleOfClause
  constructor
  · intro hRead
    obtain ⟨clause, hClause, hRule⟩ := Except.bind_eq_ok_iff.1 hRead
    obtain ⟨found, hFound, hValid⟩ := Except.bind_eq_ok_iff.1 hRule
    obtain ⟨valid, hUnit, hSame⟩ := Except.bind_eq_ok_iff.1 hValid
    cases hSame
    exact ⟨clause, Except.mapError_eq_ok_iff.1 hClause, Except.mapError_eq_ok_iff.1 hFound,
      Except.mapError_eq_ok_iff.1 hUnit⟩
  · rintro ⟨clause, hClause, hRule, hValid⟩
    simp only [hClause, Except.mapError, bind, Except.bind, hRule, hValid]
    rfl

/--
**Canonical text reads back up to nesting to the left.** The text of a rule that has options where
it selects is read without failure, and as the rule in which the comparisons associate to the left.
That is the rule itself exactly if no right operand among its comparisons is a join; it is written
in the same way, and validated with the same outcome under every policy. A rule that a translator
has read from some text is read again from its own text.
-/
theorem Rule.read_text (rule : Rule) :
    (rule.HasOptions → ∃ tokens, Token.ofText rule.text = .ok tokens ∧
      Rule.ofTokens tokens = .ok rule.leftNested) ∧
    (rule.leftNested = rule ↔ rule.IsLeftNested) ∧
    rule.leftNested.text = rule.text ∧
    (∀ policy : Policy, rule.leftNested.validate policy = rule.validate policy) ∧
    ∀ (t : Translator) (text : String), t.readRule text = .ok rule →
      t.readRule rule.text = .ok rule := by
  refine ⟨fun hOptions => ?_, rule.leftNested_eq_self_iff, rule.text_leftNested,
    fun policy => rule.validate_leftNested policy, fun t text hRead => ?_⟩
  · obtain ⟨clause, hClause, hRule⟩ := Rule.exists_clause_text hOptions
    obtain ⟨tokens, hTokens, rfl⟩ := Except.map_eq_ok_iff.1 hClause
    exact ⟨tokens, hTokens, hRule⟩
  · obtain ⟨_, _, hRule, hValid⟩ := Translator.readRule_eq_ok_iff.1 hRead
    have hSpelled := Rule.ofClause_eq_ok_iff.1 hRule
    obtain ⟨clause, hClause, hAgain⟩ := Rule.exists_clause_text hSpelled.hasOptions
    rw [rule.leftNested_eq_self_iff.2 hSpelled.isLeftNested] at hAgain
    exact Translator.readRule_eq_ok_iff.2 ⟨clause, hClause, hAgain, hValid⟩

/-- A selection of two options reads back as it is. -/
theorem Rule.read_text_two_options :
    ∃ tokens, Token.ofText (Rule.scoring ⟨.selection ⟨[2, 3]⟩, .red⟩).text = .ok tokens ∧
      Rule.ofTokens tokens = .ok (.scoring ⟨.selection ⟨[2, 3]⟩, .red⟩) := by
  refine (Rule.read_text (.scoring ⟨.selection ⟨[2, 3]⟩, .red⟩)).1 ?_
  rintro selection ⟨⟩
  simp

end ChecklistLogic
