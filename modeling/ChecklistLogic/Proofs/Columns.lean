import ChecklistLogic.Cell
import ChecklistLogic.Proofs.RuleTexts

/-!
# ChecklistLogic — columns

A skip cell holds a rule of one family and a scoring cell rules of the other. A rule in the wrong
column is refused at the token that tells its family, of which there is exactly one, so that the
refusal never has to fall back on another place.

The columns look at family and validity in different orders. A skip cell is read as a valid rule
before its family is asked for; in a scoring cell a skip rule is refused before it is asked whether
it is valid.

* `Translator.readSkipRule_of_scoring` — a scoring rule in a skip cell.
* `ScoringLogic.ofText_of_skip` — a skip rule in a scoring cell.

Main result: `Translator.translateCell_by_family`.
-/

namespace ChecklistLogic

open Form

/-- The token that tells the family of a rule is the one that is found, whatever else would be
reported if there were none. -/
theorem Rule.exists_sole_of_ofClause {clause : Clause} {rule : Rule}
    (hRule : Rule.ofClause clause = .ok rule) :
    ∃ token : Token, token.IsSole clause.tokens ∧ token.kind = rule.sign ∧
      (∀ fallback, (clause.tokens.find? (·.kind = rule.sign)).getD fallback = token) ∧
      ∀ expected, (clause.dropTo rule.sign).refusal expected =
        ⟨token.position, .unexpected expected token.text⟩ := by
  obtain ⟨token, hSole, hKind⟩ := (Rule.ofClause_eq_ok_iff.1 hRule).exists_sole
  have hFound := hSole.find?_eq
  have hRefusal := hSole.refusal_dropTo
  rw [hKind] at hFound hRefusal
  refine ⟨token, hSole, hKind, fun fallback => ?_, hRefusal⟩
  rw [hFound]
  rfl

-- ---------------------------------------------------------------------------
-- The skip column
-- ---------------------------------------------------------------------------

namespace Translator

variable {t : Translator} {row : UInt64} {text fieldName : String}

theorem readSkipRule_of_error {e : LogicError} (hError : t.readRule text = .error e) :
    t.readSkipRule text = .error e := by
  unfold readSkipRule
  rw [Except.bind_eq_error_iff]
  rcases Except.bind_eq_error_iff.1 hError with hLex | ⟨clause, hClause, hRule⟩
  · exact .inl hLex
  · refine .inr ⟨clause, hClause, ?_⟩
    rw [hRule]
    rfl

theorem readSkipRule_of_skip {rule : SkipRule} (hRule : t.readRule text = .ok (.skip rule)) :
    t.readSkipRule text = .ok rule := by
  obtain ⟨clause, hClause, hOwn⟩ := Except.bind_eq_ok_iff.1 hRule
  unfold readSkipRule
  rw [hClause]
  show t.ruleOfClause clause >>= _ = _
  rw [hOwn]
  rfl

/-- A scoring rule in a skip cell is refused at the only `=` of its text. -/
theorem readSkipRule_of_scoring {rule : ScoringRule}
    (hRule : t.readRule text = .ok (.scoring rule)) : ∃ tokens, ∃ equals : Token,
      Token.ofText text = .ok tokens ∧ equals.IsSole tokens ∧ equals.kind = .equals ∧
      t.readSkipRule text =
        .error (.parse ⟨equals.position, .unexpected [.comma] "="⟩) := by
  obtain ⟨clause, hLex, hOwn⟩ := Except.bind_eq_ok_iff.1 hRule
  obtain ⟨found, hRead, hValid⟩ := Except.bind_eq_ok_iff.1 hOwn
  obtain ⟨-, -, hSame⟩ := Except.bind_eq_ok_iff.1 hValid
  cases hSame
  have hScan := Clause.ofText_eq_ok_iff.1 (Except.mapError_eq_ok_iff.1 hLex)
  obtain ⟨equals, hSole, hKind, -, hRefusal⟩ :=
    Rule.exists_sole_of_ofClause (Except.mapError_eq_ok_iff.1 hRead)
  have hText : equals.text = "=" := by
    have hSpelling := (hScan.exists_of_mem hSole.mem).1
    rw [hKind] at hSpelling
    exact String.toList_inj.1 hSpelling
  refine ⟨_, equals, Token.ofText_of_scan hScan, hSole.append ?_, hKind, ?_⟩
  · rw [hKind, List.forall_mem_singleton]
    exact TokenKind.noConfusion
  · unfold readSkipRule
    rw [hLex]
    show t.ruleOfClause clause >>= _ = _
    rw [hOwn]
    show Except.error (LogicError.parse ((clause.dropTo .equals).refusal [.comma])) = _
    rw [← hText]
    exact congrArg (Except.error ∘ LogicError.parse) (hRefusal [.comma])

theorem translateCell_skip_of_error {e : LogicError} (hError : t.readSkipRule text = .error e) :
    t.translateCell ⟨row, .skip, fieldName, text⟩ = .error e := by
  unfold translateCell cellContent
  simp only [hError]
  rfl

/-- A condition is written for every legal name. -/
theorem translateCell_skip_of_ok {rule : SkipRule} (hRule : t.readSkipRule text = .ok rule)
    (field : FormField) : ∃ condition,
      (Rule.skip rule).condition t.options field.name = .ok condition ∧
      t.translateCell ⟨row, .skip, field.name, text⟩ =
        .ok ⟨row, .skip, field.name, condition.render, some rule.target⟩ := by
  have hCondition : (Rule.skip rule).condition t.options field.name =
      .ok ((Rule.skip rule).conditionExpr t.options field) := by
    unfold Rule.condition
    rw [FormField.ofName_name]
    rfl
  refine ⟨_, hCondition, ?_⟩
  unfold translateCell cellContent
  simp only [hRule]
  show _ <$> (((Rule.skip rule).condition t.options field.name).mapError LogicError.form >>= _) = _
  rw [hCondition]
  rfl

end Translator

-- ---------------------------------------------------------------------------
-- The scoring column
-- ---------------------------------------------------------------------------

/-- If the first sentence that fails makes up a skip rule, the cell is refused at its only comma. -/
theorem ScoringLogic.ofText_of_skip {policy : Policy} {text : String} {tokens : List Token}
    {before after : List Sentence} {sentence : Sentence} {rule : SkipRule}
    (hTokens : Token.ofText text = .ok tokens)
    (hSentences : sentences text = before ++ sentence :: after)
    (hBefore : ∀ earlier ∈ before, ∃ own, earlier.Yields policy (.ok own))
    (hSkip : Rule.ofText sentence.text = .ok (.skip rule)) :
    ∃ front back : String, sentence.text = front ++ "," ++ back ∧
      ',' ∉ front.toList ∧ ',' ∉ back.toList ∧ ScoringLogic.ofText policy text =
        .error (.parse ⟨sentence.offset + front.utf8ByteSize, .unexpected [.equals] ","⟩) := by
  obtain ⟨own, hScan, hSpelled⟩ := Rule.ofText_eq_ok_iff.1 hSkip
  have hRule : Rule.ofClause ⟨own, sentence.text.utf8ByteSize⟩ = .ok (.skip rule) :=
    Rule.ofClause_eq_ok_iff.2 hSpelled
  obtain ⟨front, back, hText, hFront, hBack, -⟩ :=
    SkipRule.exists_refusal (Clause.ofText_of_scan hScan) hRule [.equals]
  refine ⟨front, back, hText, hFront, hBack, ?_⟩
  rw [ScoringLogic.ofText_eq_mapM hTokens, Except.map_eq_error_iff, Except.mapM_eq_error_iff]
  simp only [Sentence.read_eq_iff]
  exact ⟨before, sentence, after, hSentences, hBefore, .skip hSkip hText hFront⟩

namespace Translator

variable {t : Translator} {row : UInt64} {text fieldName : String}

theorem translateCell_scoring_of_error {e : LogicError} (hError : t.readLogic text = .error e) :
    t.translateCell ⟨row, .scoring, fieldName, text⟩ = .error e := by
  unfold translateCell cellContent scoringCalculation
  simp only [hError]
  rfl

theorem target_of_translateCell_scoring {translated : TranslatedCell}
    (hCell : t.translateCell ⟨row, .scoring, fieldName, text⟩ = .ok translated) :
    translated.target = none := by
  obtain ⟨content, hContent, rfl⟩ := Except.map_eq_ok_iff.1 hCell
  obtain ⟨expression, -, hDone⟩ := Except.bind_eq_ok_iff.1 hContent
  cases hDone
  rfl

-- ---------------------------------------------------------------------------
-- Both columns
-- ---------------------------------------------------------------------------

/--
**A cell is translated by the family of its rules.** A skip cell fails as its text does when it is
read as a valid rule. If that gives a scoring rule, the cell is refused at the only `=` token of the
text, whatever the field; if it gives a skip rule and the field has a legal name, the cell becomes
the condition of that rule and its target. A scoring cell never has a target. If the first of its
sentences that fails makes up a skip rule, valid or not, the cell is refused at the only comma of
that sentence.

Whatever clause a rule is read from, the token that tells its family is found there, so no place to
fall back on is ever reported.
-/
theorem translateCell_by_family (t : Translator) (row : UInt64) (text fieldName : String) :
    (∀ e, t.readRule text = .error e →
      t.translateCell ⟨row, .skip, fieldName, text⟩ = .error e) ∧
    (∀ rule, t.readRule text = .ok (.scoring rule) → ∃ tokens, ∃ equals : Token,
      Token.ofText text = .ok tokens ∧ equals.IsSole tokens ∧ equals.kind = .equals ∧
      t.translateCell ⟨row, .skip, fieldName, text⟩ =
        .error (.parse ⟨equals.position, .unexpected [.comma] "="⟩)) ∧
    (∀ rule, t.readRule text = .ok (.skip rule) → ∀ field : FormField, ∃ condition,
      (Rule.skip rule).condition t.options field.name = .ok condition ∧
      t.translateCell ⟨row, .skip, field.name, text⟩ =
        .ok ⟨row, .skip, field.name, condition.render, some rule.target⟩) ∧
    (∀ translated, t.translateCell ⟨row, .scoring, fieldName, text⟩ = .ok translated →
      translated.target = none) ∧
    (∀ tokens before sentence after rule, Token.ofText text = .ok tokens →
      sentences text = before ++ sentence :: after →
      (∀ earlier ∈ before, ∃ own, earlier.Yields t.policy (.ok own)) →
      Rule.ofText sentence.text = .ok (.skip rule) →
      ∃ front back : String, sentence.text = front ++ "," ++ back ∧
        ',' ∉ front.toList ∧ ',' ∉ back.toList ∧
        t.translateCell ⟨row, .scoring, fieldName, text⟩ =
          .error (.parse ⟨sentence.offset + front.utf8ByteSize, .unexpected [.equals] ","⟩)) ∧
    ∀ (clause : Clause) (rule : Rule), Rule.ofClause clause = .ok rule →
      ∃ token : Token, token.IsSole clause.tokens ∧ token.kind = rule.sign ∧
        (∀ fallback, (clause.tokens.find? (·.kind = rule.sign)).getD fallback = token) ∧
        ∀ expected, (clause.dropTo rule.sign).refusal expected =
          ⟨token.position, .unexpected expected token.text⟩ := by
  refine ⟨fun e hError => translateCell_skip_of_error (readSkipRule_of_error hError),
    fun rule hRule => ?_,
    fun rule hRule field => translateCell_skip_of_ok (readSkipRule_of_skip hRule) field,
    fun translated hCell => target_of_translateCell_scoring hCell,
    fun tokens before sentence after rule hTokens hSentences hBefore hSkip => ?_,
    fun clause rule hRule => Rule.exists_sole_of_ofClause hRule⟩
  · obtain ⟨tokens, equals, hTokens, hSole, hKind, hRefused⟩ := readSkipRule_of_scoring hRule
    exact ⟨tokens, equals, hTokens, hSole, hKind, translateCell_skip_of_error hRefused⟩
  · obtain ⟨front, back, hText, hFront, hBack, hLogic⟩ :=
      ScoringLogic.ofText_of_skip hTokens hSentences hBefore hSkip
    exact ⟨front, back, hText, hFront, hBack, translateCell_scoring_of_error hLogic⟩

/-- A text that ends too early, and a rule in the wrong and one in the right column on either side.
The question of the refused skip rule is not valid, but that is not looked at. -/
theorem translateCell_by_family_both_columns :
    translateCell {} ⟨2, .skip, "", "If Y"⟩ =
      .error (.parse ⟨4, .unterminated [.equals, .comma]⟩) ∧
    translateCell {} ⟨3, .skip, "", "If >=3 = Green"⟩ =
      .error (.parse ⟨7, .unexpected [.comma] "="⟩) ∧
    (∃ expression, translateCell {} ⟨4, .skip, "Q1", "If Y, then Q3"⟩ =
      .ok ⟨4, .skip, "Q1", expression, some ⟨3⟩⟩) ∧
    (∃ translated, translateCell {} ⟨5, .scoring, "Q1", "If Y = Red"⟩ = .ok translated ∧
      translated.target = none) ∧
    translateCell {} ⟨6, .scoring, "", "If Y = Red; If N, then Q0"⟩ =
      .error (.parse ⟨16, .unexpected [.equals] ","⟩) := by
  refine ⟨?_, ?_, ?_, ?_, ?_⟩
  · have hError : readRule {} "If Y" = .error (.parse ⟨4, .unterminated [.equals, .comma]⟩) := by
      decide +kernel
    exact (translateCell_by_family {} 2 "If Y" "").1 _ hError
  · have hRule : readRule {} "If >=3 = Green" =
        .ok (.scoring ⟨.common (.comparison (.atom ⟨.atLeast, 3, false⟩)), .green⟩) := by
      decide +kernel
    have hTokens : Token.ofText "If >=3 = Green" = .ok [⟨.ifWord, "If", 0⟩,
        ⟨.comparator .atLeast, ">=", 3⟩, ⟨.digits, "3", 5⟩, ⟨.equals, "=", 7⟩,
        ⟨.score, "Green", 9⟩, .endAt 14] := by
      decide +kernel
    obtain ⟨tokens, equals, hSame, hSole, hKind, hCell⟩ :=
      (translateCell_by_family {} 3 "If >=3 = Green" "").2.1 _ hRule
    rw [hTokens] at hSame
    cases hSame
    have hFound := hSole.find?_eq
    rw [hKind] at hFound
    cases hFound
    exact hCell
  · have hRule : readRule {} "If Y, then Q3" = .ok (.skip ⟨.answer .yes, ⟨3⟩⟩) := by
      decide +kernel
    obtain ⟨condition, -, hCell⟩ := (translateCell_by_family {} 4 "If Y, then Q3" "Q1").2.2.1 _
      hRule ⟨"Q1", rfl⟩
    exact ⟨condition.render, hCell⟩
  · have hOk : (translateCell {} ⟨5, .scoring, "Q1", "If Y = Red"⟩).isOk = true := by
      decide +kernel
    cases hCell : translateCell {} ⟨5, .scoring, "Q1", "If Y = Red"⟩ with
    | error e =>
      rw [hCell] at hOk
      cases hOk
    | ok translated =>
      exact ⟨translated, rfl,
        (translateCell_by_family {} 5 "If Y = Red" "Q1").2.2.2.1 translated hCell⟩
  · have hTokens : Token.ofText "If Y = Red; If N, then Q0" = .ok [⟨.ifWord, "If", 0⟩,
        ⟨.answer, "Y", 3⟩, ⟨.equals, "=", 5⟩, ⟨.score, "Red", 7⟩, ⟨.semicolon, ";", 10⟩,
        ⟨.ifWord, "If", 12⟩, ⟨.answer, "N", 15⟩, ⟨.comma, ",", 16⟩, ⟨.thenWord, "then", 18⟩,
        ⟨.question, "Q0", 23⟩, .endAt 25] := by
      decide +kernel
    have hSentences : sentences "If Y = Red; If N, then Q0" =
        [⟨0, "If Y = Red"⟩] ++ ⟨11, " If N, then Q0"⟩ :: [] := by
      decide +kernel
    have hFirst : Sentence.Yields {} ⟨0, "If Y = Red"⟩ (.ok ⟨.common (.answer .yes), .red⟩) :=
      .rule (by decide +kernel) (by decide)
    have hSkip : Rule.ofText " If N, then Q0" = .ok (.skip ⟨.answer .no, ⟨0⟩⟩) := by
      decide +kernel
    obtain ⟨front, back, hText, hFront, -, hCell⟩ :=
      (translateCell_by_family {} 6 "If Y = Red; If N, then Q0" "").2.2.2.2.1 _ _ _ _ _ hTokens
        hSentences (List.forall_mem_singleton.2 ⟨_, hFirst⟩) hSkip
    have hComma : " If N, then Q0" = " If N" ++ "," ++ " then Q0" := rfl
    rw [Sentence.front_unique hText hFront hComma (by decide)] at hCell
    exact hCell

end Translator

end ChecklistLogic
