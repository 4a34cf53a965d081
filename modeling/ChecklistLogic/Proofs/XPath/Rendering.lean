import ChecklistLogic.Proofs.XPath.Term

/-!
# ChecklistLogic — form expressions read back

The text of a form expression, read as an XPath expression, gives the tree of the expression back.

* **Brackets** — the grammar lets an operand stand without brackets if its level is high enough.
  `render` brackets an operand if it is a join, except a left operand with the connective of its
  parent; both connectives are below every relation, and the left operand of an operator may have
  the level of that operator.
* **Foreign text** — an expression that is given by its text is no operand of a connective, since
  `render` would not bracket it. Elsewhere it may be any expression.

Main results:

* `Form.Expr.Shows.exists_tokens` — the tokens of the text write the tree, at every level up to
  that of the expression.
* `Form.Expr.Shows.ofText?_render` — so the text is read as that tree.
* `Written.mentions` — the fields among the tokens are those in the tree.
-/

namespace ChecklistLogic

open Form XPath

-- ---------------------------------------------------------------------------
-- The tree of an expression
-- ---------------------------------------------------------------------------

namespace XPath

/-- A choice of the field is selected. -/
def Term.selected (field : FormField) (choice : String) : Term :=
  .call "selected" [.field field, .literal choice]

/-- The number of chosen answers. -/
def Term.selectedCount (field : FormField) : Term :=
  .call "count-selected" [.field field]

/-- The answer as a number. -/
def Term.numberOf (field : FormField) : Term :=
  .call "number" [.field field]

/-- One of two expressions, depending on a condition. -/
def Term.branch (condition consequent alternative : Term) : Term :=
  .call "if" [condition, consequent, alternative]

end XPath

namespace Form

/-- The tree that takes a measure of a field. -/
def Measure.term (field : FormField) : Measure → Term
  | .selectedCount => .selectedCount field
  | .number => .numberOf field

/-- An expression that is given by its text. -/
def Expr.IsVerbatim : Expr → Prop
  | .verbatim _ => True
  | _ => False

/-- The trees that expressions show. Texts in quotes have no apostrophe, and what is given by its
text is readable. -/
inductive Expr.Shows : Expr → Term → Prop where
  | selected {field : FormField} {choice : String} (hChoice : NoApostrophe choice) :
      Shows (.selected field choice) (.selected field choice)
  | compare {measure : Measure} {field : FormField} {relation : Relation} {bound : Hundredths} :
      Shows (.compare measure field relation bound)
        (.binary (.relation relation) (measure.term field) (.number (hundredthsValue bound)))
  | not {body : Expr} {term : Term} (hBody : Shows body term) :
      Shows (.not body) (.call "not" [term])
  | join {connective : Connective} {left right : Expr} {leftTerm rightTerm : Term}
      (hLeft : Shows left leftTerm) (hRight : Shows right rightTerm)
      (hLeftOwn : ¬ left.IsVerbatim) (hRightOwn : ¬ right.IsVerbatim) :
      Shows (.join connective left right) (.binary (.connective connective) leftTerm rightTerm)
  | branch {condition consequent alternative : Expr}
      {conditionTerm consequentTerm alternativeTerm : Term}
      (hCondition : Shows condition conditionTerm) (hConsequent : Shows consequent consequentTerm)
      (hAlternative : Shows alternative alternativeTerm) :
      Shows (.branch condition consequent alternative)
        (.branch conditionTerm consequentTerm alternativeTerm)
  | quoted {text : String} (hText : NoApostrophe text) : Shows (.quoted text) (.literal text)
  | verbatim {text : String} {term : Term} (hText : Term.ofText? text = some term) :
      Shows (.verbatim text) term

/-- The highest level of an operand as which an expression may stand. -/
def Expr.level : Expr → Nat
  | .join connective _ _ => (Operator.connective connective).level
  | .compare _ _ relation _ => (Operator.relation relation).level
  | .verbatim _ => 0
  | _ => unaryLevel

theorem Expr.connective_lt_level {e : Expr} (hJoin : e.needsBracketsOnRight = false)
    (hOwn : ¬ e.IsVerbatim) (connective : Connective) :
    (Operator.connective connective).level + 1 ≤ e.level := by
  have hLow : (Operator.connective connective).level ≤ 1 := by
    cases connective <;> decide
  cases e with
  | join => cases hJoin
  | verbatim => exact absurd trivial hOwn
  | compare measure field relation bound =>
    have hHigh : 2 ≤ (Operator.relation relation).level := by
      cases relation <;> simp [Operator.level]
    show _ ≤ (Operator.relation relation).level
    omega
  | selected | not | branch | quoted =>
    show _ ≤ unaryLevel
    unfold unaryLevel
    omega

/-- A left operand without brackets binds at least as tightly as its connective. -/
theorem Expr.connective_le_level {e : Expr} {connective : Connective}
    (hBare : e.needsBracketsLeftOf connective = false) (hOwn : ¬ e.IsVerbatim) :
    (Operator.connective connective).level ≤ e.level := by
  cases e with
  | join own left right =>
    have hSame : own = connective := by simpa [needsBracketsLeftOf] using hBare
    rw [hSame]
    exact le_rfl
  | _ => exact Nat.le_of_succ_le (connective_lt_level rfl hOwn connective)

end Form

-- ---------------------------------------------------------------------------
-- Tokens of a rendered expression
-- ---------------------------------------------------------------------------

namespace Form.Expr

theorem closes_opening : Closes "(" [.opening] := rfl

theorem closes_closing : Closes ")" [.closing] := rfl

theorem closes_comma : Closes ", " [.comma] := rfl

theorem closes_blank : Closes " " [] := rfl

/-- A text in brackets, or without them. -/
theorem exists_tokens_bracketIf {e : Expr} {term : Term} {tokens : List XPath.Token}
    {level : Nat} {needed : Bool} (hScans : Scans e.render tokens)
    (hWritten : ∀ lower ≤ e.level, Written (.operand lower term) tokens)
    (hBare : needed = false → level ≤ e.level) :
    ∃ own, Scans (bracketIf needed e.render) own ∧ Written (.operand level term) own := by
  cases needed with
  | false => exact ⟨tokens, hScans, hWritten level (hBare rfl)⟩
  | true =>
    have hText := (closes_opening.append_scans hScans).append closes_closing ⟨_, rfl, rfl⟩
    exact ⟨_, hText.scans, .group (hWritten 0 (Nat.zero_le _))⟩

/-- The text of an expression gives tokens that write its tree. -/
theorem Shows.exists_tokens {e : Expr} {term : Term} (hShows : e.Shows term) :
    ∃ tokens, Scans e.render tokens ∧
      ∀ level ≤ e.level, Written (.operand level term) tokens := by
  induction hShows with
  | @selected field choice hChoice =>
    have hName : Closes "selected(" [.name "selected", .opening] := rfl
    have hText := (((hName.append (closes_reference field)).append closes_comma).append
      (closes_quote hChoice)).append closes_closing
    refine ⟨_, hText.scans, fun level _ => ?_⟩
    exact .call (.more (.single (.field field)) (.literal choice))
  | @compare measure field relation bound =>
    -- the bound may leave its last digit pending, all before it ends clearly
    have hName : Scans measure.function [.name measure.function] := by cases measure <;> rfl
    have hSign : Scans relation.sign [.sign (.relation relation)] := by
      cases relation with
      | equal => rfl
      | order comparator => cases comparator <;> rfl
    have hClose : Closes ") " [.closing] := rfl
    have hCall := ((hName.append closes_opening ⟨_, rfl, rfl⟩).append
      (closes_reference field)).append hClose
    have hText := ((hCall.append_scans hSign).append closes_blank ⟨_, rfl, rfl⟩).append_scans
      (scans_hundredths bound)
    refine ⟨_, hText, fun level hLevel => ?_⟩
    have hMeasure : ∀ own, Written (.operand own (measure.term field))
        [.name measure.function, .opening, .field field, .closing] := by
      intro own
      cases measure <;> exact .call (.single (.field field))
    have hOperator : XPath.Token.operator? (.sign (.relation relation)) =
        some (.relation relation) := rfl
    have hCompared := Written.binary hLevel hOperator (hMeasure _) (.number (hundredthsValue bound))
    simpa using hCompared
  | @not body term _ ih =>
    obtain ⟨tokens, hScans, hWritten⟩ := ih
    have hName : Closes "not(" [.name "not", .opening] := rfl
    have hText := (hName.append_scans hScans).append closes_closing ⟨_, rfl, rfl⟩
    refine ⟨_, hText.scans, fun level _ => ?_⟩
    exact .call (.single (hWritten 0 (Nat.zero_le _)))
  | @join connective left right leftTerm rightTerm _ _ hLeftOwn hRightOwn ihLeft ihRight =>
    obtain ⟨leftTokens, hScansLeft, hWrittenLeft⟩ := ihLeft
    obtain ⟨rightTokens, hScansRight, hWrittenRight⟩ := ihRight
    -- a left operand may have the level of its connective, a right operand has to be above it
    obtain ⟨front, hFront, hFrontWritten⟩ := exists_tokens_bracketIf hScansLeft hWrittenLeft
      fun hBare => connective_le_level hBare hLeftOwn
    obtain ⟨back, hBack, hBackWritten⟩ := exists_tokens_bracketIf hScansRight hWrittenRight
      fun hBare => connective_lt_level hBare hRightOwn connective
    have hWord : Scans connective.word [.name connective.word] := by cases connective <;> rfl
    have hText := ((((hFront.append closes_blank ⟨_, rfl, rfl⟩).append_scans hWord).append
      closes_blank ⟨_, rfl, rfl⟩).append_scans hBack)
    refine ⟨_, hText, fun level hLevel => ?_⟩
    have hJoined := Written.binary hLevel (Token.operator?_word connective) hFrontWritten
      hBackWritten
    simpa using hJoined
  | @branch condition consequent alternative _ _ _ _ _ _ ihCondition ihConsequent ihAlternative =>
    obtain ⟨first, hFirst, hFirstWritten⟩ := ihCondition
    obtain ⟨second, hSecond, hSecondWritten⟩ := ihConsequent
    obtain ⟨third, hThird, hThirdWritten⟩ := ihAlternative
    have hName : Closes "if(" [.name "if", .opening] := rfl
    have hOne := (hName.append_scans hFirst).append closes_comma ⟨_, rfl, rfl⟩
    have hTwo := hOne.append_scans hSecond
    have hText := ((hTwo.append closes_comma ⟨_, rfl, rfl⟩).append_scans hThird).append
      closes_closing ⟨_, rfl, rfl⟩
    refine ⟨_, hText.scans, fun level _ => ?_⟩
    have hArguments := Written.more (.more (.single (hFirstWritten 0 (Nat.zero_le _)))
      (hSecondWritten 0 (Nat.zero_le _))) (hThirdWritten 0 (Nat.zero_le _))
    have hCall : Written (.operand level (.call "if" _)) _ := .call hArguments
    simpa [Term.branch] using hCall
  | @quoted text hText => exact ⟨_, (closes_quote hText).scans, fun _ _ => .literal text⟩
  | @verbatim text term hText =>
    -- foreign text is written at the lowest level, which is its own
    obtain ⟨tokens, hTokens, hRead⟩ := Option.bind_eq_some_iff.1 hText
    refine ⟨tokens, hTokens, fun level hLevel => ?_⟩
    obtain rfl : level = 0 := Nat.le_zero.1 hLevel
    exact Term.ofTokens?_eq_some_iff.1 hRead

/-- The text of an expression is read as the tree that the expression shows. -/
theorem Shows.ofText?_render {e : Expr} {term : Term} (hShows : e.Shows term) :
    Term.ofText? e.render = some term := by
  obtain ⟨tokens, hScans, hWritten⟩ := hShows.exists_tokens
  have hRead := Term.ofTokens?_eq_some_iff.2 (hWritten 0 (Nat.zero_le _))
  unfold Term.ofText?
  rw [hScans]
  exact hRead

end Form.Expr

-- ---------------------------------------------------------------------------
-- Fields
-- ---------------------------------------------------------------------------

namespace XPath

/-- The field stands somewhere in the tree. -/
inductive Term.Mentions (field : FormField) : Term → Prop where
  | field : Mentions field (.field field)
  | negate {operand : Term} (hOperand : Mentions field operand) : Mentions field (.negate operand)
  | left {operator : Operator} {left right : Term} (hLeft : Mentions field left) :
      Mentions field (.binary operator left right)
  | right {operator : Operator} {left right : Term} (hRight : Mentions field right) :
      Mentions field (.binary operator left right)
  | argument {function : String} {arguments : List Term} {argument : Term}
      (hMem : argument ∈ arguments) (hArgument : Mentions field argument) :
      Mentions field (.call function arguments)

/-- The field stands somewhere in the phrase. -/
def Phrase.Mentions (field : FormField) : Phrase → Prop
  | .operand _ term => term.Mentions field
  | .arguments terms => ∃ term ∈ terms, term.Mentions field

/-- A field among the tokens of a phrase stands in the phrase. -/
theorem Written.mentions {phrase : Phrase} {tokens : List Token} {field : FormField}
    (hWritten : Written phrase tokens) (hMem : .field field ∈ tokens) : phrase.Mentions field := by
  induction hWritten with
  | literal | number | callEmpty => simp at hMem
  | field other =>
    obtain rfl : field = other := by simpa using hMem
    exact .field
  | group _ ih => exact ih (by simpa using hMem)
  | negate _ _ ih => exact .negate (ih (by simpa using hMem))
  | @binary level operator left right front back sign hLevel hSign _ _ ihLeft ihRight =>
    -- the sign between the operands is an operator and no field
    have hNotSign : Token.field field ≠ sign := by
      rintro rfl
      cases hSign
    rcases List.mem_append.1 hMem with hFront | hBack
    · exact .left (ihLeft hFront)
    · exact .right (ihRight ((List.mem_cons.1 hBack).resolve_left hNotSign))
  | call _ ih =>
    obtain ⟨term, hTerm, hMentions⟩ := ih (by simpa using hMem)
    exact .argument hTerm hMentions
  | single _ ih => exact ⟨_, by simp, ih hMem⟩
  | @more arguments term front back _ _ ihFront ihBack =>
    have hParts : .field field ∈ front ∨ .field field ∈ back := by simpa using hMem
    rcases hParts with hFront | hBack
    · obtain ⟨argument, hArgument, hMentions⟩ := ihFront hFront
      exact ⟨argument, by simp [hArgument], hMentions⟩
    · exact ⟨term, by simp, ihBack hBack⟩

end XPath

end ChecklistLogic
