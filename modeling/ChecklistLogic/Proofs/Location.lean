import ChecklistLogic.Cell
import ChecklistLogic.Proofs.Grammar
import ChecklistLogic.Proofs.Tokens

/-!
# ChecklistLogic — where errors stand

Every offset that is reported is a place of the text that was read, and what the report names stands
there: the foreign character, the token that no rule can have at its place, the digits that are too
many. Only a rule that ends too early is reported at an end, which is that of the text or, where
rules are separated by semicolons, a semicolon.

The argument goes along the data:

* **Tokens** — a token of a text stands at its position (`Token.StandsIn`), and so do the tokens of
  each piece of a clause; the end of a piece is the end of the text or a semicolon
  (`Clause.StandsIn.pieces`).
* **Steps** — reading stops at the first token that is refused (`Draft.exists_refused_of_read`), and
  refusing a token blames it (`Draft.Refuses.blames`), hence reading a clause blames one of its
  tokens or its end (`Clause.blames_of_ofClause`).
* **Stages** — the first stage that fails is one of these, or it reports no place.

Main result: `Translator.error_isLocated`.
-/

namespace ChecklistLogic

-- ---------------------------------------------------------------------------
-- Places of a text
-- ---------------------------------------------------------------------------

/-- Whether a part of a text stands behind that many bytes of it. -/
def StandsAt (text part : String) (position : Nat) : Prop :=
  ∃ front back, text = front ++ part ++ back ∧ front.utf8ByteSize = position

namespace StandsAt

variable {text part : String} {position : Nat}

theorem of_toList {front back : List Char}
    (hText : text.toList = front ++ part.toList ++ back) :
    StandsAt text part (byteCount front) := by
  refine ⟨String.ofList front, String.ofList back, ?_, rfl⟩
  rw [← String.toList_inj, hText]
  simp

theorem end_of_text (text : String) : StandsAt text "" text.utf8ByteSize :=
  ⟨text, "", by simp, rfl⟩

/-- The second half of a part stands behind the first one. -/
theorem right {first second : String} (hStands : StandsAt text (first ++ second) position) :
    StandsAt text second (position + first.utf8ByteSize) := by
  obtain ⟨front, back, rfl, rfl⟩ := hStands
  exact ⟨front ++ first, back, by simp [String.append_assoc], by simp⟩

/-- Something stands only where a character begins, or at the end. -/
theorem isValid (hStands : StandsAt text part position) :
    position ≤ text.utf8ByteSize ∧ (String.Pos.Raw.mk position).IsValid text := by
  obtain ⟨front, back, rfl, rfl⟩ := hStands
  constructor
  · simp
    omega
  · rw [String.Pos.Raw.isValid_iff_exists_append]
    exact ⟨front, part ++ back, by rw [String.append_assoc], rfl⟩

end StandsAt

-- ---------------------------------------------------------------------------
-- What errors name
-- ---------------------------------------------------------------------------

/-- What stands at the place of a fault. A rule may end at a semicolon only where there are
`several` of them. -/
def ParseFault.PointsInto (text : String) (several : Prop) (position : Nat) : ParseFault → Prop
  | .unexpected _ found | .trailing found => found ≠ "" ∧ StandsAt text found position
  | .unterminated _ => position = text.utf8ByteSize ∨ several ∧ StandsAt text ";" position
  | .numberOutOfRange digits => StandsAt text digits position ∧
      (∀ c ∈ digits.toList, c.isDigit = true) ∧ 4294967295 < Nat.ofDigitChars 10 digits.toList 0

/-- What stands at the place of an error, if it has a place. -/
def LogicError.PointsInto (text : String) (several : Prop) : LogicError → Prop
  | .lex e => StandsAt text (String.singleton e.character) e.position
  | .parse e => e.fault.PointsInto text several e.position
  | .violation _ | .form _ => True

theorem LogicError.PointsInto.exists_standsAt {text : String} {several : Prop} {e : LogicError}
    (hPoints : e.PointsInto text several) {position : Nat}
    (hPosition : e.position? = some position) :
    ∃ part, StandsAt text part position := by
  cases e with
  | lex e =>
    obtain rfl : e.position = position := Option.some.inj hPosition
    exact ⟨_, hPoints⟩
  | parse e =>
    obtain rfl : e.position = position := Option.some.inj hPosition
    obtain ⟨position, fault⟩ := e
    cases fault with
    | unexpected | trailing => exact ⟨_, hPoints.2⟩
    | numberOutOfRange => exact ⟨_, hPoints.1⟩
    | unterminated =>
      rcases hPoints with rfl | ⟨-, hSemicolon⟩
      · exact ⟨"", .end_of_text text⟩
      · exact ⟨_, hSemicolon⟩
  | violation | form => cases hPosition

/-- Whether an error that has a place stands between two characters of a text, at what it names. -/
structure LogicError.IsLocated (text : String) (several : Prop) (e : LogicError) : Prop where
  boundary : ∀ position, e.position? = some position →
    position ≤ text.utf8ByteSize ∧ (String.Pos.Raw.mk position).IsValid text
  points : e.PointsInto text several

theorem LogicError.PointsInto.isLocated {text : String} {several : Prop} {e : LogicError}
    (hPoints : e.PointsInto text several) : e.IsLocated text several := by
  refine ⟨fun position hPosition => ?_, hPoints⟩
  obtain ⟨part, hStands⟩ := hPoints.exists_standsAt hPosition
  exact hStands.isValid

-- ---------------------------------------------------------------------------
-- Tokens
-- ---------------------------------------------------------------------------

/-- Whether a token stands in a text and is spelled as its kind is. -/
structure Token.StandsIn (text : String) (token : Token) : Prop where
  spelling : token.kind.IsSpelling token.text.toList
  stands : StandsAt text token.text token.position

/-- Whether all tokens of a clause stand in a text and it ends where a rule may end. -/
structure Clause.StandsIn (text : String) (several : Prop) (clause : Clause) : Prop where
  tokens : ∀ token ∈ clause.tokens, token.StandsIn text
  stop : clause.stop = text.utf8ByteSize ∨ several ∧ StandsAt text ";" clause.stop

theorem TokenKind.ne_nil_of_isSpelling {kind : TokenKind} {chars : List Char}
    (hSpelling : kind.IsSpelling chars) : chars ≠ [] := by
  cases kind with
  | answer =>
    obtain ⟨answer, rfl⟩ := hSpelling
    cases answer <;> decide
  | score =>
    obtain ⟨score, rfl⟩ := hSpelling
    cases score <;> decide
  | connective c =>
    obtain rfl := hSpelling
    cases c <;> decide
  | comparator c =>
    rintro rfl
    cases c <;> simp [IsSpelling] at hSpelling
  | digits | word => exact hSpelling.1
  | question =>
    obtain ⟨digits, rfl, -⟩ := hSpelling
    exact List.cons_ne_nil _ _
  | endOfInput => exact hSpelling.elim
  | _ =>
    rintro rfl
    simp [IsSpelling] at hSpelling

theorem Token.StandsIn.text_ne_empty {text : String} {token : Token}
    (hToken : token.StandsIn text) : token.text ≠ "" := by
  intro hEmpty
  exact TokenKind.ne_nil_of_isSpelling hToken.spelling (by rw [hEmpty]; rfl)

theorem Token.StandsIn.semicolon {text : String} {token : Token} (hToken : token.StandsIn text)
    (hKind : token.kind = .semicolon) : StandsAt text ";" token.position := by
  have hSpelling := hToken.spelling
  rw [hKind] at hSpelling
  have hText : token.text = ";" := String.toList_inj.1 hSpelling
  rw [← hText]
  exact hToken.stands

namespace Clause

variable {text : String} {several : Prop} {clause : Clause}

theorem standsIn_of_ofText (hClause : ofText text = .ok clause) : clause.StandsIn text several := by
  have hScan := Clause.ofText_eq_ok_iff.1 hClause
  constructor
  · intro token hMem
    obtain ⟨hSpelling, front, back, hText, hPosition⟩ := hScan.exists_of_mem hMem
    refine ⟨hSpelling, ?_⟩
    rw [hPosition, Nat.zero_add]
    exact .of_toList hText
  · left
    rw [hScan.stop_eq, Nat.zero_add, byteCount_toList]

/-- Cutting takes the tokens apart, and puts an end only where the clause had one or where a
semicolon stands. -/
theorem StandsIn.cut {stop : Nat} {tokens : List Token}
    (hClause : StandsIn text True ⟨tokens, stop⟩) :
    ∀ piece ∈ (cut stop tokens).1 :: (cut stop tokens).2, piece.StandsIn text True := by
  induction tokens with
  | nil =>
    intro piece hMem
    obtain rfl := List.mem_singleton.1 hMem
    exact hClause
  | cons token rest ih =>
    have hToken : token.StandsIn text := hClause.tokens token (by simp)
    have hRest := ih ⟨fun other hMem => hClause.tokens other (by simp [hMem]), hClause.stop⟩
    intro piece hMem
    by_cases hKind : token.kind = .semicolon
    · simp only [Clause.cut, hKind, if_true] at hMem
      rcases List.mem_cons.1 hMem with rfl | hOther
      · exact ⟨by simp, .inr ⟨trivial, hToken.semicolon hKind⟩⟩
      · exact hRest piece hOther
    · simp only [Clause.cut, hKind, if_false] at hMem
      rcases List.mem_cons.1 hMem with rfl | hOther
      · have hFirst := hRest _ List.mem_cons_self
        exact ⟨List.forall_mem_cons.2 ⟨hToken, hFirst.tokens⟩, hFirst.stop⟩
      · exact hRest piece (List.mem_cons_of_mem _ hOther)

theorem StandsIn.pieces (hClause : clause.StandsIn text True) :
    ∀ piece ∈ clause.pieces, piece.StandsIn text True :=
  hClause.cut

end Clause

-- ---------------------------------------------------------------------------
-- Steps
-- ---------------------------------------------------------------------------

/-- The errors that blame a token: each stands where the token does and names it, or the number in
it. -/
inductive Token.Blames (token : Token) : ParseError → Prop where
  | unexpected (expected : List TokenKind) :
      Blames token ⟨token.position, .unexpected expected token.text⟩
  | trailing : Blames token ⟨token.position, .trailing token.text⟩
  | digits (hKind : token.kind = .digits) (hRead : Numeral.read? token.text = none) :
      Blames token ⟨token.position, .numberOutOfRange token.text⟩
  | question {digits : List Char} (hKind : token.kind = .question)
      (hText : token.text.toList = 'Q' :: digits)
      (hRead : Numeral.read? (String.ofList digits) = none) :
      Blames token ⟨token.position + 1, .numberOutOfRange (String.ofList digits)⟩

namespace Token

variable {α : Type} {token : Token} {e : ParseError}

theorem blames_of_refuse {expected : List TokenKind}
    (hRefuse : (token.refuse expected : Except ParseError α) = .error e) : token.Blames e := by
  cases hRefuse
  exact .unexpected expected

theorem blames_of_number (hKind : token.kind = .digits) (hNumber : token.number = .error e) :
    token.Blames e := by
  obtain ⟨hRead, rfl⟩ := number_eq_error_iff.1 hNumber
  exact .digits hKind hRead

theorem blames_of_question (hKind : token.kind = .question)
    (hQuestion : token.question = .error e) : token.Blames e := by
  unfold question at hQuestion
  split at hQuestion
  · rename_i hText
    rw [Except.map_eq_error_iff, number_eq_error_iff] at hQuestion
    obtain ⟨hRead, rfl⟩ := hQuestion
    exact .question hKind hText hRead
  · exact blames_of_refuse hQuestion

end Token

/-- How a draft refuses a token: anything behind a complete rule, a number or a question that is
expected but not read, and otherwise what is not expected. -/
inductive Draft.Refuses (draft : Draft) (token : Token) : ParseError → Prop where
  | trailing {rule : Rule} (hDraft : draft = .complete rule) :
      Refuses draft token ⟨token.position, .trailing token.text⟩
  | digits {e : ParseError} (hKind : token.kind = .digits) (hExpected : .digits ∈ draft.expected)
      (hNumber : token.number = .error e) : Refuses draft token e
  | question {e : ParseError} (hKind : token.kind = .question)
      (hExpected : .question ∈ draft.expected) (hQuestion : token.question = .error e) :
      Refuses draft token e
  | unexpected {listed : List TokenKind} (hListed : listed ⊆ draft.expected) :
      Refuses draft token ⟨token.position, .unexpected listed token.text⟩

namespace Draft

variable {draft : Draft} {token : Token} {e : ParseError}

theorem eq_of_turn {condition : Condition} (hTurn : turn condition token = .error e) :
    e = ⟨token.position, .unexpected [.equals, .comma] token.text⟩ := by
  unfold turn at hTurn
  split at hTurn <;> cases hTurn
  rfl

/-- What the error for a refused token is. Where it lists less than the draft expects, the token has
a kind that is expected and a text that such a token cannot have. -/
theorem step_eq_error_cases (hStep : draft.step token = .error e) :
    e = ⟨token.position, .unexpected draft.expected token.text⟩ ∨
    (draft = .opened ∧ token.kind = .answer ∧ Answer.ofText? token.text = none ∧
      e = ⟨token.position, .unexpected [.answer] token.text⟩) ∨
    (token.kind = .digits ∧ .digits ∈ draft.expected ∧ token.number = .error e) ∨
    (token.kind = .question ∧ .question ∈ draft.expected ∧ token.question = .error e) ∨
    ∃ rule, draft = .complete rule ∧ e = ⟨token.position, .trailing token.text⟩ := by
  cases draft with
  | complete rule =>
    cases hStep
    exact .inr (.inr (.inr (.inr ⟨rule, rfl, rfl⟩)))
  | answer => exact .inl (eq_of_turn hStep)
  | blank | range | optionsOr | comparisonJoined | skip | scoring | options =>
    simp only [step] at hStep
    split at hStep <;> cases hStep
    exact .inl rfl
  | rangeFrom | optionSign | comparator =>
    simp only [step] at hStep
    split at hStep
    · rename_i hKind
      exact .inr (.inr (.inl ⟨hKind, by simp [expected], Except.map_eq_error_iff.1 hStep⟩))
    · cases hStep
      exact .inl rfl
  | opened =>
    simp only [step] at hStep
    split at hStep
    · rename_i hKind
      split at hStep <;> cases hStep
      rename_i hText
      exact .inr (.inl ⟨rfl, hKind, hText, rfl⟩)
    · rename_i hKind
      have hNumber := Except.map_eq_error_iff.1 hStep
      exact .inr (.inr (.inl ⟨hKind, by simp [expected, conditionStart], hNumber⟩))
    · cases hStep
    · cases hStep
    · cases hStep
      exact .inl rfl
  | count =>
    simp only [step] at hStep
    split at hStep
    · cases hStep
    · exact .inl (eq_of_turn hStep)
  | comparison =>
    simp only [step] at hStep
    split at hStep
    · cases hStep
    · cases hStep
    · exact .inl (eq_of_turn hStep)
  | skipThen =>
    simp only [step] at hStep
    split at hStep
    · rename_i hKind
      have hQuestion := Except.map_eq_error_iff.1 hStep
      exact .inr (.inr (.inr (.inl ⟨hKind, by simp [expected], hQuestion⟩)))
    · cases hStep
      exact .inl rfl

/-- Whatever a draft does not take it refuses in one of these ways. -/
theorem refuses_of_step (hStep : draft.step token = .error e) : draft.Refuses token e := by
  rcases step_eq_error_cases hStep with rfl | ⟨rfl, -, -, rfl⟩ | ⟨hKind, hExpected, hNumber⟩ |
    ⟨hKind, hExpected, hQuestion⟩ | ⟨rule, hDraft, rfl⟩
  · exact .unexpected (List.Subset.refl _)
  · exact .unexpected (by simp [expected, conditionStart])
  · exact .digits hKind hExpected hNumber
  · exact .question hKind hExpected hQuestion
  · exact .trailing hDraft

/-- A draft that refuses a token blames it. -/
theorem Refuses.blames (hRefuses : draft.Refuses token e) : token.Blames e := by
  cases hRefuses with
  | trailing => exact .trailing
  | digits hKind _ hNumber => exact Token.blames_of_number hKind hNumber
  | question hKind _ hQuestion => exact Token.blames_of_question hKind hQuestion
  | unexpected => exact .unexpected _

/-- Reading stops at the first token that is refused. -/
theorem exists_refused_of_read {tokens : List Token} (hRead : draft.read tokens = .error e) :
    ∃ front token back next, tokens = front ++ token :: back ∧ draft.read front = .ok next ∧
      next.step token = .error e := by
  induction tokens generalizing draft with
  | nil => cases hRead
  | cons first rest ih =>
    rw [read_cons, Except.bind_eq_error_iff] at hRead
    rcases hRead with hStep | ⟨second, hStep, hRest⟩
    · exact ⟨[], first, rest, draft, rfl, rfl, hStep⟩
    · obtain ⟨front, token, back, next, rfl, hFront, hRefused⟩ := ih hRest
      refine ⟨first :: front, token, back, next, rfl, ?_, hRefused⟩
      rw [read_cons_of_step hStep, hFront]

/-- All drafts but complete rules end too early, and list what they expect. -/
theorem finish_eq_error_iff {stop : Nat} : draft.finish stop = .error e ↔
    (∀ rule, draft ≠ .complete rule) ∧ e = ⟨stop, .unterminated draft.expected⟩ := by
  cases draft <;> simp [finish, eq_comm]

end Draft

/-- The errors that blame a clause: those that blame one of its tokens, and those at its end. -/
def Clause.Blames (clause : Clause) (e : ParseError) : Prop :=
  (∃ token ∈ clause.tokens, token.Blames e) ∨ ∃ expected, e = ⟨clause.stop, .unterminated expected⟩

namespace Clause

variable {text : String} {several : Prop} {clause : Clause} {e : ParseError}

theorem blames_of_ofClause (hRule : Rule.ofClause clause = .error e) : clause.Blames e := by
  rcases Except.bind_eq_error_iff.1 hRule with hRead | ⟨draft, -, hFinish⟩
  · obtain ⟨front, token, back, next, hTokens, -, hStep⟩ := Draft.exists_refused_of_read hRead
    exact .inl ⟨token, by simp [hTokens], (Draft.refuses_of_step hStep).blames⟩
  · exact .inr ⟨_, (Draft.finish_eq_error_iff.1 hFinish).2⟩

/-- What is refused from some token on is a token of the clause or its end. -/
theorem blames_refusal_dropTo (kind : TokenKind) (expected : List TokenKind) :
    clause.Blames ((clause.dropTo kind).refusal expected) := by
  have hSuffix : (clause.dropTo kind).tokens <:+ clause.tokens := List.dropWhile_suffix _
  unfold refusal
  split
  · exact .inr ⟨expected, rfl⟩
  · rename_i token _ hTokens
    have hMem : token ∈ (clause.dropTo kind).tokens := by simp [hTokens]
    exact .inl ⟨token, hSuffix.subset hMem, .unexpected expected⟩

end Clause

-- ---------------------------------------------------------------------------
-- From what is blamed to where it stands
-- ---------------------------------------------------------------------------

/-- A run of digits that is not read as a number stands for one that is too large. -/
theorem Numeral.lt_of_read?_eq_none {digits : List Char} (hNonempty : digits ≠ [])
    (hDigits : ∀ c ∈ digits, c.isDigit = true) (hRead : read? (String.ofList digits) = none) :
    4294967295 < Nat.ofDigitChars 10 digits 0 := by
  have hRun : digits ≠ [] ∧ digits.all Char.isDigit = true :=
    ⟨hNonempty, List.all_eq_true.2 hDigits⟩
  unfold read? at hRead
  rw [String.toList_ofList, unsigned_of_all_isDigit hDigits, ofDigits?, if_pos hRun] at hRead
  by_contra hSmall
  have hFits : Nat.ofDigitChars 10 digits 0 < UInt32.size := Nat.lt_succ_of_le (Nat.not_lt.1 hSmall)
  rw [if_pos hFits] at hRead
  cases hRead

section

variable {text : String} {several : Prop}

/-- The number of a question stands one byte behind its `Q`. -/
theorem Token.StandsIn.question_digits {token : Token} (hToken : token.StandsIn text)
    {digits : List Char} (hKind : token.kind = .question)
    (hText : token.text.toList = 'Q' :: digits) :
    StandsAt text (String.ofList digits) (token.position + 1) ∧ digits ≠ [] ∧
      ∀ c ∈ digits, c.isDigit = true := by
  have hSpelling := hToken.spelling
  rw [hKind, hText] at hSpelling
  obtain ⟨own, hOwn, hNonempty, hDigits⟩ := hSpelling
  obtain rfl : digits = own := (List.cons.inj hOwn).2
  have hParts : token.text = "Q" ++ String.ofList digits := by
    rw [← String.toList_inj, hText]
    simp
  have hStands := hToken.stands
  rw [hParts] at hStands
  exact ⟨hStands.right, hNonempty, hDigits⟩

theorem Token.Blames.pointsInto {token : Token} {e : ParseError} (hBlames : token.Blames e)
    (hToken : token.StandsIn text) : (LogicError.parse e).PointsInto text several := by
  cases hBlames with
  | unexpected expected => exact ⟨hToken.text_ne_empty, hToken.stands⟩
  | trailing => exact ⟨hToken.text_ne_empty, hToken.stands⟩
  | digits hKind hRead =>
    have hSpelling := hToken.spelling
    rw [hKind] at hSpelling
    obtain ⟨hNonempty, hDigits⟩ := hSpelling
    have hText : String.ofList token.text.toList = token.text := String.ofList_toList
    rw [← hText] at hRead
    exact ⟨hToken.stands, hDigits, Numeral.lt_of_read?_eq_none hNonempty hDigits hRead⟩
  | @question digits hKind hText hRead =>
    obtain ⟨hStands, hNonempty, hDigits⟩ := hToken.question_digits hKind hText
    have hLarge := Numeral.lt_of_read?_eq_none hNonempty hDigits hRead
    rw [← String.toList_ofList (l := digits)] at hDigits hLarge
    exact ⟨hStands, hDigits, hLarge⟩

theorem Clause.StandsIn.pointsInto {clause : Clause} {e : ParseError}
    (hClause : clause.StandsIn text several) (hBlames : clause.Blames e) :
    (LogicError.parse e).PointsInto text several := by
  rcases hBlames with ⟨token, hMem, hToken⟩ | ⟨expected, rfl⟩
  · exact hToken.pointsInto (hClause.tokens token hMem)
  · exact hClause.stop

-- ---------------------------------------------------------------------------
-- Stages
-- ---------------------------------------------------------------------------

theorem Clause.pointsInto_of_ofText {e : LogicError}
    (hError : (Clause.ofText text).mapError .lex = .error e) : e.PointsInto text several := by
  obtain ⟨e, hClause, rfl⟩ := Except.mapError_eq_error_iff.1 hError
  obtain ⟨front, rest, body, hText, -, hScan⟩ :=
    Token.ofText_eq_error_iff.1 (Except.map_eq_error_iff.1 hClause)
  have hParts : text.toList = front ++ (String.singleton e.character).toList ++ rest := by
    simp [hText]
  have hPosition : e.position = byteCount front := by rw [hScan.stop_eq, Nat.zero_add]
  show StandsAt text (String.singleton e.character) e.position
  rw [hPosition]
  exact .of_toList hParts

theorem ScoringRule.pointsInto_of_ofClause {policy : Policy} {clause : Clause} {e : LogicError}
    (hClause : clause.StandsIn text several)
    (hError : ScoringRule.ofClause policy clause = .error e) : e.PointsInto text several := by
  unfold ofClause at hError
  split at hError
  · rename_i hRule
    cases hError
    exact hClause.pointsInto (Clause.blames_of_ofClause hRule)
  · cases hError
    exact hClause.pointsInto (Clause.blames_refusal_dropTo .comma [.equals])
  · split at hError
    · cases hError
      trivial
    · cases hError

theorem ScoringLogic.pointsInto_of_ofText {policy : Policy} {e : LogicError}
    (hError : ScoringLogic.ofText policy text = .error e) : e.PointsInto text True := by
  rcases Except.bind_eq_error_iff.1 hError with hLex | ⟨clause, hClause, hRules⟩
  · exact Clause.pointsInto_of_ofText hLex
  · rw [Except.mapError_eq_ok_iff] at hClause
    obtain ⟨before, piece, after, hPieces, -, hPiece⟩ :=
      Except.mapM_eq_error_iff.1 (Except.map_eq_error_iff.1 hRules)
    have hMem : piece ∈ clause.pieces := by simp [hPieces]
    have hStands := (Clause.standsIn_of_ofText hClause).pieces piece hMem
    exact ScoringRule.pointsInto_of_ofClause hStands hPiece

end

namespace Translator

variable {t : Translator} {text : String} {e : LogicError}

theorem pointsInto_of_ruleOfClause {several : Prop} {clause : Clause}
    (hClause : clause.StandsIn text several) (hError : t.ruleOfClause clause = .error e) :
    e.PointsInto text several := by
  rcases Except.bind_eq_error_iff.1 hError with hParse | ⟨rule, -, hRest⟩
  · obtain ⟨e, hRule, rfl⟩ := Except.mapError_eq_error_iff.1 hParse
    exact hClause.pointsInto (Clause.blames_of_ofClause hRule)
  · rcases Except.bind_eq_error_iff.1 hRest with hValidate | ⟨-, -, hDone⟩
    · obtain ⟨violation, -, rfl⟩ := Except.mapError_eq_error_iff.1 hValidate
      trivial
    · cases hDone

theorem pointsInto_of_readRule {several : Prop} (hError : t.readRule text = .error e) :
    e.PointsInto text several := by
  rcases Except.bind_eq_error_iff.1 hError with hLex | ⟨clause, hClause, hRule⟩
  · exact Clause.pointsInto_of_ofText hLex
  · rw [Except.mapError_eq_ok_iff] at hClause
    exact pointsInto_of_ruleOfClause (Clause.standsIn_of_ofText hClause) hRule

theorem pointsInto_of_scoringCalculation {fieldName : String} {otherwise : Option Form.Expr}
    (hError : t.scoringCalculation text fieldName otherwise = .error e) :
    e.PointsInto text True := by
  rcases Except.bind_eq_error_iff.1 hError with hRead | ⟨logic, -, hForm⟩
  · exact ScoringLogic.pointsInto_of_ofText hRead
  · obtain ⟨e, -, rfl⟩ := Except.mapError_eq_error_iff.1 hForm
    trivial

theorem pointsInto_of_readSkipRule {several : Prop} (hError : t.readSkipRule text = .error e) :
    e.PointsInto text several := by
  rcases Except.bind_eq_error_iff.1 hError with hLex | ⟨clause, hClause, hRest⟩
  · exact Clause.pointsInto_of_ofText hLex
  · rw [Except.mapError_eq_ok_iff] at hClause
    have hStands : clause.StandsIn text several := Clause.standsIn_of_ofText hClause
    rcases Except.bind_eq_error_iff.1 hRest with hRule | ⟨rule, -, hFamily⟩
    · exact pointsInto_of_ruleOfClause hStands hRule
    · cases rule with
      | skip rule => cases hFamily
      | scoring rule =>
        cases hFamily
        exact hStands.pointsInto (Clause.blames_refusal_dropTo .equals [.comma])

theorem pointsInto_of_translateCell {cell : LogicCell} (hError : t.translateCell cell = .error e) :
    e.PointsInto cell.text (cell.column = .scoring) := by
  have hContent := Except.map_eq_error_iff.1 hError
  unfold cellContent at hContent
  split at hContent
  · rename_i hColumn
    rcases Except.bind_eq_error_iff.1 hContent with hCalculation | ⟨expression, -, hDone⟩
    · rw [hColumn, eq_self_iff_true]
      exact pointsInto_of_scoringCalculation hCalculation
    · cases hDone
  · rcases Except.bind_eq_error_iff.1 hContent with hRule | ⟨rule, -, hRest⟩
    · exact pointsInto_of_readSkipRule hRule
    · rcases Except.bind_eq_error_iff.1 hRest with hForm | ⟨condition, -, hDone⟩
      · obtain ⟨e, -, rfl⟩ := Except.mapError_eq_error_iff.1 hForm
        trivial
      · cases hDone

/--
**Errors point at what they name.** A failure to read tokens or a rule is reported at an offset that
is no larger than the text and falls between two of its characters. At that offset stands what the
report names: the foreign character, the token that cannot stand there or follows a complete rule,
or the digits of a number of more than 32 bits, without the `Q` of a question. Where a rule ends too
early, the offset is the end of the text or, for scoring logic, that of a semicolon.
-/
theorem error_isLocated (t : Translator) (text fieldName : String) (otherwise : Option Form.Expr)
    (e : LogicError) :
    (t.readRule text = .error e → e.IsLocated text False) ∧
    (t.readLogic text = .error e → e.IsLocated text True) ∧
    (t.scoringCalculation text fieldName otherwise = .error e → e.IsLocated text True) ∧
    ∀ cell, t.translateCell cell = .error e → e.IsLocated cell.text (cell.column = .scoring) :=
  ⟨fun hError => (pointsInto_of_readRule hError).isLocated,
    fun hError => (ScoringLogic.pointsInto_of_ofText hError).isLocated,
    fun hError => (pointsInto_of_scoringCalculation hError).isLocated,
    fun _ hError => (pointsInto_of_translateCell hError).isLocated⟩

/-- A word in the second rule of a cell, behind a sign of three bytes, and a question with too large
a number. -/
theorem error_isLocated_word_and_number :
    let logic := "If ≥3 = Green; If foo = Red"
    let cell : LogicCell := ⟨7, .skip, "Q1", "If N, then Q99999999999"⟩
    readLogic {} logic = .error (.parse ⟨20, .unexpected Draft.conditionStart "foo"⟩) ∧
    StandsAt logic "foo" 20 ∧
    translateCell {} cell = .error (.parse ⟨12, .numberOutOfRange "99999999999"⟩) ∧
    StandsAt cell.text "99999999999" 12 := by
  intro logic cell
  have hLogic : readLogic {} logic =
      .error (.parse ⟨20, .unexpected Draft.conditionStart "foo"⟩) := by decide +kernel
  have hCell : translateCell {} cell =
      .error (.parse ⟨12, .numberOutOfRange "99999999999"⟩) := by decide +kernel
  have hWord := ((error_isLocated {} logic "Q1" none _).2.1 hLogic).points
  have hNumber := ((error_isLocated {} logic "Q1" none _).2.2.2 cell hCell).points
  exact ⟨hLogic, hWord.2, hCell, hNumber.1⟩

end Translator

end ChecklistLogic
