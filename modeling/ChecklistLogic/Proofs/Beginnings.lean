import ChecklistLogic.Proofs.Location

/-!
# ChecklistLogic — beginnings of rules

A token list is viable if some rule begins with it. Reading stops at the first token that makes the
list read so far no longer viable, and no token behind it has a say in the error.

Viability is about the grammar alone. Drafts tie it to reading:

* **Finishing** — every draft can be finished, by tokens that are spelled as in a text
  (`Draft.canFinish`), so the viable token lists are those that lead to a draft
  (`viable_iff_read`).
* **One more token** — it keeps a list viable if and only if the draft of the list takes it
  (`viable_concat_iff`).
* **Expecting** — a draft takes a token of each kind that it expects, and besides only tokens that
  lengthen its condition (`Draft.exists_step_iff`). These have no value, so of the kinds that have
  one it takes no others than it expects (`Draft.mem_expected_of_step`).

Main result: `Rule.error_isEarliest`.
-/

namespace ChecklistLogic

/-- Whether some rule begins with a token list. -/
def Viable (front : List Token) : Prop :=
  ∃ rest rule, Rule.Spelled rule (front ++ rest)

/-- Whether a token list stays viable with some token of a kind behind it, which is spelled as in a
text. -/
def Continues (front : List Token) (kind : TokenKind) : Prop :=
  ∃ token : Token, token.kind = kind ∧ kind.IsSpelling token.text.toList ∧
    Viable (front ++ [token])

-- ---------------------------------------------------------------------------
-- One token of each kind
-- ---------------------------------------------------------------------------

/-- A text that tokens of a kind may have. -/
def TokenKind.sample : TokenKind → String
  | .answer => Answer.yes.text
  | .score => Score.green.name
  | .digits => Numeral.text 1
  | .question => Question.text ⟨1⟩
  | .hash => "#"
  | .percent => "%"
  | .comma => ","
  | .semicolon => ";"
  | .ifWord => "If"
  | .thenWord => "then"
  | .connective c => c.word
  | .equals => "="
  | .comparator c => c.sign
  | .dash => "-"
  | .word => "a"
  | .endOfInput => ""

/-- A token of a kind. -/
def Token.sample (kind : TokenKind) : Token :=
  ⟨kind, kind.sample, 0⟩

theorem TokenKind.isSpelling_sample {kind : TokenKind} (hKind : kind ≠ .endOfInput) :
    kind.IsSpelling kind.sample.toList := by
  cases kind with
  | endOfInput => exact absurd rfl hKind
  | answer => exact ⟨_, rfl⟩
  | score => exact ⟨_, rfl⟩
  | connective => rfl
  | comparator c => cases c <;> simp [IsSpelling, sample, Comparator.sign]
  | digits => exact ⟨Numeral.toList_text_ne_nil 1, fun _ => Numeral.isDigit_of_mem_text⟩
  | question =>
    exact ⟨(Numeral.text 1).toList, by simp [sample, Question.text],
      Numeral.toList_text_ne_nil 1, fun _ => Numeral.isDigit_of_mem_text⟩
  | _ => simp [IsSpelling, sample]

-- ---------------------------------------------------------------------------
-- What drafts take
-- ---------------------------------------------------------------------------

namespace Draft

variable {draft next : Draft} {token : Token} {kind : TokenKind}

/-- A draft that expects a number reads whatever number it gets. -/
theorem exists_step_eq_of_digits (hExpected : .digits ∈ draft.expected) :
    ∃ f : UInt32 → Draft, ∀ token : Token, token.kind = .digits →
      draft.step token = f <$> token.number := by
  cases draft with
  | opened | rangeFrom | optionSign | comparator =>
    exact ⟨_, fun token hKind => by
      simp only [step, hKind]
      rfl⟩
  | _ => simp [expected] at hExpected

/-- A draft that expects a question reads whatever question it gets. -/
theorem exists_step_eq_of_question (hExpected : .question ∈ draft.expected) :
    ∃ f : Question → Draft, ∀ token : Token, token.kind = .question →
      draft.step token = f <$> token.question := by
  cases draft with
  | skipThen =>
    exact ⟨_, fun token hKind => by
      simp only [step, hKind]
      rfl⟩
  | _ => simp [expected, conditionStart] at hExpected

/-- A draft takes a token of each kind that it expects. -/
theorem exists_step_of_mem_expected (hExpected : kind ∈ draft.expected) :
    ∃ next, draft.step (.sample kind) = .ok next := by
  cases draft with
  | complete => exact absurd hExpected List.not_mem_nil
  | opened =>
    simp only [expected, conditionStart, List.mem_append, List.mem_cons, List.not_mem_nil, or_false,
      List.mem_map] at hExpected
    rcases hExpected with ((rfl | rfl) | ⟨comparator, -, rfl⟩) | rfl <;> exact ⟨_, rfl⟩
  | comparisonJoined =>
    obtain ⟨comparator, -, rfl⟩ := List.mem_map.1 hExpected
    exact ⟨_, rfl⟩
  | answer | count =>
    simp only [expected, List.mem_cons, List.not_mem_nil, or_false] at hExpected
    rcases hExpected with rfl | rfl <;> exact ⟨_, rfl⟩
  | comparison before last =>
    simp only [expected, List.mem_cons, List.not_mem_nil, or_false] at hExpected
    rcases hExpected with rfl | rfl <;> cases last.isPercent <;> exact ⟨_, rfl⟩
  | _ =>
    obtain rfl := List.mem_singleton.1 hExpected
    exact ⟨_, rfl⟩

/-- The kinds that a draft takes and does not expect. -/
def lengthening : Draft → List TokenKind
  | .count _ => [.dash]
  | .comparison _ last =>
    (if last.isPercent then [] else [.percent]) ++ [.connective .and, .connective .or]
  | .options _ => [.connective .or]
  | _ => []

theorem kind_mem_of_turn {condition : Condition} (hTurn : turn condition token = .ok next) :
    token.kind ∈ [.equals, .comma] := by
  unfold turn at hTurn
  split at hTurn
  · simp [*]
  · simp [*]
  · cases hTurn

theorem mem_lengthening_comparison {before : OpenComparison} {last : Comparison} :
    kind ∈ (comparison before last).lengthening ↔
      kind = .percent ∧ last.isPercent = false ∨ ∃ connective, kind = .connective connective := by
  have hConnective : kind ∈ [.connective .and, .connective .or] ↔
      ∃ connective, kind = .connective connective := by
    constructor
    · intro hMem
      simp only [List.mem_cons, List.not_mem_nil, or_false] at hMem
      rcases hMem with rfl | rfl <;> exact ⟨_, rfl⟩
    · rintro ⟨connective, rfl⟩
      cases connective <;> simp
  rw [lengthening, List.mem_append, hConnective]
  cases last.isPercent <;> simp

/-- Whatever a draft takes it expects, or it makes its condition longer. -/
theorem kind_mem_of_step (hStep : draft.step token = .ok next) :
    token.kind ∈ draft.expected ∨ token.kind ∈ draft.lengthening := by
  cases draft with
  | complete => cases hStep
  | answer => exact .inl (kind_mem_of_turn hStep)
  | blank | range | optionsOr | skip | scoring | options =>
    simp only [step] at hStep
    split at hStep <;> cases hStep <;> simp [expected, lengthening, *]
  | rangeFrom | optionSign | comparator | skipThen =>
    simp only [step] at hStep
    split at hStep
    · simp [expected, *]
    · cases hStep
  | opened =>
    simp only [step] at hStep
    left
    split at hStep
    · simp [expected, conditionStart, *]
    · simp [expected, conditionStart, *]
    · simp [expected, conditionStart, Comparator.mem_all, *]
    · simp [expected, conditionStart, *]
    · cases hStep
  | comparisonJoined =>
    simp only [step] at hStep
    split at hStep
    · simp [expected, Comparator.mem_all, *]
    · cases hStep
  | count =>
    simp only [step] at hStep
    split at hStep
    · simp [lengthening, *]
    · exact .inl (kind_mem_of_turn hStep)
  | comparison =>
    simp only [step] at hStep
    split at hStep
    · rename_i hKind hCount
      exact .inr (mem_lengthening_comparison.2 (.inl ⟨hKind, hCount⟩))
    · rename_i connective hKind
      exact .inr (mem_lengthening_comparison.2 (.inr ⟨connective, hKind⟩))
    · exact .inl (kind_mem_of_turn hStep)

theorem exists_step_of_mem_lengthening (hMem : kind ∈ draft.lengthening) :
    ∃ next, draft.step (.sample kind) = .ok next := by
  cases draft with
  | count =>
    obtain rfl := List.mem_singleton.1 hMem
    exact ⟨_, rfl⟩
  | options =>
    obtain rfl := List.mem_singleton.1 hMem
    exact ⟨_, rfl⟩
  | comparison before last =>
    rcases mem_lengthening_comparison.1 hMem with ⟨rfl, hCount⟩ | ⟨connective, rfl⟩
    · refine ⟨.comparison before { last with isPercent := true }, ?_⟩
      simp only [step, Token.sample, hCount]
    · exact ⟨_, rfl⟩
  | _ => exact absurd hMem List.not_mem_nil

/-- The kinds of the tokens that a draft takes. -/
theorem exists_step_iff : (∃ token next, token.kind = kind ∧ draft.step token = .ok next) ↔
    kind ∈ draft.expected ∨ kind ∈ draft.lengthening := by
  constructor
  · rintro ⟨token, next, rfl, hStep⟩
    exact kind_mem_of_step hStep
  · rintro (hExpected | hLengthens)
    · obtain ⟨next, hStep⟩ := exists_step_of_mem_expected hExpected
      exact ⟨_, next, rfl, hStep⟩
    · obtain ⟨next, hStep⟩ := exists_step_of_mem_lengthening hLengthens
      exact ⟨_, next, rfl, hStep⟩

/-- What only lengthens a condition is not expected. -/
theorem not_mem_expected_of_mem_lengthening (hMem : kind ∈ draft.lengthening) :
    kind ∉ draft.expected := by
  cases draft with
  | count | options =>
    obtain rfl := List.mem_singleton.1 hMem
    simp [expected]
  | comparison =>
    rcases mem_lengthening_comparison.1 hMem with ⟨rfl, -⟩ | ⟨connective, rfl⟩ <;> simp [expected]
  | _ => exact absurd hMem List.not_mem_nil

/-- What only lengthens a condition has no value. -/
theorem mem_expected_of_step (hStep : draft.step token = .ok next)
    (hValue : token.kind.hasValue = true) : token.kind ∈ draft.expected := by
  refine (kind_mem_of_step hStep).resolve_right fun hMem => ?_
  cases draft with
  | count | options =>
    rw [List.mem_singleton.1 hMem] at hValue
    cases hValue
  | comparison =>
    rcases mem_lengthening_comparison.1 hMem with ⟨hKind, -⟩ | ⟨connective, hKind⟩ <;>
      rw [hKind] at hValue <;> cases hValue
  | _ => exact List.not_mem_nil hMem

/-- Whether tokens spelled as in a text make a whole rule out of a draft. -/
def CanFinish (draft : Draft) : Prop :=
  ∃ rest rule, (∀ token ∈ rest, token.kind.IsSpelling token.text.toList) ∧
    draft.read rest = .ok (.complete rule)

theorem CanFinish.of_step (kind : TokenKind) (hStep : draft.step (.sample kind) = .ok next)
    (hNext : next.CanFinish) : draft.CanFinish := by
  obtain ⟨rest, rule, hSpelled, hRead⟩ := hNext
  have hKind : kind ≠ .endOfInput := kind_ne_of_step hStep (by simp)
  refine ⟨.sample kind :: rest, rule, ?_, ?_⟩
  · exact List.forall_mem_cons.2 ⟨TokenKind.isSpelling_sample hKind, hSpelled⟩
  · rw [read_cons_of_step hStep, hRead]

/-- Every draft can be finished. -/
theorem canFinish (draft : Draft) : draft.CanFinish := by
  -- Backwards from a whole rule: each draft takes a token to one that is known to be finished.
  have hComplete (rule : Rule) : (complete rule).CanFinish := ⟨[], rule, by simp, rfl⟩
  have hScoring (condition : ScoringCondition) : (scoring condition).CanFinish :=
    .of_step .score rfl (hComplete _)
  have hSkipThen (condition : Condition) : (skipThen condition).CanFinish :=
    .of_step .question rfl (hComplete _)
  have hOptions (chosen : List UInt32) : (options chosen).CanFinish :=
    .of_step .equals rfl (hScoring _)
  have hOptionSign (earlier : List UInt32) : (optionSign earlier).CanFinish :=
    .of_step .digits rfl (hOptions _)
  have hRange (range : CountRange) : (Draft.range range).CanFinish :=
    .of_step .equals rfl (hScoring _)
  have hAnswer (answer : Answer) : (Draft.answer answer).CanFinish :=
    .of_step .equals rfl (hScoring _)
  have hComparison (before : OpenComparison) (last : Comparison) :
      (comparison before last).CanFinish := by
    refine .of_step .equals ?_ (hScoring (.common (.comparison (before.close last))))
    cases last.isPercent <;> rfl
  have hComparator (before : OpenComparison) (sign : Comparator) :
      (comparator before sign).CanFinish :=
    .of_step .digits rfl (hComparison _ _)
  have hOpened : opened.CanFinish := .of_step .answer rfl (hAnswer .yes)
  cases draft with
  | blank => exact .of_step .ifWord rfl hOpened
  | opened => exact hOpened
  | answer answer => exact hAnswer answer
  | count => exact .of_step .equals rfl (hScoring _)
  | rangeFrom => exact .of_step .digits rfl (hRange _)
  | range range => exact hRange range
  | optionSign earlier => exact hOptionSign earlier
  | options chosen => exact hOptions chosen
  | optionsOr => exact .of_step .hash rfl (hOptionSign _)
  | comparator before sign => exact hComparator before sign
  | comparison before last => exact hComparison before last
  | comparisonJoined => exact .of_step (.comparator .atLeast) rfl (hComparator _ _)
  | scoring condition => exact hScoring condition
  | skip => exact .of_step .thenWord rfl (hSkipThen _)
  | skipThen condition => exact hSkipThen condition
  | complete rule => exact hComplete rule

end Draft

-- ---------------------------------------------------------------------------
-- Viable token lists lead to a draft
-- ---------------------------------------------------------------------------

theorem Rule.Spelled.of_read {rule : Rule} {front rest : List Token} {draft : Draft}
    (hFront : Draft.blank.read front = .ok draft) (hRest : draft.read rest = .ok (.complete rule)) :
    rule.Spelled (front ++ rest) := by
  rw [← Draft.read_append_of_read hFront] at hRest
  exact Draft.spelled_of_read_blank hRest

/-- The beginnings of rules are the token lists that can be read. -/
theorem viable_iff_read {front : List Token} :
    Viable front ↔ ∃ draft, Draft.blank.read front = .ok draft := by
  constructor
  · rintro ⟨rest, rule, hRule⟩
    have hRead := hRule.read
    rw [Draft.read_append, Except.bind_eq_ok_iff] at hRead
    obtain ⟨draft, hFront, -⟩ := hRead
    exact ⟨draft, hFront⟩
  · rintro ⟨draft, hFront⟩
    obtain ⟨rest, rule, -, hRest⟩ := draft.canFinish
    exact ⟨rest, rule, .of_read hFront hRest⟩

/-- What begins a rule also begins one whose other tokens are spelled as in a text. -/
theorem Viable.exists_isSpelling {front : List Token} (hViable : Viable front) :
    ∃ rest rule, (∀ token ∈ rest, token.kind.IsSpelling token.text.toList) ∧
      Rule.Spelled rule (front ++ rest) := by
  obtain ⟨draft, hFront⟩ := viable_iff_read.1 hViable
  obtain ⟨rest, rule, hSpelled, hRest⟩ := draft.canFinish
  exact ⟨rest, rule, hSpelled, .of_read hFront hRest⟩

/-- Viability in terms of the reader: a rule that it accepts has the tokens in front. -/
theorem viable_iff_ofTokens {front : List Token}
    (hFront : ∀ token ∈ front, token.kind ≠ .endOfInput) :
    Viable front ↔ ∃ rest rule, Rule.ofTokens (front ++ rest) = .ok rule := by
  have hIff : ∀ {rest : List Token} {rule : Rule}, Rule.ofTokens (front ++ rest) = .ok rule ↔
      rule.Spelled (front ++ Token.counted rest) := fun {rest rule} => by
    rw [← Token.counted_append hFront]
    exact Rule.ofClause_eq_ok_iff
  constructor
  · intro hViable
    obtain ⟨rest, rule, hSpelled, hRule⟩ := hViable.exists_isSpelling
    have hRest : Token.counted rest = rest :=
      List.takeWhile_eq_self_iff.2 fun token hMem => decide_eq_true fun hKind => by
        have hSpelling := hSpelled token hMem
        rw [hKind] at hSpelling
        exact hSpelling
    exact ⟨rest, rule, hIff.2 (by rwa [hRest])⟩
  · rintro ⟨rest, rule, hRule⟩
    exact ⟨Token.counted rest, rule, hIff.1 hRule⟩

section

variable {front : List Token} {draft : Draft}

theorem viable_concat_iff (hFront : Draft.blank.read front = .ok draft) {token : Token} :
    Viable (front ++ [token]) ↔ ∃ next, draft.step token = .ok next := by
  have hStep : draft.read [token] = draft.step token := bind_pure _
  rw [viable_iff_read, Draft.read_append_of_read hFront, hStep]

theorem spelled_iff_eq_complete (hFront : Draft.blank.read front = .ok draft) {rule : Rule} :
    rule.Spelled front ↔ draft = .complete rule := by
  constructor
  · intro hRule
    exact Except.ok.inj (hFront.symm.trans hRule.read)
  · rintro rfl
    exact Draft.spelled_of_read_blank hFront

/-- Each kind that a draft expects can follow what it was read from. -/
theorem continues_of_mem_expected (hFront : Draft.blank.read front = .ok draft) {kind : TokenKind}
    (hExpected : kind ∈ draft.expected) : Continues front kind := by
  obtain ⟨next, hStep⟩ := Draft.exists_step_of_mem_expected hExpected
  have hSpelling : kind.IsSpelling kind.sample.toList :=
    TokenKind.isSpelling_sample (Draft.kind_ne_of_step hStep (by simp))
  exact ⟨.sample kind, rfl, hSpelling, (viable_concat_iff hFront).2 ⟨next, hStep⟩⟩

/-- A kind with a value that can follow is one that the draft expects. -/
theorem mem_expected_of_continues (hFront : Draft.blank.read front = .ok draft) {kind : TokenKind}
    (hContinues : Continues front kind) (hValue : kind.hasValue = true) :
    kind ∈ draft.expected := by
  obtain ⟨token, rfl, -, hViable⟩ := hContinues
  obtain ⟨next, hStep⟩ := (viable_concat_iff hFront).1 hViable
  exact Draft.mem_expected_of_step hStep hValue

end

-- ---------------------------------------------------------------------------
-- Errors
-- ---------------------------------------------------------------------------

/-- Whether a token has a number of more than 32 bits, with these digits, which begin at this
offset. -/
inductive Token.Overflows (token : Token) : String → Nat → Prop where
  | digits (hKind : token.kind = .digits)
      (hLarge : 4294967295 < Nat.ofDigitChars 10 token.text.toList 0) :
      Overflows token token.text token.position
  | question {digits : String} (hKind : token.kind = .question) (hText : token.text = "Q" ++ digits)
      (hLarge : 4294967295 < Nat.ofDigitChars 10 digits.toList 0) :
      Overflows token digits (token.position + 1)

/-- The error for a token that makes a viable token list no longer viable. -/
inductive Token.Misplaced (front : List Token) (token : Token) : ParseError → Prop where
  | trailing {rule : Rule} (hRule : rule.Spelled front) :
      Misplaced front token ⟨token.position, .trailing token.text⟩
  | overflow {digits : String} {position : Nat} (hOverflows : token.Overflows digits position)
      (hContinues : Continues front token.kind) :
      Misplaced front token ⟨position, .numberOutOfRange digits⟩
  | unexpected {expected : List TokenKind} (hOpen : ∀ rule, ¬ Rule.Spelled rule front)
      (hFits : ∀ digits position, token.Overflows digits position → ¬ Continues front token.kind)
      (hExpected : ∀ kind ∈ expected, Continues front kind) :
      Misplaced front token ⟨token.position, .unexpected expected token.text⟩

/-- The error for tokens that end at an offset: the first token that makes them no longer viable is
misplaced or, if there is none, they end too early. -/
inductive ParseError.IsEarliest (tokens : List Token) (stop : Nat) : ParseError → Prop where
  | misplaced {front back : List Token} {token : Token} {e : ParseError}
      (hTokens : tokens = front ++ token :: back) (hFront : Viable front)
      (hToken : ¬ Viable (front ++ [token])) (hError : token.Misplaced front e) :
      IsEarliest tokens stop e
  | unterminated {expected : List TokenKind} (hTokens : Viable tokens)
      (hOpen : ∀ rule, ¬ Rule.Spelled rule tokens)
      (hExpected : ∀ kind ∈ expected, Continues tokens kind) :
      IsEarliest tokens stop ⟨stop, .unterminated expected⟩

theorem Token.StandsIn.exists_question_text {text : String} {token : Token}
    (hToken : token.StandsIn text) (hKind : token.kind = .question) :
    ∃ digits : String, digits ≠ "" ∧ token.text = "Q" ++ digits := by
  have hSpelling := hToken.spelling
  rw [hKind] at hSpelling
  obtain ⟨digits, hChars, hNonempty, -⟩ := hSpelling
  refine ⟨String.ofList digits, ?_, ?_⟩
  · rw [ne_eq, ← String.toList_inj, String.toList_ofList]
    exact hNonempty
  · rw [← String.toList_inj, hChars]
    simp

/-- A number that is too large is reported as that where its kind can follow. -/
theorem Token.Overflows.error_of_step {front : List Token} {draft : Draft} {token : Token}
    {digits : String} {position : Nat} {e : ParseError}
    (hOverflows : token.Overflows digits position) (hFront : Draft.blank.read front = .ok draft)
    (hContinues : Continues front token.kind) (hStep : draft.step token = .error e) :
    e = ⟨position, .numberOutOfRange digits⟩ := by
  cases hOverflows with
  | digits hKind =>
    rw [hKind] at hContinues
    have hExpected := mem_expected_of_continues hFront hContinues rfl
    obtain ⟨f, hNumber⟩ := Draft.exists_step_eq_of_digits hExpected
    rw [hNumber token hKind, Except.map_eq_error_iff, Token.number_eq_error_iff] at hStep
    exact hStep.2
  | question hKind hText hLarge =>
    have hNonempty : digits ≠ "" := by
      rintro rfl
      simp at hLarge
    rw [hKind] at hContinues
    have hExpected := mem_expected_of_continues hFront hContinues rfl
    obtain ⟨f, hQuestion⟩ := Draft.exists_step_eq_of_question hExpected
    rw [hQuestion token hKind, Except.map_eq_error_iff,
      Token.question_eq_map_number hText hNonempty, Except.map_eq_error_iff,
      Token.number_eq_error_iff] at hStep
    exact hStep.2

/-- What the draft of a viable token list refuses is misplaced behind that list. -/
theorem Draft.Refuses.misplaced {text : String} {front : List Token} {draft : Draft} {token : Token}
    {e : ParseError} (hFront : Draft.blank.read front = .ok draft) (hToken : token.StandsIn text)
    (hRefuses : draft.Refuses token e) (hStep : draft.step token = .error e) :
    token.Misplaced front e := by
  have hPoints : (LogicError.parse e).PointsInto text False := hRefuses.blames.pointsInto hToken
  cases hRefuses with
  | trailing hDraft => exact .trailing ((spelled_iff_eq_complete hFront).2 hDraft)
  | digits hKind hExpected hNumber =>
    obtain ⟨-, rfl⟩ := Token.number_eq_error_iff.1 hNumber
    refine .overflow (.digits hKind hPoints.2.2) ?_
    rw [hKind]
    exact continues_of_mem_expected hFront hExpected
  | question hKind hExpected hQuestion =>
    obtain ⟨digits, hNonempty, hText⟩ := hToken.exists_question_text hKind
    rw [Token.question_eq_map_number hText hNonempty, Except.map_eq_error_iff] at hQuestion
    obtain ⟨-, rfl⟩ := Token.number_eq_error_iff.1 hQuestion
    refine .overflow (.question hKind hText hPoints.2.2) ?_
    rw [hKind]
    exact continues_of_mem_expected hFront hExpected
  | unexpected hListed =>
    refine .unexpected ?_ ?_ ?_
    · intro rule hRule
      obtain rfl := (spelled_iff_eq_complete hFront).1 hRule
      cases hStep
    · intro digits position hOverflows hContinues
      have hError := hOverflows.error_of_step hFront hContinues hStep
      cases congrArg ParseError.fault hError
    · intro kind hMem
      exact continues_of_mem_expected hFront (hListed hMem)

/-- What ends before it is a rule ends too early, and what is expected there can follow. -/
theorem Draft.isEarliest_of_finish {tokens : List Token} {stop : Nat} {draft : Draft}
    {e : ParseError} (hTokens : Draft.blank.read tokens = .ok draft)
    (hFinish : draft.finish stop = .error e) : e.IsEarliest tokens stop := by
  obtain ⟨hOpen, rfl⟩ := finish_eq_error_iff.1 hFinish
  have hNone : ∀ rule, ¬ Rule.Spelled rule tokens := fun rule hRule =>
    hOpen rule ((spelled_iff_eq_complete hTokens).1 hRule)
  exact .unterminated (viable_iff_read.2 ⟨draft, hTokens⟩) hNone fun _ =>
    continues_of_mem_expected hTokens

/--
**Errors come as early as they can.** Where the tokens of a text are not a rule, the error is for
the first token that no rule has behind those before it, and for the end of the text if there is no
such token. Behind a complete rule it is trailing input; a number of more than 32 bits, alone or in
a question, is out of range if its kind could stand there; all else is unexpected. Every kind that
an error lists as expected can stand where the error is.
-/
theorem Rule.error_isEarliest {text : String} {tokens : List Token} {e : ParseError}
    (hTokens : Token.ofText text = .ok tokens) (hError : Rule.ofTokens tokens = .error e) :
    ∃ body, tokens = body ++ [.endAt text.utf8ByteSize] ∧
      e.IsEarliest body text.utf8ByteSize := by
  obtain ⟨body, hScan, hEnd⟩ := Token.ofText_eq_ok_iff.1 hTokens
  have hText : Clause.ofText text = .ok ⟨body, text.utf8ByteSize⟩ := Clause.ofText_of_scan hScan
  have hClause : Clause.ofTokens tokens = ⟨body, text.utf8ByteSize⟩ := by
    rw [Clause.ofText, hTokens] at hText
    exact Except.ok.inj hText
  refine ⟨body, hEnd, ?_⟩
  rw [Rule.ofTokens, hClause] at hError
  rcases Except.bind_eq_error_iff.1 hError with hRead | ⟨draft, hRead, hFinish⟩
  · obtain ⟨front, token, back, draft, (hBody : body = _), hFront, hStep⟩ :=
      Draft.exists_refused_of_read hRead
    have hStands : Clause.StandsIn text False ⟨body, text.utf8ByteSize⟩ :=
      Clause.standsIn_of_ofText hText
    have hToken : token.StandsIn text := hStands.tokens token (by simp [hBody])
    have hRefused : ¬ Viable (front ++ [token]) := by
      rw [viable_concat_iff hFront, hStep]
      rintro ⟨next, hNext⟩
      cases hNext
    exact .misplaced hBody (viable_iff_read.2 ⟨draft, hFront⟩) hRefused
      ((Draft.refuses_of_step hStep).misplaced hFront hToken hStep)
  · exact Draft.isEarliest_of_finish hRead hFinish

/-- A number that is too large, long before the sign that is missing and the word that is none, and
a connective at the end. -/
theorem Rule.error_isEarliest_number_and_end :
    let large := "If 3-99999999999 then foo"
    let short := "If >=80% and"
    let largeBody : List Token := [⟨.ifWord, "If", 0⟩, ⟨.digits, "3", 3⟩, ⟨.dash, "-", 4⟩,
      ⟨.digits, "99999999999", 5⟩, ⟨.thenWord, "then", 17⟩, ⟨.word, "foo", 22⟩]
    let shortBody : List Token := [⟨.ifWord, "If", 0⟩, ⟨.comparator .atLeast, ">=", 3⟩,
      ⟨.digits, "80", 5⟩, ⟨.percent, "%", 7⟩, ⟨.connective .and, "and", 9⟩]
    Token.ofText large = .ok (largeBody ++ [.endAt 25]) ∧
    Rule.ofTokens (largeBody ++ [.endAt 25]) =
      .error ⟨5, .numberOutOfRange "99999999999"⟩ ∧
    (∃ body, largeBody ++ [.endAt 25] = body ++ [.endAt large.utf8ByteSize] ∧
      ParseError.IsEarliest body large.utf8ByteSize ⟨5, .numberOutOfRange "99999999999"⟩) ∧
    Token.ofText short = .ok (shortBody ++ [.endAt 12]) ∧
    Rule.ofTokens (shortBody ++ [.endAt 12]) =
      .error ⟨12, .unterminated (Comparator.all.map .comparator)⟩ ∧
    ∃ body, shortBody ++ [.endAt 12] = body ++ [.endAt short.utf8ByteSize] ∧
      ParseError.IsEarliest body short.utf8ByteSize
        ⟨12, .unterminated (Comparator.all.map .comparator)⟩ := by
  intro large short largeBody shortBody
  have hLarge : Token.ofText large = .ok (largeBody ++ [.endAt 25]) := by decide +kernel
  have hLargeError : Rule.ofTokens (largeBody ++ [.endAt 25]) =
      .error ⟨5, .numberOutOfRange "99999999999"⟩ := by decide +kernel
  have hShort : Token.ofText short = .ok (shortBody ++ [.endAt 12]) := by decide +kernel
  have hShortError : Rule.ofTokens (shortBody ++ [.endAt 12]) =
      .error ⟨12, .unterminated (Comparator.all.map .comparator)⟩ := by decide +kernel
  exact ⟨hLarge, hLargeError, error_isEarliest hLarge hLargeError, hShort, hShortError,
    error_isEarliest hShort hShortError⟩

end ChecklistLogic
