import ChecklistLogic.Proofs.Except
import ChecklistLogic.Rule.Draft
import Mathlib.Data.List.Forall2

/-!
# ChecklistLogic — the grammar of rules

Which token lists are rules, and which rule each of them is. The grammar is given as relations
between the parts of a rule and the tokens that spell them; nothing in it mentions the reader.

A chain of comparisons is spelled from the left: what stands before the last connective is a chain
of its own. So the tree of a chain associates to the left, and `and` and `or` bind equally.

Two gaps lie between the grammar and `Draft.step`:

* **Parts vs prefixes** — the grammar speaks of whole parts of a rule, a draft of everything read
  so far. `Draft.Spelled` says which tokens lead to a draft, and one step keeps it
  (`spelled_of_step`).
* **One atom of lookbehind** — a draft keeps the last comparison apart from those before it, since
  a percent sign may still follow. `OpenComparison.close` undoes the split.

Main results:

* `Draft.spelled_of_read` / `Rule.Spelled.read` — reading stops at a complete rule exactly on the
  tokens that spell it.
* `Rule.ofTokens_eq_ok_iff_spelled` — reading a token list gives a rule if and only if the tokens
  before the first end marker spell it; only the texts of four kinds of tokens matter.
-/

namespace ChecklistLogic

-- ---------------------------------------------------------------------------
-- The grammar
-- ---------------------------------------------------------------------------

/-- A token that writes a number. -/
def Token.IsNumber (token : Token) (number : UInt32) : Prop :=
  token.kind = .digits ∧ Numeral.read? token.text = some number

/-- A token that names a question: `Q` and a number. -/
def Token.IsQuestion (token : Token) (question : Question) : Prop :=
  token.kind = .question ∧ ∃ digits : String, digits ≠ "" ∧ token.text = "Q" ++ digits ∧
    Numeral.read? digits = some question.number

/-- One comparison: its sign, its threshold and, for a percentage, a percent sign. -/
inductive Comparison.Spelled : Comparison → List Token → Prop where
  | count {sign digits : Token} {comparator : Comparator} {threshold : UInt32}
      (hSign : sign.kind = .comparator comparator) (hDigits : digits.IsNumber threshold) :
      Spelled ⟨comparator, threshold, false⟩ [sign, digits]
  | percentage {sign digits percent : Token} {comparator : Comparator} {threshold : UInt32}
      (hSign : sign.kind = .comparator comparator) (hDigits : digits.IsNumber threshold)
      (hPercent : percent.kind = .percent) :
      Spelled ⟨comparator, threshold, true⟩ [sign, digits, percent]

/-- A chain of comparisons: one comparison, or a chain, a connective and one more comparison. -/
inductive ComparisonTree.Spelled : ComparisonTree → List Token → Prop where
  | atom {comparison : Comparison} {tokens : List Token} (hAtom : comparison.Spelled tokens) :
      Spelled (.atom comparison) tokens
  | join {tree : ComparisonTree} {front back : List Token} {word : Token}
      {connective : Connective} {last : Comparison} (hTree : Spelled tree front)
      (hWord : word.kind = .connective connective) (hLast : last.Spelled back) :
      Spelled (.join connective tree (.atom last)) (front ++ word :: back)

/-- A range: two numbers with a dash between them. -/
def CountRange.Spelled (range : CountRange) (tokens : List Token) : Prop :=
  ∃ low dash high : Token, low.IsNumber range.low ∧ dash.kind = .dash ∧ high.IsNumber range.high ∧
    tokens = [low, dash, high]

/-- A list of options: each of them a hash and a number, with `or` between them. -/
inductive Selection.OptionsSpelled : List UInt32 → List Token → Prop where
  | single {hash digits : Token} {option : UInt32} (hHash : hash.kind = .hash)
      (hDigits : digits.IsNumber option) : OptionsSpelled [option] [hash, digits]
  | more {options : List UInt32} {front : List Token} {word hash digits : Token} {option : UInt32}
      (hFront : OptionsSpelled options front) (hWord : word.kind = .connective .or)
      (hHash : hash.kind = .hash) (hDigits : digits.IsNumber option) :
      OptionsSpelled (options ++ [option]) (front ++ [word, hash, digits])

/-- A condition that either kind of rule may have. -/
inductive Condition.Spelled : Condition → List Token → Prop where
  | answer {token : Token} {answer : Answer} (hKind : token.kind = .answer)
      (hText : token.text = answer.text) : Spelled (.answer answer) [token]
  | count {token : Token} {number : UInt32} (hNumber : token.IsNumber number) :
      Spelled (.count number) [token]
  | comparison {tree : ComparisonTree} {tokens : List Token} (hTree : tree.Spelled tokens) :
      Spelled (.comparison tree) tokens

/-- A condition of a scoring rule. -/
inductive ScoringCondition.Spelled : ScoringCondition → List Token → Prop where
  | common {condition : Condition} {tokens : List Token} (hCondition : condition.Spelled tokens) :
      Spelled (.common condition) tokens
  | range {range : CountRange} {tokens : List Token} (hRange : range.Spelled tokens) :
      Spelled (.range range) tokens
  | selection {options : List UInt32} {tokens : List Token}
      (hOptions : Selection.OptionsSpelled options tokens) :
      Spelled (.selection ⟨options⟩) tokens

/-- A rule. With the three conditions that both kinds share this makes eight shapes. -/
inductive Rule.Spelled : Rule → List Token → Prop where
  | scoring {word equals name : Token} {condition : ScoringCondition} {target : Score}
      {tokens : List Token} (hWord : word.kind = .ifWord) (hCondition : condition.Spelled tokens)
      (hEquals : equals.kind = .equals) (hKind : name.kind = .score)
      (hName : name.text = target.name) :
      Spelled (.scoring ⟨condition, target⟩) (word :: tokens ++ [equals, name])
  | skip {word comma thenWord name : Token} {condition : Condition} {target : Question}
      {tokens : List Token} (hWord : word.kind = .ifWord) (hCondition : condition.Spelled tokens)
      (hComma : comma.kind = .comma) (hThen : thenWord.kind = .thenWord)
      (hName : name.IsQuestion target) :
      Spelled (.skip ⟨condition, target⟩) (word :: tokens ++ [comma, thenWord, name])

-- ---------------------------------------------------------------------------
-- What a draft has read
-- ---------------------------------------------------------------------------

/-- A token list that starts with `If` and goes on with one that satisfies `body`. -/
def Opened (body : List Token → Prop) (tokens : List Token) : Prop :=
  ∃ word rest, word.kind = .ifWord ∧ body rest ∧ tokens = word :: rest

/-- A token list that satisfies `front` but for its last token, which is of the given kind. -/
def Followed (front : List Token → Prop) (kind : TokenKind) (tokens : List Token) : Prop :=
  ∃ before last, front before ∧ last.kind = kind ∧ tokens = before ++ [last]

/-- The comparisons before the next one, with the connective that joins them. -/
def OpenComparison.Spelled : OpenComparison → List Token → Prop
  | none => (· = [])
  | some (tree, connective) => Followed tree.Spelled (.connective connective)

/-- The options before the next one, with `or` behind them. -/
def OptionsBefore : List UInt32 → List Token → Prop
  | [] => (· = [])
  | earlier => Followed (Selection.OptionsSpelled earlier) (.connective .or)

/-- The token lists that lead to a draft. -/
def Draft.Spelled : Draft → List Token → Prop
  | .blank => (· = [])
  | .opened => Opened (· = [])
  | .answer a => Opened (Condition.answer a).Spelled
  | .count n => Opened (Condition.count n).Spelled
  | .rangeFrom low => Opened (Followed (Condition.count low).Spelled .dash)
  | .range r => Opened r.Spelled
  | .optionSign earlier => Opened (Followed (OptionsBefore earlier) .hash)
  | .options chosen => Opened (Selection.OptionsSpelled chosen)
  | .optionsOr earlier => Opened (Followed (Selection.OptionsSpelled earlier) (.connective .or))
  | .comparator before sign => Opened (Followed before.Spelled (.comparator sign))
  | .comparison before last => Opened fun tokens =>
      ∃ front back, before.Spelled front ∧ last.Spelled back ∧ tokens = front ++ back
  | .comparisonJoined tree c => Opened (Followed tree.Spelled (.connective c))
  | .scoring condition => Opened (Followed condition.Spelled .equals)
  | .skip condition => Opened (Followed condition.Spelled .comma)
  | .skipThen condition => Opened (Followed (Followed condition.Spelled .comma) .thenWord)
  | .complete rule => rule.Spelled

theorem Followed.intro {front : List Token → Prop} {before : List Token} {last : Token}
    (hFront : front before) : Followed front last.kind (before ++ [last]) :=
  ⟨before, last, hFront, rfl, rfl⟩

theorem Opened.imp {first second : List Token → Prop} {tokens : List Token}
    (hTokens : Opened first tokens) (hImp : ∀ rest, first rest → second rest) :
    Opened second tokens := by
  obtain ⟨word, rest, hWord, hRest, rfl⟩ := hTokens
  exact ⟨word, rest, hWord, hImp rest hRest, rfl⟩

/-- One more token behind `If` and what follows it. -/
theorem Opened.snoc {before after : List Token → Prop} {tokens : List Token} {token : Token}
    (hTokens : Opened before tokens) (hStep : ∀ rest, before rest → after (rest ++ [token])) :
    Opened after (tokens ++ [token]) := by
  obtain ⟨word, rest, hWord, hRest, rfl⟩ := hTokens
  exact ⟨word, rest ++ [token], hWord, hStep rest hRest, rfl⟩

/-- One more token whose kind alone matters. -/
theorem Opened.followed {before : List Token → Prop} {tokens : List Token} {token : Token}
    {kind : TokenKind} (hTokens : Opened before tokens) (hKind : token.kind = kind) :
    Opened (Followed before kind) (tokens ++ [token]) := by
  subst hKind
  exact hTokens.snoc fun _ hRest => Followed.intro hRest

-- ---------------------------------------------------------------------------
-- Numbers and questions
-- ---------------------------------------------------------------------------

theorem Token.number_eq_ok_iff {token : Token} {number : UInt32} :
    token.number = .ok number ↔ Numeral.read? token.text = some number := by
  unfold Token.number
  cases Numeral.read? token.text <;> simp

theorem Token.number_eq_error_iff {token : Token} {e : ParseError} :
    token.number = .error e ↔ Numeral.read? token.text = none ∧
      e = ⟨token.position, .numberOutOfRange token.text⟩ := by
  unfold Token.number
  cases Numeral.read? token.text <;> simp [eq_comm]

theorem Token.map_number_eq_ok {α : Type} {token : Token} {f : UInt32 → α} {result : α}
    (hResult : f <$> token.number = .ok result) :
    ∃ number, Numeral.read? token.text = some number ∧ f number = result := by
  obtain ⟨number, hNumber, hValue⟩ := Except.map_eq_ok_iff.1 hResult
  exact ⟨number, Token.number_eq_ok_iff.1 hNumber, hValue⟩

theorem Token.IsNumber.number_eq {token : Token} {number : UInt32}
    (hToken : token.IsNumber number) : token.number = .ok number :=
  Token.number_eq_ok_iff.2 hToken.2

/-- A question is the number behind its `Q`. -/
theorem Token.question_eq_map_number {token : Token} {digits : String}
    (hText : token.text = "Q" ++ digits) (hNonempty : digits ≠ "") :
    token.question = Question.mk <$> Token.number ⟨.digits, digits, token.position + 1⟩ := by
  cases hChars : digits.toList with
  | nil => exact absurd (String.toList_inj.1 hChars) hNonempty
  | cons digit rest =>
    have hToken : token.text.toList = 'Q' :: digit :: rest := by
      rw [hText, String.toList_append, hChars]
      rfl
    have hDigits : String.ofList (digit :: rest) = digits := by
      rw [← hChars, String.ofList_toList]
    unfold Token.question
    rw [hToken]
    simp only [hDigits]

/-- A question is read from `Q` and the digits behind it, of which there is at least one. -/
theorem Token.question_eq_ok_iff {token : Token} {question : Question} :
    token.question = .ok question ↔
      ∃ digits : String, digits ≠ "" ∧ token.text = "Q" ++ digits ∧
        Numeral.read? digits = some question.number := by
  constructor
  · intro hOk
    unfold Token.question at hOk
    split at hOk
    · rename_i digit digits hText
      obtain ⟨number, hNumber, rfl⟩ := Token.map_number_eq_ok hOk
      refine ⟨String.ofList (digit :: digits), ?_, ?_, hNumber⟩
      · rw [ne_eq, ← String.toList_inj, String.toList_ofList]
        simp
      · rw [← String.toList_inj, hText]
        simp
    · cases hOk
  · rintro ⟨digits, hNonempty, hText, hNumber⟩
    rw [Token.question_eq_map_number hText hNonempty, Except.map_eq_ok_iff]
    exact ⟨question.number, Token.number_eq_ok_iff.2 hNumber, rfl⟩

-- ---------------------------------------------------------------------------
-- Soundness: what a draft has read spells it
-- ---------------------------------------------------------------------------

/-- The token behind a condition of either kind decides the kind of the rule. -/
theorem Draft.spelled_of_turn {condition : Condition} {tokens : List Token} {token : Token}
    {next : Draft} (hTokens : Opened condition.Spelled tokens)
    (hTurn : Draft.turn condition token = .ok next) : next.Spelled (tokens ++ [token]) := by
  unfold Draft.turn at hTurn
  split at hTurn
  · rename_i hKind
    cases hTurn
    exact (hTokens.imp fun _ => .common).followed hKind
  · rename_i hKind
    cases hTurn
    exact hTokens.followed hKind
  · cases hTurn

/-- Closing the comparisons that have been read gives a tree that is spelled by their tokens. -/
theorem OpenComparison.Spelled.close {before : OpenComparison} {last : Comparison}
    {front back : List Token} (hBefore : before.Spelled front) (hLast : last.Spelled back) :
    (before.close last).Spelled (front ++ back) := by
  cases before with
  | none =>
    obtain rfl : front = [] := hBefore
    exact .atom hLast
  | some pair =>
    obtain ⟨tree, connective⟩ := pair
    obtain ⟨chain, word, hChain, hWord, rfl⟩ := hBefore
    rw [List.append_assoc]
    exact .join hChain hWord hLast

theorem Selection.OptionsSpelled.ne_nil {options : List UInt32} {tokens : List Token}
    (hSpelled : Selection.OptionsSpelled options tokens) : options ≠ [] := by
  cases hSpelled <;> simp

theorem OptionsBefore.snoc {earlier : List UInt32} {before : List Token} {hash digits : Token}
    {option : UInt32} (hBefore : OptionsBefore earlier before) (hHash : hash.kind = .hash)
    (hDigits : digits.IsNumber option) :
    Selection.OptionsSpelled (earlier ++ [option]) (before ++ [hash] ++ [digits]) := by
  cases earlier with
  | nil =>
    obtain rfl : before = [] := hBefore
    exact .single hHash hDigits
  | cons first others =>
    obtain ⟨front, word, hFront, hWord, rfl⟩ := hBefore
    simpa using hFront.more hWord hHash hDigits

/-- There is an option in front of `or`, so the next option is not the first. -/
theorem OptionsBefore.of_followed {earlier : List UInt32} {tokens : List Token}
    (hTokens : Followed (Selection.OptionsSpelled earlier) (.connective .or) tokens) :
    OptionsBefore earlier tokens := by
  cases earlier with
  | nil =>
    obtain ⟨front, _, hFront, _, _⟩ := hTokens
    exact absurd rfl hFront.ne_nil
  | cons first others => exact hTokens

theorem Draft.spelled_of_step_opened {tokens : List Token} {token : Token} {next : Draft}
    (hDraft : Draft.opened.Spelled tokens) (hStep : Draft.opened.step token = .ok next) :
    next.Spelled (tokens ++ [token]) := by
  simp only [Draft.step] at hStep
  split at hStep
  · rename_i hKind
    split at hStep
    · rename_i answer hText
      cases hStep
      refine hDraft.snoc fun rest hRest => ?_
      obtain rfl : rest = [] := hRest
      exact .answer hKind (Answer.ofText?_eq_some_iff.1 hText)
    · cases hStep
  · rename_i hKind
    obtain ⟨number, hNumber, rfl⟩ := Token.map_number_eq_ok hStep
    refine hDraft.snoc fun rest hRest => ?_
    obtain rfl : rest = [] := hRest
    exact .count ⟨hKind, hNumber⟩
  · rename_i hKind
    cases hStep
    exact hDraft.followed hKind
  · rename_i hKind
    cases hStep
    exact hDraft.followed hKind
  · cases hStep

/-- What has been read up to the end of a comparison is a chain. -/
theorem Draft.Spelled.chain {before : OpenComparison} {last : Comparison} {tokens : List Token}
    (hDraft : (Draft.comparison before last).Spelled tokens) :
    Opened (before.close last).Spelled tokens := by
  refine Opened.imp hDraft ?_
  rintro _ ⟨front, back, hFront, hBack, rfl⟩
  exact hFront.close hBack

/-- The token behind a comparison: its percent sign, a connective, or the end of the condition. -/
theorem Draft.spelled_of_step_comparison {before : OpenComparison} {last : Comparison}
    {tokens : List Token} {token : Token} {next : Draft}
    (hDraft : (Draft.comparison before last).Spelled tokens)
    (hStep : (Draft.comparison before last).step token = .ok next) :
    next.Spelled (tokens ++ [token]) := by
  simp only [Draft.step] at hStep
  split at hStep
  · rename_i hKind hCount
    cases hStep
    refine hDraft.snoc fun rest hRest => ?_
    obtain ⟨front, back, hFront, hBack, rfl⟩ := hRest
    cases hBack with
    | count hSign hDigits =>
      exact ⟨front, _, hFront, .percentage hSign hDigits hKind, by simp⟩
    | percentage => cases hCount
  · rename_i c _ hKind
    cases hStep
    exact hDraft.chain.followed hKind
  · exact spelled_of_turn (hDraft.chain.imp fun _ => .comparison) hStep

theorem Draft.spelled_of_step_scoring {condition : ScoringCondition} {tokens : List Token}
    {token : Token} {next : Draft} (hDraft : (Draft.scoring condition).Spelled tokens)
    (hStep : (Draft.scoring condition).step token = .ok next) :
    next.Spelled (tokens ++ [token]) := by
  simp only [Draft.step] at hStep
  split at hStep
  · rename_i target hKind hName
    cases hStep
    obtain ⟨word, _, hWord, ⟨rest, equals, hRest, hEquals, rfl⟩, rfl⟩ := hDraft
    have hRule := Rule.Spelled.scoring hWord hRest hEquals hKind
      (Score.ofName?_eq_some_iff.1 hName)
    simpa [Draft.Spelled] using hRule
  · cases hStep

theorem Draft.spelled_of_step_skipThen {condition : Condition} {tokens : List Token}
    {token : Token} {next : Draft} (hDraft : (Draft.skipThen condition).Spelled tokens)
    (hStep : (Draft.skipThen condition).step token = .ok next) :
    next.Spelled (tokens ++ [token]) := by
  simp only [Draft.step] at hStep
  split at hStep
  · rename_i hKind
    obtain ⟨target, hQuestion, rfl⟩ := Except.map_eq_ok_iff.1 hStep
    obtain ⟨word, _, hWord, ⟨_, thenWord, ⟨rest, comma, hRest, hComma, rfl⟩, hThen, rfl⟩, rfl⟩ :=
      hDraft
    have hRule := Rule.Spelled.skip hWord hRest hComma hThen
      ⟨hKind, Token.question_eq_ok_iff.1 hQuestion⟩
    simpa [Draft.Spelled] using hRule
  · cases hStep

/-- One step keeps track of the tokens. -/
theorem Draft.spelled_of_step {draft next : Draft} {tokens : List Token} {token : Token}
    (hDraft : draft.Spelled tokens) (hStep : draft.step token = .ok next) :
    next.Spelled (tokens ++ [token]) := by
  cases draft with
  | opened => exact spelled_of_step_opened hDraft hStep
  | answer a => exact spelled_of_turn hDraft hStep
  | comparison before last => exact spelled_of_step_comparison hDraft hStep
  | scoring condition => exact spelled_of_step_scoring hDraft hStep
  | skipThen condition => exact spelled_of_step_skipThen hDraft hStep
  | complete rule => cases hStep
  | comparisonJoined | skip =>
    -- only the kind of the token matters
    simp only [Draft.step] at hStep
    split at hStep
    · rename_i hKind
      cases hStep
      exact hDraft.followed hKind
    · cases hStep
  | blank =>
    obtain rfl : tokens = [] := hDraft
    simp only [Draft.step] at hStep
    split at hStep
    · rename_i hKind
      cases hStep
      exact ⟨token, [], hKind, rfl, rfl⟩
    · cases hStep
  | count n =>
    simp only [Draft.step] at hStep
    split at hStep
    · rename_i hKind
      cases hStep
      exact hDraft.followed hKind
    · exact spelled_of_turn hDraft hStep
  | rangeFrom low =>
    simp only [Draft.step] at hStep
    split at hStep
    · rename_i hKind
      obtain ⟨high, hHigh, rfl⟩ := Token.map_number_eq_ok hStep
      refine hDraft.snoc fun rest hRest => ?_
      obtain ⟨before, dash, hLow, hDash, rfl⟩ := hRest
      cases hLow with
      | count hLow => exact ⟨_, dash, token, hLow, hDash, ⟨hKind, hHigh⟩, rfl⟩
    · cases hStep
  | range r =>
    simp only [Draft.step] at hStep
    split at hStep
    · rename_i hKind
      cases hStep
      exact (hDraft.imp fun _ => .range).followed hKind
    · cases hStep
  | optionSign earlier =>
    simp only [Draft.step] at hStep
    split at hStep
    · rename_i hKind
      obtain ⟨option, hOption, rfl⟩ := Token.map_number_eq_ok hStep
      refine hDraft.snoc fun rest hRest => ?_
      obtain ⟨before, hash, hBefore, hHash, rfl⟩ := hRest
      exact hBefore.snoc hHash ⟨hKind, hOption⟩
    · cases hStep
  | options chosen =>
    simp only [Draft.step] at hStep
    split at hStep
    · rename_i hKind
      cases hStep
      exact hDraft.followed hKind
    · rename_i hKind
      cases hStep
      exact (hDraft.imp fun _ => .selection).followed hKind
    · cases hStep
  | optionsOr earlier =>
    simp only [Draft.step] at hStep
    split at hStep
    · rename_i hKind
      cases hStep
      exact (hDraft.imp fun _ => .of_followed).followed hKind
    · cases hStep
  | comparator before sign =>
    simp only [Draft.step] at hStep
    split at hStep
    · rename_i hKind
      obtain ⟨threshold, hThreshold, rfl⟩ := Token.map_number_eq_ok hStep
      refine hDraft.snoc fun rest hRest => ?_
      obtain ⟨front, mark, hFront, hMark, rfl⟩ := hRest
      exact ⟨front, [mark, token], hFront, .count hMark ⟨hKind, hThreshold⟩, by simp⟩
    · cases hStep

/-- Whatever has been read without a fault spells the draft it has led to. -/
theorem Draft.spelled_of_read {start draft : Draft} {before tokens : List Token}
    (hStart : start.Spelled before) (hRead : start.read tokens = .ok draft) :
    draft.Spelled (before ++ tokens) := by
  induction tokens generalizing start before with
  | nil =>
    cases hRead
    simpa using hStart
  | cons token rest ih =>
    rw [Draft.read_cons] at hRead
    obtain ⟨next, hStep, hRest⟩ := Except.bind_eq_ok_iff.1 hRead
    have hNext := ih (spelled_of_step hStart hStep) hRest
    rwa [List.append_assoc] at hNext

theorem Draft.spelled_of_read_blank {draft : Draft} {tokens : List Token}
    (hRead : Draft.blank.read tokens = .ok draft) : draft.Spelled tokens := by
  have hStart : Draft.blank.Spelled [] := rfl
  exact spelled_of_read hStart hRead

/-- No draft takes a semicolon, a word of no other kind or an end marker. -/
theorem Draft.kind_ne_of_step {draft next : Draft} {token : Token} {kind : TokenKind}
    (hStep : draft.step token = .ok next) (hKind : kind ∈ [.semicolon, .word, .endOfInput]) :
    token.kind ≠ kind := by
  intro hToken
  simp only [List.mem_cons, List.not_mem_nil, or_false] at hKind
  rcases hKind with rfl | rfl | rfl <;>
    cases draft <;> simp [step, turn, Token.refuse, hToken] at hStep

-- ---------------------------------------------------------------------------
-- Completeness: what spells a rule is read
-- ---------------------------------------------------------------------------

theorem Draft.read_cons_of_step {draft next : Draft} {token : Token} {rest : List Token}
    (hStep : draft.step token = .ok next) : draft.read (token :: rest) = next.read rest := by
  rw [Draft.read_cons, hStep]
  rfl

theorem Draft.read_append_of_read {draft next : Draft} {front back : List Token}
    (hFront : draft.read front = .ok next) : draft.read (front ++ back) = next.read back := by
  rw [Draft.read_append, hFront]
  rfl

theorem Token.IsNumber.map_number {α : Type} {token : Token} {number : UInt32} {f : UInt32 → α}
    (hToken : token.IsNumber number) : f <$> token.number = .ok (f number) := by
  rw [hToken.number_eq]
  rfl

/-- The draft behind comparisons that wait for the next one. -/
def OpenComparison.draft : OpenComparison → Draft
  | none => .opened
  | some (tree, connective) => .comparisonJoined tree connective

theorem OpenComparison.step_draft {before : OpenComparison} {sign : Token} {comparator : Comparator}
    (hSign : sign.kind = .comparator comparator) :
    before.draft.step sign = .ok (.comparator before comparator) := by
  cases before with
  | none => simp [draft, Draft.step, hSign]
  | some pair => simp [draft, Draft.step, hSign]

theorem Draft.step_comparator {before : OpenComparison} {comparator : Comparator} {digits : Token}
    {threshold : UInt32} (hDigits : digits.IsNumber threshold) :
    (Draft.comparator before comparator).step digits =
      .ok (.comparison before ⟨comparator, threshold, false⟩) := by
  simp only [Draft.step, hDigits.1, hDigits.map_number]

theorem Draft.step_opened_digits {digits : Token} {number : UInt32}
    (hDigits : digits.IsNumber number) : Draft.opened.step digits = .ok (.count number) := by
  simp only [Draft.step, hDigits.1, hDigits.map_number]

theorem Comparison.Spelled.read {comparison : Comparison} {tokens : List Token}
    (hSpelled : comparison.Spelled tokens) (before : OpenComparison) :
    before.draft.read tokens = .ok (.comparison before comparison) := by
  cases hSpelled with
  | count hSign hDigits =>
    rw [Draft.read_cons_of_step (OpenComparison.step_draft hSign),
      Draft.read_cons_of_step (Draft.step_comparator hDigits), Draft.read_nil]
  | percentage hSign hDigits hPercent =>
    rw [Draft.read_cons_of_step (OpenComparison.step_draft hSign),
      Draft.read_cons_of_step (Draft.step_comparator hDigits)]
    exact Draft.read_cons_of_step (by simp [Draft.step, hPercent])

/-- A chain is read up to its last comparison, which may still get its percent sign. -/
theorem ComparisonTree.Spelled.read {tree : ComparisonTree} {tokens : List Token}
    (hSpelled : tree.Spelled tokens) :
    ∃ before last, OpenComparison.close before last = tree ∧
      Draft.opened.read tokens = .ok (.comparison before last) := by
  induction hSpelled with
  | @atom comparison _ hAtom => exact ⟨none, comparison, rfl, hAtom.read none⟩
  | @join tree front back word connective last _ hWord hLast ih =>
    obtain ⟨before, previous, hClose, hRead⟩ := ih
    refine ⟨some (tree, connective), last, rfl, ?_⟩
    have hStep : (Draft.comparison before previous).step word =
        .ok (.comparisonJoined tree connective) := by
      rw [← hClose]
      simp [Draft.step, hWord]
    rw [Draft.read_append_of_read hRead, Draft.read_cons_of_step hStep]
    exact hLast.read (some (tree, connective))

theorem Draft.read_option {draft : Draft} {earlier : List UInt32} {hash digits : Token}
    {option : UInt32} (hHash : draft.step hash = .ok (.optionSign earlier))
    (hDigits : digits.IsNumber option) :
    draft.read [hash, digits] = .ok (.options (earlier ++ [option])) := by
  rw [Draft.read_cons_of_step hHash]
  refine Draft.read_cons_of_step ?_
  simp only [Draft.step, hDigits.1, hDigits.map_number]

theorem Selection.OptionsSpelled.read {options : List UInt32} {tokens : List Token}
    (hSpelled : Selection.OptionsSpelled options tokens) :
    Draft.opened.read tokens = .ok (.options options) := by
  induction hSpelled with
  | @single hash _ _ hHash hDigits =>
    have hStep : Draft.opened.step hash = .ok (.optionSign []) := by
      simp [Draft.step, hHash]
    exact Draft.read_option hStep hDigits
  | @more options _ word hash _ _ _ hWord hHash hDigits ih =>
    have hOr : (Draft.options options).step word = .ok (.optionsOr options) := by
      simp [Draft.step, hWord]
    have hStep : (Draft.optionsOr options).step hash = .ok (.optionSign options) := by
      simp [Draft.step, hHash]
    rw [Draft.read_append_of_read ih, Draft.read_cons_of_step hOr]
    exact Draft.read_option hStep hDigits

/-- A condition of either kind is read, and the token behind it decides the kind of the rule. -/
theorem Condition.Spelled.read {condition : Condition} {tokens : List Token}
    (hSpelled : condition.Spelled tokens) :
    ∃ draft, Draft.opened.read tokens = .ok draft ∧
      ∀ token : Token, token.kind = .equals ∨ token.kind = .comma →
        draft.step token = Draft.turn condition token := by
  cases hSpelled with
  | @answer token answer hKind hText =>
    refine ⟨.answer answer, Draft.read_cons_of_step ?_, fun _ _ => rfl⟩
    simp [Draft.step, hKind, hText]
  | @count token number hNumber =>
    refine ⟨.count number, Draft.read_cons_of_step (Draft.step_opened_digits hNumber), ?_⟩
    rintro next (hKind | hKind) <;> simp [Draft.step, hKind]
  | comparison hTree =>
    obtain ⟨before, last, rfl, hRead⟩ := hTree.read
    refine ⟨.comparison before last, hRead, ?_⟩
    rintro next (hKind | hKind) <;> simp [Draft.step, hKind]

theorem CountRange.Spelled.read {range : CountRange} {tokens : List Token}
    (hSpelled : range.Spelled tokens) : Draft.opened.read tokens = .ok (.range range) := by
  obtain ⟨low, dash, high, hLow, hDash, hHigh, rfl⟩ := hSpelled
  have hSecond : (Draft.count range.low).step dash = .ok (.rangeFrom range.low) := by
    simp [Draft.step, hDash]
  rw [Draft.read_cons_of_step (Draft.step_opened_digits hLow), Draft.read_cons_of_step hSecond]
  refine Draft.read_cons_of_step ?_
  simp only [Draft.step, hHigh.1, hHigh.map_number]

/-- The condition of a scoring rule is read, and `=` behind it. -/
theorem ScoringCondition.Spelled.read {condition : ScoringCondition} {tokens : List Token}
    (hSpelled : condition.Spelled tokens) {equals : Token} (hEquals : equals.kind = .equals) :
    Draft.opened.read (tokens ++ [equals]) = .ok (.scoring condition) := by
  cases hSpelled with
  | common hCondition =>
    obtain ⟨draft, hRead, hTurn⟩ := hCondition.read
    rw [Draft.read_append_of_read hRead]
    refine Draft.read_cons_of_step ?_
    rw [hTurn equals (.inl hEquals)]
    simp [Draft.turn, hEquals]
  | range hRange =>
    rw [Draft.read_append_of_read hRange.read]
    exact Draft.read_cons_of_step (by simp [Draft.step, hEquals])
  | selection hOptions =>
    rw [Draft.read_append_of_read hOptions.read]
    exact Draft.read_cons_of_step (by simp [Draft.step, hEquals])

theorem Rule.Spelled.read {rule : Rule} {tokens : List Token} (hSpelled : rule.Spelled tokens) :
    Draft.blank.read tokens = .ok (.complete rule) := by
  have hOpen : ∀ {word : Token}, word.kind = .ifWord → Draft.blank.step word = .ok .opened := by
    intro word hWord
    simp [Draft.step, hWord]
  cases hSpelled with
  | @scoring word equals name condition target body hWord hCondition hEquals hKind hName =>
    rw [List.cons_append, Draft.read_cons_of_step (hOpen hWord),
      show body ++ [equals, name] = (body ++ [equals]) ++ [name] by simp,
      Draft.read_append_of_read (hCondition.read hEquals)]
    refine Draft.read_cons_of_step ?_
    simp [Draft.step, hKind, hName]
  | @skip word comma thenWord name condition target body hWord hCondition hComma hThen hName =>
    obtain ⟨draft, hRead, hTurn⟩ := hCondition.read
    have hSkip : draft.step comma = .ok (.skip condition) := by
      rw [hTurn comma (.inr hComma)]
      simp [Draft.turn, hComma]
    have hSkipThen : (Draft.skip condition).step thenWord = .ok (.skipThen condition) := by
      simp [Draft.step, hThen]
    rw [List.cons_append, Draft.read_cons_of_step (hOpen hWord), Draft.read_append_of_read hRead,
      Draft.read_cons_of_step hSkip, Draft.read_cons_of_step hSkipThen]
    refine Draft.read_cons_of_step ?_
    simp only [Draft.step, hName.1, Token.question_eq_ok_iff.2 hName.2]
    rfl

/-- Reading a clause gives a rule if and only if the tokens of the clause spell it. -/
theorem Rule.ofClause_eq_ok_iff {clause : Clause} {rule : Rule} :
    Rule.ofClause clause = .ok rule ↔ rule.Spelled clause.tokens := by
  constructor
  · intro hOk
    obtain ⟨draft, hRead, hFinish⟩ := Except.bind_eq_ok_iff.1 hOk
    obtain rfl := Draft.finish_eq_ok_iff.1 hFinish
    exact Draft.spelled_of_read_blank hRead
  · intro hSpelled
    unfold Rule.ofClause
    rw [hSpelled.read]
    rfl

-- ---------------------------------------------------------------------------
-- What a token contributes
-- ---------------------------------------------------------------------------

/-- The kinds of tokens whose text says more than their kind. -/
def TokenKind.hasValue : TokenKind → Bool
  | .answer | .score | .digits | .question => true
  | _ => false

/-- Tokens of one kind that also have one text, if it matters. Their places may differ. -/
def Token.Alike (a b : Token) : Prop :=
  a.kind = b.kind ∧ (a.kind.hasValue = true → a.text = b.text)

/-- Tokens that are of one kind and say the same, which is their text only for answers and scores:
numbers and questions may be written in several ways. -/
structure Token.Agree (a b : Token) : Prop where
  kind : a.kind = b.kind
  text : a.kind = .answer ∨ a.kind = .score → a.text = b.text
  number : a.kind = .digits → ∀ n, a.number = .ok n ↔ b.number = .ok n
  question : a.kind = .question → ∀ q, a.question = .ok q ↔ b.question = .ok q

theorem Token.Alike.agree {a b : Token} (hAlike : a.Alike b) : a.Agree b where
  kind := hAlike.1
  text hKind := hAlike.2 (by rcases hKind with hKind | hKind <;> rw [hKind] <;> rfl)
  number hKind n := by
    rw [Token.number_eq_ok_iff, Token.number_eq_ok_iff, hAlike.2 (by rw [hKind]; rfl)]
  question hKind q := by
    rw [Token.question_eq_ok_iff, Token.question_eq_ok_iff, hAlike.2 (by rw [hKind]; rfl)]

theorem Token.Agree.symm {a b : Token} (hAgree : a.Agree b) : b.Agree a where
  kind := hAgree.kind.symm
  text hKind := (hAgree.text (by rwa [hAgree.kind])).symm
  number hKind n := (hAgree.number (by rwa [hAgree.kind]) n).symm
  question hKind q := (hAgree.question (by rwa [hAgree.kind]) q).symm

theorem Draft.turn_eq_ok_of_agree {condition : Condition} {next : Draft} {a b : Token}
    (hAgree : a.Agree b) (hTurn : turn condition a = .ok next) : turn condition b = .ok next := by
  unfold turn at hTurn ⊢
  rw [← hAgree.kind]
  split at hTurn
  · exact hTurn
  · exact hTurn
  · cases hTurn

theorem Token.Agree.map_number {a b : Token} (hAgree : a.Agree b) (hKind : a.kind = .digits)
    {α : Type} {f : UInt32 → α} {result : α} (hResult : f <$> a.number = .ok result) :
    f <$> b.number = .ok result := by
  obtain ⟨number, hNumber, rfl⟩ := Except.map_eq_ok_iff.1 hResult
  rw [(hAgree.number hKind number).1 hNumber]
  rfl

/-- A draft looks at the text of a token only where its kind calls for it. -/
theorem Draft.step_eq_ok_of_agree {draft next : Draft} {a b : Token} (hAgree : a.Agree b)
    (hStep : draft.step a = .ok next) : draft.step b = .ok next := by
  have hKind := hAgree.kind
  have hTurn : ∀ {condition : Condition}, turn condition a = .ok next →
      turn condition b = .ok next := turn_eq_ok_of_agree hAgree
  cases draft with
  | answer => exact hTurn hStep
  | complete => cases hStep
  | blank | range | optionsOr | comparisonJoined | skip =>
    simp only [Draft.step] at hStep ⊢
    rw [← hKind]
    split at hStep
    · exact hStep
    · cases hStep
  | rangeFrom | optionSign | comparator =>
    simp only [Draft.step] at hStep ⊢
    rw [← hKind]
    split at hStep
    · rename_i hDigits
      exact hAgree.map_number hDigits hStep
    · cases hStep
  | opened =>
    simp only [Draft.step] at hStep ⊢
    rw [← hKind]
    split at hStep
    · rename_i hAnswer
      rw [← hAgree.text (.inl hAnswer)]
      split at hStep
      · exact hStep
      · cases hStep
    · rename_i hDigits
      exact hAgree.map_number hDigits hStep
    · exact hStep
    · exact hStep
    · cases hStep
  | count =>
    simp only [Draft.step] at hStep ⊢
    rw [← hKind]
    split at hStep
    · exact hStep
    · exact hTurn hStep
  | options =>
    simp only [Draft.step] at hStep ⊢
    rw [← hKind]
    split at hStep
    · exact hStep
    · exact hStep
    · cases hStep
  | comparison =>
    simp only [Draft.step] at hStep ⊢
    rw [← hKind]
    split at hStep
    · exact hStep
    · exact hStep
    · exact hTurn hStep
  | scoring =>
    simp only [Draft.step] at hStep ⊢
    rw [← hKind]
    split at hStep
    · rename_i hScore hName
      rw [← hAgree.text (.inr hScore), hScore, hName]
      exact hStep
    · cases hStep
  | skipThen =>
    simp only [Draft.step] at hStep ⊢
    rw [← hKind]
    split at hStep
    · rename_i hName
      obtain ⟨target, hQuestion, rfl⟩ := Except.map_eq_ok_iff.1 hStep
      rw [(hAgree.question hName target).1 hQuestion]
      rfl
    · cases hStep

theorem Draft.read_eq_ok_of_agree {draft last : Draft} {tokens others : List Token}
    (hAgree : List.Forall₂ Token.Agree tokens others) (hRead : draft.read tokens = .ok last) :
    draft.read others = .ok last := by
  induction hAgree generalizing draft with
  | nil => exact hRead
  | cons hHead _ ih =>
    rw [Draft.read_cons] at hRead
    obtain ⟨next, hStep, hRest⟩ := Except.bind_eq_ok_iff.1 hRead
    rw [Draft.read_cons_of_step (Draft.step_eq_ok_of_agree hHead hStep)]
    exact ih hRest

theorem Rule.Spelled.of_agree {rule : Rule} {tokens others : List Token}
    (hAgree : List.Forall₂ Token.Agree tokens others) (hSpelled : rule.Spelled tokens) :
    rule.Spelled others :=
  Draft.spelled_of_read_blank (Draft.read_eq_ok_of_agree hAgree hSpelled.read)

theorem Rule.Spelled.of_alike {rule : Rule} {tokens others : List Token}
    (hAlike : List.Forall₂ Token.Alike tokens others) (hSpelled : rule.Spelled tokens) :
    rule.Spelled others :=
  hSpelled.of_agree (hAlike.imp fun _ _ => Token.Alike.agree)

theorem Token.Alike.symm {a b : Token} (hAlike : a.Alike b) : b.Alike a :=
  ⟨hAlike.1.symm, fun hValue => (hAlike.2 (hAlike.1 ▸ hValue)).symm⟩

-- ---------------------------------------------------------------------------
-- Token lists that are rules
-- ---------------------------------------------------------------------------

/-- The tokens that count: those before the first end marker. -/
def Token.counted (tokens : List Token) : List Token :=
  tokens.takeWhile (·.kind ≠ .endOfInput)

theorem Token.counted_append {front : List Token}
    (hFront : ∀ token ∈ front, token.kind ≠ .endOfInput) (rest : List Token) :
    Token.counted (front ++ rest) = front ++ Token.counted rest :=
  List.takeWhile_append_of_pos fun token hMem => decide_eq_true (hFront token hMem)

/--
**The reader accepts exactly the grammar.** A token list, whatever its tokens and wherever its end
markers stand, is read as a rule if and only if the tokens before the first end marker spell that
rule. Places do not matter, and texts only those of answers, scores, numbers and questions: lists
that are alike in all else are read as the same rules.
-/
theorem Rule.ofTokens_eq_ok_iff_spelled (tokens : List Token) (rule : Rule) :
    (Rule.ofTokens tokens = .ok rule ↔ rule.Spelled (Token.counted tokens)) ∧
    ∀ others : List Token, List.Forall₂ Token.Alike (Token.counted tokens) (Token.counted others) →
      (Rule.ofTokens others = .ok rule ↔ Rule.ofTokens tokens = .ok rule) := by
  have hIff : ∀ list : List Token,
      Rule.ofTokens list = .ok rule ↔ rule.Spelled (Token.counted list) :=
    fun _ => Rule.ofClause_eq_ok_iff
  refine ⟨hIff tokens, fun others hAlike => ?_⟩
  rw [hIff, hIff]
  have hBack : List.Forall₂ Token.Alike (Token.counted others) (Token.counted tokens) :=
    hAlike.flip.imp fun _ _ => Token.Alike.symm
  exact ⟨Rule.Spelled.of_alike hBack, Rule.Spelled.of_alike hAlike⟩

/-- Two spellings of one rule: other places, another word for `If`, no text for `=`, and an end
marker. -/
theorem Rule.ofTokens_eq_ok_iff_spelled_answer :
    let tokens : List Token :=
      [⟨.ifWord, "If", 0⟩, ⟨.answer, "Y", 3⟩, ⟨.equals, "=", 5⟩, ⟨.score, "Green", 7⟩]
    let others : List Token :=
      [⟨.ifWord, "if", 2⟩, ⟨.answer, "Y", 9⟩, ⟨.equals, "", 9⟩, ⟨.score, "Green", 9⟩, .endAt 20]
    List.Forall₂ Token.Alike (Token.counted tokens) (Token.counted others) ∧
      Rule.ofTokens others = .ok (.scoring ⟨.common (.answer .yes), .green⟩) := by
  intro tokens others
  have hTokens : Rule.ofTokens tokens = .ok (.scoring ⟨.common (.answer .yes), .green⟩) := rfl
  have hAlike : List.Forall₂ Token.Alike (Token.counted tokens) (Token.counted others) := by
    simp [Token.counted, Token.Alike, Token.endAt, TokenKind.hasValue, tokens, others]
  exact ⟨hAlike, ((Rule.ofTokens_eq_ok_iff_spelled tokens _).2 others hAlike).2 hTokens⟩

end ChecklistLogic
