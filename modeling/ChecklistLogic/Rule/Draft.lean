import ChecklistLogic.Clause
import ChecklistLogic.Rule

/-!
# ChecklistLogic — reading a rule

A rule is read from left to right, one token at a time. A draft is what the tokens read so far
have said.

* `Draft.step` reads one more token. Each draft takes only certain kinds of tokens, so the first
  token that no rule can have at its place is refused as soon as it is met.
* `Draft.expected` lists the kinds that a report names when a draft takes no such token. It leaves
  out a token that only lengthens a condition which is complete without it.
* `Draft.read` reads tokens one after the other (`read_append`). A complete rule takes no more of
  them (`read_complete_cons`).
* `Rule.ofClause` reads a whole clause, which has to end with a complete rule.
-/

namespace ChecklistLogic

/-- Comparisons still to be joined to the next one, with the connective that joins them. -/
abbrev OpenComparison := Option (ComparisonTree × Connective)

/-- Joins one more comparison to those before it. -/
def OpenComparison.close (before : OpenComparison) (last : Comparison) : ComparisonTree :=
  match before with
  | none => .atom last
  | some (tree, connective) => tree.append (connective, last)

/-- What the tokens read so far have said. -/
inductive Draft where
  /-- Nothing has been read. -/
  | blank
  /-- The word `If`, behind which a condition begins. -/
  | opened
  /-- An answer. -/
  | answer (answer : Answer)
  /-- A number, which may turn out to be the lower bound of a range. -/
  | count (number : UInt32)
  /-- A number and a dash. -/
  | rangeFrom (low : UInt32)
  /-- A range with both bounds. -/
  | range (range : CountRange)
  /-- Options and, for the next one, `#`. -/
  | optionSign (options : List UInt32)
  /-- Options, behind which there may be more. -/
  | options (options : List UInt32)
  /-- Options and `or`. -/
  | optionsOr (options : List UInt32)
  /-- Comparisons and the sign of the next one. -/
  | comparator (before : OpenComparison) (comparator : Comparator)
  /-- Comparisons, the last of which may still get its percent sign. -/
  | comparison (before : OpenComparison) (last : Comparison)
  /-- Comparisons and a connective. -/
  | comparisonJoined (tree : ComparisonTree) (connective : Connective)
  /-- A condition and `=`. -/
  | scoring (condition : ScoringCondition)
  /-- A condition and a comma. -/
  | skip (condition : Condition)
  /-- A condition, a comma and `then`. -/
  | skipThen (condition : Condition)
  /-- A whole rule. -/
  | complete (rule : Rule)
  deriving DecidableEq

/-- Refuses a token where only the expected kinds may stand. -/
def Token.refuse {α : Type} (token : Token) (expected : List TokenKind) : Except ParseError α :=
  .error ⟨token.position, .unexpected expected token.text⟩

/-- The number that a token stands for. -/
def Token.number (token : Token) : Except ParseError UInt32 :=
  match Numeral.read? token.text with
  | some number => .ok number
  | none => .error ⟨token.position, .numberOutOfRange token.text⟩

/-- The question that a token stands for: `Q` and a number. -/
def Token.question (token : Token) : Except ParseError Question :=
  match token.text.toList with
  | 'Q' :: digit :: digits => Question.mk <$>
      Token.number ⟨.digits, String.ofList (digit :: digits), token.position + 1⟩
  | _ => token.refuse [.question]

namespace Draft

/-- The kinds that can begin a condition. -/
def conditionStart : List TokenKind :=
  [.answer, .digits] ++ Comparator.all.map .comparator ++ [.hash]

/-- The kinds that reports list as right for the next token. -/
def expected : Draft → List TokenKind
  | .blank => [.ifWord]
  | .opened => conditionStart
  | .answer _ | .count _ | .comparison _ _ => [.equals, .comma]
  | .rangeFrom _ | .optionSign _ | .comparator _ _ => [.digits]
  | .range _ | .options _ => [.equals]
  | .optionsOr _ => [.hash]
  | .comparisonJoined _ _ => Comparator.all.map .comparator
  | .scoring _ => [.score]
  | .skip _ => [.thenWord]
  | .skipThen _ => [.question]
  | .complete _ => []

/-- Reads the token behind a condition that both kinds of rule may have: `=` makes it that of a
scoring rule and a comma that of a skip rule. -/
def turn (condition : Condition) (token : Token) : Except ParseError Draft :=
  match token.kind with
  | .equals => .ok (.scoring (.common condition))
  | .comma => .ok (.skip condition)
  | _ => token.refuse [.equals, .comma]

/-- Reads one more token. -/
def step (draft : Draft) (token : Token) : Except ParseError Draft :=
  match draft with
  | .blank =>
    match token.kind with
    | .ifWord => .ok .opened
    | _ => token.refuse draft.expected
  | .opened =>
    match token.kind with
    | .answer =>
      match Answer.ofText? token.text with
      | some a => .ok (.answer a)
      | none => token.refuse [.answer]
    | .digits => .count <$> token.number
    | .comparator sign => .ok (.comparator none sign)
    | .hash => .ok (.optionSign [])
    | _ => token.refuse draft.expected
  | .answer a => turn (.answer a) token
  | .count n =>
    match token.kind with
    | .dash => .ok (.rangeFrom n)
    | _ => turn (.count n) token
  | .rangeFrom low =>
    match token.kind with
    | .digits => (fun high => .range ⟨low, high⟩) <$> token.number
    | _ => token.refuse draft.expected
  | .range r =>
    match token.kind with
    | .equals => .ok (.scoring (.range r))
    | _ => token.refuse draft.expected
  | .optionSign earlier =>
    match token.kind with
    | .digits => (fun option => .options (earlier ++ [option])) <$> token.number
    | _ => token.refuse draft.expected
  | .options chosen =>
    match token.kind with
    | .connective .or => .ok (.optionsOr chosen)
    | .equals => .ok (.scoring (.selection ⟨chosen⟩))
    | _ => token.refuse draft.expected
  | .optionsOr earlier =>
    match token.kind with
    | .hash => .ok (.optionSign earlier)
    | _ => token.refuse draft.expected
  | .comparator before sign =>
    match token.kind with
    | .digits => (fun threshold => .comparison before ⟨sign, threshold, false⟩) <$> token.number
    | _ => token.refuse draft.expected
  | .comparison before last =>
    match token.kind, last.isPercent with
    | .percent, false => .ok (.comparison before { last with isPercent := true })
    | .connective c, _ => .ok (.comparisonJoined (before.close last) c)
    | _, _ => turn (.comparison (before.close last)) token
  | .comparisonJoined tree c =>
    match token.kind with
    | .comparator sign => .ok (.comparator (some (tree, c)) sign)
    | _ => token.refuse draft.expected
  | .scoring condition =>
    match token.kind, Score.ofName? token.text with
    | .score, some target => .ok (.complete (.scoring ⟨condition, target⟩))
    | _, _ => token.refuse draft.expected
  | .skip condition =>
    match token.kind with
    | .thenWord => .ok (.skipThen condition)
    | _ => token.refuse draft.expected
  | .skipThen condition =>
    match token.kind with
    | .question => (fun target => .complete (.skip ⟨condition, target⟩)) <$> token.question
    | _ => token.refuse draft.expected
  | .complete _ => .error ⟨token.position, .trailing token.text⟩

/-- Reads tokens one after the other. -/
def read (draft : Draft) (tokens : List Token) : Except ParseError Draft :=
  tokens.foldlM step draft

/-- The rule that a draft has come to at the end of its clause. -/
def finish (stop : Nat) : Draft → Except ParseError Rule
  | .complete rule => .ok rule
  | draft => .error ⟨stop, .unterminated draft.expected⟩

@[simp]
theorem read_nil (draft : Draft) : draft.read [] = .ok draft := rfl

@[simp]
theorem read_cons (draft : Draft) (token : Token) (rest : List Token) :
    draft.read (token :: rest) = draft.step token >>= fun next => next.read rest := rfl

theorem read_append (draft : Draft) (front back : List Token) :
    draft.read (front ++ back) = draft.read front >>= fun next => next.read back :=
  List.foldlM_append

/-- Any token behind a complete rule is refused. -/
theorem read_complete_cons (rule : Rule) (token : Token) (rest : List Token) :
    (complete rule).read (token :: rest) = .error ⟨token.position, .trailing token.text⟩ := rfl

theorem finish_eq_ok_iff {stop : Nat} {draft : Draft} {rule : Rule} :
    draft.finish stop = .ok rule ↔ draft = .complete rule := by
  cases draft <;> simp [finish]

end Draft

/-- Reads the rule that a clause makes up. -/
def Rule.ofClause (clause : Clause) : Except ParseError Rule := do
  let draft ← Draft.read .blank clause.tokens
  draft.finish clause.stop

/-- Reads the rule that a token list makes up. -/
def Rule.ofTokens (tokens : List Token) : Except ParseError Rule :=
  Rule.ofClause (Clause.ofTokens tokens)

end ChecklistLogic
