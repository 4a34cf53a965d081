import ChecklistLogic.Rule.Draft

/-!
# ChecklistLogic — reading a rule by descent

A rule can also be read part by part: there is one function for each part of a rule, and a reader
that moves over the token list from one part to the next.

* `Reader.peek` is the token at which a reader stands. Behind the last token of a list there is
  always an end marker to be seen, and `Reader.advance` does not move past it.
* `Reader.body` commits itself to one kind of condition by the token behind `If` and, if that is a
  number, by the next one as well. Nothing is read twice.
* `Rule.descend` reads the rule that a token list makes up. It has the whole list before it, with
  whatever stands behind an end marker.
-/

namespace ChecklistLogic

/-- Refuses a token where only the expected kinds may stand. An end marker is not a wrong token; the
rule ends too early. -/
def Token.misfit {α : Type} (token : Token) (expected : List TokenKind) : Except ParseError α :=
  if token.kind = .endOfInput then .error ⟨token.position, .unterminated expected⟩
  else token.refuse expected

/-- The answer that a token stands for. -/
def Token.answer (token : Token) : Except ParseError Answer :=
  match Answer.ofText? token.text with
  | some answer => .ok answer
  | none => token.misfit [.answer]

/-- The score that a token stands for. -/
def Token.score (token : Token) : Except ParseError Score :=
  match Score.ofName? token.text with
  | some score => .ok score
  | none => token.misfit [.score]

/-- A place in a token list. -/
structure Reader where
  /-- What is left of the list. -/
  rest : List Token
  /-- Where the whole list ends. -/
  stop : Nat
  deriving DecidableEq

namespace Reader

/-- The reader at the start of a token list, which ends behind its last token. -/
def start (tokens : List Token) : Reader :=
  ⟨tokens, (tokens.getLast?.map Token.stop).getD 0⟩

/-- The token that many places further on, or an end marker behind the last token. -/
def peekAt (reader : Reader) (distance : Nat) : Token :=
  reader.rest[distance]?.getD (.endAt reader.stop)

/-- The token at which a reader stands. -/
def peek (reader : Reader) : Token :=
  reader.peekAt 0

/-- Moves over one token. At the end of the list there is none. -/
def advance (reader : Reader) : Reader :=
  { reader with rest := reader.rest.tail }

/-- Takes a token of the given kind. -/
def expect (reader : Reader) (kind : TokenKind) : Except ParseError (Token × Reader) :=
  if reader.peek.kind = kind then .ok (reader.peek, reader.advance)
  else reader.peek.misfit [kind]

/-- Moves over a token of the given kind if there is one, and tells whether there was. -/
def eat (reader : Reader) (kind : TokenKind) : Bool × Reader :=
  if reader.peek.kind = kind then (true, reader.advance) else (false, reader)

-- ---------------------------------------------------------------------------
-- Parts of a rule
-- ---------------------------------------------------------------------------

/-- Reads a number. -/
def number (reader : Reader) : Except ParseError (UInt32 × Reader) := do
  let (token, after) ← reader.expect .digits
  let n ← token.number
  return (n, after)

/-- Reads an answer. -/
def answer (reader : Reader) : Except ParseError (Answer × Reader) := do
  let (token, after) ← reader.expect .answer
  let a ← token.answer
  return (a, after)

/-- Reads a score. -/
def score (reader : Reader) : Except ParseError (Score × Reader) := do
  let (token, after) ← reader.expect .score
  let target ← token.score
  return (target, after)

/-- Reads a question. -/
def question (reader : Reader) : Except ParseError (Question × Reader) := do
  let (token, after) ← reader.expect .question
  let target ← token.question
  return (target, after)

/-- Reads a range. -/
def range (reader : Reader) : Except ParseError (CountRange × Reader) := do
  let (low, behindLow) ← reader.number
  let (_, behindDash) ← behindLow.expect .dash
  let (high, after) ← behindDash.number
  return (⟨low, high⟩, after)

/-- Reads one option of a selection. -/
def option (reader : Reader) : Except ParseError (UInt32 × Reader) := do
  let (_, behind) ← reader.expect .hash
  behind.number

/-- Reads one comparison. A percent sign belongs to this comparison alone. -/
def comparison (reader : Reader) : Except ParseError (Comparison × Reader) :=
  match reader.peek.kind with
  | .comparator sign => do
    let (threshold, behind) ← reader.advance.number
    let (isPercent, after) := behind.eat .percent
    return (⟨sign, threshold, isPercent⟩, after)
  | _ => reader.peek.misfit (Comparator.all.map .comparator)

theorem length_advance_le (reader : Reader) : reader.advance.rest.length ≤ reader.rest.length := by
  simp [advance]

/-- Moving over a token that is no end marker leaves fewer tokens. -/
theorem length_advance_lt {reader : Reader} (hKind : reader.peek.kind ≠ .endOfInput) :
    reader.advance.rest.length < reader.rest.length := by
  obtain ⟨rest, stop⟩ := reader
  cases rest with
  | nil => exact absurd rfl hKind
  | cons => simp [advance]

theorem eq_advance_of_expect {reader after : Reader} {kind : TokenKind} {token : Token}
    (hExpect : reader.expect kind = .ok (token, after)) : after = reader.advance := by
  unfold expect Token.misfit Token.refuse at hExpect
  split at hExpect
  · cases hExpect
    rfl
  · split at hExpect <;> cases hExpect

theorem eq_advance_of_number {reader after : Reader} {n : UInt32}
    (hNumber : reader.number = .ok (n, after)) : after = reader.advance := by
  unfold number at hNumber
  cases hExpect : reader.expect .digits with
  | error e => simp [hExpect, bind, Except.bind] at hNumber
  | ok taken =>
    obtain ⟨token, behind⟩ := taken
    rw [hExpect] at hNumber
    cases hRead : token.number with
    | error e => simp [hRead, bind, Except.bind] at hNumber
    | ok read =>
      simp only [hRead, bind, Except.bind, pure, Except.pure, Except.ok.injEq,
        Prod.mk.injEq] at hNumber
      rw [← hNumber.2]
      exact eq_advance_of_expect hExpect

theorem length_eat_le (reader : Reader) (kind : TokenKind) :
    (reader.eat kind).2.rest.length ≤ reader.rest.length := by
  unfold eat
  split
  · exact reader.length_advance_le
  · exact Nat.le_refl _

theorem length_comparison_le {reader after : Reader} {c : Comparison}
    (hComparison : reader.comparison = .ok (c, after)) :
    after.rest.length ≤ reader.rest.length := by
  unfold comparison at hComparison
  split at hComparison
  · cases hNumber : reader.advance.number with
    | error e => simp [hNumber, bind, Except.bind] at hComparison
    | ok read =>
      obtain ⟨threshold, behind⟩ := read
      simp only [hNumber, bind, Except.bind, pure, Except.pure, Except.ok.injEq,
        Prod.mk.injEq] at hComparison
      rw [← hComparison.2]
      have hEat := behind.length_eat_le .percent
      have hBehind := reader.advance.length_advance_le
      have hSign := reader.length_advance_le
      rw [← eq_advance_of_number hNumber] at hBehind
      omega
  · unfold Token.misfit Token.refuse at hComparison
    split at hComparison <;> cases hComparison

theorem length_option_le {reader after : Reader} {n : UInt32}
    (hOption : reader.option = .ok (n, after)) : after.rest.length ≤ reader.rest.length := by
  unfold option at hOption
  cases hExpect : reader.expect .hash with
  | error e => simp [hExpect, bind, Except.bind] at hOption
  | ok taken =>
    obtain ⟨token, behind⟩ := taken
    rw [hExpect] at hOption
    rw [eq_advance_of_number hOption, eq_advance_of_expect hExpect]
    exact Nat.le_trans reader.advance.length_advance_le reader.length_advance_le

/-- Reads on as long as a connective joins one more comparison to those that have been read. -/
def moreComparisons (tree : ComparisonTree) (reader : Reader) :
    Except ParseError (ComparisonTree × Reader) :=
  match _hKind : reader.peek.kind with
  | .connective connective =>
    match _hNext : reader.advance.comparison with
    | .error e => .error e
    | .ok (next, after) => moreComparisons (tree.append (connective, next)) after
  | _ => .ok (tree, reader)
termination_by reader.rest.length
decreasing_by
  have hRest : reader.advance.rest.length < reader.rest.length :=
    length_advance_lt (by simp [_hKind])
  exact Nat.lt_of_le_of_lt (length_comparison_le _hNext) hRest

/-- After a connective one more comparison is read, and so on. -/
theorem moreComparisons_of_connective {tree : ComparisonTree} {reader : Reader}
    {connective : Connective} (hKind : reader.peek.kind = .connective connective) :
    moreComparisons tree reader = reader.advance.comparison >>= fun (next, after) =>
      moreComparisons (tree.append (connective, next)) after := by
  rw [moreComparisons]
  split
  · rename_i other hOther
    obtain rfl : connective = other := TokenKind.connective.inj (hKind.symm.trans hOther)
    cases reader.advance.comparison <;> rfl
  · rename_i hNone
    exact absurd hKind (hNone connective)

theorem moreComparisons_of_kind_ne {tree : ComparisonTree} {reader : Reader}
    (hKind : ∀ connective, reader.peek.kind ≠ .connective connective) :
    moreComparisons tree reader = .ok (tree, reader) := by
  rw [moreComparisons]
  split
  · exact absurd ‹_› (hKind _)
  · rfl

/-- Reads comparisons, which are joined from left to right whatever the connectives. -/
def comparisons (reader : Reader) : Except ParseError (ComparisonTree × Reader) := do
  let (first, after) ← reader.comparison
  moreComparisons (.atom first) after

/-- Reads on as long as `or` joins one more option to those that have been read. -/
def moreOptions (chosen : List UInt32) (reader : Reader) : Except ParseError (Selection × Reader) :=
  if _hOr : reader.peek.kind = .connective .or then
    match _hNext : reader.advance.option with
    | .error e => .error e
    | .ok (option, after) => moreOptions (chosen ++ [option]) after
  else .ok (⟨chosen⟩, reader)
termination_by reader.rest.length
decreasing_by
  have hRest : reader.advance.rest.length < reader.rest.length :=
    length_advance_lt (by simp [_hOr])
  exact Nat.lt_of_le_of_lt (length_option_le _hNext) hRest

/-- After `or` one more option is read, and so on. -/
theorem moreOptions_of_or {chosen : List UInt32} {reader : Reader}
    (hOr : reader.peek.kind = .connective .or) :
    moreOptions chosen reader = reader.advance.option >>= fun (option, after) =>
      moreOptions (chosen ++ [option]) after := by
  rw [moreOptions, dif_pos hOr]
  cases reader.advance.option <;> rfl

theorem moreOptions_of_kind_ne {chosen : List UInt32} {reader : Reader}
    (hOther : reader.peek.kind ≠ .connective .or) :
    moreOptions chosen reader = .ok (⟨chosen⟩, reader) := by
  rw [moreOptions, dif_neg hOther]

/-- Reads a selection. -/
def selection (reader : Reader) : Except ParseError (Selection × Reader) := do
  let (first, after) ← reader.option
  moreOptions [first] after

-- ---------------------------------------------------------------------------
-- Whole rules
-- ---------------------------------------------------------------------------

/-- Reads `=` and a score, which make a scoring rule of a condition. -/
def scoringRule (condition : ScoringCondition) (reader : Reader) :
    Except ParseError (Rule × Reader) := do
  let (_, behind) ← reader.expect .equals
  let (target, after) ← behind.score
  return (.scoring ⟨condition, target⟩, after)

/-- Reads what follows a condition that both kinds of rule may have. A comma, `then` and a question
make a skip rule of it. -/
def commonRule (condition : Condition) (reader : Reader) : Except ParseError (Rule × Reader) :=
  match reader.peek.kind with
  | .equals => reader.scoringRule (.common condition)
  | .comma => do
    let (_, behind) ← reader.advance.expect .thenWord
    let (target, after) ← behind.question
    return (.skip ⟨condition, target⟩, after)
  | _ => reader.peek.misfit [.equals, .comma]

/-- Reads a condition and what follows it. -/
def body (reader : Reader) : Except ParseError (Rule × Reader) :=
  match reader.peek.kind with
  | .answer => do
    let (a, behind) ← reader.answer
    behind.commonRule (.answer a)
  | .digits =>
    if (reader.peekAt 1).kind = .dash then do
      let (range, behind) ← reader.range
      behind.scoringRule (.range range)
    else do
      let n ← reader.peek.number
      reader.advance.commonRule (.count n)
  | .comparator _ => do
    let (tree, behind) ← reader.comparisons
    behind.commonRule (.comparison tree)
  | .hash => do
    let (selection, behind) ← reader.selection
    behind.scoringRule (.selection selection)
  | _ => reader.peek.misfit Draft.conditionStart

/-- Gives a rule if nothing more stands behind it. -/
def finish : Rule × Reader → Except ParseError Rule
  | (rule, reader) =>
    if reader.peek.kind = .endOfInput then .ok rule
    else .error ⟨reader.peek.position, .trailing reader.peek.text⟩

/-- Reads `If`, a condition and what follows it, behind which nothing more may stand. -/
def rule (reader : Reader) : Except ParseError Rule := do
  let (_, behind) ← reader.expect .ifWord
  behind.body >>= finish

end Reader

/-- Reads the rule that a token list makes up, part by part. -/
def Rule.descend (tokens : List Token) : Except ParseError Rule :=
  (Reader.start tokens).rule

end ChecklistLogic
