import ChecklistLogic.Proofs.Grammar

/-!
# ChecklistLogic — families of rules

There are scoring rules and skip rules, and one token tells them apart: a scoring rule has a single
`=` and a skip rule a single comma, while no condition has either of them. Looked for by its kind,
that token is always found (`Token.IsSole.find?_eq`), and a report that it ought to be of another
kind names its place (`Token.IsSole.refusal_dropTo`).

Main result: `Rule.Spelled.exists_sole`.
-/

namespace ChecklistLogic

/-- The kind of the token that tells the family of a rule. -/
def Rule.sign : Rule → TokenKind
  | .scoring _ => .equals
  | .skip _ => .comma

/-- The kinds of tokens that conditions are made of. -/
def TokenKind.isInCondition : TokenKind → Bool
  | .answer | .digits | .comparator _ | .connective _ | .percent | .dash | .hash => true
  | _ => false

/-- A token is the only one of its kind in a list. -/
def Token.IsSole (token : Token) (tokens : List Token) : Prop :=
  tokens.filter (·.kind = token.kind) = [token]

-- ---------------------------------------------------------------------------
-- The only token of a kind
-- ---------------------------------------------------------------------------

namespace Token.IsSole

variable {token : Token} {tokens : List Token}

theorem mem (hSole : token.IsSole tokens) : token ∈ tokens := by
  have hMem : token ∈ tokens.filter (·.kind = token.kind) := by
    rw [hSole]
    exact List.mem_cons_self
  exact List.mem_of_mem_filter hMem

/-- A token of its kind is the token itself, and what stands on both sides is of other kinds. -/
theorem split {before after : List Token} {other : Token}
    (hSole : token.IsSole (before ++ other :: after)) (hKind : other.kind = token.kind) :
    other = token ∧ (∀ earlier ∈ before, earlier.kind ≠ token.kind) ∧
      ∀ later ∈ after, later.kind ≠ token.kind := by
  unfold IsSole at hSole
  rw [List.filter_append, List.filter_cons_of_pos (by simp [hKind]),
    List.append_eq_singleton_iff] at hSole
  rcases hSole with ⟨hBefore, hRest⟩ | ⟨-, hNone⟩
  · obtain ⟨rfl, hAfter⟩ := List.cons.inj hRest
    simpa [List.filter_eq_nil_iff] using And.intro hBefore hAfter
  · cases hNone

theorem append {more : List Token} (hSole : token.IsSole tokens)
    (hMore : ∀ other ∈ more, other.kind ≠ token.kind) : token.IsSole (tokens ++ more) := by
  have hNone : more.filter (·.kind = token.kind) = [] := by
    simpa [List.filter_eq_nil_iff] using hMore
  unfold IsSole at hSole ⊢
  rw [List.filter_append, hSole, hNone, List.append_nil]

theorem find?_eq (hSole : token.IsSole tokens) :
    tokens.find? (·.kind = token.kind) = some token := by
  rw [← List.head?_filter, hSole]
  rfl

/-- A report that looks for a token of its kind is about this one. -/
theorem refusal_dropTo {clause : Clause} (hSole : token.IsSole clause.tokens)
    (expected : List TokenKind) : (clause.dropTo token.kind).refusal expected =
      ⟨token.position, .unexpected expected token.text⟩ := by
  obtain ⟨-, before, after, hTokens, hBefore⟩ :=
    List.find?_eq_some_iff_append.1 hSole.find?_eq
  have hOther : ∀ earlier ∈ before, decide (earlier.kind ≠ token.kind) = true := by
    simpa using hBefore
  unfold Clause.dropTo
  rw [hTokens, List.dropWhile_append_of_pos hOther, List.dropWhile_cons_of_neg (by simp)]
  rfl

end Token.IsSole

-- ---------------------------------------------------------------------------
-- Conditions
-- ---------------------------------------------------------------------------

section

variable {tokens : List Token}

theorem Comparison.Spelled.isInCondition {comparison : Comparison}
    (hSpelled : comparison.Spelled tokens) :
    ∀ token ∈ tokens, token.kind.isInCondition = true := by
  cases hSpelled with
  | count hSign hDigits => simp [hSign, hDigits.1, TokenKind.isInCondition]
  | percentage hSign hDigits hPercent =>
    simp [hSign, hDigits.1, hPercent, TokenKind.isInCondition]

theorem ComparisonTree.Spelled.isInCondition {tree : ComparisonTree}
    (hSpelled : tree.Spelled tokens) :
    ∀ token ∈ tokens, token.kind.isInCondition = true := by
  induction hSpelled with
  | atom hAtom => exact hAtom.isInCondition
  | join _ hWord hLast ih =>
    rw [List.forall_mem_append, List.forall_mem_cons, hWord]
    exact ⟨ih, rfl, hLast.isInCondition⟩

theorem Selection.OptionsSpelled.isInCondition {options : List UInt32}
    (hSpelled : Selection.OptionsSpelled options tokens) :
    ∀ token ∈ tokens, token.kind.isInCondition = true := by
  induction hSpelled with
  | single hHash hDigits => simp [hHash, hDigits.1, TokenKind.isInCondition]
  | more _ hWord hHash hDigits ih =>
    rw [List.forall_mem_append]
    refine ⟨ih, ?_⟩
    simp [hWord, hHash, hDigits.1, TokenKind.isInCondition]

theorem Condition.Spelled.isInCondition {condition : Condition}
    (hSpelled : condition.Spelled tokens) :
    ∀ token ∈ tokens, token.kind.isInCondition = true := by
  cases hSpelled with
  | answer hKind => simp [hKind, TokenKind.isInCondition]
  | count hNumber => simp [hNumber.1, TokenKind.isInCondition]
  | comparison hTree => exact hTree.isInCondition

theorem CountRange.Spelled.isInCondition {range : CountRange} (hSpelled : range.Spelled tokens) :
    ∀ token ∈ tokens, token.kind.isInCondition = true := by
  obtain ⟨low, dash, high, hLow, hDash, hHigh, rfl⟩ := hSpelled
  simp [hLow.1, hDash, hHigh.1, TokenKind.isInCondition]

/-- No condition has `=` or a comma in it, nor any other token of the rule around it. -/
theorem ScoringCondition.Spelled.isInCondition {condition : ScoringCondition}
    (hSpelled : condition.Spelled tokens) :
    ∀ token ∈ tokens, token.kind.isInCondition = true := by
  cases hSpelled with
  | common hCondition => exact hCondition.isInCondition
  | range hRange => exact hRange.isInCondition
  | selection hOptions => exact hOptions.isInCondition

end

-- ---------------------------------------------------------------------------
-- Rules
-- ---------------------------------------------------------------------------

theorem Token.filter_eq_nil_of_isInCondition {tokens : List Token} {kind : TokenKind}
    (hTokens : ∀ token ∈ tokens, token.kind.isInCondition = true)
    (hKind : kind.isInCondition = false) : tokens.filter (·.kind = kind) = [] := by
  rw [List.filter_eq_nil_iff]
  intro token hMem hSame
  have hInside := hTokens token hMem
  rw [of_decide_eq_true hSame, hKind] at hInside
  cases hInside

/-- A rule is spelled with exactly one token that tells its family. -/
theorem Rule.Spelled.exists_sole {rule : Rule} {tokens : List Token}
    (hSpelled : rule.Spelled tokens) :
    ∃ token : Token, token.IsSole tokens ∧ token.kind = rule.sign := by
  cases hSpelled with
  | @scoring word equals name _ _ body hWord hCondition hEquals hKind =>
    have hBody : body.filter (·.kind = .equals) = [] :=
      Token.filter_eq_nil_of_isInCondition hCondition.isInCondition rfl
    refine ⟨equals, ?_, hEquals⟩
    simp [Token.IsSole, hWord, hBody, hEquals, hKind]
  | @skip word comma thenWord name _ _ body hWord hCondition hComma hThen hName =>
    have hBody : body.filter (·.kind = .comma) = [] :=
      Token.filter_eq_nil_of_isInCondition hCondition.isInCondition rfl
    refine ⟨comma, ?_, hComma⟩
    simp [Token.IsSole, hWord, hBody, hComma, hThen, hName.1]

end ChecklistLogic
