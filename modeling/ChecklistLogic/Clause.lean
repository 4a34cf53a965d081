import ChecklistLogic.ParseError
import ChecklistLogic.Token.Cursor

/-!
# ChecklistLogic — clauses

A clause is the token list of one rule, with the offset at which it ends. No end marker is among
its tokens.

* `Clause.ofTokens` takes the tokens before the first end marker (`ofTokens_of_marker`), or all of
  them if there is none (`ofTokens_of_no_marker`).
* `Clause.pieces` cuts a clause at its semicolons; each piece ends where its semicolon stands.
  There is always a piece, and a clause without semicolons is the only one
  (`pieces_of_no_semicolon`).
* `Clause.refusal` is the report that some token ought to be of another kind.
-/

namespace ChecklistLogic

/-- The tokens of a rule and the offset at which they end. -/
structure Clause where
  tokens : List Token
  stop : Nat
  deriving DecidableEq

namespace Clause

/-- Where a token list ends: at its first end marker or, if it has none, behind its last token. -/
def stopOf (tokens : List Token) : Nat :=
  match tokens.find? (·.kind = .endOfInput) with
  | some marker => marker.position
  | none => (tokens.getLast?.map Token.stop).getD 0

/-- The clause at the start of a token list. Nothing behind the first end marker counts. -/
def ofTokens (tokens : List Token) : Clause :=
  ⟨tokens.takeWhile (·.kind ≠ .endOfInput), stopOf tokens⟩

/-- The clause that a whole text makes up. -/
def ofText (text : String) : Except LexError Clause :=
  ofTokens <$> Token.ofText text

/-- Puts a token in front of a clause. -/
def cons (token : Token) (clause : Clause) : Clause :=
  ⟨token :: clause.tokens, clause.stop⟩

/-- Cuts a token list at its semicolons into the first piece and all others. -/
def cut (stop : Nat) : List Token → Clause × List Clause
  | [] => (⟨[], stop⟩, [])
  | token :: rest =>
    let (first, others) := cut stop rest
    if token.kind = .semicolon then (⟨[], token.position⟩, first :: others)
    else (first.cons token, others)

/-- The pieces of a clause between its semicolons. There is always at least one. -/
def pieces (clause : Clause) : List Clause :=
  let (first, others) := cut clause.stop clause.tokens
  first :: others

/-- The report that the first token of a clause, or its end, is of none of the expected kinds. -/
def refusal (clause : Clause) (expected : List TokenKind) : ParseError :=
  match clause.tokens with
  | [] => ⟨clause.stop, .unterminated expected⟩
  | token :: _ => ⟨token.position, .unexpected expected token.text⟩

/-- What a clause holds from the first token of a kind on. -/
def dropTo (clause : Clause) (kind : TokenKind) : Clause :=
  ⟨clause.tokens.dropWhile (·.kind ≠ kind), clause.stop⟩

/-- Nothing behind the first end marker counts, and nothing of the marker but its position. -/
theorem ofTokens_of_marker {tokens rest : List Token} {marker : Token}
    (hNone : ∀ token ∈ tokens, token.kind ≠ .endOfInput) (hMarker : marker.kind = .endOfInput) :
    ofTokens (tokens ++ marker :: rest) = ⟨tokens, marker.position⟩ := by
  have hKinds : ∀ token ∈ tokens, decide (token.kind ≠ .endOfInput) = true := fun token hMem =>
    decide_eq_true (hNone token hMem)
  have hFind : (tokens ++ marker :: rest).find? (·.kind = .endOfInput) = some marker := by
    rw [List.find?_append, List.find?_eq_none.2]
    · simp [hMarker]
    · simpa using hNone
  rw [ofTokens, stopOf, hFind, List.takeWhile_append_of_pos hKinds]
  simp [hMarker]

/-- Without an end marker a token list ends behind its last token. -/
theorem ofTokens_of_no_marker {tokens : List Token}
    (hNone : ∀ token ∈ tokens, token.kind ≠ .endOfInput) :
    ofTokens tokens = ⟨tokens, (tokens.getLast?.map Token.stop).getD 0⟩ := by
  have hKinds : ∀ token ∈ tokens, decide (token.kind ≠ .endOfInput) = true := fun token hMem =>
    decide_eq_true (hNone token hMem)
  have hFind : tokens.find? (·.kind = .endOfInput) = none := by
    simpa using hNone
  have hAll : tokens.takeWhile (·.kind ≠ .endOfInput) = tokens := by
    rw [← List.append_nil tokens, List.takeWhile_append_of_pos hKinds, List.append_nil,
      List.takeWhile_nil, List.append_nil]
  rw [ofTokens, stopOf, hFind, hAll]

theorem cut_of_no_semicolon {stop : Nat} {tokens : List Token}
    (hNone : ∀ token ∈ tokens, token.kind ≠ .semicolon) :
    cut stop tokens = (⟨tokens, stop⟩, []) := by
  induction tokens with
  | nil => rfl
  | cons token rest ih =>
    have hHead : token.kind ≠ .semicolon := hNone token (by simp)
    have hTail : ∀ other ∈ rest, other.kind ≠ .semicolon := fun other hMem =>
      hNone other (by simp [hMem])
    simp [cut, ih hTail, hHead, cons]

/-- A clause without semicolons is its only piece. -/
theorem pieces_of_no_semicolon {clause : Clause}
    (hNone : ∀ token ∈ clause.tokens, token.kind ≠ .semicolon) : clause.pieces = [clause] := by
  simp [pieces, cut_of_no_semicolon hNone]

end Clause

end ChecklistLogic
