import ChecklistLogic.Proofs.Tokens
import ChecklistLogic.Rule.Draft

/-!
# ChecklistLogic — moving tokens to another offset

A piece of a cell is read from tokens that stand somewhere inside the cell; read by itself, the
same piece begins at offset zero. Reading does not depend on where the tokens stand: positions go
nowhere but into errors, and there they move along (`Rule.ofClause_shift`). Scanning moves its
tokens with the text (`Scan.exists_shift`).

Where each token is moved by itself, as by other blanks between them, the errors are still the same
but for their places (`Rule.ofClause_of_faces_eq`).
-/

namespace ChecklistLogic

/-- The token at a place that many bytes further on. -/
def Token.shift (offset : Nat) (token : Token) : Token :=
  { token with position := offset + token.position }

/-- The error at a place that many bytes further on. -/
def ParseError.shift (offset : Nat) (e : ParseError) : ParseError :=
  { e with position := offset + e.position }

/-- The clause at a place that many bytes further on. -/
def Clause.shift (offset : Nat) (clause : Clause) : Clause :=
  ⟨clause.tokens.map (Token.shift offset), offset + clause.stop⟩

variable (offset : Nat)

-- ---------------------------------------------------------------------------
-- Scanning
-- ---------------------------------------------------------------------------

/-- What scans at some offset scans anywhere, and its tokens move with it. -/
theorem Scan.exists_shift {position stop : Nat} {chars : List Char} {tokens : List Token}
    (hScan : Scan (offset + position) chars tokens stop) : ∃ alone last,
      Scan position chars alone last ∧ tokens = alone.map (Token.shift offset) ∧
      stop = offset + last := by
  generalize hStart : offset + position = start at hScan
  induction hScan generalizing position with
  | nil =>
    subst hStart
    exact ⟨[], position, .nil _, rfl, rfl⟩
  | blank hBlank _ ih =>
    subst hStart
    obtain ⟨alone, last, hAlone, rfl, rfl⟩ := ih (Nat.add_assoc _ _ _).symm
    exact ⟨alone, last, .blank hBlank hAlone, rfl, rfl⟩
  | @lexeme _ _ _ _ lexeme _ hSplit _ ih =>
    subst hStart
    have hStop : offset + (lexeme.token position).stop =
        (lexeme.token (offset + position)).stop := by
      rw [Lexeme.stop_token, Lexeme.stop_token, Nat.add_assoc]
    obtain ⟨alone, last, hAlone, rfl, rfl⟩ := ih hStop
    exact ⟨lexeme.token position :: alone, last, .lexeme hSplit hAlone, rfl, rfl⟩

/-- What scans somewhere scans further on as well. -/
theorem Scan.shift {position stop : Nat} {chars : List Char} {tokens : List Token}
    (hScan : Scan position chars tokens stop) :
    Scan (offset + position) chars (tokens.map (Token.shift offset)) (offset + stop) := by
  induction hScan with
  | nil => exact .nil _
  | blank hBlank _ ih =>
    rw [← Nat.add_assoc] at ih
    exact .blank hBlank ih
  | @lexeme position _ _ _ lexeme _ hSplit _ ih =>
    have hStop : offset + (lexeme.token position).stop =
        (lexeme.token (offset + position)).stop := by
      rw [Lexeme.stop_token, Lexeme.stop_token, Nat.add_assoc]
    rw [hStop] at ih
    exact .lexeme hSplit ih

/-- What scans at some offset is a clause by itself, moved to that offset. -/
theorem Scan.exists_clause {stop : Nat} {text : String} {tokens : List Token}
    (hScan : Scan offset text.toList tokens stop) : ∃ alone,
      Clause.ofText text = .ok alone ∧ alone.shift offset = ⟨tokens, stop⟩ := by
  have hStart : Scan (offset + 0) text.toList tokens stop := hScan
  obtain ⟨alone, last, hAlone, rfl, rfl⟩ := hStart.exists_shift offset
  exact ⟨⟨alone, last⟩, Clause.ofText_of_scan hAlone, rfl⟩

-- ---------------------------------------------------------------------------
-- Reading
-- ---------------------------------------------------------------------------

namespace Token

variable {α : Type} (token : Token)

@[simp]
theorem kind_shift : (token.shift offset).kind = token.kind := rfl

@[simp]
theorem text_shift : (token.shift offset).text = token.text := rfl

theorem stop_shift : (token.shift offset).stop = offset + token.stop :=
  Nat.add_assoc _ _ _

theorem number_shift :
    (token.shift offset).number = token.number.mapError (ParseError.shift offset) := by
  unfold number
  rw [text_shift]
  cases Numeral.read? token.text <;> rfl

theorem question_shift :
    (token.shift offset).question = token.question.mapError (ParseError.shift offset) := by
  unfold question
  rw [text_shift]
  split
  · -- the number behind `Q` stands one byte further on, before and after
    rename_i digit digits hText
    rw [← Except.map_mapError, ← number_shift]
    rfl
  · rfl

end Token

namespace Draft

theorem turn_shift (condition : Condition) (token : Token) :
    turn condition (token.shift offset) =
      (turn condition token).mapError (ParseError.shift offset) := by
  unfold turn
  rw [Token.kind_shift]
  cases token.kind <;> rfl

/-- A draft takes or refuses a token wherever it stands. -/
theorem step_shift (draft : Draft) (token : Token) :
    draft.step (token.shift offset) =
      (draft.step token).mapError (ParseError.shift offset) := by
  have hNumber : ∀ f : UInt32 → Draft, f <$> (token.shift offset).number =
      (f <$> token.number).mapError (ParseError.shift offset) := by
    intro f
    rw [Token.number_shift, Except.map_mapError]
  cases draft with
  | complete => rfl
  | answer => exact turn_shift offset _ token
  | blank | range | rangeFrom | optionSign | optionsOr | comparator | comparisonJoined | skip =>
    simp only [step, Token.kind_shift, hNumber]
    cases token.kind <;> rfl
  | opened =>
    simp only [step, Token.kind_shift, Token.text_shift, hNumber]
    cases Answer.ofText? token.text <;> cases token.kind <;> rfl
  | count =>
    simp only [step, Token.kind_shift, turn_shift]
    cases token.kind <;> rfl
  | options =>
    simp only [step, Token.kind_shift]
    cases token.kind with
    | connective c => cases c <;> rfl
    | _ => rfl
  | comparison before last =>
    simp only [step, Token.kind_shift, turn_shift]
    cases last.isPercent <;> cases token.kind <;> rfl
  | scoring =>
    simp only [step, Token.kind_shift, Token.text_shift]
    cases Score.ofName? token.text <;> cases token.kind <;> rfl
  | skipThen =>
    simp only [step, Token.kind_shift, Token.question_shift, Except.map_mapError]
    cases token.kind <;> rfl

theorem read_shift (draft : Draft) (tokens : List Token) :
    draft.read (tokens.map (Token.shift offset)) =
      (draft.read tokens).mapError (ParseError.shift offset) := by
  induction tokens generalizing draft with
  | nil => rfl
  | cons token rest ih =>
    rw [List.map_cons, read_cons, read_cons, step_shift]
    cases draft.step token with
    | error e => rfl
    | ok next => exact ih next

theorem finish_shift (draft : Draft) (stop : Nat) :
    draft.finish (offset + stop) = (draft.finish stop).mapError (ParseError.shift offset) := by
  cases draft <;> rfl

end Draft

/-- A rule is read as it is anywhere else; the errors move along. -/
theorem Rule.ofClause_shift (clause : Clause) :
    Rule.ofClause (clause.shift offset) =
      (Rule.ofClause clause).mapError (ParseError.shift offset) := by
  unfold Rule.ofClause Clause.shift
  rw [Draft.read_shift]
  cases Draft.read .blank clause.tokens with
  | error e => rfl
  | ok draft => exact draft.finish_shift offset clause.stop

theorem Clause.stopOf_shift {tokens : List Token} (hSome : tokens ≠ []) :
    stopOf (tokens.map (Token.shift offset)) = offset + stopOf tokens := by
  have hFind : (tokens.map (Token.shift offset)).find? (·.kind = .endOfInput) =
      (tokens.find? (·.kind = .endOfInput)).map (Token.shift offset) :=
    List.find?_map
  unfold stopOf
  rw [hFind]
  cases tokens.find? (·.kind = .endOfInput) with
  | some marker => rfl
  | none =>
    -- the list has a last token, behind which it ends
    obtain ⟨last, hLast⟩ := Option.ne_none_iff_exists'.1 (mt List.getLast?_eq_none_iff.1 hSome)
    rw [List.getLast?_map, hLast]
    exact last.stop_shift offset

/-- The clause at the start of a token list moves with the list, if that is not empty. -/
theorem Clause.ofTokens_shift {tokens : List Token} (hSome : tokens ≠ []) :
    ofTokens (tokens.map (Token.shift offset)) = (ofTokens tokens).shift offset := by
  unfold ofTokens
  rw [stopOf_shift offset hSome, List.takeWhile_map]
  rfl

/-- The report that some token ought to be of another kind moves along as well. -/
theorem Clause.refusal_dropTo_shift (clause : Clause) (kind : TokenKind)
    (expected : List TokenKind) :
    ((clause.shift offset).dropTo kind).refusal expected =
      ((clause.dropTo kind).refusal expected).shift offset := by
  have hDrop : (clause.shift offset).dropTo kind = (clause.dropTo kind).shift offset := by
    unfold dropTo shift
    rw [List.dropWhile_map]
    rfl
  rw [hDrop]
  unfold refusal shift
  cases (clause.dropTo kind).tokens <;> rfl

-- ---------------------------------------------------------------------------
-- Tokens that move apart
-- ---------------------------------------------------------------------------

/-- The kind and the text of a token, which do not tell where it stands. -/
def Token.face (token : Token) : TokenKind × String :=
  (token.kind, token.text)

/-- The error without its place. -/
def ParseError.unplaced (e : ParseError) : ParseError :=
  { e with position := 0 }

namespace Draft

/-- A token has moved from the start of the text to where it stands. -/
theorem step_unplaced (draft : Draft) (token : Token) :
    (draft.step token).mapError ParseError.unplaced =
      (draft.step ⟨token.kind, token.text, 0⟩).mapError ParseError.unplaced := by
  have hStep := draft.step_shift token.position ⟨token.kind, token.text, 0⟩
  have hToken : Token.shift token.position ⟨token.kind, token.text, 0⟩ = token := rfl
  rw [hToken] at hStep
  rw [hStep]
  cases draft.step ⟨token.kind, token.text, 0⟩ <;> rfl

theorem step_of_face_eq (draft : Draft) {a b : Token} (hFace : a.face = b.face) :
    (draft.step a).mapError ParseError.unplaced =
      (draft.step b).mapError ParseError.unplaced := by
  obtain ⟨hKind, hText⟩ := Prod.mk.inj hFace
  rw [step_unplaced draft a, step_unplaced draft b, hKind, hText]

theorem read_of_faces_eq (draft : Draft) {tokens others : List Token}
    (hFaces : tokens.map Token.face = others.map Token.face) :
    (draft.read tokens).mapError ParseError.unplaced =
      (draft.read others).mapError ParseError.unplaced := by
  induction tokens generalizing draft others with
  | nil =>
    obtain rfl : others = [] := List.map_eq_nil_iff.1 hFaces.symm
    rfl
  | cons token rest ih =>
    obtain ⟨first, more, rfl, hFirst, hMore⟩ := List.map_eq_cons_iff.1 hFaces.symm
    exact Except.mapError_bind_congr (draft.step_of_face_eq hFirst.symm)
      fun next => ih next hMore.symm

end Draft

/-- A rule is read wherever its tokens stand; only the places of errors are others. -/
theorem Rule.ofClause_of_faces_eq {clause other : Clause}
    (hFaces : clause.tokens.map Token.face = other.tokens.map Token.face) :
    (Rule.ofClause clause).mapError ParseError.unplaced =
      (Rule.ofClause other).mapError ParseError.unplaced := by
  refine Except.mapError_bind_congr (Draft.blank.read_of_faces_eq hFaces) fun draft => ?_
  cases draft <;> rfl

end ChecklistLogic
