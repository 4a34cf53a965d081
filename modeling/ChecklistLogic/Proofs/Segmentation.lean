import ChecklistLogic.Proofs.Lexemes
import ChecklistLogic.Proofs.Location

/-!
# ChecklistLogic — the tokens of a text as its segmentation

The tokens of a text in terms of the text alone: they stand in it one behind the other with nothing
but blanks between them, each has the kind that its text fixes, and none could be longer. There is
one token list of that sort at most, and reading finds it.

* **Tokens** — where the text goes on at a token, that the token is as long as it can be means that
  the lexeme cut off there is the token (`Token.isMunched_iff`).
* **From a scan** — its tokens are such tokens (`Scan.isMunched`), do not overlap
  (`Scan.pairwise_stop_le`) and leave out blanks only (`Scan.covers`).
* **To a scan** — by induction on what is left of the text. Its first character is a blank that no
  token covers, or some token stands just there, and that is the first one left
  (`Scan.of_isMunched`).

Main result: `Token.ofText_eq_ok_iff_isSegmentation`.
-/

namespace ChecklistLogic

-- ---------------------------------------------------------------------------
-- What a segmentation is
-- ---------------------------------------------------------------------------

/-- Whether a character stands directly behind a token of a text. -/
def Token.FollowedBy (text : String) (token : Token) (c : Char) : Prop :=
  StandsAt text (token.text ++ String.singleton c) token.position

/-- Whether a token stands in a text at its position, has the kind that its text fixes, and ends
where no longer token could. -/
structure Token.IsMunched (text : String) (token : Token) : Prop where
  nonempty : token.text ≠ ""
  stands : StandsAt text token.text token.position
  kind : TokenKind.FixedBy token.text token.kind
  word : begins Char.isAlpha token.text = true →
    (∀ c ∈ token.text.toList, c.isAlphanum = true) ∧
      ∀ c, c.isAlphanum = true → ¬ token.FollowedBy text c
  digits : token.kind = .digits →
    (∀ c ∈ token.text.toList, c.isDigit = true) ∧ ∀ c, c.isDigit = true → ¬ token.FollowedBy text c
  more : token.text = ">" → ¬ token.FollowedBy text '='
  equals : token.text = "=" → ¬ token.FollowedBy text '<'

/-- Whether tokens make up a text, but for the blanks between them. -/
structure Token.IsSegmentation (text : String) (body : List Token) : Prop where
  munched : ∀ token ∈ body, token.IsMunched text
  marker : ∀ token ∈ body, token.kind ≠ .endOfInput
  increasing : body.Pairwise fun a b => a.position < b.position
  apart : body.Pairwise fun a b => a.stop ≤ b.position
  blanks : ∀ c position, StandsAt text (String.singleton c) position →
    isBlank c = true ∨ ∃ token ∈ body, token.position ≤ position ∧ position < token.stop

-- ---------------------------------------------------------------------------
-- Places of a text that has been read in part
-- ---------------------------------------------------------------------------

theorem eq_of_byteCount_eq {front rest before after : List Char}
    (hSame : front ++ rest = before ++ after) (hBytes : byteCount front = byteCount before) :
    front = before ∧ rest = after := by
  induction front generalizing before with
  | nil =>
    cases before with
    | nil => exact ⟨rfl, hSame⟩
    | cons c others =>
      have hPos := c.utf8Size_pos
      simp at hBytes
      omega
  | cons c others ih =>
    cases before with
    | nil =>
      have hPos := c.utf8Size_pos
      simp at hBytes
      omega
    | cons first more =>
      obtain ⟨rfl, hRest⟩ := List.cons.inj hSame
      obtain ⟨rfl, rfl⟩ := ih hRest (by simpa using hBytes)
      exact ⟨rfl, rfl⟩

/-- What stands at a place is what the rest of the text begins with there. -/
theorem standsAt_iff_isPrefix {text part : String} {front rest : List Char}
    (hText : text.toList = front ++ rest) :
    StandsAt text part (byteCount front) ↔ ∃ after, rest = part.toList ++ after := by
  constructor
  · rintro ⟨before, after, rfl, hBytes⟩
    refine ⟨after.toList, ?_⟩
    rw [← byteCount_toList] at hBytes
    rw [String.toList_append, String.toList_append, List.append_assoc] at hText
    exact (eq_of_byteCount_eq hText hBytes).2.symm
  · rintro ⟨after, rfl⟩
    exact .of_toList (by rw [hText, List.append_assoc])

theorem TokenKind.FixedBy.isAlphanum {text : String} {kind : TokenKind}
    (hFixed : TokenKind.FixedBy text kind) (hBegins : begins Char.isAlpha text = true) :
    ∀ c ∈ text.toList, c.isAlphanum = true := by
  have hReserved : ∀ entry ∈ TokenKind.reserved, begins Char.isAlpha entry.1 = true →
      entry.1.toList.all Char.isAlphanum = true := by
    decide +kernel
  cases hFixed with
  | reserved hMem => exact List.all_eq_true.1 (hReserved _ hMem hBegins)
  | digits hDigits => exact fun c hMem => isAlphanum_of_isDigit (hDigits.2 c hMem)
  | question hText hDigits =>
    rw [hText]
    exact hDigits.isWord_question.2
  | word hWord => exact hWord.2

theorem TokenKind.FixedBy.isDigit {text : String} (hFixed : TokenKind.FixedBy text .digits) :
    ∀ c ∈ text.toList, c.isDigit = true := by
  cases hFixed with
  | reserved hMem => simp [TokenKind.reserved] at hMem
  | digits hDigits => exact hDigits.2

/-- A token is as long as it can be if it is what is cut off the text at its place. -/
theorem Token.isMunched_iff {text : String} {token : Token} {front rest : List Char}
    (hText : text.toList = front ++ rest) (hPosition : token.position = byteCount front) :
    token.IsMunched text ↔
      ∃ after, Lexeme.split? rest = some (⟨token.kind, token.text.toList⟩, after) := by
  have hFollowed : ∀ {after : List Char} {c : Char}, rest = token.text.toList ++ after →
      (token.FollowedBy text c ↔ after.head? = some c) := by
    rintro after c rfl
    unfold FollowedBy
    rw [hPosition, standsAt_iff_isPrefix hText, List.head?_eq_some_iff]
    simp
  constructor
  · intro hMunched
    obtain ⟨after, hRest⟩ := (standsAt_iff_isPrefix hText).1 (hPosition ▸ hMunched.stands)
    refine ⟨after, Lexeme.split?_eq_some_iff.2 ⟨hRest, hMunched.kind, fun c hHead => ?_⟩⟩
    have hNext : token.FollowedBy text c := (hFollowed hRest).2 hHead
    rw [Bool.eq_false_iff, ne_eq, Lexeme.growsWith_iff hMunched.kind]
    rintro (⟨hBegins, hAlphanum⟩ | ⟨hKind, hDigit⟩ | ⟨hMore, rfl⟩ | ⟨hEquals, rfl⟩)
    · exact (hMunched.word hBegins).2 c hAlphanum hNext
    · exact (hMunched.digits hKind).2 c hDigit hNext
    · exact hMunched.more hMore hNext
    · exact hMunched.equals hEquals hNext
  · rintro ⟨after, hSplit⟩
    obtain ⟨hRest, hFixed, hEnd⟩ := Lexeme.split?_eq_some_iff.1 hSplit
    have hGrows : ∀ {c : Char}, token.FollowedBy text c → ¬ (begins Char.isAlpha token.text = true ∧
        c.isAlphanum = true ∨ token.kind = .digits ∧ c.isDigit = true ∨
        token.text = ">" ∧ c = '=' ∨ token.text = "=" ∧ c = '<') := by
      intro c hNext
      rw [← Lexeme.growsWith_iff hFixed, hEnd c ((hFollowed hRest).1 hNext)]
      exact Bool.false_ne_true
    refine ⟨?_, ?_, hFixed, ?_, ?_, ?_, ?_⟩
    · rw [ne_eq, ← String.toList_eq_nil_iff]
      exact Lexeme.chars_ne_nil_of_split? hSplit
    · rw [hPosition]
      exact (standsAt_iff_isPrefix hText).2 ⟨after, hRest⟩
    · exact fun hBegins => ⟨hFixed.isAlphanum hBegins, fun c hAlphanum hNext =>
        hGrows hNext (.inl ⟨hBegins, hAlphanum⟩)⟩
    · exact fun hKind => ⟨(hKind ▸ hFixed).isDigit, fun c hDigit hNext =>
        hGrows hNext (.inr (.inl ⟨hKind, hDigit⟩))⟩
    · exact fun hMore hNext => hGrows hNext (.inr (.inr (.inl ⟨hMore, rfl⟩)))
    · exact fun hEquals hNext => hGrows hNext (.inr (.inr (.inr ⟨hEquals, rfl⟩)))

-- ---------------------------------------------------------------------------
-- From a scan
-- ---------------------------------------------------------------------------

namespace Scan

variable {position stop : Nat} {chars : List Char} {tokens : List Token}

theorem isMunched {text : String} {front : List Char} (hText : text.toList = front ++ chars)
    (hPosition : position = byteCount front) (hScan : Scan position chars tokens stop) :
    ∀ token ∈ tokens, token.IsMunched text := by
  induction hScan generalizing front with
  | nil => simp
  | @blank _ _ c rest _ hBlank _ ih =>
    have hFront : text.toList = (front ++ [c]) ++ rest := by simp [hText]
    exact ih hFront (by simp [hPosition, utf8Size_of_isBlank hBlank])
  | @lexeme position _ chars rest lexeme _ hSplit _ ih =>
    have hChars := Lexeme.chars_append_of_split? hSplit
    refine List.forall_mem_cons.2 ⟨?_, ?_⟩
    · refine (Token.isMunched_iff hText hPosition).2 ⟨rest, ?_⟩
      simpa [Lexeme.token] using hSplit
    · have hFront : text.toList = (front ++ lexeme.chars) ++ rest := by
        rw [hText, List.append_assoc, hChars]
      exact ih hFront (by rw [Lexeme.stop_token, hPosition, byteCount_append])

theorem position_le (hScan : Scan position chars tokens stop) :
    ∀ token ∈ tokens, position ≤ token.position := by
  induction hScan with
  | nil => simp
  | blank _ _ ih =>
    intro token hMem
    have hLater := ih token hMem
    omega
  | lexeme _ _ ih =>
    refine List.forall_mem_cons.2 ⟨Nat.le_refl _, fun token hMem => ?_⟩
    have hLater := ih token hMem
    rw [Lexeme.stop_token] at hLater
    omega

/-- Each token ends before the next one begins. -/
theorem pairwise_stop_le (hScan : Scan position chars tokens stop) :
    tokens.Pairwise fun a b => a.stop ≤ b.position := by
  induction hScan with
  | nil => exact .nil
  | blank _ _ ih => exact ih
  | lexeme _ hRest ih => exact .cons hRest.position_le ih

/-- A character that is no blank belongs to some token. -/
theorem covers (hScan : Scan position chars tokens stop) {before after : List Char} {c : Char}
    (hChars : chars = before ++ c :: after) : isBlank c = true ∨ ∃ token ∈ tokens,
      token.position ≤ position + byteCount before ∧ position + byteCount before < token.stop := by
  induction hScan generalizing before with
  | nil => simp at hChars
  | @blank position _ first rest _ hBlank _ ih =>
    cases before with
    | nil =>
      obtain ⟨rfl, -⟩ := List.cons.inj hChars
      exact .inl hBlank
    | cons other more =>
      obtain ⟨rfl, hRest⟩ := List.cons.inj hChars
      have hLater := ih hRest
      rwa [byteCount_cons, utf8Size_of_isBlank hBlank, ← Nat.add_assoc]
  | @lexeme position _ chars rest lexeme others hSplit _ ih =>
    have hBehind : ∀ more, before = lexeme.chars ++ more → rest = more ++ c :: after →
        isBlank c = true ∨ ∃ token ∈ lexeme.token position :: others, token.position ≤
          position + byteCount before ∧ position + byteCount before < token.stop := by
      rintro more rfl hRest
      rcases ih hRest with hBlank | ⟨token, hMem, hFrom, hTo⟩
      · exact .inl hBlank
      · rw [Lexeme.stop_token, Nat.add_assoc, ← byteCount_append] at hFrom hTo
        exact .inr ⟨token, List.mem_cons_of_mem _ hMem, hFrom, hTo⟩
    have hSame := (Lexeme.chars_append_of_split? hSplit).trans hChars
    rcases List.append_eq_append_iff.1 hSame with ⟨more, hBefore, hRest⟩ | ⟨more, hLexeme, hAfter⟩
    · exact hBehind more hBefore hRest
    · cases more with
      | nil => exact hBehind [] (by simpa using hLexeme.symm) hAfter.symm
      | cons first inner =>
        -- inside the first token
        have hPos := first.utf8Size_pos
        refine .inr ⟨_, List.mem_cons_self, Nat.le_add_right _ _, ?_⟩
        rw [Lexeme.stop_token, hLexeme, byteCount_append, byteCount_cons]
        omega

end Scan

-- ---------------------------------------------------------------------------
-- To a scan
-- ---------------------------------------------------------------------------

theorem TokenKind.FixedBy.ne_endOfInput {text : String} {kind : TokenKind}
    (hFixed : TokenKind.FixedBy text kind) : kind ≠ .endOfInput := by
  rintro rfl
  cases hFixed with
  | reserved hMem => simp [TokenKind.reserved] at hMem

namespace Token.IsMunched

variable {text : String} {token : Token}

theorem position_lt_stop (hMunched : token.IsMunched text) : token.position < token.stop := by
  have hNonempty : token.text.utf8ByteSize ≠ 0 := by
    simpa using hMunched.nonempty
  unfold Token.stop
  omega

theorem stop_le (hMunched : token.IsMunched text) : token.stop ≤ text.utf8ByteSize := by
  obtain ⟨front, back, hText, hPosition⟩ := hMunched.stands
  unfold Token.stop
  rw [hText, ← hPosition, String.utf8ByteSize_append, String.utf8ByteSize_append]
  omega

end Token.IsMunched

theorem Scan.pairwise_position_lt {text : String} {chars : List Char} {tokens : List Token}
    {position stop : Nat} (hScan : Scan position chars tokens stop)
    (hMunched : ∀ token ∈ tokens, token.IsMunched text) :
    tokens.Pairwise fun a b => a.position < b.position := by
  refine hScan.pairwise_stop_le.imp_of_mem fun hFirst _ hEnds => ?_
  exact Nat.lt_of_lt_of_le (hMunched _ hFirst).position_lt_stop hEnds

/-- A token that stands where no token stands before it is the first one. -/
theorem Token.exists_eq_cons {text : String} {tokens : List Token} {position : Nat} {token : Token}
    (hMunched : ∀ token ∈ tokens, token.IsMunched text)
    (hFrom : ∀ token ∈ tokens, position ≤ token.position)
    (hApart : tokens.Pairwise fun a b => a.stop ≤ b.position) (hMem : token ∈ tokens)
    (hPosition : token.position = position) : ∃ others, tokens = token :: others := by
  cases tokens with
  | nil => cases hMem
  | cons first others =>
    rcases List.mem_cons.1 hMem with rfl | hOther
    · exact ⟨others, rfl⟩
    · have hEnds : first.stop ≤ token.position := List.rel_of_pairwise_cons hApart hOther
      have hBegins := hFrom first List.mem_cons_self
      have hNonempty := (hMunched first List.mem_cons_self).position_lt_stop
      omega

/-- Tokens that are as long as they can be, do not overlap and leave out blanks only are those of
a scan. -/
theorem Scan.of_isMunched {text : String} {front rest : List Char} {tokens : List Token}
    (hText : text.toList = front ++ rest) (hMunched : ∀ token ∈ tokens, token.IsMunched text)
    (hFrom : ∀ token ∈ tokens, byteCount front ≤ token.position)
    (hApart : tokens.Pairwise fun a b => a.stop ≤ b.position)
    (hBlanks : ∀ before c after, rest = before ++ c :: after → isBlank c = true ∨
      ∃ token ∈ tokens, token.position ≤ byteCount (front ++ before) ∧
        byteCount (front ++ before) < token.stop) :
    Scan (byteCount front) rest tokens text.utf8ByteSize := by
  induction hLength : rest.length using Nat.strong_induction_on generalizing front rest tokens with
  | _ length ih =>
    cases rest with
    | nil =>
      have hSize : text.utf8ByteSize = byteCount front := by
        rw [← byteCount_toList, hText, List.append_nil]
      have hNone : tokens = [] := by
        refine List.eq_nil_iff_forall_not_mem.2 fun token hMem => ?_
        have hBegins := hFrom token hMem
        have hNonempty := (hMunched token hMem).position_lt_stop
        have hEnds := (hMunched token hMem).stop_le
        omega
      rw [hNone, hSize]
      exact .nil _
    | cons c more =>
      by_cases hHere : ∃ token ∈ tokens, token.position = byteCount front
      · -- a token stands here
        obtain ⟨token, hMem, hPosition⟩ := hHere
        obtain ⟨others, rfl⟩ := Token.exists_eq_cons hMunched hFrom hApart hMem hPosition
        obtain ⟨after, hSplit⟩ := (Token.isMunched_iff hText hPosition).1 (hMunched token hMem)
        obtain ⟨hRest, -⟩ := Lexeme.split?_eq_some_iff.1 hSplit
        have hShorter := Lexeme.length_lt_of_split? hSplit
        have hToken : (Lexeme.mk token.kind token.text.toList).token (byteCount front) = token := by
          unfold Lexeme.token
          rw [String.ofList_toList, ← hPosition]
        have hBytes : byteCount (front ++ token.text.toList) = token.stop := by
          rw [byteCount_append, byteCount_toList, ← hPosition]
          rfl
        have hLater : Scan (byteCount (front ++ token.text.toList)) after others
            text.utf8ByteSize := by
          refine ih after.length (hLength ▸ hShorter) ?_ ?_ ?_ hApart.of_cons ?_ rfl
          · rw [hText, hRest, List.append_assoc]
          · exact fun other hOther => hMunched other (List.mem_cons_of_mem _ hOther)
          · rw [hBytes]
            exact fun other => List.rel_of_pairwise_cons hApart
          · intro before d last hAfter
            have hCovered := hBlanks (token.text.toList ++ before) d last
              (by rw [hRest, hAfter, List.append_assoc])
            rw [← List.append_assoc] at hCovered
            refine hCovered.imp_right ?_
            rintro ⟨other, hOther, hBegins, hEnds⟩
            refine ⟨other, List.mem_of_ne_of_mem ?_ hOther, hBegins, hEnds⟩
            rintro rfl
            rw [byteCount_append, hBytes] at hEnds
            omega
        rw [← hToken]
        refine .lexeme hSplit ?_
        rw [hToken, ← hBytes]
        exact hLater
      · -- none does, so this is a blank
        have hBlank : isBlank c = true := by
          refine (hBlanks [] c more rfl).resolve_right ?_
          rintro ⟨token, hMem, hBegins, -⟩
          rw [List.append_nil] at hBegins
          exact hHere ⟨token, hMem, Nat.le_antisymm hBegins (hFrom token hMem)⟩
        have hBytes : byteCount (front ++ [c]) = byteCount front + 1 := by
          simp [utf8Size_of_isBlank hBlank]
        refine .blank hBlank ?_
        rw [← hBytes]
        refine ih more.length (by simp [← hLength]) (by simp [hText]) hMunched ?_ hApart ?_ rfl
        · intro token hMem
          have hBegins := hFrom token hMem
          have hOther : token.position ≠ byteCount front := fun hSame => hHere ⟨token, hMem, hSame⟩
          omega
        · intro before d after hMore
          have hCovered := hBlanks (c :: before) d after (by simp [hMore])
          simpa using hCovered

-- ---------------------------------------------------------------------------
-- Whole texts
-- ---------------------------------------------------------------------------

/--
**The tokens of a text are its only segmentation.** Reading a text gives a token list if and only
if that list ends with an end marker at the end of the text, which is its only one, and the tokens
before it segment the text: they stand in it, in order and apart, with blanks alone outside them;
each has the kind that its text fixes; and no word, number, `>` or `=` is followed by a character
that would make it longer.
-/
theorem Token.ofText_eq_ok_iff_isSegmentation (text : String) (tokens : List Token) :
    Token.ofText text = .ok tokens ↔ ∃ body marker, tokens = body ++ [marker] ∧
      marker.kind = .endOfInput ∧ marker.text = "" ∧ marker.position = text.utf8ByteSize ∧
      IsSegmentation text body := by
  constructor
  · intro hTokens
    obtain ⟨body, hScan, rfl⟩ := Token.ofText_eq_ok_iff.1 hTokens
    have hWhole : text.toList = [] ++ text.toList := rfl
    have hMunched := hScan.isMunched hWhole rfl
    refine ⟨body, .endAt text.utf8ByteSize, rfl, rfl, rfl, rfl, hMunched, ?_, ?_,
      hScan.pairwise_stop_le, ?_⟩
    · exact fun token hMem => (hMunched token hMem).kind.ne_endOfInput
    · exact hScan.pairwise_position_lt hMunched
    · rintro c position ⟨before, after, hText, rfl⟩
      have hChars : text.toList = before.toList ++ c :: after.toList := by simp [hText]
      have hCovered := hScan.covers hChars
      rwa [Nat.zero_add, byteCount_toList] at hCovered
  · rintro ⟨body, ⟨kind, _, position⟩, rfl, rfl, rfl, rfl, hSegmentation⟩
    have hWhole : text.toList = [] ++ text.toList := rfl
    refine Token.ofText_of_scan (Scan.of_isMunched hWhole hSegmentation.munched
      (fun _ _ => Nat.zero_le _) hSegmentation.apart fun before c after hChars => ?_)
    exact hSegmentation.blanks c _ ((standsAt_iff_isPrefix hChars).2 ⟨after, by simp⟩)

end ChecklistLogic
