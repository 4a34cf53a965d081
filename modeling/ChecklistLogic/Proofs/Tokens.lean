import ChecklistLogic.Proofs.Except
import ChecklistLogic.Proofs.Scanning

/-!
# ChecklistLogic — the tokens of a text

Where the tokens of a text stand and what they look like, for every text.

A lexeme grows behind its first character only by letters, digits, `=` and `<`. In front of any
other character a text may be cut, and both parts scan as they do together
(`Scan.exists_of_append`, `Scan.append`). Two kinds of characters matter here: the semicolon and
the comma, at which cells are taken apart, and the foreign characters, at which scanning stops.

Main results:

* `Token.ofText_eq_ok_iff` / `Token.ofText_eq_error_iff` — a text has tokens if all of it scans;
  otherwise it scans up to a foreign character, which is the one reported.
* `Scan.exists_of_mem` — a token of a scan stands where its position says, and its text is a
  spelling of its kind (`TokenKind.IsSpelling`).
-/

namespace ChecklistLogic

-- ---------------------------------------------------------------------------
-- Bytes
-- ---------------------------------------------------------------------------

/-- The number of bytes that characters take. -/
def byteCount (chars : List Char) : Nat :=
  (String.ofList chars).utf8ByteSize

@[simp]
theorem byteCount_nil : byteCount [] = 0 := rfl

@[simp]
theorem byteCount_cons (c : Char) (rest : List Char) :
    byteCount (c :: rest) = c.utf8Size + byteCount rest := by
  simp [byteCount, String.ofList_cons]

@[simp]
theorem byteCount_append (front back : List Char) :
    byteCount (front ++ back) = byteCount front + byteCount back := by
  simp [byteCount]

@[simp]
theorem byteCount_toList (text : String) : byteCount text.toList = text.utf8ByteSize := by
  simp [byteCount]

theorem Lexeme.stop_token (lexeme : Lexeme) (position : Nat) :
    (lexeme.token position).stop = position + byteCount lexeme.chars := rfl

theorem utf8Size_of_isBlank {c : Char} (hBlank : isBlank c = true) : c.utf8Size = 1 := by
  rcases eq_of_isBlank hBlank with rfl | rfl | rfl | rfl <;> rfl

theorem byteCount_of_isBlank {chars : List Char} (hBlank : ∀ c ∈ chars, isBlank c = true) :
    byteCount chars = chars.length := by
  induction chars with
  | nil => rfl
  | cons c rest ih =>
    obtain ⟨hFirst, hRest⟩ := List.forall_mem_cons.1 hBlank
    rw [byteCount_cons, utf8Size_of_isBlank hFirst, ih hRest, List.length_cons, Nat.add_comm]

-- ---------------------------------------------------------------------------
-- Characters in front of which a text may be cut
-- ---------------------------------------------------------------------------

namespace Lexeme

/-- Whether no lexeme takes a character in behind its first one. -/
def isApart (c : Char) : Bool :=
  !c.isAlphanum && c != '=' && c != '<'

/-- The characters with which signs begin. -/
def signStarts : List Char :=
  ['>', '≥', '=', '≤', '<', '-', '#', '%', ',', ';']

/-- Whether a character belongs to no lexeme and is no blank. -/
def isForeign (c : Char) : Bool :=
  !isBlank c && !c.isAlphanum && !signStarts.contains c

theorem isApart_of_isForeign {c : Char} (hForeign : isForeign c = true) : isApart c = true := by
  simp only [isForeign, signStarts, Bool.and_eq_true, Bool.not_eq_true'] at hForeign
  obtain ⟨⟨-, hOther⟩, hSign⟩ := hForeign
  simp only [List.contains_cons, Bool.or_eq_false_iff, beq_eq_false_iff_ne] at hSign
  simp [isApart, hOther, hSign]

theorem isApart_of_isBlank {c : Char} (hBlank : isBlank c = true) : isApart c = true := by
  rcases eq_of_isBlank hBlank with rfl | rfl | rfl | rfl <;> rfl

/-- It makes no lexeme longer. -/
theorem growsWith_of_isApart (lexeme : Lexeme) {c : Char} (hApart : isApart c = true) :
    lexeme.growsWith c = false := by
  simp only [isApart, Char.isAlphanum, Bool.and_eq_true, Bool.not_eq_true', bne_iff_ne,
    Bool.or_eq_false_iff] at hApart
  obtain ⟨⟨⟨hAlpha, hDigit⟩, hEquals⟩, hLess⟩ := hApart
  unfold growsWith
  cases lexeme.chars with
  | nil => rfl
  | cons first more => simp [Char.isAlphanum, hAlpha, hDigit, hEquals, hLess]

theorem splitSign?_append_of_isApart {first : Char} {more rest : List Char}
    (hRest : ∀ c ∈ rest.head?, isApart c = true) :
    splitSign? (first :: more ++ rest) =
      (splitSign? (first :: more)).map fun (lexeme, after) => (lexeme, after ++ rest) := by
  cases more with
  | nil =>
    -- the rest begins with a character that makes no sign longer
    cases rest with
    | nil => simp
    | cons c others =>
      have hEquals : c ≠ '=' := by rintro rfl; exact absurd (hRest '=' rfl) (by decide)
      have hLess : c ≠ '<' := by rintro rfl; exact absurd (hRest '<' rfl) (by decide)
      unfold splitSign?
      split <;> simp_all
  | cons second others =>
    -- two characters decide
    by_cases hMore : first = '>'
    · subst hMore
      by_cases hSecond : second = '=' <;> simp [splitSign?, hSecond]
    · by_cases hEquals : first = '='
      · subst hEquals
        by_cases hSecond : second = '<' <;> simp [splitSign?, hSecond]
      · unfold splitSign?
        split <;> simp_all

/-- What is cut off a text does not depend on what follows it, if that begins apart. -/
theorem split?_append_of_isApart {front rest : List Char} (hFront : front ≠ [])
    (hRest : ∀ c ∈ rest.head?, isApart c = true) :
    split? (front ++ rest) =
      (split? front).map fun (lexeme, after) => (lexeme, after ++ rest) := by
  obtain ⟨first, more, rfl⟩ := List.exists_cons_of_ne_nil hFront
  have hAlphanum : ∀ c ∈ rest.head?, c.isAlphanum = false := by
    intro c hMem
    have hApart := hRest c hMem
    simp only [isApart, Bool.and_eq_true, Bool.not_eq_true'] at hApart
    exact hApart.1.1
  have hDigit : ∀ c ∈ rest.head?, c.isDigit = false := by
    intro c hMem
    have hOther := hAlphanum c hMem
    simp only [Char.isAlphanum, Bool.or_eq_false_iff] at hOther
    exact hOther.2
  obtain ⟨hTakeWord, hDropWord⟩ := takeWhile_dropWhile_append more hAlphanum
  obtain ⟨hTakeDigits, hDropDigits⟩ := takeWhile_dropWhile_append more hDigit
  rw [List.cons_append]
  simp only [split?]
  rw [hTakeWord, hDropWord, hTakeDigits, hDropDigits]
  split
  · rfl
  · split
    · rfl
    · exact splitSign?_append_of_isApart hRest

/-- A lexeme in front of a text is in front of every longer text, if what is added begins apart. -/
theorem split?_append_of_split? {front left rest : List Char} {lexeme : Lexeme}
    (hSplit : split? front = some (lexeme, left)) (hRest : ∀ c ∈ rest.head?, isApart c = true) :
    split? (front ++ rest) = some (lexeme, left ++ rest) := by
  have hFront : front ≠ [] := by
    rintro rfl
    simp [split?] at hSplit
  rw [split?_append_of_isApart hFront hRest, hSplit]
  rfl

/-- It does not reach behind a place at which the text begins apart. -/
theorem exists_split?_of_append {front rest others : List Char} {lexeme : Lexeme}
    (hFront : front ≠ []) (hRest : ∀ c ∈ rest.head?, isApart c = true)
    (hSplit : split? (front ++ rest) = some (lexeme, others)) :
    ∃ left, split? front = some (lexeme, left) ∧ others = left ++ rest := by
  rw [split?_append_of_isApart hFront hRest] at hSplit
  obtain ⟨⟨found, left⟩, hFound, hSame⟩ := Option.map_eq_some_iff.1 hSplit
  obtain ⟨rfl, rfl⟩ := Prod.mk.inj hSame
  exact ⟨left, hFound, rfl⟩

theorem not_mem_signStarts_of_splitSign? {c : Char} {rest : List Char}
    (hSplit : splitSign? (c :: rest) = none) : c ∉ signStarts := by
  unfold splitSign? at hSplit
  split at hSplit <;> simp_all [signStarts]

/-- Only a foreign character or a blank begins no lexeme. -/
theorem isForeign_of_split?_eq_none {c : Char} {rest : List Char} (hBlank : isBlank c = false)
    (hSplit : split? (c :: rest) = none) : isForeign c = true := by
  simp only [split?] at hSplit
  split at hSplit
  · cases hSplit
  · rename_i hAlpha
    split at hSplit
    · cases hSplit
    · rename_i hDigit
      have hSign := not_mem_signStarts_of_splitSign? hSplit
      simp [isForeign, hBlank, Char.isAlphanum, hAlpha, hDigit, hSign]

theorem split?_of_isForeign {c : Char} {rest : List Char} (hForeign : isForeign c = true) :
    split? (c :: rest) = none := by
  simp only [isForeign, signStarts, Char.isAlphanum, Bool.and_eq_true, Bool.not_eq_true',
    Bool.or_eq_false_iff] at hForeign
  obtain ⟨⟨-, hAlpha, hDigit⟩, hSign⟩ := hForeign
  simp only [List.contains_cons, Bool.or_eq_false_iff, beq_eq_false_iff_ne] at hSign
  simp only [split?, hAlpha, hDigit, Bool.false_eq_true, if_false]
  unfold splitSign?
  split <;> simp_all

end Lexeme

-- ---------------------------------------------------------------------------
-- What lexemes of a kind look like
-- ---------------------------------------------------------------------------

/-- The texts that tokens of a kind have when they come from a text. -/
def TokenKind.IsSpelling : TokenKind → List Char → Prop
  | .answer, chars => ∃ answer : Answer, chars = answer.text.toList
  | .score, chars => ∃ score : Score, chars = score.name.toList
  | .digits, chars => chars ≠ [] ∧ ∀ c ∈ chars, c.isDigit = true
  | .question, chars => ∃ digits, chars = 'Q' :: digits ∧ digits ≠ [] ∧
      ∀ c ∈ digits, c.isDigit = true
  | .hash, chars => chars = ['#']
  | .percent, chars => chars = ['%']
  | .comma, chars => chars = [',']
  | .semicolon, chars => chars = [';']
  | .ifWord, chars => chars = "If".toList ∨ chars = "if".toList
  | .thenWord, chars => chars = "then".toList
  | .connective c, chars => chars = c.word.toList
  | .equals, chars => chars = ['=']
  | .comparator .atLeast, chars => chars = ['>', '='] ∨ chars = ['≥']
  | .comparator .moreThan, chars => chars = ['>']
  | .comparator .atMost, chars => chars = ['=', '<'] ∨ chars = ['≤']
  | .comparator .lessThan, chars => chars = ['<']
  | .dash, chars => chars = ['-']
  | .word, chars => chars ≠ [] ∧ ∀ c ∈ chars, c.isAlphanum = true
  | .endOfInput, _ => False

namespace Lexeme

theorem isSpelling_ofWord {word : String} (hWord : word.toList ≠ [])
    (hChars : ∀ c ∈ word.toList, c.isAlphanum = true) :
    (TokenKind.ofWord word).IsSpelling word.toList := by
  unfold TokenKind.ofWord
  split
  · rename_i hIf
    simp only [Bool.or_eq_true, decide_eq_true_eq] at hIf
    rcases hIf with rfl | rfl
    · exact .inl rfl
    · exact .inr rfl
  split
  · rename_i hThen
    exact congrArg String.toList hThen
  split
  · rename_i hAnd
    exact congrArg String.toList hAnd
  split
  · rename_i hOr
    exact congrArg String.toList hOr
  split
  · rename_i hAnswer
    obtain ⟨answer, hAnswer⟩ := Option.isSome_iff_exists.1 hAnswer
    exact ⟨answer, congrArg String.toList (Answer.ofText?_eq_some_iff.1 hAnswer)⟩
  split
  · rename_i hScore
    obtain ⟨score, hScore⟩ := Option.isSome_iff_exists.1 hScore
    exact ⟨score, congrArg String.toList (Score.ofName?_eq_some_iff.1 hScore)⟩
  split
  · rename_i hQuestion
    unfold isQuestionName at hQuestion
    split at hQuestion
    · rename_i digits hText
      simp only [Bool.and_eq_true, Bool.not_eq_true', List.isEmpty_eq_false_iff,
        List.all_eq_true] at hQuestion
      exact ⟨digits, hText, hQuestion⟩
    · cases hQuestion
  · exact ⟨hWord, hChars⟩

theorem isSpelling_of_splitSign? {text rest : List Char} {lexeme : Lexeme}
    (hSplit : splitSign? text = some (lexeme, rest)) : lexeme.kind.IsSpelling lexeme.chars := by
  unfold splitSign? at hSplit
  split at hSplit <;> cases hSplit <;> simp [TokenKind.IsSpelling]

theorem isSpelling_of_split? {text rest : List Char} {lexeme : Lexeme}
    (hSplit : split? text = some (lexeme, rest)) : lexeme.kind.IsSpelling lexeme.chars := by
  cases text with
  | nil => simp [split?] at hSplit
  | cons c more =>
    simp only [split?] at hSplit
    split at hSplit
    · rename_i hAlpha
      simp only [Option.some.injEq, Prod.mk.injEq] at hSplit
      obtain ⟨rfl, -⟩ := hSplit
      have hFirst : c.isAlphanum = true := by simp [Char.isAlphanum, hAlpha]
      generalize hWord : String.ofList (c :: more.takeWhile Char.isAlphanum) = word
      have hChars : c :: more.takeWhile Char.isAlphanum = word.toList := by simp [← hWord]
      rw [hChars]
      refine isSpelling_ofWord (by simp [← hChars]) ?_
      rw [← hChars]
      simpa [hFirst] using fun _ => List.mem_takeWhile_imp
    · split at hSplit
      · rename_i hDigit
        simp only [Option.some.injEq, Prod.mk.injEq] at hSplit
        obtain ⟨rfl, -⟩ := hSplit
        exact ⟨by simp, by simpa [hDigit] using fun _ => List.mem_takeWhile_imp⟩
      · exact isSpelling_of_splitSign? hSplit

end Lexeme

-- ---------------------------------------------------------------------------
-- Scans
-- ---------------------------------------------------------------------------

namespace Scan

variable {position stop : Nat} {chars front rest : List Char} {tokens before after : List Token}

theorem stop_eq (hScan : Scan position chars tokens stop) : stop = position + byteCount chars := by
  induction hScan with
  | nil => rfl
  | blank hBlank _ ih =>
    rw [ih, byteCount_cons, utf8Size_of_isBlank hBlank]
    omega
  | lexeme hSplit _ ih =>
    rw [ih, Lexeme.stop_token, ← Lexeme.chars_append_of_split? hSplit, byteCount_append]
    omega

/-- What is cut off a text is its first token. -/
theorem exists_of_split? (hScan : Scan position chars tokens stop) {lexeme : Lexeme}
    (hSplit : Lexeme.split? chars = some (lexeme, rest)) : ∃ later,
      tokens = lexeme.token position :: later ∧
      Scan (lexeme.token position).stop rest later stop := by
  cases hScan with
  | nil => cases hSplit
  | blank hBlank =>
    rw [Lexeme.split?_of_isBlank hBlank] at hSplit
    cases hSplit
  | @lexeme _ _ _ _ _ later hFound hRest =>
    rw [hSplit] at hFound
    cases hFound
    exact ⟨later, rfl, hRest⟩

/-- Two texts scan one behind the other, if the second one begins apart. -/
theorem append (hFront : Scan position front before stop) {last : Nat}
    (hRest : Scan stop rest after last) (hApart : ∀ c ∈ rest.head?, Lexeme.isApart c = true) :
    Scan position (front ++ rest) (before ++ after) last := by
  induction hFront with
  | nil => exact hRest
  | blank hBlank _ ih => exact .blank hBlank (ih hRest)
  | lexeme hSplit _ ih => exact .lexeme (Lexeme.split?_append_of_split? hSplit hApart) (ih hRest)

/-- A text may be cut in front of a character that stands apart. -/
theorem exists_of_append (hScan : Scan position (front ++ rest) tokens stop)
    (hApart : ∀ c ∈ rest.head?, Lexeme.isApart c = true) :
    ∃ before after, tokens = before ++ after ∧
      Scan position front before (position + byteCount front) ∧
      Scan (position + byteCount front) rest after stop := by
  generalize hChars : front ++ rest = chars at hScan
  induction hScan generalizing front with
  | nil position =>
    obtain ⟨rfl, rfl⟩ := List.append_eq_nil_iff.1 hChars
    exact ⟨[], [], rfl, .nil _, .nil _⟩
  | @blank position stop c others tokens hBlank hOthers ih =>
    cases front with
    | nil =>
      obtain rfl : rest = c :: others := hChars
      exact ⟨[], tokens, rfl, .nil _, .blank hBlank hOthers⟩
    | cons first more =>
      obtain ⟨rfl, hMore⟩ := List.cons.inj hChars
      obtain ⟨before, after, rfl, hBefore, hAfter⟩ := ih hMore
      rw [byteCount_cons, utf8Size_of_isBlank hBlank, ← Nat.add_assoc]
      exact ⟨before, after, rfl, .blank hBlank hBefore, hAfter⟩
  | @lexeme position stop chars others lexeme tokens hSplit hOthers ih =>
    by_cases hFront : front = []
    · subst hFront
      obtain rfl : rest = chars := hChars
      exact ⟨[], _, rfl, .nil _, .lexeme hSplit hOthers⟩
    · rw [← hChars] at hSplit
      obtain ⟨left, hFound, hLeft⟩ := Lexeme.exists_split?_of_append hFront hApart hSplit
      obtain ⟨before, after, rfl, hBefore, hAfter⟩ := ih hLeft.symm
      have hBytes : (lexeme.token position).stop + byteCount left = position + byteCount front := by
        rw [Lexeme.stop_token, ← Lexeme.chars_append_of_split? hFound, byteCount_append]
        omega
      rw [hBytes] at hBefore hAfter
      exact ⟨lexeme.token position :: before, after, rfl, .lexeme hFound hBefore, hAfter⟩

/-- A text scans as a whole or up to a foreign character. -/
theorem exists_or_isForeign (position : Nat) (chars : List Char) :
    (∃ tokens, Scan position chars tokens (position + byteCount chars)) ∨
    ∃ front c rest tokens, chars = front ++ c :: rest ∧ Lexeme.isForeign c = true ∧
      Scan position front tokens (position + byteCount front) := by
  induction hLength : chars.length using Nat.strong_induction_on generalizing position chars with
  | _ length ih =>
    cases chars with
    | nil => exact .inl ⟨[], .nil _⟩
    | cons c rest =>
      cases hBlank : isBlank c with
      | true =>
        have hOne := utf8Size_of_isBlank hBlank
        rcases ih rest.length (by simp [← hLength]) (position + 1) rest rfl with
          ⟨tokens, hScan⟩ | ⟨front, foreign, others, tokens, rfl, hForeign, hScan⟩
        · rw [Nat.add_assoc, ← hOne, ← byteCount_cons, hOne] at hScan
          exact .inl ⟨tokens, .blank hBlank hScan⟩
        · rw [Nat.add_assoc, ← hOne, ← byteCount_cons, hOne] at hScan
          exact .inr ⟨c :: front, foreign, others, tokens, rfl, hForeign, .blank hBlank hScan⟩
      | false =>
        cases hSplit : Lexeme.split? (c :: rest) with
        | none =>
          have hForeign := Lexeme.isForeign_of_split?_eq_none hBlank hSplit
          exact .inr ⟨[], c, rest, [], rfl, hForeign, .nil _⟩
        | some cut =>
          obtain ⟨lexeme, left⟩ := cut
          have hChars := Lexeme.chars_append_of_split? hSplit
          have hShorter := Lexeme.length_lt_of_split? hSplit
          rcases ih left.length (by omega) (lexeme.token position).stop left rfl with
            ⟨tokens, hScan⟩ | ⟨front, foreign, others, tokens, rfl, hForeign, hScan⟩
          · rw [Lexeme.stop_token, Nat.add_assoc, ← byteCount_append, hChars] at hScan
            exact .inl ⟨_, .lexeme hSplit hScan⟩
          · -- the lexeme is cut off just so if the foreign character and what follows is left out
            rw [← List.append_assoc] at hChars
            have hFront : lexeme.chars ++ front ≠ [] := by
              simp [Lexeme.chars_ne_nil_of_split? hSplit]
            have hApart : ∀ d ∈ (foreign :: others).head?, Lexeme.isApart d = true := by
              rintro d ⟨⟩
              exact Lexeme.isApart_of_isForeign hForeign
            rw [← hChars] at hSplit
            obtain ⟨left, hFound, hLeft⟩ := Lexeme.exists_split?_of_append hFront hApart hSplit
            obtain rfl := List.append_cancel_right hLeft
            rw [Lexeme.stop_token, Nat.add_assoc, ← byteCount_append] at hScan
            exact .inr ⟨_, foreign, others, _, hChars.symm, hForeign, .lexeme hFound hScan⟩

/-- A token of a scan stands at its position. -/
theorem exists_of_mem (hScan : Scan position chars tokens stop) {token : Token}
    (hMem : token ∈ tokens) :
    token.kind.IsSpelling token.text.toList ∧ ∃ front back,
      chars = front ++ token.text.toList ++ back ∧ token.position = position + byteCount front := by
  induction hScan with
  | nil => simp at hMem
  | @blank position _ c rest _ hBlank _ ih =>
    obtain ⟨hSpelling, front, back, rfl, hPosition⟩ := ih hMem
    refine ⟨hSpelling, c :: front, back, rfl, ?_⟩
    rw [hPosition, byteCount_cons, utf8Size_of_isBlank hBlank]
    omega
  | @lexeme position _ chars rest lexeme _ hSplit _ ih =>
    have hText : (lexeme.token position).text.toList = lexeme.chars := String.toList_ofList
    rcases List.mem_cons.1 hMem with rfl | hRest
    · rw [hText]
      refine ⟨Lexeme.isSpelling_of_split? hSplit, [], rest, ?_, rfl⟩
      exact (Lexeme.chars_append_of_split? hSplit).symm
    · obtain ⟨hSpelling, front, back, rfl, hPosition⟩ := ih hRest
      refine ⟨hSpelling, lexeme.chars ++ front, back, ?_, ?_⟩
      · rw [← Lexeme.chars_append_of_split? hSplit]
        simp only [List.append_assoc]
      · rw [hPosition, Lexeme.stop_token, byteCount_append]
        omega

/-- The cursor yields the tokens of a scan and then those of the text behind it. -/
theorem items_append (hScan : Scan position front tokens stop)
    (hApart : ∀ c ∈ rest.head?, Lexeme.isApart c = true) (source : List Char) :
    (Cursor.mk source (front ++ rest) position false).items =
      tokens.map .ok ++ (Cursor.mk source rest stop false).items := by
  induction hScan with
  | nil => rfl
  | blank hBlank _ ih =>
    rw [List.cons_append, Cursor.items_of_isBlank hBlank, ih]
  | lexeme hSplit _ ih =>
    rw [Cursor.items_of_split? (Lexeme.split?_append_of_split? hSplit hApart), ih]
    rfl

end Scan

-- ---------------------------------------------------------------------------
-- Whole texts
-- ---------------------------------------------------------------------------

theorem Cursor.items_of_isForeign {source rest : List Char} {position : Nat} {c : Char}
    (hForeign : Lexeme.isForeign c = true) :
    (Cursor.mk source (c :: rest) position false).items = [.error ⟨position, c⟩] := by
  have hBlank : isBlank c = false := by
    simp only [Lexeme.isForeign, Bool.and_eq_true, Bool.not_eq_true'] at hForeign
    exact hForeign.1.1
  have hSkip : (Cursor.mk source (c :: rest) position false).skipBlanks =
      Cursor.mk source (c :: rest) position false := by
    simp [skipBlanks, hBlank]
  have hNext : (Cursor.mk source (c :: rest) position false).next? =
      some (.error ⟨position, c⟩, (Cursor.mk source (c :: rest) position false).finish) := by
    simp [next?, hSkip, step, Lexeme.split?_of_isForeign hForeign]
  rw [items_of_next?_eq_some hNext, items_finish]

theorem Token.mapM_items_error (tokens : List Token) (e : LexError) :
    (tokens.map Except.ok ++ [.error e] : List LexItem).mapM id = .error e := by
  induction tokens with
  | nil => rfl
  | cons token rest ih =>
    rw [List.map_cons, List.cons_append, List.mapM_cons, ih]
    rfl

theorem Token.ofText_of_isForeign {text : String} {front rest : List Char} {c : Char}
    {tokens : List Token} {position : Nat} (hText : text.toList = front ++ c :: rest)
    (hForeign : Lexeme.isForeign c = true) (hScan : Scan 0 front tokens position) :
    Token.ofText text = .error ⟨position, c⟩ := by
  have hApart : ∀ d ∈ (c :: rest).head?, Lexeme.isApart d = true := by
    rintro d ⟨⟩
    exact Lexeme.isApart_of_isForeign hForeign
  unfold Token.ofText Cursor.start
  rw [hText, hScan.items_append hApart, Cursor.items_of_isForeign hForeign,
    Token.mapM_items_error]

/-- A text has tokens exactly if all of it scans. -/
theorem Token.ofText_eq_ok_iff {text : String} {tokens : List Token} :
    Token.ofText text = .ok tokens ↔ ∃ body, Scan 0 text.toList body text.utf8ByteSize ∧
      tokens = body ++ [.endAt text.utf8ByteSize] := by
  constructor
  · intro hOk
    rcases Scan.exists_or_isForeign 0 text.toList with
      ⟨body, hScan⟩ | ⟨front, c, rest, body, hText, hForeign, hScan⟩
    · rw [Nat.zero_add, byteCount_toList] at hScan
      rw [Token.ofText_of_scan hScan] at hOk
      exact ⟨body, hScan, (Except.ok.inj hOk).symm⟩
    · rw [Token.ofText_of_isForeign hText hForeign hScan] at hOk
      cases hOk
  · rintro ⟨body, hScan, rfl⟩
    exact Token.ofText_of_scan hScan

/-- A text has no tokens exactly if it scans only up to a foreign character, which is reported. -/
theorem Token.ofText_eq_error_iff {text : String} {e : LexError} :
    Token.ofText text = .error e ↔ ∃ front rest body,
      text.toList = front ++ e.character :: rest ∧ Lexeme.isForeign e.character = true ∧
      Scan 0 front body e.position := by
  constructor
  · intro hError
    rcases Scan.exists_or_isForeign 0 text.toList with
      ⟨body, hScan⟩ | ⟨front, c, rest, body, hText, hForeign, hScan⟩
    · rw [Token.ofText_of_scan hScan] at hError
      cases hError
    · rw [Token.ofText_of_isForeign hText hForeign hScan] at hError
      cases hError
      exact ⟨front, rest, body, hText, hForeign, hScan⟩
  · rintro ⟨front, rest, body, hText, hForeign, hScan⟩
    exact Token.ofText_of_isForeign hText hForeign hScan

theorem Clause.ofText_eq_ok_iff {text : String} {clause : Clause} :
    Clause.ofText text = .ok clause ↔ Scan 0 text.toList clause.tokens clause.stop := by
  constructor
  · intro hOk
    obtain ⟨tokens, hTokens, -⟩ := Except.map_eq_ok_iff.1 hOk
    obtain ⟨body, hScan, -⟩ := Token.ofText_eq_ok_iff.1 hTokens
    rw [Clause.ofText_of_scan hScan] at hOk
    cases hOk
    exact hScan
  · exact Clause.ofText_of_scan

end ChecklistLogic
