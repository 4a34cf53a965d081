import ChecklistLogic.Proofs.Lexemes

/-!
# ChecklistLogic — foreign characters

A foreign character is no blank, no letter, no digit and no sign. Reading tokens fails on texts with
a foreign character and on no others, whatever stands in front of it: a half-finished sign, a word,
a blank.

* **Where** — what scans has no foreign character in it (`Scan.isForeign_eq_false`), so the
  character at which scanning stops is the first one.
* **What is yielded** — `Cursor.Yields` runs a cursor. It runs until it yields nothing more, over
  just its items (`Cursor.yields_items`), of which there is one for each byte and one at most for
  the end (`Cursor.length_items_start_le`).

Main result: `Token.ofText_fails_at_foreign`.
-/

namespace ChecklistLogic

-- ---------------------------------------------------------------------------
-- Running a cursor
-- ---------------------------------------------------------------------------

/-- A cursor yields items one after the other and is then another cursor. -/
inductive Cursor.Yields : Cursor → List LexItem → Cursor → Prop where
  | none (cursor : Cursor) : Yields cursor [] cursor
  | next {cursor after last : Cursor} {item : LexItem} {items : List LexItem}
      (hNext : cursor.next? = some (item, after)) (hItems : Yields after items last) :
      Yields cursor (item :: items) last

/-- A cursor yields its items and then nothing. -/
theorem Cursor.yields_items (cursor : Cursor) :
    ∃ last, cursor.Yields cursor.items last ∧ last.next? = .none := by
  induction cursor using Cursor.items.induct with
  | case1 cursor hNext =>
    rw [items_of_next?_eq_none hNext]
    exact ⟨cursor, .none cursor, hNext⟩
  | case2 cursor item after hNext ih =>
    obtain ⟨last, hItems, hEnd⟩ := ih
    rw [items_of_next?_eq_some hNext]
    exact ⟨last, .next hNext hItems, hEnd⟩

-- ---------------------------------------------------------------------------
-- Texts without foreign characters
-- ---------------------------------------------------------------------------

namespace Lexeme

theorem isForeign_of_isAlphanum {c : Char} (hAlphanum : c.isAlphanum = true) :
    isForeign c = false := by
  simp [isForeign, hAlphanum]

theorem isForeign_of_isBlank {c : Char} (hBlank : isBlank c = true) : isForeign c = false := by
  simp [isForeign, hBlank]

theorem isForeign_of_fixedBy {kind : TokenKind} {text : String}
    (hFixed : TokenKind.FixedBy text kind) : ∀ c ∈ text.toList, isForeign c = false := by
  have hReserved : ∀ entry ∈ TokenKind.reserved,
      entry.1.toList.all (fun c => !isForeign c) = true := by
    decide +kernel
  intro c hMem
  cases hFixed with
  | reserved hEntry => simpa using List.all_eq_true.1 (hReserved _ hEntry) c hMem
  | digits hDigits => exact isForeign_of_isAlphanum (isAlphanum_of_isDigit (hDigits.2 c hMem))
  | question hText hDigits =>
    rw [hText] at hMem
    exact isForeign_of_isAlphanum (hDigits.isWord_question.2 c hMem)
  | word hWord => exact isForeign_of_isAlphanum (hWord.2 c hMem)

end Lexeme

namespace Scan

variable {position stop : Nat} {chars : List Char} {tokens : List Token}

theorem isForeign_eq_false (hScan : Scan position chars tokens stop) :
    ∀ c ∈ chars, Lexeme.isForeign c = false := by
  induction hScan with
  | nil => simp
  | blank hBlank _ ih => exact List.forall_mem_cons.2 ⟨Lexeme.isForeign_of_isBlank hBlank, ih⟩
  | lexeme hSplit _ ih =>
    have hLexeme := Lexeme.isForeign_of_fixedBy (Lexeme.fixedBy_of_split? hSplit)
    rw [String.toList_ofList] at hLexeme
    rw [← Lexeme.chars_append_of_split? hSplit]
    exact List.forall_mem_append.2 ⟨hLexeme, ih⟩

/-- There is a byte for each token. -/
theorem length_le (hScan : Scan position chars tokens stop) : position + tokens.length ≤ stop := by
  induction hScan with
  | nil => simp
  | blank _ _ ih => omega
  | @lexeme _ _ _ _ lexeme _ hSplit _ ih =>
    have hNonempty := Lexeme.chars_ne_nil_of_split? hSplit
    obtain ⟨first, more, hChars⟩ := List.exists_cons_of_ne_nil hNonempty
    have hPos := first.utf8Size_pos
    rw [Lexeme.stop_token, hChars, byteCount_cons] at ih
    rw [List.length_cons]
    omega

end Scan

theorem Cursor.items_start_of_isForeign {text : String} {front rest : List Char} {c : Char}
    {tokens : List Token} {position : Nat} (hText : text.toList = front ++ c :: rest)
    (hForeign : Lexeme.isForeign c = true) (hScan : Scan 0 front tokens position) :
    (Cursor.start text).items = tokens.map .ok ++ [.error ⟨position, c⟩] := by
  have hApart : ∀ d ∈ (c :: rest).head?, Lexeme.isApart d = true := by
    rintro d ⟨⟩
    exact Lexeme.isApart_of_isForeign hForeign
  unfold start
  rw [hText, hScan.items_append hApart, items_of_isForeign hForeign]

/-- A text yields at most one item for each byte and one more. -/
theorem Cursor.length_items_start_le (text : String) :
    (Cursor.start text).items.length ≤ text.utf8ByteSize + 1 := by
  rcases Scan.exists_or_isForeign 0 text.toList with
    ⟨body, hScan⟩ | ⟨front, c, rest, body, hText, hForeign, hScan⟩
  · have hBytes := hScan.length_le
    rw [byteCount_toList] at hBytes
    rw [start, hScan.items]
    simpa using hBytes
  · have hBytes := hScan.length_le
    have hWhole : text.utf8ByteSize = byteCount front + byteCount (c :: rest) := by
      rw [← byteCount_toList, hText, byteCount_append]
    rw [items_start_of_isForeign hText hForeign hScan]
    simp
    omega

-- ---------------------------------------------------------------------------
-- Texts with foreign characters
-- ---------------------------------------------------------------------------

/-- The tokens in front of the first foreign character are those of the text up to it. -/
theorem Token.filter_body {position stop : Nat} {chars : List Char} {body : List Token}
    (hScan : Scan position chars body stop) :
    (body ++ [endAt stop]).filter (·.kind ≠ .endOfInput) = body := by
  rw [List.filter_append, List.filter_eq_self.2]
  · simp [endAt]
  · intro token hMem
    exact decide_eq_true (hScan.kind_ne_endOfInput token hMem)

/--
**Reading tokens fails exactly at the first foreign character.** A text has no tokens if and only if
it has a foreign character in it. The error then names the first one and the bytes before it; until
there, a cursor yields the tokens of the text in front of it, and after the error nothing more.
Every cursor is through with its text after one item for each byte and one more.
-/
theorem Token.ofText_fails_at_foreign (text : String) :
    ((∃ e, Token.ofText text = .error e) ↔ ∃ c ∈ text.toList, Lexeme.isForeign c = true) ∧
    (∀ e, Token.ofText text = .error e → ∃ front back : String,
      text = front ++ String.singleton e.character ++ back ∧
      e.position = front.utf8ByteSize ∧ Lexeme.isForeign e.character = true ∧
      (∀ c ∈ front.toList, Lexeme.isForeign c = false) ∧
      ∃ tokens last, Token.ofText front = .ok tokens ∧
        (Cursor.start text).Yields
          ((tokens.filter (·.kind ≠ .endOfInput)).map .ok ++ [.error e]) last ∧
        last.next? = none) ∧
    ∃ items last, (Cursor.start text).Yields items last ∧ last.next? = none ∧
      items.length ≤ text.utf8ByteSize + 1 := by
  refine ⟨⟨?_, ?_⟩, ?_, ?_⟩
  · rintro ⟨e, hError⟩
    obtain ⟨front, rest, body, hText, hForeign, -⟩ := Token.ofText_eq_error_iff.1 hError
    exact ⟨e.character, by simp [hText], hForeign⟩
  · rintro ⟨c, hMem, hForeign⟩
    cases hTokens : Token.ofText text with
    | error e => exact ⟨e, rfl⟩
    | ok tokens =>
      obtain ⟨body, hScan, -⟩ := Token.ofText_eq_ok_iff.1 hTokens
      exact Bool.noConfusion (hForeign.symm.trans (hScan.isForeign_eq_false c hMem))
  · intro e hError
    obtain ⟨front, rest, body, hText, hForeign, hScan⟩ := Token.ofText_eq_error_iff.1 hError
    have hPosition : e.position = (String.ofList front).utf8ByteSize := by
      have hStop := hScan.stop_eq
      rwa [Nat.zero_add] at hStop
    have hFront : Scan 0 (String.ofList front).toList body e.position := by
      rwa [String.toList_ofList]
    obtain ⟨last, hYields, hEnd⟩ := (Cursor.start text).yields_items
    refine ⟨String.ofList front, String.ofList rest, ?_, hPosition, hForeign, ?_,
      body ++ [endAt e.position], last, Token.ofText_of_scan hFront, ?_, hEnd⟩
    · rw [← String.toList_inj, hText]
      simp
    · rw [String.toList_ofList]
      exact hScan.isForeign_eq_false
    · rw [Token.filter_body hScan, ← Cursor.items_start_of_isForeign hText hForeign hScan]
      exact hYields
  · obtain ⟨last, hYields, hEnd⟩ := (Cursor.start text).yields_items
    exact ⟨_, last, hYields, hEnd, Cursor.length_items_start_le text⟩

/-- A long dash, behind a sign of three bytes and a number. -/
theorem Token.ofText_fails_at_foreign_long_dash :
    let text := "If ≥3 – 5"
    Token.ofText text = .error ⟨8, '–'⟩ ∧ ∃ front back : String,
      text = front ++ String.singleton '–' ++ back ∧ 8 = front.utf8ByteSize ∧
      Lexeme.isForeign '–' = true ∧ (∀ c ∈ front.toList, Lexeme.isForeign c = false) ∧
      ∃ tokens last, Token.ofText front = .ok tokens ∧
        (Cursor.start text).Yields
          ((tokens.filter (·.kind ≠ .endOfInput)).map .ok ++ [.error ⟨8, '–'⟩]) last ∧
        last.next? = none := by
  intro text
  have hError : Token.ofText text = .error ⟨8, '–'⟩ := by decide +kernel
  obtain ⟨-, hFirst, -⟩ := Token.ofText_fails_at_foreign text
  exact ⟨hError, hFirst ⟨8, '–'⟩ hError⟩

end ChecklistLogic
