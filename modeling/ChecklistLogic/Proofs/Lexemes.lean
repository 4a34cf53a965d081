import ChecklistLogic.Proofs.Tokens

/-!
# ChecklistLogic — what a lexeme is

Which texts are lexemes, of which kind each of them is, and where it ends when more text follows.

* **Kinds** — `TokenKind.FixedBy` tells the kind of a text without reading it: a table of the words
  with a meaning and of the signs, digits, questions, and words of no other kind. The whole lexemes
  are the texts of some kind (`Lexeme.isWhole_iff_fixedBy`).
* **Ends** — `Lexeme.growsWith_iff` lists the characters that make a lexeme longer. What is cut off
  a text is a whole lexeme that its next character does not make longer, and nothing else is
  (`Lexeme.split?_eq_some_iff`).
-/

namespace ChecklistLogic

-- ---------------------------------------------------------------------------
-- The kinds of texts
-- ---------------------------------------------------------------------------

/-- Whether the first character of a text is one of these. -/
def begins (p : Char → Bool) (text : String) : Bool :=
  text.toList.head?.any p

/-- Whether a text is a letter with letters and digits behind it. -/
def IsWord (text : String) : Prop :=
  begins Char.isAlpha text = true ∧ ∀ c ∈ text.toList, c.isAlphanum = true

/-- Whether a text is a run of digits. -/
def IsNumeral (text : String) : Prop :=
  text ≠ "" ∧ ∀ c ∈ text.toList, c.isDigit = true

/-- The words that have a meaning of their own, and the signs. -/
def TokenKind.reserved : List (String × TokenKind) :=
  [("If", .ifWord), ("if", .ifWord), ("then", .thenWord), ("and", .connective .and),
    ("or", .connective .or), ("Y", .answer), ("N", .answer), ("Gray", .score), ("Green", .score),
    ("Red", .score), ("Yellow", .score), (">=", .comparator .atLeast), ("≥", .comparator .atLeast),
    (">", .comparator .moreThan), ("=<", .comparator .atMost), ("≤", .comparator .atMost),
    ("<", .comparator .lessThan), ("=", .equals), ("-", .dash), ("#", .hash), ("%", .percent),
    (",", .comma), (";", .semicolon)]

/-- The kind that the text of a token has. -/
inductive TokenKind.FixedBy (text : String) : TokenKind → Prop where
  | reserved {kind : TokenKind} (hMem : (text, kind) ∈ TokenKind.reserved) : FixedBy text kind
  | digits (hDigits : IsNumeral text) : FixedBy text .digits
  | question {digits : String} (hText : text = "Q" ++ digits) (hDigits : IsNumeral digits) :
      FixedBy text .question
  | word (hWord : IsWord text) (hReserved : ∀ kind, (text, kind) ∉ TokenKind.reserved)
      (hQuestion : ∀ digits, IsNumeral digits → text ≠ "Q" ++ digits) : FixedBy text .word

theorem begins_iff {p : Char → Bool} {text : String} :
    begins p text = true ↔ ∃ first rest, text.toList = first :: rest ∧ p first = true := by
  unfold begins
  cases text.toList <;> simp

theorem IsNumeral.toList_ne_nil {text : String} (hText : IsNumeral text) : text.toList ≠ [] := by
  rw [ne_eq, String.toList_eq_nil_iff]
  exact hText.1

theorem toList_question (digits : String) : ("Q" ++ digits).toList = 'Q' :: digits.toList := by
  rw [String.toList_append]
  rfl

/-- `Q` and digits are a word that names a question. -/
theorem isQuestionName_iff {word : String} :
    isQuestionName word = true ↔ ∃ digits, word = "Q" ++ digits ∧ IsNumeral digits := by
  constructor
  · intro hName
    unfold isQuestionName at hName
    split at hName
    · rename_i digits hChars
      simp only [Bool.and_eq_true, Bool.not_eq_true', List.isEmpty_eq_false_iff,
        List.all_eq_true] at hName
      refine ⟨String.ofList digits, ?_, ?_, ?_⟩
      · rw [← String.toList_inj, hChars]
        simp
      · rw [ne_eq, ← String.toList_inj, String.toList_ofList]
        exact hName.1
      · rw [String.toList_ofList]
        exact hName.2
    · cases hName
  · rintro ⟨digits, rfl, hDigits⟩
    unfold isQuestionName
    rw [toList_question]
    simpa [hDigits.toList_ne_nil] using hDigits.2

theorem isAlphanum_of_isAlpha {c : Char} (hAlpha : c.isAlpha = true) : c.isAlphanum = true := by
  simp [Char.isAlphanum, hAlpha]

theorem isAlphanum_of_isDigit {c : Char} (hDigit : c.isDigit = true) : c.isAlphanum = true := by
  simp [Char.isAlphanum, hDigit]

theorem isDigit_eq_false_of_isAlpha {c : Char} (hAlpha : c.isAlpha = true) : c.isDigit = false := by
  cases hDigit : c.isDigit with
  | false => rfl
  | true => exact hAlpha.symm.trans (Lexeme.isAlpha_eq_false_of_isDigit hDigit)

theorem IsNumeral.isWord_question {digits : String} (hDigits : IsNumeral digits) :
    IsWord ("Q" ++ digits) := by
  constructor
  · exact begins_iff.2 ⟨'Q', digits.toList, toList_question digits, by decide⟩
  · rw [toList_question]
    exact List.forall_mem_cons.2 ⟨by decide, fun c hMem => isAlphanum_of_isDigit (hDigits.2 c hMem)⟩

-- ---------------------------------------------------------------------------
-- Whole lexemes
-- ---------------------------------------------------------------------------

namespace TokenKind

theorem ofWord_of_reserved : ∀ entry ∈ reserved,
    begins Char.isAlpha entry.1 = true → ofWord entry.1 = entry.2 := by
  decide +kernel

theorem isQuestionName_of_reserved : ∀ entry ∈ reserved, isQuestionName entry.1 = false := by
  decide +kernel

/-- A word without a meaning of its own is a question or no more than a word. -/
theorem ofWord_of_not_reserved {word : String} (hReserved : ∀ kind, (word, kind) ∉ reserved) :
    ofWord word = if isQuestionName word = true then .question else .word := by
  have hOther : ∀ entry ∈ reserved, word ≠ entry.1 := by
    rintro entry hMem rfl
    exact hReserved entry.2 hMem
  have hAnswer : Answer.ofText? word = none := by
    refine Option.eq_none_iff_forall_ne_some.2 fun answer hFound => ?_
    rw [Answer.ofText?_eq_some_iff] at hFound
    cases answer with
    | yes => exact hOther ("Y", .answer) (by simp [reserved]) hFound
    | no => exact hOther ("N", .answer) (by simp [reserved]) hFound
  have hScore : Score.ofName? word = none := by
    refine Option.eq_none_iff_forall_ne_some.2 fun score hFound => ?_
    rw [Score.ofName?_eq_some_iff] at hFound
    refine hOther (score.name, .score) ?_ hFound
    cases score <;> simp [reserved, Score.name]
  have hIf := hOther ("If", .ifWord) (by simp [reserved])
  have hLowerIf := hOther ("if", .ifWord) (by simp [reserved])
  have hThen := hOther ("then", .thenWord) (by simp [reserved])
  have hAnd := hOther ("and", .connective .and) (by simp [reserved])
  have hOr := hOther ("or", .connective .or) (by simp [reserved])
  simp [ofWord, hAnswer, hScore, hIf, hLowerIf, hThen, hAnd, hOr]

/-- The kind of a word is the one that its text fixes. -/
theorem fixedBy_ofWord {word : String} (hWord : IsWord word) : FixedBy word (ofWord word) := by
  by_cases hReserved : ∃ kind, (word, kind) ∈ reserved
  · obtain ⟨kind, hMem⟩ := hReserved
    have hKind : ofWord word = kind := ofWord_of_reserved _ hMem hWord.1
    rw [hKind]
    exact .reserved hMem
  · have hReserved : ∀ kind, (word, kind) ∉ reserved := not_exists.1 hReserved
    rw [ofWord_of_not_reserved hReserved]
    by_cases hName : isQuestionName word = true
    · rw [if_pos hName]
      obtain ⟨digits, hText, hDigits⟩ := isQuestionName_iff.1 hName
      exact .question hText hDigits
    · rw [if_neg hName]
      refine .word hWord hReserved fun digits hDigits hText => ?_
      exact hName (isQuestionName_iff.2 ⟨digits, hText, hDigits⟩)

end TokenKind

namespace Lexeme

/-- A reserved text is a lexeme of its kind. -/
theorem isWhole_of_reserved : ∀ entry ∈ TokenKind.reserved,
    split? entry.1.toList = some (⟨entry.2, entry.1.toList⟩, []) := by
  decide +kernel

theorem isWhole_ofWord {word : String} (hWord : IsWord word) :
    (Lexeme.mk (.ofWord word) word.toList).IsWhole := by
  obtain ⟨hBegins, hAlphanum⟩ := hWord
  obtain ⟨first, more, hChars, hAlpha⟩ := begins_iff.1 hBegins
  have hMore : ∀ c ∈ more, c.isAlphanum = true := fun c hMem => hAlphanum c (by simp [hChars, hMem])
  have hWord : String.ofList (first :: more) = word := by rw [← hChars, String.ofList_toList]
  simp only [IsWhole, hChars, split?, if_pos hAlpha, List.takeWhile_eq_self_iff.2 hMore,
    List.dropWhile_eq_nil_iff.2 hMore, hWord]

theorem isWhole_digits {text : String} (hDigits : IsNumeral text) :
    (Lexeme.mk .digits text.toList).IsWhole := by
  obtain ⟨first, more, hChars⟩ := List.exists_cons_of_ne_nil hDigits.toList_ne_nil
  have hFirst : first.isDigit = true := hDigits.2 first (by simp [hChars])
  have hMore : ∀ c ∈ more, c.isDigit = true := fun c hMem => hDigits.2 c (by simp [hChars, hMem])
  simp only [IsWhole, hChars, split?, isAlpha_eq_false_of_isDigit hFirst, hFirst,
    List.takeWhile_eq_self_iff.2 hMore, List.dropWhile_eq_nil_iff.2 hMore, if_true,
    Bool.false_eq_true, if_false]

theorem reserved_of_splitSign? {chars rest : List Char} {lexeme : Lexeme}
    (hSplit : splitSign? chars = some (lexeme, rest)) :
    (String.ofList lexeme.chars, lexeme.kind) ∈ TokenKind.reserved := by
  unfold splitSign? at hSplit
  split at hSplit <;> cases hSplit <;> simp [TokenKind.reserved]

/-- What is cut off a text fixes its kind. -/
theorem fixedBy_of_split? {chars rest : List Char} {lexeme : Lexeme}
    (hSplit : split? chars = some (lexeme, rest)) :
    TokenKind.FixedBy (String.ofList lexeme.chars) lexeme.kind := by
  cases chars with
  | nil => cases hSplit
  | cons first more =>
    simp only [split?] at hSplit
    split at hSplit
    · rename_i hAlpha
      cases hSplit
      refine TokenKind.fixedBy_ofWord ⟨?_, ?_⟩
      · exact begins_iff.2 ⟨first, _, String.toList_ofList, hAlpha⟩
      · rw [String.toList_ofList]
        exact List.forall_mem_cons.2 ⟨isAlphanum_of_isAlpha hAlpha, fun c => List.mem_takeWhile_imp⟩
    · split at hSplit
      · rename_i hDigit
        cases hSplit
        refine .digits ⟨?_, ?_⟩
        · rw [ne_eq, ← String.toList_inj, String.toList_ofList]
          exact List.cons_ne_nil _ _
        · rw [String.toList_ofList]
          exact List.forall_mem_cons.2 ⟨hDigit, fun c => List.mem_takeWhile_imp⟩
      · exact .reserved (reserved_of_splitSign? hSplit)

/-- The whole lexemes are the texts that fix a kind. -/
theorem isWhole_iff_fixedBy {kind : TokenKind} {text : String} :
    (Lexeme.mk kind text.toList).IsWhole ↔ TokenKind.FixedBy text kind := by
  constructor
  · intro hWhole
    simpa using fixedBy_of_split? hWhole
  · intro hFixed
    cases hFixed with
    | reserved hMem => exact isWhole_of_reserved _ hMem
    | digits hDigits => exact isWhole_digits hDigits
    | question hText hDigits =>
      have hName : isQuestionName text = true := isQuestionName_iff.2 ⟨_, hText, hDigits⟩
      have hReserved : ∀ kind, (text, kind) ∉ TokenKind.reserved := by
        intro kind hMem
        exact Bool.noConfusion (hName.symm.trans (TokenKind.isQuestionName_of_reserved _ hMem))
      have hWhole := isWhole_ofWord (hText ▸ hDigits.isWord_question)
      rwa [TokenKind.ofWord_of_not_reserved hReserved, if_pos hName] at hWhole
    | word hWord hReserved hQuestion =>
      have hName : ¬ isQuestionName text = true := by
        intro hName
        obtain ⟨digits, hText, hDigits⟩ := isQuestionName_iff.1 hName
        exact hQuestion digits hDigits hText
      have hWhole := isWhole_ofWord hWord
      rwa [TokenKind.ofWord_of_not_reserved hReserved, if_neg hName] at hWhole

-- ---------------------------------------------------------------------------
-- Where lexemes end
-- ---------------------------------------------------------------------------

theorem kind_eq_digits_iff {kind : TokenKind} {text : String}
    (hFixed : TokenKind.FixedBy text kind) :
    kind = .digits ↔ begins Char.isDigit text = true := by
  have hReserved : ∀ entry ∈ TokenKind.reserved,
      entry.2 ≠ .digits ∧ begins Char.isDigit entry.1 = false := by
    decide +kernel
  cases hFixed with
  | reserved hMem => simp [hReserved _ hMem]
  | digits hDigits =>
    obtain ⟨first, rest, hChars⟩ := List.exists_cons_of_ne_nil hDigits.toList_ne_nil
    have hBegins : begins Char.isDigit text = true :=
      begins_iff.2 ⟨first, rest, hChars, hDigits.2 first (by simp [hChars])⟩
    simp [hBegins]
  | question hText => simp [hText, begins]
  | word hWord =>
    obtain ⟨first, rest, hChars, hAlpha⟩ := begins_iff.1 hWord.1
    simp [begins, hChars, isDigit_eq_false_of_isAlpha hAlpha]

/-- Only one lexeme begins with `<`. -/
theorem eq_less_of_begins {kind : TokenKind} {text : String} (hFixed : TokenKind.FixedBy text kind)
    (hBegins : begins (· = '<') text = true) : text = "<" := by
  have hReserved : ∀ entry ∈ TokenKind.reserved, begins (· = '<') entry.1 = true →
      entry.1 = "<" := by
    decide +kernel
  obtain ⟨first, rest, hChars, hFirst⟩ := begins_iff.1 hBegins
  obtain rfl : first = '<' := of_decide_eq_true hFirst
  cases hFixed with
  | reserved hMem => exact hReserved _ hMem hBegins
  | digits hDigits => cases hDigits.2 '<' (by simp [hChars])
  | question hText => simp [hText] at hChars
  | word hWord => cases hWord.2 '<' (by simp [hChars])

/-- The characters that make a lexeme longer. -/
theorem growsWith_iff {kind : TokenKind} {text : String} (hFixed : TokenKind.FixedBy text kind)
    (c : Char) : (Lexeme.mk kind text.toList).growsWith c = true ↔
      begins Char.isAlpha text = true ∧ c.isAlphanum = true ∨ kind = .digits ∧ c.isDigit = true ∨
      text = ">" ∧ c = '=' ∨ text = "=" ∧ c = '<' := by
  have hMore : text = ">" ↔ text.toList = ['>'] := by rw [← String.toList_inj]; rfl
  have hEquals : text = "=" ↔ text.toList = ['='] := by rw [← String.toList_inj]; rfl
  rw [hMore, hEquals, kind_eq_digits_iff hFixed]
  cases hChars : text.toList with
  | nil => simp [growsWith, begins, hChars]
  | cons first more =>
    -- the first character tells letters, digits and signs apart
    by_cases hAlpha : first.isAlpha = true
    · have hDigit := isDigit_eq_false_of_isAlpha hAlpha
      have hNotMore : first ≠ '>' := by rintro rfl; cases hAlpha
      have hNotEquals : first ≠ '=' := by rintro rfl; cases hAlpha
      simp [growsWith, begins, hChars, hAlpha, hDigit, hNotMore, hNotEquals]
    · by_cases hDigit : first.isDigit = true
      · have hNotMore : first ≠ '>' := by rintro rfl; cases hDigit
        have hNotEquals : first ≠ '=' := by rintro rfl; cases hDigit
        simp [growsWith, begins, hChars, hAlpha, hDigit, hNotMore, hNotEquals]
      · simp [growsWith, begins, hChars, hAlpha, hDigit, and_or_left, and_assoc, and_left_comm]

theorem head?_dropWhile (p : Char → Bool) {chars : List Char} :
    ∀ c ∈ (chars.dropWhile p).head?, p c = false := by
  intro c hHead
  have hNot := List.head?_dropWhile_not p chars
  rw [show (chars.dropWhile p).head? = some c from hHead] at hNot
  simpa using hNot

theorem growsWith_of_splitSign? {chars rest : List Char} {lexeme : Lexeme}
    (hSplit : splitSign? chars = some (lexeme, rest)) :
    ∀ c ∈ rest.head?, lexeme.growsWith c = false := by
  intro c hHead
  unfold splitSign? at hSplit
  split at hSplit
  case h_3 hNot =>
    -- `>` alone
    cases hSplit
    have hEquals : c ≠ '=' := by
      rintro rfl
      exact (List.head?_eq_some_iff.1 hHead).elim hNot
    simp [growsWith, hEquals]
  case h_7 hNot =>
    -- `=` alone
    cases hSplit
    have hLess : c ≠ '<' := by
      rintro rfl
      exact (List.head?_eq_some_iff.1 hHead).elim hNot
    simp [growsWith, hLess]
  all_goals cases hSplit <;> simp [growsWith]

/-- What is cut off a text is as long as it can be. -/
theorem growsWith_of_split? {chars rest : List Char} {lexeme : Lexeme}
    (hSplit : split? chars = some (lexeme, rest)) :
    ∀ c ∈ rest.head?, lexeme.growsWith c = false := by
  cases chars with
  | nil => cases hSplit
  | cons first more =>
    simp only [split?] at hSplit
    split at hSplit
    · rename_i hAlpha
      cases hSplit
      simpa [growsWith, hAlpha] using head?_dropWhile Char.isAlphanum
    · split at hSplit
      · rename_i hAlpha hDigit
        cases hSplit
        simpa [growsWith, hAlpha, hDigit] using head?_dropWhile Char.isDigit
      · exact growsWith_of_splitSign? hSplit

/-- What is cut off a text is a text that fixes a kind and that is not made longer by what
follows. -/
theorem split?_eq_some_iff {kind : TokenKind} {text : String} {chars rest : List Char} :
    split? chars = some (⟨kind, text.toList⟩, rest) ↔ chars = text.toList ++ rest ∧
      TokenKind.FixedBy text kind ∧
      ∀ c ∈ rest.head?, (Lexeme.mk kind text.toList).growsWith c = false := by
  constructor
  · intro hSplit
    exact ⟨(chars_append_of_split? hSplit).symm, by simpa using fixedBy_of_split? hSplit,
      growsWith_of_split? hSplit⟩
  · rintro ⟨rfl, hFixed, hRest⟩
    exact split?_append (isWhole_iff_fixedBy.2 hFixed) hRest

end Lexeme

end ChecklistLogic
