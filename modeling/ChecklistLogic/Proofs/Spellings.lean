import ChecklistLogic.Proofs.Foreign
import ChecklistLogic.Proofs.RuleTexts

/-!
# ChecklistLogic — spellings

Some tokens can be written in several ways: `≥` and `≤` in two characters, `If` with a small letter,
and numbers with zeros in front of them. A text and its respelling make up the same rule, or both of
them make up none.

* **Lexemes** — a lexeme that is written in another way is of the same kind, says the same
  (`Respelling.agree`) and is made longer by the same characters (`Respelling.growsWith_eq`).
* **Scans** — not every text gives the tokens that have been put into it: `>≤` becomes `>=<`, and
  that is cut into `>=` and `<`. By induction on the scan of a text, the respelled text gives tokens
  that agree with those of the text one by one, or else both have two comparison signs side by side
  (`Respelled.exists_scan`).
* **Rules** — behind a comparison sign a rule has a number, so it never has two of these signs side
  by side, and it is the same rule with tokens that agree (`Rule.Spelled.of_agree`).

Main result: `Translator.readRule_respelled`.
-/

namespace ChecklistLogic

-- ---------------------------------------------------------------------------
-- Other ways to write a text
-- ---------------------------------------------------------------------------

/-- Digits with zeros in front of them. -/
def Numeral.padded (zeros : Nat) (digits : String) : String :=
  String.ofList (List.replicate zeros '0') ++ digits

/-- Another way to write a lexeme of a kind. -/
inductive TokenKind.Respelling : TokenKind → String → String → Prop where
  | same (kind : TokenKind) (text : String) : Respelling kind text text
  | atLeast : Respelling (.comparator .atLeast) "≥" ">="
  | atMost : Respelling (.comparator .atMost) "≤" "=<"
  | lowerIf : Respelling .ifWord "If" "if"
  | upperIf : Respelling .ifWord "if" "If"
  | digits (zeros : Nat) {digits : String} (hDigits : IsNumeral digits) :
      Respelling .digits digits (Numeral.padded zeros digits)
  | question (zeros : Nat) {digits : String} (hDigits : IsNumeral digits) :
      Respelling .question ("Q" ++ digits) ("Q" ++ Numeral.padded zeros digits)

/-- A text whose lexemes are written in other ways, each of them as it may be. What stands between
the lexemes is kept. -/
inductive Respelled : List Char → List Char → Prop where
  | nil : Respelled [] []
  | gap {c : Char} {rest others : List Char} (hGap : Lexeme.split? (c :: rest) = none)
      (hRest : Respelled rest others) : Respelled (c :: rest) (c :: others)
  | lexeme {chars rest others : List Char} {kind : TokenKind} {own other : String}
      (hSplit : Lexeme.split? chars = some (⟨kind, own.toList⟩, rest))
      (hOther : kind.Respelling own other) (hRest : Respelled rest others) :
      Respelled chars (other.toList ++ others)

-- ---------------------------------------------------------------------------
-- Numbers with zeros in front
-- ---------------------------------------------------------------------------

namespace Numeral

theorem toList_padded (zeros : Nat) (digits : String) :
    (padded zeros digits).toList = List.replicate zeros '0' ++ digits.toList := by
  simp [padded]

theorem isNumeral_padded (zeros : Nat) {digits : String} (hDigits : IsNumeral digits) :
    IsNumeral (padded zeros digits) := by
  constructor
  · rw [ne_eq, ← String.toList_eq_nil_iff, toList_padded, List.append_eq_nil_iff]
    exact fun hNil => hDigits.toList_ne_nil hNil.2
  · rw [toList_padded, List.forall_mem_append]
    refine ⟨fun c hMem => ?_, hDigits.2⟩
    rw [List.eq_of_mem_replicate hMem]
    rfl

/-- Zeros in front of a number do not change it. -/
theorem read?_padded (zeros : Nat) {digits : String} (hDigits : IsNumeral digits) :
    read? (padded zeros digits) = read? digits := by
  have hPadded := isNumeral_padded zeros hDigits
  have hValue : Nat.ofDigitChars 10 (padded zeros digits).toList 0 =
      Nat.ofDigitChars 10 digits.toList 0 := by
    rw [toList_padded, Nat.ofDigitChars_append, Nat.ofDigitChars_replicate_zero, Nat.mul_zero]
  have hRun : ∀ {text : String}, IsNumeral text →
      text.toList ≠ [] ∧ text.toList.all Char.isDigit = true := fun hText =>
    ⟨hText.toList_ne_nil, List.all_eq_true.2 hText.2⟩
  unfold read?
  rw [unsigned_of_all_isDigit hPadded.2, unsigned_of_all_isDigit hDigits.2]
  unfold ofDigits?
  rw [if_pos (hRun hPadded), if_pos (hRun hDigits), hValue]

end Numeral

-- ---------------------------------------------------------------------------
-- Respelled lexemes
-- ---------------------------------------------------------------------------

namespace Lexeme

/-- A letter makes the words longer and nothing else. -/
theorem growsWith_of_isAlpha (lexeme : Lexeme) {c : Char} (hAlpha : c.isAlpha = true) :
    lexeme.growsWith c = lexeme.chars.head?.any Char.isAlpha := by
  have hEquals : c ≠ '=' := by rintro rfl; cases hAlpha
  have hLess : c ≠ '<' := by rintro rfl; cases hAlpha
  unfold growsWith
  cases lexeme.chars with
  | nil => rfl
  | cons first more =>
    simp [isAlphanum_of_isAlpha hAlpha, isDigit_eq_false_of_isAlpha hAlpha, hEquals, hLess]

/-- A digit makes the words and the runs of digits longer and nothing else. -/
theorem growsWith_of_isDigit (lexeme : Lexeme) {c : Char} (hDigit : c.isDigit = true) :
    lexeme.growsWith c = lexeme.chars.head?.any Char.isAlphanum := by
  have hEquals : c ≠ '=' := by rintro rfl; cases hDigit
  have hLess : c ≠ '<' := by rintro rfl; cases hDigit
  unfold growsWith
  cases lexeme.chars with
  | nil => rfl
  | cons first more =>
    simp [Char.isAlphanum, hDigit, hEquals, hLess]

/-- `=` makes only `>` longer. -/
theorem growsWith_equals (lexeme : Lexeme) (hOther : lexeme.chars ≠ ['>']) :
    lexeme.growsWith '=' = false := by
  have hAlphanum : '='.isAlphanum = false := rfl
  have hDigit : '='.isDigit = false := rfl
  unfold growsWith
  cases hChars : lexeme.chars with
  | nil => rfl
  | cons first more =>
    by_cases hAlone : more = []
    · have hFirst : first ≠ '>' := by
        rintro rfl
        exact hOther (by rw [hChars, hAlone])
      simp [hAlphanum, hDigit, hFirst]
    · simp [hAlphanum, hDigit, hAlone]

theorem growsWith_of_begins {kind : TokenKind} {text : String}
    (hBegins : begins Char.isAlpha text = true) (c : Char) :
    (Lexeme.mk kind text.toList).growsWith c = c.isAlphanum := by
  obtain ⟨first, more, hChars, hAlpha⟩ := begins_iff.1 hBegins
  simp [growsWith, hChars, hAlpha]

theorem growsWith_of_isNumeral {kind : TokenKind} {text : String} (hText : IsNumeral text)
    (c : Char) : (Lexeme.mk kind text.toList).growsWith c = c.isDigit := by
  obtain ⟨first, more, hChars⟩ := List.exists_cons_of_ne_nil hText.toList_ne_nil
  have hDigit : first.isDigit = true := hText.2 first (by simp [hChars])
  simp [growsWith, hChars, hDigit, isAlpha_eq_false_of_isDigit hDigit]

end Lexeme

namespace TokenKind.Respelling

variable {kind : TokenKind} {own other : String}

theorem fixedBy (hOther : kind.Respelling own other) (hFixed : FixedBy own kind) :
    FixedBy other kind := by
  cases hOther with
  | same => exact hFixed
  | atLeast | atMost | lowerIf | upperIf => exact .reserved (by simp [reserved])
  | digits zeros hDigits => exact .digits (Numeral.isNumeral_padded zeros hDigits)
  | question zeros hDigits => exact .question rfl (Numeral.isNumeral_padded zeros hDigits)

/-- The token says the same. -/
theorem agree (hOther : kind.Respelling own other) (start position : Nat) :
    Token.Agree ⟨kind, own, start⟩ ⟨kind, other, position⟩ where
  kind := rfl
  text hKind := by
    cases hOther with
    | same => rfl
    | _ => simp at hKind
  number hKind n := by
    rw [Token.number_eq_ok_iff, Token.number_eq_ok_iff]
    cases hOther with
    | same => rfl
    | digits zeros hDigits => rw [Numeral.read?_padded zeros hDigits]
    | _ => cases hKind
  question hKind q := by
    cases hOther with
    | same => rw [Token.question_eq_ok_iff, Token.question_eq_ok_iff]
    | @question zeros digits hDigits =>
      have hPadded := Numeral.isNumeral_padded zeros hDigits
      rw [Token.question_eq_map_number rfl hDigits.1, Token.question_eq_map_number rfl hPadded.1,
        Except.map_eq_ok_iff, Except.map_eq_ok_iff]
      simp only [Token.number_eq_ok_iff, Numeral.read?_padded zeros hDigits]
    | _ => cases hKind

/-- The same characters make it longer. -/
theorem growsWith_eq (hOther : kind.Respelling own other) (c : Char) :
    (Lexeme.mk kind other.toList).growsWith c = (Lexeme.mk kind own.toList).growsWith c := by
  have hQuestion : ∀ digits, begins Char.isAlpha ("Q" ++ digits) = true := fun digits =>
    begins_iff.2 ⟨'Q', digits.toList, toList_question digits, rfl⟩
  cases hOther with
  | same => rfl
  | atLeast | atMost | lowerIf | upperIf => simp [Lexeme.growsWith]
  | digits zeros hDigits =>
    rw [Lexeme.growsWith_of_isNumeral hDigits,
      Lexeme.growsWith_of_isNumeral (Numeral.isNumeral_padded zeros hDigits)]
  | question =>
    rw [Lexeme.growsWith_of_begins (hQuestion _), Lexeme.growsWith_of_begins (hQuestion _)]

/-- Its first character does not make another lexeme longer if it did not before, with one
exception: the `=` that `≤` begins with in two characters goes on with `>`. -/
theorem growsWith_head (hOther : kind.Respelling own other) {lexeme : Lexeme}
    (hEnd : ∀ c ∈ own.toList.head?, lexeme.growsWith c = false) :
    (∀ d ∈ other.toList.head?, lexeme.growsWith d = false) ∨
      lexeme.chars = ['>'] ∧ own = "≤" ∧ other = "=<" := by
  have hIf : lexeme.growsWith 'i' = lexeme.growsWith 'I' := by
    rw [lexeme.growsWith_of_isAlpha (by decide), lexeme.growsWith_of_isAlpha (by decide)]
  cases hOther with
  | same => exact .inl hEnd
  | atLeast =>
    left
    rintro d ⟨⟩
    exact lexeme.growsWith_of_isApart rfl
  | atMost =>
    by_cases hMore : lexeme.chars = ['>']
    · exact .inr ⟨hMore, rfl, rfl⟩
    · left
      rintro d ⟨⟩
      exact lexeme.growsWith_equals hMore
  | lowerIf =>
    left
    rintro d ⟨⟩
    exact hIf.trans (hEnd 'I' rfl)
  | upperIf =>
    left
    rintro d ⟨⟩
    exact hIf.symm.trans (hEnd 'i' rfl)
  | digits zeros hDigits =>
    left
    intro d hFirst
    have hDigit : d.isDigit = true :=
      (Numeral.isNumeral_padded zeros hDigits).2 d (List.mem_of_mem_head? hFirst)
    obtain ⟨c, more, hChars⟩ := List.exists_cons_of_ne_nil hDigits.toList_ne_nil
    have hOwn : c.isDigit = true := hDigits.2 c (by simp [hChars])
    rw [lexeme.growsWith_of_isDigit hDigit, ← lexeme.growsWith_of_isDigit hOwn]
    exact hEnd c (by rw [hChars]; rfl)
  | question =>
    rw [toList_question] at hEnd ⊢
    exact .inl hEnd

end TokenKind.Respelling

-- ---------------------------------------------------------------------------
-- Respelled texts
-- ---------------------------------------------------------------------------

namespace Respelled

variable {chars others : List Char}

/-- A text may be kept as it is. -/
theorem refl (chars : List Char) : Respelled chars chars := by
  induction hLength : chars.length using Nat.strong_induction_on generalizing chars with
  | _ length ih =>
    cases chars with
    | nil => exact .nil
    | cons c rest =>
      cases hSplit : Lexeme.split? (c :: rest) with
      | none => exact .gap hSplit (ih rest.length (by simp [← hLength]) rest rfl)
      | some cut =>
        obtain ⟨⟨kind, own⟩, left⟩ := cut
        have hShorter := Lexeme.length_lt_of_split? hSplit
        have hLeft : Respelled left left := ih left.length (by omega) left rfl
        rw [← String.toList_ofList (l := own)] at hSplit
        have hSame := Respelled.lexeme hSplit (.same kind _) hLeft
        rwa [Lexeme.chars_append_of_split? hSplit] at hSame

/-- What follows a lexeme does not make it longer if it did not before, except for `>` in front of
`≤`. -/
theorem growsWith (hRespelled : Respelled chars others) {lexeme : Lexeme}
    (hEnd : ∀ c ∈ chars.head?, lexeme.growsWith c = false) :
    (∀ d ∈ others.head?, lexeme.growsWith d = false) ∨
      lexeme.chars = ['>'] ∧
        ∃ more behind, chars = '≤' :: more ∧ others = '=' :: '<' :: behind := by
  cases hRespelled with
  | nil => exact .inl hEnd
  | gap => exact .inl hEnd
  | @lexeme _ rest behind kind own other hSplit hOther hRest =>
    obtain ⟨hChars, hFixed, -⟩ := Lexeme.split?_eq_some_iff.1 hSplit
    have hOwn : own.toList ≠ [] := Lexeme.chars_ne_nil_of_split? hSplit
    have hNonempty : other.toList ≠ [] :=
      Lexeme.chars_ne_nil_of_split? (Lexeme.isWhole_iff_fixedBy.2 (hOther.fixedBy hFixed))
    rw [hChars, List.head?_append_of_ne_nil _ hOwn] at hEnd
    rw [List.head?_append_of_ne_nil _ hNonempty]
    rcases hOther.growsWith_head hEnd with hApart | ⟨hMore, rfl, rfl⟩
    · exact .inl hApart
    · exact .inr ⟨hMore, rest, behind, hChars, rfl⟩

/-- Foreign characters are kept. -/
theorem isForeign_eq_false (hRespelled : Respelled chars others)
    (hOthers : ∀ d ∈ others, Lexeme.isForeign d = false) :
    ∀ c ∈ chars, Lexeme.isForeign c = false := by
  induction hRespelled with
  | nil => exact hOthers
  | gap _ _ ih =>
    obtain ⟨hFirst, hRest⟩ := List.forall_mem_cons.1 hOthers
    exact List.forall_mem_cons.2 ⟨hFirst, ih hRest⟩
  | lexeme hSplit _ _ ih =>
    obtain ⟨rfl, hFixed, -⟩ := Lexeme.split?_eq_some_iff.1 hSplit
    exact List.forall_mem_append.2 ⟨Lexeme.isForeign_of_fixedBy hFixed,
      ih (List.forall_mem_append.1 hOthers).2⟩

end Respelled

-- ---------------------------------------------------------------------------
-- Comparison signs side by side
-- ---------------------------------------------------------------------------

/-- Two comparison signs stand side by side. -/
def Token.Clash (tokens : List Token) : Prop :=
  ∃ before first second after, tokens = before ++ first :: second :: after ∧
    first.kind.isComparator = true ∧ second.kind.isComparator = true

theorem Token.Clash.cons {tokens : List Token} (hClash : Token.Clash tokens) (token : Token) :
    Token.Clash (token :: tokens) := by
  obtain ⟨before, first, second, after, rfl, hFirst, hSecond⟩ := hClash
  exact ⟨token :: before, first, second, after, rfl, hFirst, hSecond⟩

/-- Behind a comparison sign a draft takes a number only. -/
theorem Draft.kind_of_step_of_isComparator {draft next last : Draft} {first second : Token}
    (hFirst : draft.step first = .ok next) (hComparator : first.kind.isComparator = true)
    (hSecond : next.step second = .ok last) : second.kind = .digits := by
  obtain ⟨before, sign, rfl⟩ : ∃ before sign, next = .comparator before sign := by
    cases hKind : first.kind with
    | comparator sign =>
      cases draft with
      | opened | comparisonJoined =>
        simp only [step, hKind] at hFirst
        cases hFirst
        exact ⟨_, sign, rfl⟩
      | _ => simp [step, turn, Token.refuse, hKind] at hFirst
    | _ =>
      rw [hKind] at hComparator
      cases hComparator
  cases hKind : second.kind with
  | digits => rfl
  | _ => simp [step, Token.refuse, hKind] at hSecond

/-- In a rule there is a number behind a comparison sign. -/
theorem Rule.Spelled.not_clash {rule : Rule} {tokens : List Token}
    (hSpelled : rule.Spelled tokens) : ¬ Token.Clash tokens := by
  rintro ⟨before, first, second, after, rfl, hFirst, hSecond⟩
  have hRead := hSpelled.read
  rw [Draft.read_append] at hRead
  obtain ⟨draft, -, hRest⟩ := Except.bind_eq_ok_iff.1 hRead
  obtain ⟨next, hStep, hNext⟩ := Except.bind_eq_ok_iff.1 hRest
  obtain ⟨last, hLast, -⟩ := Except.bind_eq_ok_iff.1 hNext
  rw [Draft.kind_of_step_of_isComparator hStep hFirst hLast] at hSecond
  cases hSecond

-- ---------------------------------------------------------------------------
-- Respelled scans
-- ---------------------------------------------------------------------------

theorem TokenKind.FixedBy.eq_moreThan {kind : TokenKind} {text : String}
    (hFixed : FixedBy text kind) (hText : text.toList = ['>']) : kind = .comparator .moreThan := by
  have hWhole := Lexeme.isWhole_iff_fixedBy.2 hFixed
  rw [hText] at hWhole
  cases hWhole
  rfl

/-- `>` and `≤` side by side are cut in another way once `≤` is written in two characters. -/
theorem Scan.exists_clash {start last : Nat} {behind : List Char} {found : List Token}
    (hScan : Scan (start + 1) ('=' :: '<' :: behind) found last) :
    ∃ others, Scan start ('>' :: '=' :: '<' :: behind) others last ∧ Token.Clash others := by
  have hSplit : Lexeme.split? ('=' :: '<' :: behind) =
      some (⟨.comparator .atMost, ['=', '<']⟩, behind) := rfl
  have hFirst : Lexeme.split? ('>' :: '=' :: '<' :: behind) =
      some (⟨.comparator .atLeast, ['>', '=']⟩, '<' :: behind) := rfl
  have hSecond : Lexeme.split? ('<' :: behind) =
      some (⟨.comparator .lessThan, ['<']⟩, behind) := rfl
  obtain ⟨later, -, hLater⟩ := hScan.exists_of_split? hSplit
  have hSame : start + 1 + byteCount ['=', '<'] =
      start + byteCount ['>', '='] + byteCount ['<'] := by
    show start + 1 + 2 = start + 2 + 1
    omega
  rw [Lexeme.stop_token, hSame] at hLater
  exact ⟨_, .lexeme hFirst (.lexeme hSecond hLater), [], _, _, later, rfl, rfl, rfl⟩

namespace Respelled

variable {chars others : List Char} {position stop : Nat} {tokens : List Token}

/-- A respelled text gives tokens that agree with those of the text, or both clash. -/
theorem exists_scan (hScan : Scan position chars tokens stop) (hRespelled : Respelled chars others)
    (start : Nat) : ∃ found last, Scan start others found last ∧
      (List.Forall₂ Token.Agree tokens found ∨ Token.Clash tokens ∧ Token.Clash found) := by
  induction hScan generalizing others start with
  | nil =>
    cases hRespelled with
    | nil => exact ⟨[], start, .nil start, .inl .nil⟩
    | lexeme hSplit => cases hSplit
  | blank hBlank _ ih =>
    cases hRespelled with
    | gap _ hRest =>
      obtain ⟨found, last, hFound, hCases⟩ := ih hRest (start + 1)
      exact ⟨found, last, .blank hBlank hFound, hCases⟩
    | lexeme hSplit =>
      rw [Lexeme.split?_of_isBlank hBlank] at hSplit
      cases hSplit
  | @lexeme position _ chars rest lexeme tokens hSplit hTokens ih =>
    cases hRespelled with
    | nil => cases hSplit
    | gap hGap =>
      rw [hGap] at hSplit
      cases hSplit
    | @lexeme _ _ behind kind own other hOwn hOther hRest =>
      rw [hSplit] at hOwn
      cases hOwn
      obtain ⟨-, hFixed, hEnd⟩ := Lexeme.split?_eq_some_iff.1 hSplit
      have hFixedOther := hOther.fixedBy hFixed
      have hEndOther : ∀ c ∈ rest.head?, (Lexeme.mk kind other.toList).growsWith c = false := by
        intro c hHead
        rw [hOther.growsWith_eq]
        exact hEnd c hHead
      rcases hRest.growsWith hEndOther with hApart | ⟨hMore, more, after, rfl, rfl⟩
      · have hSplitOther := Lexeme.split?_eq_some_iff.2 ⟨rfl, hFixedOther, hApart⟩
        obtain ⟨found, last, hFound, hCases⟩ :=
          ih hRest ((Lexeme.mk kind other.toList).token start).stop
        refine ⟨_, last, .lexeme hSplitOther hFound, ?_⟩
        rcases hCases with hAgree | ⟨hClash, hClashFound⟩
        · left
          refine .cons ?_ hAgree
          simpa [Lexeme.token] using hOther.agree position start
        · exact .inr ⟨hClash.cons _, hClashFound.cons _⟩
      · -- the sign that has been put in is taken apart
        obtain ⟨found, last, hFound, -⟩ := ih hRest (start + 1)
        obtain ⟨others, hOthers, hClash⟩ := hFound.exists_clash
        have hAtMost : Lexeme.split? ('≤' :: more) =
            some (⟨.comparator .atMost, ['≤']⟩, more) := rfl
        obtain ⟨later, rfl, -⟩ := hTokens.exists_of_split? hAtMost
        have hText : other.toList = ['>'] := hMore
        have hKind := hFixedOther.eq_moreThan hText
        rw [hText]
        refine ⟨others, last, hOthers, .inr ⟨⟨[], _, _, later, rfl, ?_, rfl⟩, hClash⟩⟩
        rw [Lexeme.token, hKind]
        rfl

/-- So the tokens spell the same rules. -/
theorem exists_spelled (hRespelled : Respelled chars others)
    (hScan : Scan position chars tokens stop) (start : Nat) : ∃ found last,
      Scan start others found last ∧ ∀ rule : Rule, rule.Spelled tokens ↔ rule.Spelled found := by
  obtain ⟨found, last, hFound, hCases⟩ := hRespelled.exists_scan hScan start
  refine ⟨found, last, hFound, fun rule => ?_⟩
  rcases hCases with hAgree | ⟨hClash, hClashFound⟩
  · have hBack : List.Forall₂ Token.Agree found tokens := hAgree.flip.imp fun _ _ => .symm
    exact ⟨Rule.Spelled.of_agree hAgree, Rule.Spelled.of_agree hBack⟩
  · exact iff_of_false (fun hSpelled => hSpelled.not_clash hClash)
      fun hSpelled => hSpelled.not_clash hClashFound

end Respelled

-- ---------------------------------------------------------------------------
-- Respelled rules
-- ---------------------------------------------------------------------------

/-- A text and its respelling make up the same rules. -/
theorem Rule.ofText_respelled {text other : String} {rule : Rule}
    (hRespelled : Respelled text.toList other.toList) :
    Rule.ofText text = .ok rule ↔ Rule.ofText other = .ok rule := by
  rcases Scan.exists_or_isForeign 0 text.toList with
    ⟨tokens, hScan⟩ | ⟨front, c, rest, -, hText, hForeign, -⟩
  · obtain ⟨found, last, hFound, hSpelled⟩ := hRespelled.exists_spelled hScan 0
    rw [Rule.ofText_eq_ok_iff_of_scan hScan, Rule.ofText_eq_ok_iff_of_scan hFound, hSpelled]
  · -- neither text makes up a rule, since the foreign character is in both
    have hMem : c ∈ text.toList := by simp [hText]
    have hNone : ∀ {own : String}, Rule.ofText own = .ok rule →
        ∀ d ∈ own.toList, Lexeme.isForeign d = false := by
      intro own hRule
      obtain ⟨_, hScan, -⟩ := Rule.ofText_eq_ok_iff.1 hRule
      exact hScan.isForeign_eq_false
    constructor
    · intro hRule
      exact Bool.noConfusion (hForeign.symm.trans (hNone hRule c hMem))
    · intro hRule
      have hOwn := hRespelled.isForeign_eq_false (hNone hRule) c hMem
      exact Bool.noConfusion (hForeign.symm.trans hOwn)

/--
**Spelling does not change a rule.** Let `≥` and `≤` be written in two characters, `If` with a small
letter or a capital one, and numbers and questions with any zeros in front of their digits, each
wherever one likes in any text. A translator reads a rule from the text if and only if it reads that
rule from the respelled text, with the same expressions, and it finds fault with the one as with the
other.
-/
theorem Translator.readRule_respelled {text other : String}
    (hRespelled : Respelled text.toList other.toList) (t : Translator) :
    (∀ rule, t.readRule text = .ok rule ↔ t.readRule other = .ok rule) ∧
    (∀ violation, t.readRule text = .error (.violation violation) ↔
      t.readRule other = .error (.violation violation)) ∧
    ∀ first second, t.readRule text = .ok first → t.readRule other = .ok second →
      ∀ fieldName, first.expression t.options fieldName = second.expression t.options fieldName ∧
        first.condition t.options fieldName = second.condition t.options fieldName := by
  have hRules : ∀ rule, t.readRule text = .ok rule ↔ t.readRule other = .ok rule := by
    intro rule
    rw [readRule_eq_ok_iff_ofText, readRule_eq_ok_iff_ofText, Rule.ofText_respelled hRespelled]
  refine ⟨hRules, fun violation => ?_, fun first second hFirst hSecond fieldName => ?_⟩
  · simp only [readRule_eq_violation_iff, Rule.ofText_respelled hRespelled]
  · rw [hRules, hSecond] at hFirst
    cases hFirst
    exact ⟨rfl, rfl⟩

/-- A comparison and a range in other spellings. The range is not valid, and stays so. -/
theorem Translator.readRule_respelled_at_most_and_range :
    readRule {} "if =<05 = Red" =
      .ok (.scoring ⟨.common (.comparison (.atom ⟨.atMost, 5, false⟩)), .red⟩) ∧
    readRule {} "if 5-003 = Red" = .error (.violation (.invertedRange 5 3)) := by
  have hFive : IsNumeral "5" := ⟨by decide, List.all_eq_true.1 rfl⟩
  have hThree : IsNumeral "3" := ⟨by decide, List.all_eq_true.1 rfl⟩
  have hAtMost : Respelled "If ≤5 = Red".toList "if =<05 = Red".toList :=
    .lexeme rfl .lowerIf (.gap rfl (.lexeme rfl .atMost
      (.lexeme rfl (.digits 1 hFive) (.refl " = Red".toList))))
  have hRange : Respelled "If 5-3 = Red".toList "if 5-003 = Red".toList :=
    .lexeme rfl .lowerIf (.gap rfl (.lexeme rfl (.same .digits "5") (.lexeme rfl (.same .dash "-")
      (.lexeme rfl (.digits 2 hThree) (.refl " = Red".toList)))))
  have hRule : readRule {} "If ≤5 = Red" =
      .ok (.scoring ⟨.common (.comparison (.atom ⟨.atMost, 5, false⟩)), .red⟩) := by
    decide +kernel
  have hInverted : readRule {} "If 5-3 = Red" = .error (.violation (.invertedRange 5 3)) := by
    decide +kernel
  exact ⟨((readRule_respelled hAtMost {}).1 _).1 hRule,
    ((readRule_respelled hRange {}).2.1 _).1 hInverted⟩

end ChecklistLogic
