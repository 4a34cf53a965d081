import ChecklistLogic.Proofs.CellGrammar
import ChecklistLogic.Proofs.Spacing

/-!
# ChecklistLogic — texts of single rules

A translator reads the rule that a text makes up and then asks whether it is valid. What makes up a
rule makes up none with anything behind it: the tokens of the longer text are those of the rule and
then, moved along, those of what follows. The reader has come to a complete rule on the former, so
it refuses the first one of the latter, whatever that is.

* `Rule.ofText_eq_ok_iff` — a text makes up a rule if it scans as tokens that spell the rule.
* `Translator.readRule_eq_bind` — a text that makes up no rule fails in the same way under every
  translator; otherwise only the policy of the translator matters.

Main result: `Rule.ofText_prefix_free`.
-/

namespace ChecklistLogic

-- ---------------------------------------------------------------------------
-- Reading one rule
-- ---------------------------------------------------------------------------

variable {text more : String} {rule : Rule} {t : Translator}

/-- A text that scans makes up the rule that its tokens spell, if they spell one. -/
theorem Rule.ofText_eq_ok_iff_of_scan {tokens : List Token} {stop : Nat}
    (hScan : Scan 0 text.toList tokens stop) :
    Rule.ofText text = .ok rule ↔ rule.Spelled tokens := by
  rw [Rule.ofText_of_clause (Clause.ofText_of_scan hScan), Except.mapError_eq_ok_iff,
    Rule.ofClause_eq_ok_iff]

theorem Rule.ofText_eq_ok_iff :
    Rule.ofText text = .ok rule ↔
      ∃ tokens, Scan 0 text.toList tokens text.utf8ByteSize ∧ rule.Spelled tokens := by
  constructor
  · intro hRule
    obtain ⟨tokens, hTokens, -⟩ := Except.bind_eq_ok_iff.1 hRule
    obtain ⟨body, hScan, -⟩ := Token.ofText_eq_ok_iff.1 (Except.mapError_eq_ok_iff.1 hTokens)
    exact ⟨body, hScan, (Rule.ofText_eq_ok_iff_of_scan hScan).1 hRule⟩
  · rintro ⟨tokens, hScan, hSpelled⟩
    exact (Rule.ofText_eq_ok_iff_of_scan hScan).2 hSpelled

namespace Translator

/-- A translator reads the rule of a text and then asks whether it is valid. -/
theorem readRule_eq_bind (t : Translator) (text : String) :
    t.readRule text = Rule.ofText text >>= fun rule =>
      (fun _ => rule) <$> (rule.validate t.policy).mapError LogicError.violation := by
  unfold readRule Clause.ofText Rule.ofText
  cases Token.ofText text with
  | error e => rfl
  | ok tokens =>
    show t.ruleOfClause (Clause.ofTokens tokens) = (Rule.ofTokens tokens).mapError .parse >>= _
    unfold ruleOfClause Rule.ofTokens
    cases Rule.ofClause (Clause.ofTokens tokens) with
    | error e => rfl
    | ok rule =>
      show (rule.validate t.policy).mapError LogicError.violation >>= _ = _ <$> _
      cases rule.validate t.policy <;> rfl

theorem readRule_of_error {e : LogicError} (hError : Rule.ofText text = .error e) :
    t.readRule text = .error e := by
  rw [readRule_eq_bind, hError]
  rfl

/-- What a translator reads makes up a rule that its policy has nothing against. -/
theorem readRule_eq_ok_iff_ofText :
    t.readRule text = .ok rule ↔
      Rule.ofText text = .ok rule ∧ rule.validate t.policy = .ok () := by
  rw [readRule_eq_bind, Except.bind_eq_ok_iff]
  simp only [Except.map_eq_ok_iff, Except.mapError_eq_ok_iff]
  constructor
  · rintro ⟨_, hRule, _, hValid, rfl⟩
    exact ⟨hRule, hValid⟩
  · rintro ⟨hRule, hValid⟩
    exact ⟨rule, hRule, (), hValid, rfl⟩

/-- It is invalid only if it makes up a rule that the policy has something against. -/
theorem readRule_eq_violation_iff {violation : Violation} :
    t.readRule text = .error (.violation violation) ↔
      ∃ rule, Rule.ofText text = .ok rule ∧ rule.validate t.policy = .error violation := by
  have hReading : Rule.ofText text ≠ .error (.violation violation) := by
    intro hError
    rcases Except.bind_eq_error_iff.1 hError with hLex | ⟨tokens, -, hParse⟩
    · obtain ⟨_, -, hSame⟩ := Except.mapError_eq_error_iff.1 hLex
      cases hSame
    · obtain ⟨_, -, hSame⟩ := Except.mapError_eq_error_iff.1 hParse
      cases hSame
  rw [readRule_eq_bind, Except.bind_eq_error_iff, or_iff_right hReading]
  simp only [Except.map_eq_error_iff, Except.mapError_eq_error_iff, LogicError.violation.injEq,
    exists_eq_right]

end Translator

/-- A text makes up no rule, and every translator fails on it with the same error. -/
def Rule.FailsWith (text : String) (e : LogicError) : Prop :=
  Rule.ofText text = .error e ∧ ∀ t : Translator, t.readRule text = .error e

theorem Rule.failsWith_of_ofText {e : LogicError} (hError : Rule.ofText text = .error e) :
    Rule.FailsWith text e :=
  ⟨hError, fun _ => Translator.readRule_of_error hError⟩

-- ---------------------------------------------------------------------------
-- What follows a rule
-- ---------------------------------------------------------------------------

/-- The first token behind the text of a rule is refused. -/
theorem Rule.ofText_append {token : Token} {rest : List Token} {stop : Nat}
    (hRule : Rule.ofText text = .ok rule)
    (hMore : Scan text.utf8ByteSize more.toList (token :: rest) stop)
    (hApart : ∀ c ∈ more.toList.head?, Lexeme.isApart c = true) :
    Rule.ofText (text ++ more) = .error (.parse ⟨token.position, .trailing token.text⟩) := by
  obtain ⟨tokens, hScan, hSpelled⟩ := Rule.ofText_eq_ok_iff.1 hRule
  have hWhole : Scan 0 (text ++ more).toList (tokens ++ token :: rest) stop := by
    rw [String.toList_append]
    exact hScan.append hMore hApart
  have hRead : Draft.blank.read (tokens ++ token :: rest) =
      .error ⟨token.position, .trailing token.text⟩ := by
    rw [Draft.read_append_of_read hSpelled.read, Draft.read_complete_cons]
  rw [Rule.ofText_of_clause (Clause.ofText_of_scan hWhole)]
  unfold Rule.ofClause
  rw [hRead]
  rfl

/-- A text with blanks in front of it begins apart. -/
theorem Blanks.isApart_append (blanks : Blanks) (hSome : blanks.text ≠ "") (more : String) :
    ∀ c ∈ (blanks.text ++ more).toList.head?, Lexeme.isApart c = true := by
  have hChars : blanks.text.toList ≠ [] := by
    rwa [ne_eq, String.toList_eq_nil_iff]
  obtain ⟨first, others, hFirst⟩ := List.exists_cons_of_ne_nil hChars
  rw [String.toList_append, hFirst]
  rintro c ⟨⟩
  exact Lexeme.isApart_of_isBlank (blanks.isBlank first (by simp [hFirst]))

/-- A text that has a token scans behind anything and some blanks, where that token stands as far
behind them as it stands in the text. -/
theorem Blanks.exists_scan_append {first : Token} {rest : List Token} (blanks : Blanks)
    (hMore : Token.ofText more = .ok (first :: rest)) (hKind : first.kind ≠ .endOfInput)
    (position : Nat) : ∃ later stop, Scan position (blanks.text ++ more).toList
      (first.shift (position + blanks.text.utf8ByteSize) :: later) stop := by
  obtain ⟨body, hScan, hBody⟩ := Token.ofText_eq_ok_iff.1 hMore
  cases body with
  | nil =>
    obtain ⟨rfl, -⟩ := List.cons.inj hBody
    exact absurd rfl hKind
  | cons token others =>
    obtain ⟨rfl, -⟩ := List.cons.inj hBody
    have hBytes : blanks.text.toList.length = blanks.text.utf8ByteSize := by
      rw [← byteCount_of_isBlank blanks.isBlank, byteCount_toList]
    have hMoved := hScan.shift (position + blanks.text.utf8ByteSize)
    rw [Nat.add_zero, ← hBytes, ← Scan.append_blanks_iff blanks.isBlank, hBytes,
      ← String.toList_append] at hMoved
    exact ⟨_, _, hMoved⟩

theorem Rule.semicolon_not_mem_of_ofText (hRule : Rule.ofText text = .ok rule) :
    ';' ∉ text.toList := by
  obtain ⟨tokens, hScan, hSpelled⟩ := Rule.ofText_eq_ok_iff.1 hRule
  exact hScan.not_mem_of_kind_ne Lexeme.isSign_semicolon hSpelled.kind_ne_semicolon

/-- A text with a semicolon behind that of a rule is refused there, if it has tokens at all. -/
theorem Rule.ofText_append_semicolon {tokens : List Token} (hRule : Rule.ofText text = .ok rule)
    (hTokens : Token.ofText (text ++ ";" ++ more) = .ok tokens) :
    Rule.ofText (text ++ ";" ++ more) = .error (.parse ⟨text.utf8ByteSize, .trailing ";"⟩) := by
  have hBehind : (";" ++ more).toList = ';' :: more.toList := by
    rw [String.toList_append]
    rfl
  have hApart : ∀ c ∈ (";" ++ more).toList.head?, Lexeme.isApart c = true := by
    rw [hBehind]
    rintro c ⟨⟩
    rfl
  rw [String.append_assoc] at hTokens ⊢
  obtain ⟨body, hScan, -⟩ := Token.ofText_eq_ok_iff.1 hTokens
  rw [String.toList_append] at hScan
  obtain ⟨-, after, -, -, hAfter⟩ := hScan.exists_of_append hApart
  rw [Nat.zero_add, byteCount_toList] at hAfter
  obtain ⟨later, rfl, -⟩ :=
    Scan.exists_of_sign (by rwa [hBehind] at hAfter) Lexeme.isSign_semicolon
  exact Rule.ofText_append hRule hAfter hApart

/--
**Nothing can follow a rule.** Behind a text that makes up a rule, and at least one blank, any text
with a token in it makes the reader stop at its first token, which is reported as trailing at the
place where it stands in the whole text. A text of several rules is refused at its first semicolon,
if what stands before that makes up a rule, and it does not matter whether that rule is valid.
-/
theorem Rule.ofText_prefix_free {text : String} {rule : Rule}
    (hRule : Rule.ofText text = .ok rule) :
    (∀ (blanks : Blanks) (more : String) (first : Token) (rest : List Token),
      blanks.text ≠ "" → Token.ofText more = .ok (first :: rest) → first.kind ≠ .endOfInput →
      Rule.FailsWith (text ++ blanks.text ++ more) (.parse
        ⟨text.utf8ByteSize + blanks.text.utf8ByteSize + first.position, .trailing first.text⟩)) ∧
    ∀ (back : String) (tokens : List Token), Token.ofText (text ++ ";" ++ back) = .ok tokens →
      ';' ∉ text.toList ∧ Rule.FailsWith (text ++ ";" ++ back)
        (.parse ⟨text.utf8ByteSize, .trailing ";"⟩) := by
  refine ⟨fun blanks more first rest hSome hMore hKind => ?_, fun back tokens hTokens => ?_⟩
  · obtain ⟨later, stop, hScan⟩ :=
      blanks.exists_scan_append hMore hKind text.utf8ByteSize
    refine Rule.failsWith_of_ofText ?_
    rw [String.append_assoc]
    exact Rule.ofText_append hRule hScan (blanks.isApart_append hSome more)
  · exact ⟨Rule.semicolon_not_mem_of_ofText hRule,
      Rule.failsWith_of_ofText (Rule.ofText_append_semicolon hRule hTokens)⟩

/-- A second comparison behind a whole rule, two blanks further on, and a second rule behind one
that is not valid. -/
theorem Rule.ofText_prefix_free_and_comparison :
    Rule.FailsWith "If Y = Green \tand >=3" (.parse ⟨14, .trailing "and"⟩) ∧
    Rule.FailsWith "If 5-3 = Red; If N = Green" (.parse ⟨12, .trailing ";"⟩) := by
  have hFirst : Rule.ofText "If Y = Green" =
      .ok (.scoring ⟨.common (.answer .yes), .green⟩) := by decide +kernel
  have hInverted : Rule.ofText "If 5-3 = Red" = .ok (.scoring ⟨.range ⟨5, 3⟩, .red⟩) := by
    decide +kernel
  have hMore : Token.ofText "and >=3" = .ok [⟨.connective .and, "and", 0⟩,
      ⟨.comparator .atLeast, ">=", 4⟩, ⟨.digits, "3", 6⟩, .endAt 7] := by decide +kernel
  have hTokens : Token.ofText ("If 5-3 = Red" ++ ";" ++ " If N = Green") = .ok
      [⟨.ifWord, "If", 0⟩, ⟨.digits, "5", 3⟩, ⟨.dash, "-", 4⟩, ⟨.digits, "3", 5⟩,
        ⟨.equals, "=", 7⟩, ⟨.score, "Red", 9⟩, ⟨.semicolon, ";", 12⟩, ⟨.ifWord, "If", 14⟩,
        ⟨.answer, "N", 17⟩, ⟨.equals, "=", 19⟩, ⟨.score, "Green", 21⟩, .endAt 26] := by
    decide +kernel
  let blanks : Blanks := ⟨" \t", List.all_eq_true.1 rfl⟩
  have hSome : blanks.text ≠ "" := by
    show " \t" ≠ ""
    decide
  have hAnd := (Rule.ofText_prefix_free hFirst).1 blanks _ _ _ hSome hMore (by decide)
  have hSemicolon := ((Rule.ofText_prefix_free hInverted).2 _ _ hTokens).2
  have hPlaceAnd : "If Y = Green".utf8ByteSize + blanks.text.utf8ByteSize + 0 = 14 := rfl
  have hPlaceSemicolon : "If 5-3 = Red".utf8ByteSize = 12 := rfl
  have hTextAnd : "If Y = Green" ++ blanks.text ++ "and >=3" = "If Y = Green \tand >=3" := rfl
  have hTextSemicolon : "If 5-3 = Red" ++ ";" ++ " If N = Green" =
      "If 5-3 = Red; If N = Green" := rfl
  rw [hTextAnd, hPlaceAnd] at hAnd
  rw [hTextSemicolon, hPlaceSemicolon] at hSemicolon
  exact ⟨hAnd, hSemicolon⟩

end ChecklistLogic
