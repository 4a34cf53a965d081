import ChecklistLogic.Proofs.Families
import ChecklistLogic.Proofs.Offsets
import ChecklistLogic.ScoringLogic

/-!
# ChecklistLogic — the sentences of a cell

A cell of scoring rules is read from the tokens of its whole text, which are cut at the semicolons.
The same comes out if the text is cut at its semicolons first and every sentence is read as a text
of its own, with the offset of the sentence added to whatever is reported.

The two ways meet in three steps:

* **Cutting** — a semicolon stands apart, so the tokens between two semicolons are those of the
  characters between them, and a piece ends where its sentence does (`Scan.pieces`).
* **Moving** — a piece is read as the sentence alone is, errors moved along
  (`Sentence.exists_clause`).
* **Refusing** — a skip rule is refused at the comma of its sentence, since commas stand apart as
  well (`SkipRule.exists_refusal`).

Main result: `ScoringLogic.ofText_sentence_by_sentence`.
-/

namespace ChecklistLogic

-- ---------------------------------------------------------------------------
-- Sentences
-- ---------------------------------------------------------------------------

/-- What stands between two semicolons of a text, and the number of bytes before it. -/
structure Sentence where
  offset : Nat
  text : String
  deriving DecidableEq

/-- Sentences one behind the other, with one byte for the semicolon between them. -/
def sentencesFrom (offset : Nat) : List (List Char) → List Sentence
  | [] => []
  | chars :: rest =>
    ⟨offset, String.ofList chars⟩ :: sentencesFrom (offset + byteCount chars + 1) rest

/-- The sentences of a text. -/
def sentences (text : String) : List Sentence :=
  sentencesFrom 0 (text.toList.splitOn ';')

/-- Reads a text that by itself makes up a rule, valid or not. -/
def Rule.ofText (text : String) : Except LogicError Rule := do
  let tokens ← (Token.ofText text).mapError .lex
  (Rule.ofTokens tokens).mapError .parse

/-- What a sentence alone comes to under a policy, with the offsets of the whole text. -/
inductive Sentence.Yields (policy : Policy) (sentence : Sentence) :
    Except LogicError ScoringRule → Prop where
  /-- It makes up a scoring rule, which is valid. -/
  | rule {rule : ScoringRule} (hRead : Rule.ofText sentence.text = .ok (.scoring rule))
      (hValid : (Rule.scoring rule).validate policy = .ok ()) : Yields policy sentence (.ok rule)
  /-- It makes up a scoring rule, which is not valid. -/
  | invalid {rule : ScoringRule} {violation : Violation}
      (hRead : Rule.ofText sentence.text = .ok (.scoring rule))
      (hInvalid : (Rule.scoring rule).validate policy = .error violation) :
      Yields policy sentence (.error (.violation violation))
  /-- It makes up a skip rule, valid or not, which is refused at its first comma. -/
  | skip {rule : SkipRule} {front back : String}
      (hRead : Rule.ofText sentence.text = .ok (.skip rule))
      (hComma : sentence.text = front ++ "," ++ back) (hFirst : ',' ∉ front.toList) :
      Yields policy sentence
        (.error (.parse ⟨sentence.offset + front.utf8ByteSize, .unexpected [.equals] ","⟩))
  /-- It makes up no rule. -/
  | unread {position : Nat} {fault : ParseFault}
      (hRead : Rule.ofText sentence.text = .error (.parse ⟨position, fault⟩)) :
      Yields policy sentence (.error (.parse ⟨sentence.offset + position, fault⟩))
  /-- It has a foreign character. -/
  | foreign {position : Nat} {character : Char}
      (hRead : Rule.ofText sentence.text = .error (.lex ⟨position, character⟩)) :
      Yields policy sentence (.error (.lex ⟨sentence.offset + position, character⟩))

-- ---------------------------------------------------------------------------
-- Cutting
-- ---------------------------------------------------------------------------

/-- A list has no item with a property, or it has a first one with a list behind it. -/
@[elab_as_elim]
theorem firstInduction {α : Type} {p : α → Prop} [DecidablePred p] {motive : List α → Prop}
    (last : ∀ items, (∀ item ∈ items, ¬p item) → motive items)
    (cut : ∀ front item rest, (∀ earlier ∈ front, ¬p earlier) → p item → motive rest →
      motive (front ++ item :: rest))
    (items : List α) : motive items := by
  -- the items in front that have been passed over so far
  suffices hFrom : ∀ front : List α, (∀ earlier ∈ front, ¬p earlier) → motive (front ++ items) from
    hFrom [] (by simp)
  induction items with
  | nil =>
    intro front hFront
    rw [List.append_nil]
    exact last front hFront
  | cons item rest ih =>
    intro front hFront
    by_cases hItem : p item
    · exact cut front item rest hFront hItem (ih [] (by simp))
    · rw [List.append_cons]
      refine ih (front ++ [item]) fun earlier hMem => ?_
      rcases List.mem_append.1 hMem with hEarlier | hSame
      · exact hFront earlier hEarlier
      · rwa [List.mem_singleton.1 hSame]

/-- A text has no semicolon, or it has a first one with a text behind it. -/
@[elab_as_elim]
theorem semicolonInduction {motive : List Char → Prop}
    (last : ∀ chars, ';' ∉ chars → motive chars)
    (cut : ∀ front rest, ';' ∉ front → motive rest → motive (front ++ ';' :: rest))
    (chars : List Char) : motive chars := by
  induction chars using firstInduction (p := (· = ';')) with
  | last chars hNone => exact last chars fun hMem => hNone ';' hMem rfl
  | cut front c rest hFront hSemicolon ih =>
    subst hSemicolon
    exact cut front rest (fun hMem => hFront ';' hMem rfl) ih

theorem semicolon_not_mem_of_mem_sentencesFrom {offset : Nat} {chars : List Char}
    {sentence : Sentence} (hMem : sentence ∈ sentencesFrom offset (chars.splitOn ';')) :
    ';' ∉ sentence.text.toList := by
  induction chars using semicolonInduction generalizing offset with
  | last chars hNone =>
    rw [List.splitOn_eq_singleton hNone] at hMem
    obtain rfl := List.mem_singleton.1 hMem
    rwa [String.toList_ofList]
  | cut front rest hFront ih =>
    rw [List.splitOn_append_cons_self_of_not_mem hFront] at hMem
    rcases List.mem_cons.1 hMem with rfl | hRest
    · rwa [String.toList_ofList]
    · exact ih hRest

/-- A sentence has before it the sentences before it, each with its semicolon. -/
theorem offset_of_sentencesFrom {offset : Nat} {parts : List (List Char)}
    {before after : List Sentence} {sentence : Sentence}
    (hSentences : sentencesFrom offset parts = before ++ sentence :: after) :
    sentence.offset =
      offset + (String.join (before.map fun earlier => earlier.text ++ ";")).utf8ByteSize := by
  induction parts generalizing offset before with
  | nil => simp [sentencesFrom] at hSentences
  | cons chars rest ih =>
    cases before with
    | nil =>
      obtain ⟨rfl, -⟩ := List.cons.inj hSentences
      simp
    | cons first others =>
      obtain ⟨rfl, hRest⟩ := List.cons.inj hSentences
      have hSemicolon : ";".utf8ByteSize = 1 := rfl
      rw [ih hRest]
      simp [byteCount, hSemicolon, Nat.add_assoc]

theorem map_text_sentencesFrom (offset : Nat) (parts : List (List Char)) :
    (sentencesFrom offset parts).map Sentence.text = parts.map String.ofList := by
  induction parts generalizing offset with
  | nil => rfl
  | cons chars rest ih => rw [sentencesFrom, List.map_cons, List.map_cons, ih]

/-- The sentences with semicolons between them make up the text. -/
theorem intercalate_sentences (text : String) :
    String.intercalate ";" ((sentences text).map Sentence.text) = text := by
  unfold sentences
  rw [map_text_sentencesFrom, ← String.toList_inj, String.toList_intercalate, List.map_map]
  have hParts : (text.toList.splitOn ';').map (String.toList ∘ String.ofList) =
      text.toList.splitOn ';' := by
    simp
  rw [hParts]
  exact List.intercalate_splitOn ';'

theorem Clause.pieces_append_semicolon {stop : Nat} {before after : List Token} {token : Token}
    (hBefore : ∀ earlier ∈ before, earlier.kind ≠ .semicolon) (hKind : token.kind = .semicolon) :
    pieces ⟨before ++ token :: after, stop⟩ = ⟨before, token.position⟩ :: pieces ⟨after, stop⟩ := by
  induction before with
  | nil => simp [pieces, cut, hKind]
  | cons first rest ih =>
    have hFirst : first.kind ≠ .semicolon := hBefore first (by simp)
    have hRest := ih fun earlier hMem => hBefore earlier (by simp [hMem])
    unfold pieces at hRest ⊢
    rw [List.cons_append]
    simp only [cut, hFirst, if_false]
    obtain ⟨hHead, hTail⟩ := List.cons.inj hRest
    rw [hHead, hTail]
    rfl

/-- A character that stands apart and is a token of a kind of its own. -/
structure Lexeme.IsSign (c : Char) (kind : TokenKind) : Prop where
  apart : isApart c = true
  spelling : ∀ text, kind.IsSpelling text → text = [c]
  split : ∀ rest, split? (c :: rest) = some (⟨kind, [c]⟩, rest)

theorem Lexeme.isSign_semicolon : IsSign ';' .semicolon :=
  ⟨by decide, fun _ => id, fun _ => rfl⟩

theorem Lexeme.isSign_comma : IsSign ',' .comma :=
  ⟨by decide, fun _ => id, fun _ => rfl⟩

namespace Scan

variable {position stop : Nat} {chars front rest : List Char} {tokens : List Token}
  {c : Char} {kind : TokenKind}

/-- Without its character, a text has no token of a kind that is spelled by one character. -/
theorem kind_ne_of_not_mem (hScan : Scan position chars tokens stop)
    (hSign : Lexeme.IsSign c kind) (hNone : c ∉ chars) : ∀ token ∈ tokens, token.kind ≠ kind := by
  rintro token hMem rfl
  obtain ⟨hText, before, after, rfl, -⟩ := hScan.exists_of_mem hMem
  rw [hSign.spelling _ hText] at hNone
  simp at hNone

/-- A sign of one character that begins a text is its first token. -/
theorem exists_of_sign (hScan : Scan position (c :: rest) tokens stop)
    (hSign : Lexeme.IsSign c kind) :
    ∃ later, tokens = ⟨kind, String.ofList [c], position⟩ :: later ∧
      Scan (position + byteCount [c]) rest later stop := by
  obtain ⟨later, rfl, hLater⟩ := hScan.exists_of_split? (hSign.split rest)
  exact ⟨later, rfl, hLater⟩

/-- A text may be cut at a sign: the tokens in front of it are those of the text in front of it, and
so are those behind it. -/
theorem exists_of_append_sign (hScan : Scan position (front ++ c :: rest) tokens stop)
    (hSign : Lexeme.IsSign c kind) : ∃ before later,
      tokens = before ++ ⟨kind, String.ofList [c], position + byteCount front⟩ :: later ∧
      Scan position front before (position + byteCount front) ∧
      Scan (position + byteCount front + byteCount [c]) rest later stop := by
  have hHead : ∀ d ∈ (c :: rest).head?, Lexeme.isApart d = true := by
    rintro d ⟨⟩
    exact hSign.apart
  obtain ⟨before, after, rfl, hBefore, hAfter⟩ := hScan.exists_of_append hHead
  obtain ⟨later, rfl, hLater⟩ := hAfter.exists_of_sign hSign
  exact ⟨before, later, rfl, hBefore, hLater⟩

/-- A text none of whose tokens is a sign does not have its character. -/
theorem not_mem_of_kind_ne (hScan : Scan position chars tokens stop)
    (hSign : Lexeme.IsSign c kind) (hKinds : ∀ token ∈ tokens, token.kind ≠ kind) : c ∉ chars := by
  intro hMem
  obtain ⟨front, rest, rfl⟩ := List.append_of_mem hMem
  obtain ⟨before, later, rfl, -⟩ := hScan.exists_of_append_sign hSign
  exact hKinds _ (List.mem_append_right before List.mem_cons_self) rfl

/-- The pieces of a clause are the scans of the sentences, each of them at its offset. -/
theorem pieces (hScan : Scan position chars tokens stop) :
    List.Forall₂
      (fun sentence piece =>
        Scan sentence.offset sentence.text.toList piece.tokens piece.stop)
      (sentencesFrom position (chars.splitOn ';')) (Clause.pieces ⟨tokens, stop⟩) := by
  induction chars using semicolonInduction generalizing position tokens with
  | last chars hNone =>
    rw [List.splitOn_eq_singleton hNone,
      Clause.pieces_of_no_semicolon (hScan.kind_ne_of_not_mem Lexeme.isSign_semicolon hNone)]
    refine .cons ?_ .nil
    rw [String.toList_ofList]
    exact hScan
  | cut front rest hFront ih =>
    obtain ⟨before, later, rfl, hBefore, hLater⟩ :=
      hScan.exists_of_append_sign Lexeme.isSign_semicolon
    have hKinds := hBefore.kind_ne_of_not_mem Lexeme.isSign_semicolon hFront
    rw [List.splitOn_append_cons_self_of_not_mem hFront,
      Clause.pieces_append_semicolon hKinds rfl]
    refine .cons ?_ (ih hLater)
    rw [String.toList_ofList]
    exact hBefore

end Scan

-- ---------------------------------------------------------------------------
-- Moving
-- ---------------------------------------------------------------------------

theorem Clause.ofText_of_tokens {text : String} {tokens : List Token}
    (hTokens : Token.ofText text = .ok tokens) :
    Clause.ofText text = .ok (Clause.ofTokens tokens) := by
  unfold Clause.ofText
  rw [hTokens]
  rfl

theorem Rule.ofText_of_clause {text : String} {clause : Clause}
    (hClause : Clause.ofText text = .ok clause) :
    Rule.ofText text = (Rule.ofClause clause).mapError .parse := by
  obtain ⟨tokens, hTokens, rfl⟩ := Except.map_eq_ok_iff.1 hClause
  unfold Rule.ofText
  rw [hTokens]
  rfl

/-- A clause that makes up a skip rule is refused at the only comma of its text. -/
theorem SkipRule.exists_refusal {rule : SkipRule} {text : String} {clause : Clause}
    (hClause : Clause.ofText text = .ok clause) (hRule : Rule.ofClause clause = .ok (.skip rule))
    (expected : List TokenKind) : ∃ front back : String, text = front ++ "," ++ back ∧
      ',' ∉ front.toList ∧ ',' ∉ back.toList ∧
      (clause.dropTo .comma).refusal expected = ⟨front.utf8ByteSize, .unexpected expected ","⟩ := by
  have hScan := Clause.ofText_eq_ok_iff.1 hClause
  obtain ⟨comma, hSole, hKind⟩ := (Rule.ofClause_eq_ok_iff.1 hRule).exists_sole
  have hRefusal := hSole.refusal_dropTo expected
  have hComma : ',' ∈ text.toList := by
    by_contra hNone
    exact hScan.kind_ne_of_not_mem Lexeme.isSign_comma hNone comma hSole.mem hKind
  obtain ⟨front, back, hText⟩ := List.append_of_mem hComma
  rw [hText] at hScan
  obtain ⟨before, later, hTokens, hBefore, hLater⟩ :=
    hScan.exists_of_append_sign Lexeme.isSign_comma
  rw [hTokens] at hSole
  obtain ⟨rfl, hEarlier, hAfter⟩ := hSole.split hKind.symm
  refine ⟨String.ofList front, String.ofList back, ?_, ?_, ?_, ?_⟩
  · rw [← String.toList_inj, hText]
    simp
  · rw [String.toList_ofList]
    exact hBefore.not_mem_of_kind_ne Lexeme.isSign_comma hEarlier
  · rw [String.toList_ofList]
    exact hLater.not_mem_of_kind_ne Lexeme.isSign_comma hAfter
  · rw [Nat.zero_add] at hRefusal
    exact hRefusal

namespace Sentence

/-- Reads a sentence by itself and moves what is reported to its offset. -/
def read (policy : Policy) (sentence : Sentence) : Except LogicError ScoringRule :=
  match Clause.ofText sentence.text with
  | .error e => .error (.lex ⟨sentence.offset + e.position, e.character⟩)
  | .ok clause => ScoringRule.ofClause policy (clause.shift sentence.offset)

variable {policy : Policy} {sentence : Sentence}

theorem yields_read_of_clause {clause : Clause}
    (hClause : Clause.ofText sentence.text = .ok clause) :
    sentence.Yields policy (ScoringRule.ofClause policy (clause.shift sentence.offset)) := by
  have hText := Rule.ofText_of_clause hClause
  unfold ScoringRule.ofClause
  rw [Rule.ofClause_shift]
  cases hRule : Rule.ofClause clause with
  | error e =>
    rw [hRule] at hText
    exact .unread hText
  | ok rule =>
    rw [hRule] at hText
    cases rule with
    | scoring rule =>
      cases hViolation : rule.condition.violation? policy with
      | none =>
        simp only [Except.mapError, hViolation]
        exact .rule hText (Rule.validate_eq_ok_iff.2 hViolation)
      | some violation =>
        simp only [Except.mapError, hViolation]
        exact .invalid hText (Rule.validate_eq_error_iff.2 hViolation)
    | skip rule =>
      obtain ⟨front, back, hComma, hFirst, -, hRefusal⟩ :=
        SkipRule.exists_refusal hClause hRule [.equals]
      show sentence.Yields policy (.error (.parse _))
      rw [Clause.refusal_dropTo_shift, hRefusal]
      exact .skip hText hComma hFirst

theorem yields_read (policy : Policy) (sentence : Sentence) :
    sentence.Yields policy (sentence.read policy) := by
  unfold read
  cases hClause : Clause.ofText sentence.text with
  | ok clause => exact yields_read_of_clause hClause
  | error e =>
    have hText : Rule.ofText sentence.text = .error (.lex e) := by
      unfold Clause.ofText at hClause
      unfold Rule.ofText
      cases hTokens : Token.ofText sentence.text with
      | ok tokens =>
        rw [hTokens] at hClause
        cases hClause
      | error other =>
        rw [hTokens] at hClause
        cases hClause
        rfl
    exact .foreign hText

theorem front_unique {text front back other rest : String} (hText : text = front ++ "," ++ back)
    (hFront : ',' ∉ front.toList) (hAgain : text = other ++ "," ++ rest)
    (hOther : ',' ∉ other.toList) : front = other := by
  have hTake : ∀ {before after : String}, text = before ++ "," ++ after → ',' ∉ before.toList →
      text.toList.takeWhile (· != ',') = before.toList := by
    rintro before after rfl hNone
    have hRun : ∀ c ∈ before.toList, (c != ',') = true := by
      rintro c hMem
      rw [bne_iff_ne]
      rintro rfl
      exact hNone hMem
    have hStop : ∀ c ∈ (',' :: after.toList).head?, (c != ',') = false := by
      rintro c ⟨⟩
      rfl
    have hChars : (before ++ "," ++ after).toList = before.toList ++ ',' :: after.toList := by simp
    rw [hChars, (Lexeme.takeWhile_dropWhile_append _ hStop).1]
    exact List.takeWhile_eq_self_iff.2 hRun
  rw [← String.toList_inj, ← hTake hText hFront, hTake hAgain hOther]

/-- A sentence comes to one thing only. -/
theorem Yields.unique {first second : Except LogicError ScoringRule}
    (hFirst : sentence.Yields policy first) (hSecond : sentence.Yields policy second) :
    first = second := by
  cases hFirst with
  | rule => cases hSecond <;> simp_all
  | invalid => cases hSecond <;> simp_all
  | unread => cases hSecond <;> simp_all
  | foreign => cases hSecond <;> simp_all
  | skip hRead hComma hFront =>
    cases hSecond with
    | skip _ hAgain hOther => rw [front_unique hComma hFront hAgain hOther]
    | _ => simp_all

theorem read_eq_iff {result : Except LogicError ScoringRule} :
    sentence.read policy = result ↔ sentence.Yields policy result := by
  constructor
  · rintro rfl
    exact yields_read policy sentence
  · exact (yields_read policy sentence).unique

end Sentence

-- ---------------------------------------------------------------------------
-- Whole cells
-- ---------------------------------------------------------------------------

namespace ScoringLogic

variable {policy : Policy} {text : String}

/-- The sentences of a text without foreign characters scan as its pieces do. -/
theorem scan_sentences {clause : Clause} (hClause : Clause.ofText text = .ok clause) :
    List.Forall₂
      (fun sentence piece => Scan sentence.offset sentence.text.toList piece.tokens piece.stop)
      (sentences text) clause.pieces :=
  (Clause.ofText_eq_ok_iff.1 hClause).pieces

/-- A cell is read sentence by sentence. -/
theorem ofText_eq_mapM {tokens : List Token} (hTokens : Token.ofText text = .ok tokens) :
    ofText policy text = ScoringLogic.mk <$> (sentences text).mapM (Sentence.read policy) := by
  have hClause := Clause.ofText_of_tokens hTokens
  have hSame : List.Forall₂
      (fun sentence piece => sentence.read policy = ScoringRule.ofClause policy piece)
      (sentences text) (Clause.ofTokens tokens).pieces := by
    refine (scan_sentences hClause).imp fun sentence piece hScan => ?_
    obtain ⟨alone, hAlone, hPiece⟩ := hScan.exists_clause
    unfold Sentence.read
    rw [hAlone]
    show ScoringRule.ofClause policy (alone.shift sentence.offset) = _
    rw [hPiece]
  unfold ofText
  rw [hClause, Except.mapM_congr hSame]
  rfl

theorem exists_tokens_of_mem_sentences {tokens : List Token}
    (hTokens : Token.ofText text = .ok tokens) :
    ∀ sentence ∈ sentences text, ∃ own, Token.ofText sentence.text = .ok own := by
  have hOwn : List.Forall₂
      (fun sentence _ => (∃ own, Token.ofText sentence.text = .ok own) ∧ True)
      (sentences text) (Clause.ofTokens tokens).pieces := by
    refine (scan_sentences (Clause.ofText_of_tokens hTokens)).imp fun sentence piece hScan => ?_
    obtain ⟨alone, hAlone, -⟩ := hScan.exists_clause
    obtain ⟨own, hOwn, -⟩ := Except.map_eq_ok_iff.1 hAlone
    exact ⟨⟨own, hOwn⟩, trivial⟩
  exact ((List.forall₂_and_left _ _).1 hOwn).1

theorem ofText_of_error {e : LexError} (hTokens : Token.ofText text = .error e) :
    ofText policy text = .error (.lex e) := by
  unfold ofText Clause.ofText
  rw [hTokens]
  rfl

/--
**A cell is read sentence by sentence.** A foreign character anywhere in a text is what reading
reports. Otherwise every sentence of the text has tokens of its own, and reading gives one rule for
each sentence, the one that the sentence alone makes up, or else the failure of the first sentence
that fails, moved to the offset of that sentence. The sentences are what stands between the
semicolons, so there is at least one of them, and at least one rule.
-/
theorem ofText_sentence_by_sentence (policy : Policy) (text : String) :
    (∀ e, Token.ofText text = .error e → ofText policy text = .error (.lex e)) ∧
    (∀ tokens, Token.ofText text = .ok tokens →
      (∀ sentence ∈ sentences text, ∃ own, Token.ofText sentence.text = .ok own) ∧
      (∀ rules, ofText policy text = .ok ⟨rules⟩ ↔
        List.Forall₂ (fun sentence rule => sentence.Yields policy (.ok rule))
          (sentences text) rules) ∧
      ∀ e, ofText policy text = .error e ↔ ∃ before sentence after,
        sentences text = before ++ sentence :: after ∧
        (∀ earlier ∈ before, ∃ rule, earlier.Yields policy (.ok rule)) ∧
        sentence.Yields policy (.error e)) ∧
    (∀ logic, ofText policy text = .ok logic → logic.rules ≠ []) ∧
    String.intercalate ";" ((sentences text).map Sentence.text) = text ∧
    ∀ before sentence after, sentences text = before ++ sentence :: after →
      ';' ∉ sentence.text.toList ∧ sentence.offset =
        (String.join (before.map fun earlier => earlier.text ++ ";")).utf8ByteSize := by
  refine ⟨fun e hTokens => ofText_of_error hTokens, fun tokens hTokens => ?_,
    fun logic hLogic => ?_, intercalate_sentences text,
    fun before sentence after hSentences => ?_⟩
  · refine ⟨exists_tokens_of_mem_sentences hTokens, fun rules => ?_, fun e => ?_⟩
    · have hRules : ofText policy text = .ok ⟨rules⟩ ↔
          (sentences text).mapM (Sentence.read policy) = .ok rules := by
        rw [ofText_eq_mapM hTokens, Except.map_eq_ok_iff]
        simp
      rw [hRules, Except.mapM_eq_ok_iff]
      simp only [Sentence.read_eq_iff]
    · have hError : ofText policy text = .error e ↔
          (sentences text).mapM (Sentence.read policy) = .error e := by
        rw [ofText_eq_mapM hTokens, Except.map_eq_error_iff]
      rw [hError, Except.mapM_eq_error_iff]
      simp only [Sentence.read_eq_iff]
  · obtain ⟨clause, -, hClause⟩ := Except.bind_eq_ok_iff.1 hLogic
    exact rules_ne_nil_of_ofClause hClause
  · have hMem : sentence ∈ sentences text := by simp [hSentences]
    refine ⟨semicolon_not_mem_of_mem_sentencesFrom hMem, ?_⟩
    rw [offset_of_sentencesFrom hSentences, Nat.zero_add]

/-- A skip rule in the second sentence, behind a sign of three bytes. Its question is not valid, but
it is refused before that is looked at. -/
theorem ofText_sentence_by_sentence_skip : ∃ tokens,
    Token.ofText "If ≥3 = Green; If N, then Q0" = .ok tokens ∧
    ofText {} "If ≥3 = Green; If N, then Q0" =
      .error (.parse ⟨21, .unexpected [.equals] ","⟩) := by
  obtain ⟨tokens, hTokens⟩ : ∃ tokens,
      Token.ofText "If ≥3 = Green; If N, then Q0" = .ok tokens := by
    cases hTokens : Token.ofText "If ≥3 = Green; If N, then Q0" with
    | ok tokens => exact ⟨tokens, rfl⟩
    | error e =>
      have hOk : (Token.ofText "If ≥3 = Green; If N, then Q0").isOk = true := by decide +kernel
      rw [hTokens] at hOk
      cases hOk
  have hFirst : Sentence.Yields {} ⟨0, "If ≥3 = Green"⟩ (.ok
      ⟨.common (.comparison (.atom ⟨.atLeast, 3, false⟩)), .green⟩) :=
    .rule (by decide +kernel) (by decide)
  have hRead : Rule.ofText " If N, then Q0" = .ok (.skip ⟨.answer .no, ⟨0⟩⟩) := by decide +kernel
  have hComma : " If N, then Q0" = " If N" ++ "," ++ " then Q0" := rfl
  have hSecond : Sentence.Yields {} ⟨16, " If N, then Q0"⟩
      (.error (.parse ⟨16 + " If N".utf8ByteSize, .unexpected [.equals] ","⟩)) :=
    .skip hRead hComma (by decide)
  refine ⟨tokens, hTokens, ?_⟩
  refine (((ofText_sentence_by_sentence {} _).2.1 tokens hTokens).2.2 _).2
    ⟨[⟨0, "If ≥3 = Green"⟩], _, [], by decide +kernel, ?_, hSecond⟩
  rintro earlier hMem
  obtain rfl := List.mem_singleton.1 hMem
  exact ⟨_, hFirst⟩

end ScoringLogic

end ChecklistLogic
