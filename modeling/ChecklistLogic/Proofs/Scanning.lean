import ChecklistLogic.Clause
import Mathlib.Data.List.TakeWhile

/-!
# ChecklistLogic — scanning a text

What the cursor yields on a text that is put together from pieces. The cursor always takes the
longest lexeme, so a lexeme keeps its end only if the character behind it would not make it longer.

* `Lexeme.split?_append` — a lexeme in front of a text that does not lengthen it is cut off as it
  stands.
* `Scan` — the tokens of a text from one offset to another, as a relation with a case for the end,
  for a blank and for a lexeme. `Clause.ofText_of_scan` ties it to the reading of clauses.
* `ScansAs` — a text that gives tokens of a certain form wherever it stands, unless a letter or a
  digit follows it. Such texts can be put together (`ScansAs.append`).
-/

namespace ChecklistLogic

-- ---------------------------------------------------------------------------
-- Lexemes and what follows them
-- ---------------------------------------------------------------------------

theorem eq_of_isBlank {c : Char} (hBlank : isBlank c = true) :
    c = ' ' ∨ c = '\t' ∨ c = '\r' ∨ c = '\n' := by
  simpa [isBlank, or_assoc] using hBlank

namespace Lexeme

/-- A lexeme that is cut off its own characters. -/
def IsWhole (lexeme : Lexeme) : Prop :=
  split? lexeme.chars = some (lexeme, [])

/-- Whether a lexeme would be longer if the character stood behind it. -/
def growsWith (lexeme : Lexeme) (c : Char) : Bool :=
  match lexeme.chars with
  | [] => false
  | first :: more =>
    if first.isAlpha then c.isAlphanum
    else if first.isDigit then c.isDigit
    else more.isEmpty && (first = '>' && c = '=' || first = '=' && c = '<')

/-- A run of characters ends where it did if what is added does not go on with it. -/
theorem takeWhile_dropWhile_append {p : Char → Bool} (front : List Char)
    {rest : List Char} (hRest : ∀ c ∈ rest.head?, p c = false) :
    (front ++ rest).takeWhile p = front.takeWhile p ∧
      (front ++ rest).dropWhile p = front.dropWhile p ++ rest := by
  induction front with
  | nil =>
    cases rest with
    | nil => simp
    | cons c more =>
      have hStop : p c = false := hRest c rfl
      simp [hStop]
  | cons first more ih => cases hFirst : p first <;> simp [hFirst, ih]

/-- A sign keeps its end, unless it is one of the two that begin a longer sign. -/
theorem splitSign?_append {lexeme : Lexeme} {text rest : List Char}
    (hSplit : splitSign? text = some (lexeme, []))
    (hMore : text = ['>'] → rest.head? ≠ some '=')
    (hEquals : text = ['='] → rest.head? ≠ some '<') :
    splitSign? (text ++ rest) = some (lexeme, rest) := by
  unfold splitSign? at hSplit
  split at hSplit <;> cases hSplit <;> try rfl
  · -- `>` alone
    cases rest with
    | nil => rfl
    | cons c more =>
      have hNot : c ≠ '=' := by simpa using hMore rfl
      simp [splitSign?, hNot]
  · -- `=` alone
    cases rest with
    | nil => rfl
    | cons c more =>
      have hNot : c ≠ '<' := by simpa using hEquals rfl
      simp [splitSign?, hNot]

/-- A lexeme is cut off as it stands if the text behind it does not lengthen it. -/
theorem split?_append {lexeme : Lexeme} {rest : List Char} (hWhole : lexeme.IsWhole)
    (hApart : ∀ c ∈ rest.head?, lexeme.growsWith c = false) :
    split? (lexeme.chars ++ rest) = some (lexeme, rest) := by
  obtain ⟨kind, chars⟩ := lexeme
  unfold IsWhole at hWhole
  unfold growsWith at hApart
  cases chars with
  | nil => simp [split?] at hWhole
  | cons first more =>
    simp only [split?, List.cons_append] at hWhole hApart ⊢
    by_cases hAlpha : first.isAlpha = true
    · rw [if_pos hAlpha] at hWhole ⊢
      simp only [hAlpha, if_true] at hApart
      simp only [Option.some.injEq, Prod.mk.injEq, Lexeme.mk.injEq] at hWhole
      obtain ⟨⟨hKind, hRun⟩, hEnd⟩ := hWhole
      obtain ⟨hTake, hDrop⟩ := takeWhile_dropWhile_append more hApart
      rw [hTake, hDrop, hEnd, hKind, hRun]
      rfl
    · rw [if_neg hAlpha] at hWhole ⊢
      simp only [hAlpha, Bool.false_eq_true, if_false] at hApart
      by_cases hDigit : first.isDigit = true
      · rw [if_pos hDigit] at hWhole ⊢
        simp only [hDigit, if_true] at hApart
        simp only [Option.some.injEq, Prod.mk.injEq, Lexeme.mk.injEq] at hWhole
        obtain ⟨⟨hKind, hRun⟩, hEnd⟩ := hWhole
        obtain ⟨hTake, hDrop⟩ := takeWhile_dropWhile_append more hApart
        rw [hTake, hDrop, hEnd, hKind, hRun]
        rfl
      · rw [if_neg hDigit] at hWhole ⊢
        simp only [hDigit, Bool.false_eq_true, if_false] at hApart
        refine splitSign?_append hWhole ?_ ?_
        · rintro hMore hHead
          obtain ⟨rfl, rfl⟩ := List.cons.inj hMore
          exact absurd (hApart '=' hHead) (by decide)
        · rintro hEquals hHead
          obtain ⟨rfl, rfl⟩ := List.cons.inj hEquals
          exact absurd (hApart '<' hHead) (by decide)

theorem kind_ne_endOfInput_of_split? {text rest : List Char} {lexeme : Lexeme}
    (hSplit : split? text = some (lexeme, rest)) : lexeme.kind ≠ .endOfInput := by
  have hWord : ∀ word, TokenKind.ofWord word ≠ .endOfInput := by
    intro word
    unfold TokenKind.ofWord
    repeat' split
    all_goals simp
  cases text with
  | nil => simp [split?] at hSplit
  | cons c more =>
    simp only [split?] at hSplit
    split at hSplit
    · obtain ⟨rfl, -⟩ : _ ∧ _ := by simpa using hSplit
      exact hWord _
    · split at hSplit
      · obtain ⟨rfl, -⟩ : _ ∧ _ := by simpa using hSplit
        simp
      · unfold splitSign? at hSplit
        split at hSplit <;> cases hSplit <;> simp

theorem split?_of_isBlank {c : Char} {rest : List Char} (hBlank : isBlank c = true) :
    split? (c :: rest) = none := by
  rcases eq_of_isBlank hBlank with rfl | rfl | rfl | rfl <;> rfl

end Lexeme

-- ---------------------------------------------------------------------------
-- Scans
-- ---------------------------------------------------------------------------

/-- The characters that stand from one offset to another, and the tokens they give. -/
inductive Scan : Nat → List Char → List Token → Nat → Prop where
  | nil (position : Nat) : Scan position [] [] position
  | blank {position stop : Nat} {c : Char} {rest : List Char} {tokens : List Token}
      (hBlank : isBlank c = true) (hRest : Scan (position + 1) rest tokens stop) :
      Scan position (c :: rest) tokens stop
  | lexeme {position stop : Nat} {chars rest : List Char} {lexeme : Lexeme} {tokens : List Token}
      (hSplit : Lexeme.split? chars = some (lexeme, rest))
      (hRest : Scan (lexeme.token position).stop rest tokens stop) :
      Scan position chars (lexeme.token position :: tokens) stop

theorem Cursor.items_of_isBlank {source rest : List Char} {position : Nat} {c : Char}
    (hBlank : isBlank c = true) :
    (Cursor.mk source (c :: rest) position false).items =
      (Cursor.mk source rest (position + 1) false).items := by
  have hSkip : (Cursor.mk source (c :: rest) position false).skipBlanks =
      (Cursor.mk source rest (position + 1) false).skipBlanks := by
    simp [skipBlanks, hBlank]
    omega
  have hNext : (Cursor.mk source (c :: rest) position false).next? =
      (Cursor.mk source rest (position + 1) false).next? := by
    simp [next?, hSkip]
  cases hItem : (Cursor.mk source rest (position + 1) false).next? with
  | none => rw [items_of_next?_eq_none hItem, items_of_next?_eq_none (hNext.trans hItem)]
  | some pair =>
    obtain ⟨item, after⟩ := pair
    rw [items_of_next?_eq_some hItem, items_of_next?_eq_some (hNext.trans hItem)]

theorem Cursor.items_of_split? {source chars rest : List Char} {position : Nat} {lexeme : Lexeme}
    (hSplit : Lexeme.split? chars = some (lexeme, rest)) :
    (Cursor.mk source chars position false).items =
      .ok (lexeme.token position) ::
        (Cursor.mk source rest (lexeme.token position).stop false).items := by
  cases chars with
  | nil => simp [Lexeme.split?] at hSplit
  | cons c more =>
    have hBlank : isBlank c = false := by
      cases hCase : isBlank c with
      | false => rfl
      | true => simp [Lexeme.split?_of_isBlank hCase] at hSplit
    have hSkip : (Cursor.mk source (c :: more) position false).skipBlanks =
        Cursor.mk source (c :: more) position false := by
      simp [skipBlanks, hBlank]
    refine items_of_next?_eq_some ?_
    simp [next?, hSkip, step, hSplit]

/-- The cursor yields the tokens of a scan and then the end marker. -/
theorem Scan.items {position stop : Nat} {chars : List Char} {tokens : List Token}
    (hScan : Scan position chars tokens stop) (source : List Char) :
    (Cursor.mk source chars position false).items =
      tokens.map .ok ++ [.ok (.endAt stop)] := by
  induction hScan with
  | nil position =>
    have hNext : (Cursor.mk source [] position false).next? =
        some (.ok (.endAt position), ⟨source, [], position, true⟩) := by
      simp [Cursor.next?, Cursor.skipBlanks, Cursor.step, Cursor.finish]
    rw [Cursor.items_of_next?_eq_some hNext]
    have hEnd : (Cursor.mk source [] position true).next? = none := rfl
    rw [Cursor.items_of_next?_eq_none hEnd]
    rfl
  | blank hBlank _ ih => rw [Cursor.items_of_isBlank hBlank, ih]
  | lexeme hSplit _ ih => rw [Cursor.items_of_split? hSplit, ih]; rfl

theorem Scan.kind_ne_endOfInput {position stop : Nat} {chars : List Char} {tokens : List Token}
    (hScan : Scan position chars tokens stop) : ∀ token ∈ tokens, token.kind ≠ .endOfInput := by
  induction hScan with
  | nil => simp
  | blank _ _ ih => exact ih
  | lexeme hSplit _ ih =>
    intro token hMem
    rcases List.mem_cons.1 hMem with rfl | hRest
    · exact Lexeme.kind_ne_endOfInput_of_split? hSplit
    · exact ih token hRest

theorem Token.mapM_items (tokens : List Token) :
    (tokens.map Except.ok : List LexItem).mapM id = .ok tokens := by
  induction tokens with
  | nil => rfl
  | cons token rest ih =>
    rw [List.map_cons, List.mapM_cons, ih]
    rfl

theorem Token.ofText_of_scan {text : String} {tokens : List Token} {stop : Nat}
    (hScan : Scan 0 text.toList tokens stop) :
    Token.ofText text = .ok (tokens ++ [.endAt stop]) := by
  unfold Token.ofText Cursor.start
  rw [hScan.items, ← Token.mapM_items, List.map_append]
  rfl

theorem Clause.ofTokens_of_scan {position stop : Nat} {chars : List Char} {tokens : List Token}
    (hScan : Scan position chars tokens stop) :
    Clause.ofTokens (tokens ++ [.endAt stop]) = ⟨tokens, stop⟩ :=
  Clause.ofTokens_of_marker hScan.kind_ne_endOfInput rfl

theorem Clause.ofText_of_scan {text : String} {tokens : List Token} {stop : Nat}
    (hScan : Scan 0 text.toList tokens stop) : Clause.ofText text = .ok ⟨tokens, stop⟩ := by
  unfold Clause.ofText
  rw [Token.ofText_of_scan hScan]
  exact congrArg Except.ok (Clause.ofTokens_of_scan hScan)

-- ---------------------------------------------------------------------------
-- Texts that give tokens of a certain form
-- ---------------------------------------------------------------------------

/-- A text that, wherever it stands and unless a letter or a digit follows it, gives tokens with
a property. -/
def ScansAs (chars : List Char) (property : List Token → Prop) : Prop :=
  ∀ (position : Nat) (rest : List Char), (∀ c ∈ rest.head?, c.isAlphanum = false) →
    ∃ tokens after, property tokens ∧ ∀ {more : List Token} {stop : Nat},
      Scan after rest more stop → Scan position (chars ++ rest) (tokens ++ more) stop

namespace ScansAs

variable {chars more : List Char} {first second : List Token → Prop}

/-- What may stand behind a text depends on what follows it. -/
theorem head_append {p : Char → Prop} (hNonempty : more ≠ []) (hHead : ∀ c ∈ more.head?, p c)
    (rest : List Char) : ∀ c ∈ (more ++ rest).head?, p c := by
  obtain ⟨c, others, rfl⟩ := List.exists_cons_of_ne_nil hNonempty
  simpa using hHead

theorem imp (hScans : ScansAs chars first) (hImp : ∀ tokens, first tokens → second tokens) :
    ScansAs chars second := by
  intro position rest hRest
  obtain ⟨tokens, after, hTokens, hScan⟩ := hScans position rest hRest
  exact ⟨tokens, after, hImp tokens hTokens, hScan⟩

theorem blank {c : Char} (hBlank : isBlank c = true) (hScans : ScansAs chars first) :
    ScansAs (c :: chars) first := by
  intro position rest hRest
  obtain ⟨tokens, after, hTokens, hScan⟩ := hScans (position + 1) rest hRest
  exact ⟨tokens, after, hTokens, fun hMore => .blank hBlank (hScan hMore)⟩

/-- A text is followed by one that starts neither with a letter nor with a digit. -/
theorem append (hChars : ScansAs chars first) (hMore : ScansAs more second) (hNonempty : more ≠ [])
    (hHead : ∀ c ∈ more.head?, c.isAlphanum = false) :
    ScansAs (chars ++ more)
      fun tokens => ∃ front back, first front ∧ second back ∧ tokens = front ++ back := by
  intro position rest hRest
  have hApart := head_append hNonempty hHead rest
  obtain ⟨front, middle, hFront, hScanFront⟩ := hChars position (more ++ rest) hApart
  obtain ⟨back, after, hBack, hScanBack⟩ := hMore middle rest hRest
  refine ⟨front ++ back, after, ⟨front, back, hFront, hBack, rfl⟩, fun hScan => ?_⟩
  rw [List.append_assoc, List.append_assoc]
  exact hScanFront (hScanBack hScan)

/-- A lexeme is followed by a text that does not lengthen it. -/
theorem lexeme_append {lexeme : Lexeme} (hWhole : lexeme.IsWhole) (hMore : ScansAs more second)
    (hNonempty : more ≠ []) (hHead : ∀ c ∈ more.head?, lexeme.growsWith c = false) :
    ScansAs (lexeme.chars ++ more) fun tokens => ∃ (position : Nat) (back : List Token),
      second back ∧ tokens = lexeme.token position :: back := by
  intro position rest hRest
  have hApart := head_append hNonempty hHead rest
  obtain ⟨back, after, hBack, hScan⟩ := hMore (lexeme.token position).stop rest hRest
  refine ⟨lexeme.token position :: back, after, ⟨position, back, hBack, rfl⟩, fun hTail => ?_⟩
  rw [List.append_assoc]
  exact .lexeme (Lexeme.split?_append hWhole hApart) (hScan hTail)

/-- A lexeme that only letters and digits could lengthen. -/
theorem lexeme {lexeme : Lexeme} (hWhole : lexeme.IsWhole)
    (hGrows : ∀ c : Char, c.isAlphanum = false → lexeme.growsWith c = false) :
    ScansAs lexeme.chars fun tokens => ∃ position, tokens = [lexeme.token position] := by
  intro position rest hRest
  have hApart : ∀ c ∈ rest.head?, lexeme.growsWith c = false := fun c hMem =>
    hGrows c (hRest c hMem)
  refine ⟨[lexeme.token position], (lexeme.token position).stop, ⟨position, rfl⟩, fun hTail => ?_⟩
  exact .lexeme (Lexeme.split?_append hWhole hApart) hTail

/-- A whole text of that form makes up a clause with such tokens. -/
theorem ofText {text : String} (hScans : ScansAs text.toList first) :
    ∃ clause, Clause.ofText text = .ok clause ∧ first clause.tokens := by
  obtain ⟨tokens, after, hTokens, hScan⟩ := hScans 0 [] (by simp)
  have hWhole := hScan (Scan.nil after)
  rw [List.append_nil, List.append_nil] at hWhole
  exact ⟨⟨tokens, after⟩, Clause.ofText_of_scan hWhole, hTokens⟩

end ScansAs

end ChecklistLogic
