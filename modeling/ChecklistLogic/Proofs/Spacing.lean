import ChecklistLogic.Proofs.Lexemes
import ChecklistLogic.Proofs.Offsets
import ChecklistLogic.Translator
import Mathlib.Data.List.Chain

/-!
# ChecklistLogic — spacing

Where blanks are needed between tokens and where they may be left out. Tokens that are laid out in a
text one behind the other, with any blanks around them, are read as they are unless two of them
merge: letters and digits go on with a word, digits with a number, `=` with `>`, and `<` with `=`.

* **One token** — a text that gives a single token and has no blank around it is a whole lexeme
  (`SoleToken.fixedBy`), and it grows by the first character of another one exactly if the two merge
  (`SoleToken.growsWith_iff_merges`).
* **Many tokens** — by induction on the layout: what is cut off its front is its first token if and
  only if that one does not merge with the next (`Layout.scan_textOf_iff`).
* **Reading** — the positions of tokens go nowhere but into errors (`Rule.ofClause_of_faces_eq`).

Main result: `Layout.tokens_iff_isSpaced`.
-/

namespace ChecklistLogic

-- ---------------------------------------------------------------------------
-- Layouts
-- ---------------------------------------------------------------------------

/-- A text that gives one token and the end marker, with no blank around the token. -/
structure SoleToken where
  text : String
  token : Token
  marker : Token
  reads : Token.ofText text = .ok [token, marker]
  noBlankBefore : begins isBlank text = false
  noBlankBehind : text.toList.getLast?.any isBlank = false

/-- A run of blanks, which may be empty. -/
structure Blanks where
  text : String
  isBlank : ∀ c ∈ text.toList, isBlank c = true

/-- Tokens in a row: blanks in front of them, and blanks behind each of them. -/
structure Layout where
  lead : Blanks
  pieces : List (SoleToken × Blanks)

/-- What a token on its own is read as, but for its place. -/
def SoleToken.face (x : SoleToken) : TokenKind × String :=
  (x.token.kind, x.text)

/-- Whether one token takes in the beginning of another one that follows it directly. -/
def SoleToken.Merges (x y : SoleToken) : Prop :=
  begins Char.isAlpha x.text = true ∧ begins Char.isAlphanum y.text = true ∨
  x.token.kind = .digits ∧ y.token.kind = .digits ∨
  x.text = ">" ∧ begins (· = '=') y.text = true ∨
  x.text = "=" ∧ y.text = "<"

namespace Layout

/-- Tokens with the blanks behind each of them. -/
def textOf : List (SoleToken × Blanks) → String
  | [] => ""
  | (x, blanks) :: rest => x.text ++ (blanks.text ++ textOf rest)

/-- The text of a layout. -/
def text (layout : Layout) : String :=
  layout.lead.text ++ textOf layout.pieces

/-- The tokens of a layout without their blanks. -/
def tokens (layout : Layout) : List SoleToken :=
  layout.pieces.map Prod.fst

/-- Whether neighbours do not merge where no blank stands between them. -/
def IsSpaced (layout : Layout) : Prop :=
  layout.pieces.IsChain fun a b => a.2.text = "" → ¬ a.1.Merges b.1

end Layout

-- ---------------------------------------------------------------------------
-- Blanks
-- ---------------------------------------------------------------------------

namespace Scan

variable {position stop : Nat} {chars rest : List Char} {tokens : List Token}

theorem isBlank_of_nil (hScan : Scan position chars [] stop) : ∀ c ∈ chars, isBlank c = true := by
  generalize hNone : ([] : List Token) = tokens at hScan
  induction hScan with
  | nil => simp
  | blank hBlank _ ih => exact List.forall_mem_cons.2 ⟨hBlank, ih hNone⟩
  | lexeme => cases hNone

/-- Blanks in front of a text only move its tokens. -/
theorem append_blanks_iff {blanks : List Char} (hBlanks : ∀ c ∈ blanks, isBlank c = true) :
    Scan position (blanks ++ rest) tokens stop ↔
      Scan (position + blanks.length) rest tokens stop := by
  induction blanks generalizing position with
  | nil => rfl
  | cons c more ih =>
    obtain ⟨hBlank, hMore⟩ := List.forall_mem_cons.1 hBlanks
    have hLength : position + (c :: more).length = position + 1 + more.length := by
      rw [List.length_cons]
      omega
    rw [hLength, ← ih hMore, List.cons_append]
    constructor
    · intro hScan
      cases hScan with
      | blank _ hRest => exact hRest
      | lexeme hSplit =>
        rw [Lexeme.split?_of_isBlank hBlank] at hSplit
        cases hSplit
    · exact .blank hBlank

/-- The first token of a text that begins with no blank is cut off its front. -/
theorem exists_split?_of_cons {token : Token} {others : List Token}
    (hScan : Scan position chars (token :: others) stop)
    (hBlank : ∀ c ∈ chars.head?, isBlank c = false) : ∃ after,
      Lexeme.split? chars = some (⟨token.kind, token.text.toList⟩, after) ∧
      Scan token.stop after others stop := by
  generalize hTokens : token :: others = tokens at hScan
  cases hScan with
  | nil => cases hTokens
  | blank hOther =>
    exact Bool.noConfusion ((hBlank _ rfl).symm.trans hOther)
  | @lexeme _ _ _ after lexeme _ hSplit hRest =>
    obtain ⟨rfl, rfl⟩ := List.cons.inj hTokens
    exact ⟨after, by simpa [Lexeme.token] using hSplit, hRest⟩

end Scan

-- ---------------------------------------------------------------------------
-- Single tokens
-- ---------------------------------------------------------------------------

namespace SoleToken

theorem head?_ne_isBlank (x : SoleToken) : ∀ c ∈ x.text.toList.head?, isBlank c = false := by
  intro c hHead
  have hBegins := x.noBlankBefore
  unfold begins at hBegins
  rwa [hHead] at hBegins

/-- The text of a single token fixes its kind. -/
theorem fixedBy (x : SoleToken) : TokenKind.FixedBy x.text x.token.kind := by
  obtain ⟨body, hScan, hTokens⟩ := Token.ofText_eq_ok_iff.1 x.reads
  obtain ⟨rfl, -⟩ := List.append_inj' (show [x.token] ++ [x.marker] = _ from hTokens) rfl
  obtain ⟨after, hSplit, hRest⟩ := hScan.exists_split?_of_cons x.head?_ne_isBlank
  obtain ⟨hWhole, hFixed, -⟩ := Lexeme.split?_eq_some_iff.1 hSplit
  -- what is left is blank, and blanks do not stand at the end
  have hLast : after = [] := by
    rcases List.eq_nil_or_concat after with hNil | ⟨front, c, rfl⟩
    · exact hNil
    · have hBlank : isBlank c = true := hRest.isBlank_of_nil c (by simp)
      have hBehind := x.noBlankBehind
      simp [hWhole, hBlank] at hBehind
  rw [hLast, List.append_nil, String.toList_inj] at hWhole
  rwa [hWhole]

theorem toList_ne_nil (x : SoleToken) : x.text.toList ≠ [] :=
  Lexeme.chars_ne_nil_of_split? (Lexeme.isWhole_iff_fixedBy.2 x.fixedBy)

/-- A single token grows by the first character of another one if the two merge. -/
theorem growsWith_iff_merges (x y : SoleToken) {c : Char} (hFirst : y.text.toList.head? = some c) :
    (Lexeme.mk x.token.kind x.text.toList).growsWith c = true ↔ x.Merges y := by
  have hBegins : ∀ p : Char → Bool, begins p y.text = p c := by
    intro p
    unfold begins
    rw [hFirst]
    rfl
  have hDigit : y.token.kind = .digits ↔ c.isDigit = true := by
    rw [Lexeme.kind_eq_digits_iff y.fixedBy, hBegins]
  have hLess : y.text = "<" ↔ c = '<' := by
    constructor
    · intro hText
      rw [hText] at hFirst
      exact (Option.some.inj hFirst).symm
    · rintro rfl
      exact Lexeme.eq_less_of_begins y.fixedBy (hBegins _)
  rw [Lexeme.growsWith_iff x.fixedBy, Merges, hBegins, hBegins, hDigit, hLess, decide_eq_true_iff]

end SoleToken

-- ---------------------------------------------------------------------------
-- Layouts as they are read
-- ---------------------------------------------------------------------------

namespace Layout

variable {x : SoleToken} {blanks : Blanks} {rest : List (SoleToken × Blanks)}

/-- A token keeps its end in a layout if it does not merge with the next one. -/
theorem keeps_end_iff :
    (∀ c ∈ (blanks.text.toList ++ (textOf rest).toList).head?,
      (Lexeme.mk x.token.kind x.text.toList).growsWith c = false) ↔
    ∀ next ∈ rest.head?, blanks.text = "" → ¬ x.Merges next.1 := by
  cases hBlanks : blanks.text.toList with
  | cons c more =>
    -- a blank follows, and there is one
    have hBlank : isBlank c = true := blanks.isBlank c (by simp [hBlanks])
    have hSome : blanks.text ≠ "" := by
      rw [ne_eq, ← String.toList_eq_nil_iff, hBlanks]
      exact List.cons_ne_nil _ _
    simp [Lexeme.growsWith_of_isApart _ (Lexeme.isApart_of_isBlank hBlank), hSome]
  | nil =>
    have hNone : blanks.text = "" := String.toList_eq_nil_iff.1 hBlanks
    cases rest with
    | nil => simp [textOf]
    | cons next others =>
      obtain ⟨y, behind⟩ := next
      obtain ⟨first, more, hFirst⟩ := List.exists_cons_of_ne_nil y.toList_ne_nil
      have hMerges := x.growsWith_iff_merges y (by rw [hFirst]; rfl)
      simp [textOf, hFirst, hNone, ← hMerges]

/-- The tokens of a layout come out as they are if and only if no two of them merge. -/
theorem scan_textOf_iff (position : Nat) (pieces : List (SoleToken × Blanks)) :
    (∃ tokens stop, Scan position (textOf pieces).toList tokens stop ∧
      tokens.map Token.face = pieces.map fun piece => piece.1.face) ↔
    pieces.IsChain fun a b => a.2.text = "" → ¬ a.1.Merges b.1 := by
  induction pieces generalizing position with
  | nil => exact iff_of_true ⟨[], position, .nil position, rfl⟩ .nil
  | cons piece rest ih =>
    obtain ⟨x, blanks⟩ := piece
    have hChars : (textOf ((x, blanks) :: rest)).toList =
        x.text.toList ++ (blanks.text.toList ++ (textOf rest).toList) := by
      simp [textOf]
    rw [List.isChain_cons, ← keeps_end_iff, hChars]
    constructor
    · rintro ⟨tokens, stop, hScan, hFaces⟩
      obtain ⟨token, others, rfl, hFace, hOthers⟩ := List.map_eq_cons_iff.1 hFaces
      obtain ⟨hKind, hText⟩ := Prod.mk.inj hFace
      have hBlank : ∀ c ∈ (x.text.toList ++ (blanks.text.toList ++ (textOf rest).toList)).head?,
          isBlank c = false := by
        intro c hHead
        refine x.head?_ne_isBlank c ?_
        rwa [List.head?_append_of_ne_nil _ x.toList_ne_nil] at hHead
      obtain ⟨after, hSplit, hRest⟩ := hScan.exists_split?_of_cons hBlank
      rw [hKind, hText] at hSplit
      obtain ⟨hWhole, -, hEnd⟩ := Lexeme.split?_eq_some_iff.1 hSplit
      obtain rfl := List.append_cancel_left hWhole
      rw [Scan.append_blanks_iff blanks.isBlank] at hRest
      exact ⟨hEnd, (ih _).1 ⟨others, stop, hRest, hOthers⟩⟩
    · rintro ⟨hEnd, hRest⟩
      have hSplit := Lexeme.split?_eq_some_iff.2 ⟨rfl, x.fixedBy, hEnd⟩
      obtain ⟨tokens, stop, hScan, hFaces⟩ := (ih _).2 hRest
      rw [← Scan.append_blanks_iff blanks.isBlank] at hScan
      refine ⟨_, stop, .lexeme hSplit hScan, ?_⟩
      simp [Lexeme.token, Token.face, SoleToken.face, hFaces]

theorem exists_scan_iff (layout : Layout) :
    (∃ body stop, Scan 0 layout.text.toList body stop ∧
      body.map Token.face = layout.tokens.map SoleToken.face) ↔ layout.IsSpaced := by
  rw [IsSpaced, ← scan_textOf_iff (0 + layout.lead.text.toList.length)]
  simp only [text, tokens, String.toList_append, Scan.append_blanks_iff layout.lead.isBlank,
    List.map_map, Function.comp_def]

end Layout

-- ---------------------------------------------------------------------------
-- Rules in other spacing
-- ---------------------------------------------------------------------------

/-- The error without its place. -/
def LogicError.unplaced : LogicError → LogicError
  | .lex e => .lex { e with position := 0 }
  | .parse e => .parse e.unplaced
  | e => e

/-- A rule is read and checked wherever its tokens stand. -/
theorem Translator.ruleOfClause_of_faces_eq (t : Translator) {clause other : Clause}
    (hFaces : clause.tokens.map Token.face = other.tokens.map Token.face) :
    (t.ruleOfClause clause).mapError LogicError.unplaced =
      (t.ruleOfClause other).mapError LogicError.unplaced := by
  refine Except.mapError_bind_congr ?_ fun rule => rfl
  rcases Except.mapError_eq_mapError_iff.1 (Rule.ofClause_of_faces_eq hFaces) with
    ⟨rule, hRule, hOther⟩ | ⟨e, other, hError, hOther, hSame⟩
  · rw [hRule, hOther]
  · rw [hError, hOther]
    exact congrArg (Except.error ∘ LogicError.parse) hSame

theorem Layout.IsSpaced.exists_clause {layout : Layout} (hSpaced : layout.IsSpaced) :
    ∃ clause, Clause.ofText layout.text = .ok clause ∧
      clause.tokens.map Token.face = layout.tokens.map SoleToken.face := by
  obtain ⟨body, stop, hScan, hFaces⟩ := layout.exists_scan_iff.2 hSpaced
  exact ⟨⟨body, stop⟩, Clause.ofText_of_scan hScan, hFaces⟩

/--
**Spacing matters only where tokens would merge.** Tokens that are laid out with blanks around them
are read as themselves, with the end marker behind them, if and only if no two of them merge that
stand directly one behind the other. So the same tokens in another spacing, in which none merge
either, are read as the same rule, or the errors differ in their places only.
-/
theorem Layout.tokens_iff_isSpaced (layout : Layout) :
    ((∃ tokens, Token.ofText layout.text = .ok tokens ∧ tokens.map Token.face =
      layout.tokens.map SoleToken.face ++ [(.endOfInput, "")]) ↔ layout.IsSpaced) ∧
    ∀ other : Layout, other.tokens = layout.tokens → layout.IsSpaced → other.IsSpaced →
      ∀ t : Translator, (t.readRule layout.text).mapError LogicError.unplaced =
        (t.readRule other.text).mapError LogicError.unplaced := by
  refine ⟨?_, fun other hSame hSpaced hOther t => ?_⟩
  · rw [← layout.exists_scan_iff]
    constructor
    · rintro ⟨tokens, hTokens, hFaces⟩
      obtain ⟨body, hScan, rfl⟩ := Token.ofText_eq_ok_iff.1 hTokens
      rw [List.map_append] at hFaces
      exact ⟨body, _, hScan, (List.append_inj' hFaces rfl).1⟩
    · rintro ⟨body, stop, hScan, hFaces⟩
      refine ⟨_, Token.ofText_of_scan hScan, ?_⟩
      rw [List.map_append, hFaces]
      rfl
  · obtain ⟨clause, hClause, hFaces⟩ := hSpaced.exists_clause
    obtain ⟨moved, hMoved, hMovedFaces⟩ := hOther.exists_clause
    unfold Translator.readRule
    rw [hClause, hMoved]
    refine t.ruleOfClause_of_faces_eq ?_
    rw [hFaces, hMovedFaces, hSame]

/-- A rule with a blank between any two tokens, and with no more blanks than it needs. -/
theorem Layout.tokens_iff_isSpaced_answer :
    ∃ wide narrow : Layout, wide.text = " If  Y = Red" ∧ narrow.text = "If\tY=Red" ∧
      narrow.tokens = wide.tokens ∧ wide.IsSpaced ∧ narrow.IsSpaced ∧
      ∀ t : Translator, (t.readRule " If  Y = Red").mapError LogicError.unplaced =
        (t.readRule "If\tY=Red").mapError LogicError.unplaced := by
  let word : SoleToken := ⟨"If", ⟨.ifWord, "If", 0⟩, .endAt 2, by decide +kernel, rfl, rfl⟩
  let answer : SoleToken := ⟨"Y", ⟨.answer, "Y", 0⟩, .endAt 1, by decide +kernel, rfl, rfl⟩
  let equals : SoleToken := ⟨"=", ⟨.equals, "=", 0⟩, .endAt 1, by decide +kernel, rfl, rfl⟩
  let score : SoleToken := ⟨"Red", ⟨.score, "Red", 0⟩, .endAt 3, by decide +kernel, rfl, rfl⟩
  let none : Blanks := ⟨"", List.all_eq_true.1 rfl⟩
  let one : Blanks := ⟨" ", List.all_eq_true.1 rfl⟩
  let two : Blanks := ⟨"  ", List.all_eq_true.1 rfl⟩
  let tab : Blanks := ⟨"\t", List.all_eq_true.1 rfl⟩
  let wide : Layout := ⟨one, [(word, two), (answer, one), (equals, one), (score, none)]⟩
  let narrow : Layout := ⟨none, [(word, tab), (answer, none), (equals, none), (score, none)]⟩
  have hWide : wide.IsSpaced := by
    refine (Layout.tokens_iff_isSpaced wide).1.1 ⟨[⟨.ifWord, "If", 1⟩, ⟨.answer, "Y", 5⟩,
      ⟨.equals, "=", 7⟩, ⟨.score, "Red", 9⟩, .endAt 12], ?_, rfl⟩
    decide +kernel
  have hNarrow : narrow.IsSpaced := by
    refine (Layout.tokens_iff_isSpaced narrow).1.1 ⟨[⟨.ifWord, "If", 0⟩, ⟨.answer, "Y", 3⟩,
      ⟨.equals, "=", 4⟩, ⟨.score, "Red", 5⟩, .endAt 8], ?_, rfl⟩
    decide +kernel
  exact ⟨wide, narrow, by decide +kernel, by decide +kernel, rfl, hWide, hNarrow,
    (Layout.tokens_iff_isSpaced wide).2 narrow rfl hWide hNarrow⟩

end ChecklistLogic
