import ChecklistLogic.Proofs.Offsets
import ChecklistLogic.Rule.Descent

/-!
# ChecklistLogic — reading by descent and token by token

A reader has a whole token list before it, and its functions look where they like. A draft is given
the tokens of a clause, one after the other, and is told where the clause ends. Both read the same
rules and report the same errors.

* **What a reader sees** — `Reader.clause` is what stands before a reader up to the next end marker.
  A reader at an end marker has an empty clause before it; otherwise its token is the first one, and
  the others are the clause of the reader behind it.
* **Drafts that go on** — `Draft.resume` reads that clause. For each draft there is an equation that
  says by which function a reader goes on at this point: the draft resumed is that function and then
  the next draft resumed. So no function looks for anything behind an end marker, and each of them
  reports what the draft reports.
* **Loops** — by the recursion of the reader's loops. A draft with a comparison might still take a
  percent sign; what the reader has read so far tells that it does not
  (`isPercent_of_comparison`).

Main results: `Rule.descend_eq_ofTokens` and, by what is known of clauses,
`Rule.descend_marker_and_shift`.
-/

namespace ChecklistLogic

variable {reader : Reader} {kind : TokenKind}

/-- Nothing is read behind a token that has been refused. -/
theorem Token.misfit_bind {α β : Type} (token : Token) (expected : List TokenKind)
    (f : α → Except ParseError β) : token.misfit expected >>= f = token.misfit expected := by
  unfold misfit refuse
  split <;> rfl

theorem Token.misfit_of_kind_ne {α : Type} {token : Token} {expected : List TokenKind}
    (hKind : token.kind ≠ .endOfInput) :
    (token.misfit expected : Except ParseError α) = token.refuse expected :=
  if_neg hKind

theorem Token.misfit_ne_ok {α : Type} {token : Token} {expected : List TokenKind} {result : α} :
    token.misfit expected ≠ .ok result := by
  unfold misfit refuse
  split <;> exact nofun

-- ---------------------------------------------------------------------------
-- The clause before a reader
-- ---------------------------------------------------------------------------

namespace Reader

/-- The tokens up to the next end marker, and where it is seen. -/
def clause (reader : Reader) : Clause :=
  ⟨reader.rest.takeWhile (·.kind ≠ .endOfInput),
    match reader.rest.find? (·.kind = .endOfInput) with
    | some marker => marker.position
    | none => reader.stop⟩

theorem clause_start (tokens : List Token) : (start tokens).clause = Clause.ofTokens tokens := rfl

theorem clause_of_end (hEnd : reader.peek.kind = .endOfInput) :
    reader.clause = ⟨[], reader.peek.position⟩ := by
  obtain ⟨rest, stop⟩ := reader
  cases rest with
  | nil => rfl
  | cons token rest =>
    have hToken : token.kind = .endOfInput := hEnd
    simp [clause, hToken, peek, peekAt]

theorem clause_of_token (hKind : reader.peek.kind ≠ .endOfInput) :
    reader.clause = reader.advance.clause.cons reader.peek := by
  obtain ⟨rest, stop⟩ := reader
  cases rest with
  | nil => exact absurd rfl hKind
  | cons token rest =>
    have hToken : token.kind ≠ .endOfInput := hKind
    simp [clause, hToken, peek, peekAt, advance, Clause.cons]

theorem expect_of_kind (hKind : reader.peek.kind = kind) :
    reader.expect kind = .ok (reader.peek, reader.advance) :=
  if_pos hKind

theorem number_of_kind (hKind : reader.peek.kind = .digits) :
    reader.number = reader.peek.number >>= fun n => pure (n, reader.advance) := by
  unfold number
  rw [expect_of_kind hKind]
  rfl

theorem option_of_kind (hKind : reader.peek.kind = .hash) :
    reader.option = reader.advance.number := by
  unfold option
  rw [expect_of_kind hKind]
  rfl

theorem peek_advance (reader : Reader) : reader.advance.peek = reader.peekAt 1 := by
  simp [peek, peekAt, advance]

end Reader

-- ---------------------------------------------------------------------------
-- Drafts that go on with what a reader sees
-- ---------------------------------------------------------------------------

namespace Draft

variable {draft next : Draft}

/-- Reads the clause before a reader with a draft of what stands in front of it. -/
def resume (draft : Draft) (reader : Reader) : Except ParseError Rule := do
  let last ← draft.read reader.clause.tokens
  last.finish reader.clause.stop

theorem resume_of_end (hEnd : reader.peek.kind = .endOfInput) :
    draft.resume reader = draft.finish reader.peek.position := by
  unfold resume
  rw [Reader.clause_of_end hEnd]
  rfl

theorem resume_of_token (hKind : reader.peek.kind ≠ .endOfInput) :
    draft.resume reader = draft.step reader.peek >>= (·.resume reader.advance) := by
  unfold resume
  rw [Reader.clause_of_token hKind]
  show (draft.step reader.peek >>= fun next => next.read _) >>= _ = _
  cases draft.step reader.peek <;> rfl

theorem resume_of_step (hKind : reader.peek.kind ≠ .endOfInput)
    (hStep : draft.step reader.peek = .ok next) :
    draft.resume reader = next.resume reader.advance := by
  rw [resume_of_token hKind, hStep]
  rfl

/-- A draft that refuses the token at which a reader stands refuses an end marker as well. -/
theorem resume_of_refuse (hOpen : draft.expected ≠ [])
    (hStep : draft.step reader.peek = reader.peek.refuse draft.expected) :
    draft.resume reader = reader.peek.misfit draft.expected := by
  unfold Token.misfit
  split
  · rename_i hEnd
    rw [resume_of_end hEnd]
    cases draft with
    | complete rule => exact absurd rfl hOpen
    | _ => rfl
  · rename_i hKind
    rw [resume_of_token hKind, hStep]
    rfl

/-- A draft that takes one kind of token only goes on behind a token of that kind. -/
theorem resume_expect (kind : TokenKind) (f : Token → Reader → Except ParseError Rule)
    (hKind : kind ≠ .endOfInput) (hExpected : draft.expected = [kind])
    (hTakes : reader.peek.kind = kind →
      draft.step reader.peek >>= (·.resume reader.advance) = f reader.peek reader.advance)
    (hRefuses : reader.peek.kind ≠ kind → draft.step reader.peek = reader.peek.refuse [kind]) :
    draft.resume reader = reader.expect kind >>= fun (token, after) => f token after := by
  have hOpen : draft.expected ≠ [] := by simp [hExpected]
  unfold Reader.expect
  split
  · rename_i hSame
    rw [resume_of_token (hSame ▸ hKind), hTakes hSame]
    rfl
  · rename_i hOther
    rw [resume_of_refuse hOpen (hExpected ▸ hRefuses hOther), hExpected]
    exact (Token.misfit_bind _ _ _).symm

theorem resume_complete (rule : Rule) :
    (complete rule).resume reader = Reader.finish (rule, reader) := by
  show _ = if reader.peek.kind = .endOfInput then _ else _
  split
  · rename_i hEnd
    rw [resume_of_end hEnd]
    rfl
  · rename_i hKind
    rw [resume_of_token hKind]
    rfl

-- ---------------------------------------------------------------------------
-- What follows a condition
-- ---------------------------------------------------------------------------

theorem resume_scoring (condition : ScoringCondition) :
    (scoring condition).resume reader = reader.score >>= fun (target, after) =>
      (complete (.scoring ⟨condition, target⟩)).resume after := by
  rw [resume_expect .score (fun token after => token.score >>= fun target =>
      (complete (.scoring ⟨condition, target⟩)).resume after)
    (by decide) rfl (fun hKind => ?_) (fun hKind => ?_)]
  · simp only [Reader.score, bind_assoc, pure_bind]
  · unfold Token.score
    simp only [step, hKind]
    cases Score.ofName? reader.peek.text with
    | some target => rfl
    | none =>
      rw [Token.misfit_of_kind_ne (by simp [hKind])]
      rfl
  · simp only [step]
    split
    · contradiction
    · rfl

/-- A draft with a condition goes on with `=` and a score, if it goes on with nothing else. -/
theorem resume_scoringRule (condition : ScoringCondition) (hExpected : draft.expected = [.equals])
    (hTakes : reader.peek.kind = .equals → draft.step reader.peek = .ok (scoring condition))
    (hRefuses : reader.peek.kind ≠ .equals →
      draft.step reader.peek = reader.peek.refuse [.equals]) :
    draft.resume reader = reader.scoringRule condition >>= Reader.finish := by
  rw [resume_expect .equals (fun _ after => (scoring condition).resume after) (by decide) hExpected
    (fun hKind => ?_) hRefuses]
  · simp only [Reader.scoringRule, resume_scoring, resume_complete, bind_assoc, pure_bind]
  · rw [hTakes hKind]
    rfl

theorem resume_skipThen (condition : Condition) :
    (skipThen condition).resume reader = reader.question >>= fun (target, after) =>
      (complete (.skip ⟨condition, target⟩)).resume after := by
  rw [resume_expect .question (fun token after => token.question >>= fun target =>
      (complete (.skip ⟨condition, target⟩)).resume after)
    (by decide) rfl (fun hKind => ?_) (fun hKind => ?_)]
  · simp only [Reader.question, bind_assoc, pure_bind]
  · simp only [step, hKind]
    cases reader.peek.question <;> rfl
  · simp only [step]
    rfl

theorem resume_skip (condition : Condition) :
    (skip condition).resume reader = reader.expect .thenWord >>= fun (_, after) =>
      (skipThen condition).resume after := by
  refine resume_expect .thenWord (fun _ after => (skipThen condition).resume after) (by decide) rfl
    (fun hKind => ?_) (fun hKind => ?_)
  · simp only [step, hKind]
    rfl
  · simp only [step]
    rfl

/-- A draft with a condition that both kinds of rule may have goes on with either tail, if it goes
on with nothing that lengthens the condition. -/
theorem resume_commonRule (condition : Condition) (hExpected : draft.expected = [.equals, .comma])
    (hStep : draft.step reader.peek = turn condition reader.peek) :
    draft.resume reader = reader.commonRule condition >>= Reader.finish := by
  unfold Reader.commonRule
  split
  · rename_i hKind
    have hScoring : draft.step reader.peek = .ok (scoring (.common condition)) := by
      simp only [hStep, turn, hKind]
    rw [resume_of_step (by simp [hKind]) hScoring, resume_scoring]
    simp only [Reader.scoringRule, Reader.expect_of_kind hKind, resume_complete, bind_assoc,
      pure_bind]
    rfl
  · rename_i hKind
    have hSkip : draft.step reader.peek = .ok (skip condition) := by
      simp only [hStep, turn, hKind]
    rw [resume_of_step (by simp [hKind]) hSkip, resume_skip]
    simp only [resume_skipThen, resume_complete, bind_assoc, pure_bind]
  · rename_i hEquals hComma
    have hRefuses : draft.step reader.peek = reader.peek.refuse draft.expected := by
      simp only [hStep, hExpected, turn]
    rw [resume_of_refuse (by simp [hExpected]) hRefuses, hExpected]
    exact (Token.misfit_bind _ _ _).symm

-- ---------------------------------------------------------------------------
-- Conditions
-- ---------------------------------------------------------------------------

/-- A draft that takes a number only goes on behind it. -/
theorem resume_number (f : UInt32 → Draft) (hExpected : draft.expected = [.digits])
    (hTakes : reader.peek.kind = .digits → draft.step reader.peek = f <$> reader.peek.number)
    (hRefuses : reader.peek.kind ≠ .digits →
      draft.step reader.peek = reader.peek.refuse [.digits]) :
    draft.resume reader = reader.number >>= fun (n, after) => (f n).resume after := by
  rw [resume_expect .digits (fun token after => token.number >>= fun n => (f n).resume after)
    (by decide) hExpected (fun hKind => ?_) hRefuses]
  · simp only [Reader.number, bind_assoc, pure_bind]
  · rw [hTakes hKind]
    cases reader.peek.number <;> rfl

theorem resume_rangeFrom (low : UInt32) :
    (rangeFrom low).resume reader = reader.number >>= fun (high, after) =>
      (range ⟨low, high⟩).resume after := by
  refine resume_number (fun high => range ⟨low, high⟩) rfl (fun hKind => ?_) (fun hKind => ?_)
  · simp only [step, hKind]
  · simp only [step]
    rfl

theorem resume_range (range : CountRange) :
    (Draft.range range).resume reader =
      reader.scoringRule (.range range) >>= Reader.finish := by
  refine resume_scoringRule (.range range) rfl (fun hKind => ?_) (fun hKind => ?_)
  · simp only [step, hKind]
  · simp only [step]
    rfl

theorem resume_optionSign (earlier : List UInt32) :
    (optionSign earlier).resume reader = reader.number >>= fun (option, after) =>
      (options (earlier ++ [option])).resume after := by
  refine resume_number (fun option => options (earlier ++ [option])) rfl (fun hKind => ?_)
    (fun hKind => ?_)
  · simp only [step, hKind]
  · simp only [step]
    rfl

theorem resume_optionsOr (earlier : List UInt32) :
    (optionsOr earlier).resume reader = reader.option >>= fun (option, after) =>
      (options (earlier ++ [option])).resume after := by
  rw [resume_expect .hash (fun _ after => (optionSign earlier).resume after) (by decide) rfl
    (fun hKind => ?_) (fun hKind => ?_)]
  · simp only [Reader.option, resume_optionSign, bind_assoc]
  · simp only [step, hKind]
    rfl
  · simp only [step]
    rfl

/-- Further options and what follows them are read by a draft as by a reader. -/
theorem resume_options (chosen : List UInt32) :
    (options chosen).resume reader =
      Reader.moreOptions chosen reader >>= fun (selection, behind) =>
        behind.scoringRule (.selection selection) >>= Reader.finish := by
  induction chosen, reader using Reader.moreOptions.induct with
  | case1 chosen reader hOr e hNext =>
    have hStep : (options chosen).step reader.peek = .ok (optionsOr chosen) := by
      simp only [step, hOr]
    rw [resume_of_step (by simp [hOr]) hStep, resume_optionsOr, Reader.moreOptions_of_or hOr,
      hNext]
    rfl
  | case2 chosen reader hOr option after hNext ih =>
    have hStep : (options chosen).step reader.peek = .ok (optionsOr chosen) := by
      simp only [step, hOr]
    rw [resume_of_step (by simp [hOr]) hStep, resume_optionsOr, Reader.moreOptions_of_or hOr,
      hNext]
    exact ih
  | case3 chosen reader hOther =>
    rw [Reader.moreOptions_of_kind_ne hOther]
    refine resume_scoringRule (.selection ⟨chosen⟩) rfl (fun hKind => ?_) (fun hKind => ?_)
    · simp only [step, hKind]
    · simp only [step]
      rfl

theorem resume_comparator (before : OpenComparison) (sign : Comparator) :
    (comparator before sign).resume reader = reader.number >>= fun (threshold, after) =>
      (comparison before ⟨sign, threshold, false⟩).resume after := by
  refine resume_number (fun threshold => comparison before ⟨sign, threshold, false⟩) rfl
    (fun hKind => ?_) (fun hKind => ?_)
  · simp only [step, hKind]
  · simp only [step]
    rfl

/-- A percent sign belongs to the comparison in front of it. -/
theorem resume_percent (before : OpenComparison) (sign : Comparator) (threshold : UInt32) :
    (comparison before ⟨sign, threshold, false⟩).resume reader =
      (comparison before ⟨sign, threshold, (reader.eat .percent).1⟩).resume
        (reader.eat .percent).2 := by
  unfold Reader.eat
  split
  · rename_i hPercent
    exact resume_of_step (by simp [hPercent]) (by simp only [step, hPercent])
  · rfl

/-- Behind its sign a comparison is read by a draft as by a reader. -/
theorem resume_comparison_of_kind (before : OpenComparison) {sign : Comparator}
    (hKind : reader.peek.kind = .comparator sign) :
    (comparator before sign).resume reader.advance = reader.comparison >>= fun (c, after) =>
      (comparison before c).resume after := by
  simp only [Reader.comparison, hKind, resume_comparator, resume_percent, bind_assoc, pure_bind]

theorem resume_comparisonJoined (tree : ComparisonTree) (connective : Connective) :
    (comparisonJoined tree connective).resume reader = reader.comparison >>= fun (c, after) =>
      (comparison (some (tree, connective)) c).resume after := by
  by_cases hSign : ∃ sign, reader.peek.kind = .comparator sign
  · obtain ⟨sign, hKind⟩ := hSign
    rw [← resume_comparison_of_kind _ hKind]
    exact resume_of_step (by simp [hKind]) (by simp only [step, hKind])
  · rw [not_exists] at hSign
    rw [resume_of_refuse (by simp [expected, Comparator.all])]
    · simp only [Reader.comparison]
      exact (Token.misfit_bind _ _ _).symm
    · simp only [step]

theorem fst_eat_of_peek {behind : Reader} (hKind : (behind.eat kind).2.peek.kind = kind) :
    (behind.eat kind).1 = true := by
  by_cases hEaten : behind.peek.kind = kind
  · simp [Reader.eat, hEaten]
  · simp [Reader.eat, hEaten] at hKind

/-- A percent sign behind a comparison is a second one. -/
theorem isPercent_of_comparison {after : Reader} {c : Comparison}
    (hComparison : reader.comparison = .ok (c, after)) (hPercent : after.peek.kind = .percent) :
    c.isPercent = true := by
  unfold Reader.comparison at hComparison
  split at hComparison
  · obtain ⟨⟨threshold, behind⟩, -, hEat⟩ := Except.bind_eq_ok_iff.1 hComparison
    cases hEat
    exact fst_eat_of_peek hPercent
  · exact absurd hComparison Token.misfit_ne_ok

/-- Further comparisons and what follows them are read by a draft as by a reader. -/
theorem resume_comparison (before : OpenComparison) (last : Comparison)
    (hPercent : reader.peek.kind = .percent → last.isPercent = true) :
    (comparison before last).resume reader =
      Reader.moreComparisons (before.close last) reader >>= fun (tree, behind) =>
        behind.commonRule (.comparison tree) >>= Reader.finish := by
  generalize hTree : before.close last = tree
  induction tree, reader using Reader.moreComparisons.induct generalizing before last with
  | case1 tree reader connective hKind e hNext =>
    have hStep : (comparison before last).step reader.peek =
        .ok (comparisonJoined tree connective) := by
      simp only [step, hKind, hTree]
    rw [resume_of_step (by simp [hKind]) hStep, resume_comparisonJoined,
      Reader.moreComparisons_of_connective hKind, hNext]
    rfl
  | case2 tree reader connective hKind next after hNext ih =>
    have hStep : (comparison before last).step reader.peek =
        .ok (comparisonJoined tree connective) := by
      simp only [step, hKind, hTree]
    rw [resume_of_step (by simp [hKind]) hStep, resume_comparisonJoined,
      Reader.moreComparisons_of_connective hKind, hNext]
    exact ih (some (tree, connective)) next (isPercent_of_comparison hNext) rfl
  | case3 tree reader hKind =>
    rw [Reader.moreComparisons_of_kind_ne hKind]
    refine resume_commonRule (.comparison tree) rfl ?_
    rw [← hTree]
    simp only [step]
    split
    · rename_i hSign hNone
      rw [hPercent hSign] at hNone
      cases hNone
    · exact absurd ‹_› (hKind _)
    · rfl

-- ---------------------------------------------------------------------------
-- Whole rules
-- ---------------------------------------------------------------------------

theorem resume_answer (answer : Answer) :
    (Draft.answer answer).resume reader =
      reader.commonRule (.answer answer) >>= Reader.finish :=
  resume_commonRule (.answer answer) rfl rfl

/-- A number is the lower bound of a range if a dash follows it. -/
theorem resume_count (n : UInt32) :
    (count n).resume reader =
      if reader.peek.kind = .dash then (rangeFrom n).resume reader.advance
      else reader.commonRule (.count n) >>= Reader.finish := by
  split
  · rename_i hDash
    exact resume_of_step (by simp [hDash]) (by simp only [step, hDash])
  · rename_i hOther
    refine resume_commonRule (.count n) rfl ?_
    simp only [step]

theorem resume_opened_of_answer (hKind : reader.peek.kind = .answer) :
    opened.resume reader = reader.answer >>= fun (a, behind) =>
      (Draft.answer a).resume behind := by
  simp only [Reader.answer, Reader.expect_of_kind hKind, bind_assoc, pure_bind]
  rw [resume_of_token (by simp [hKind])]
  simp only [step, hKind]
  show _ = reader.peek.answer >>= fun a => (Draft.answer a).resume reader.advance
  unfold Token.answer
  cases Answer.ofText? reader.peek.text with
  | some a => rfl
  | none =>
    rw [Token.misfit_of_kind_ne (by simp [hKind])]
    rfl

theorem resume_opened_of_digits (hKind : reader.peek.kind = .digits) :
    opened.resume reader = reader.peek.number >>= fun n => (count n).resume reader.advance := by
  rw [resume_of_token (by simp [hKind])]
  simp only [step, hKind]
  cases reader.peek.number <;> rfl

theorem resume_opened_of_comparator {sign : Comparator}
    (hKind : reader.peek.kind = .comparator sign) :
    opened.resume reader = reader.comparison >>= fun (c, behind) =>
      (comparison none c).resume behind := by
  rw [← resume_comparison_of_kind none hKind]
  exact resume_of_step (by simp [hKind]) (by simp only [step, hKind])

theorem resume_opened_of_hash (hKind : reader.peek.kind = .hash) :
    opened.resume reader = reader.option >>= fun (option, behind) =>
      (options [option]).resume behind := by
  rw [Reader.option_of_kind hKind]
  refine Eq.trans ?_ (resume_optionSign [])
  exact resume_of_step (by simp [hKind]) (by simp only [step, hKind])

/-- Behind `If`, the next token decides what is read, and for a number the one after it. -/
theorem resume_opened : opened.resume reader = reader.body >>= Reader.finish := by
  unfold Reader.body
  split
  · rename_i hKind
    simp only [resume_opened_of_answer hKind, resume_answer, bind_assoc]
  · rename_i hKind
    -- the token behind the number is the one at which the reader has looked in advance
    simp only [resume_opened_of_digits hKind, resume_count, Reader.peek_advance]
    split
    · rename_i hDash
      have hBehind : reader.advance.peek.kind = .dash := by rwa [Reader.peek_advance]
      simp only [Reader.range, Reader.number_of_kind hKind, Reader.expect_of_kind hBehind,
        resume_rangeFrom, resume_range, bind_assoc, pure_bind]
      rfl
    · simp only [bind_assoc]
  · rename_i sign hKind
    rw [resume_opened_of_comparator hKind]
    simp only [Reader.comparisons, bind_assoc]
    refine Except.bind_congr_ok fun (first, behind) hFirst => ?_
    exact resume_comparison none first (isPercent_of_comparison hFirst)
  · rename_i hKind
    simp only [resume_opened_of_hash hKind, Reader.selection, resume_options, bind_assoc]
  · rename_i hAnswer hDigits hComparator hHash
    rw [resume_of_refuse (by simp [expected, conditionStart])]
    · exact (Token.misfit_bind _ _ _).symm
    · simp only [step]

theorem resume_blank : blank.resume reader = reader.rule := by
  rw [resume_expect .ifWord (fun _ after => opened.resume after) (by decide) rfl
    (fun hKind => ?_) (fun hKind => ?_)]
  · simp only [Reader.rule, resume_opened]
  · simp only [step, hKind]
    rfl
  · simp only [step]
    rfl

end Draft

/-- A rule is read by descent as it is read one token at a time, errors included. -/
theorem Rule.descend_eq_ofTokens (tokens : List Token) : descend tokens = ofTokens tokens := by
  rw [descend, ← Draft.resume_blank, Draft.resume, Reader.clause_start]
  rfl

-- ---------------------------------------------------------------------------
-- End markers and offsets
-- ---------------------------------------------------------------------------

/--
**A rule ends at the first end marker, wherever it stands.** By descent a rule is read as it is one
token at a time. What stands behind the first end marker of a token list does not count, and where
there is none, the rule ends as if one stood right behind the last token. Where all tokens of a list
that is not empty are moved by the same number of bytes, the same rule is read, or the same error is
reported as many bytes further on.
-/
theorem Rule.descend_marker_and_shift (tokens : List Token) :
    descend tokens = ofTokens tokens ∧
    ((∀ token ∈ tokens, token.kind ≠ .endOfInput) →
      (∀ (marker : Token) (rest : List Token), marker.kind = .endOfInput →
        descend (tokens ++ [marker] ++ rest) = descend (tokens ++ [marker])) ∧
      descend tokens =
        descend (tokens ++ [.endAt ((tokens.getLast?.map Token.stop).getD 0)])) ∧
    (tokens ≠ [] → ∀ offset,
      descend (tokens.map (Token.shift offset)) =
        (descend tokens).mapError (ParseError.shift offset)) := by
  refine ⟨descend_eq_ofTokens tokens, ?_⟩
  simp only [descend_eq_ofTokens, ofTokens]
  refine ⟨fun hNone => ⟨fun marker rest hMarker => ?_, ?_⟩, fun hSome offset => ?_⟩
  · rw [List.append_assoc, List.singleton_append, Clause.ofTokens_of_marker hNone hMarker,
      Clause.ofTokens_of_marker hNone hMarker]
  · rw [Clause.ofTokens_of_no_marker hNone, Clause.ofTokens_of_marker hNone rfl]
    rfl
  · rw [Clause.ofTokens_shift offset hSome, Rule.ofClause_shift]

/-- The number would be the lower bound of a range but for the end marker behind it. -/
theorem Rule.descend_marker_and_shift_number :
    let tokens : List Token := [⟨.ifWord, "If", 0⟩, ⟨.digits, "3", 3⟩]
    let marker : Token := ⟨.endOfInput, "", 9⟩
    let rest : List Token := [⟨.dash, "-", 10⟩, ⟨.digits, "5", 11⟩]
    (∀ token ∈ tokens, token.kind ≠ .endOfInput) ∧ marker.kind = .endOfInput ∧ tokens ≠ [] ∧
    descend (tokens ++ [marker] ++ rest) = .error ⟨9, .unterminated [.equals, .comma]⟩ ∧
    descend (tokens.map (Token.shift 7)) = .error ⟨11, .unterminated [.equals, .comma]⟩ := by
  intro tokens marker rest
  have hNone : ∀ token ∈ tokens, token.kind ≠ .endOfInput := by decide
  have hSome : tokens ≠ [] := List.cons_ne_nil _ _
  obtain ⟨-, hMarker, hShift⟩ := descend_marker_and_shift tokens
  refine ⟨hNone, rfl, hSome, ?_, ?_⟩
  · rw [(hMarker hNone).1 marker rest rfl]
    decide +kernel
  · rw [hShift hSome 7]
    decide +kernel

end ChecklistLogic
