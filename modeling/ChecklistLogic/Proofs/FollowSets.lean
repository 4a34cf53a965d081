import ChecklistLogic.Proofs.Beginnings
import ChecklistLogic.Proofs.Segmentation

/-!
# ChecklistLogic — what can follow and what reports list

The kinds of tokens that can stand behind a beginning of a rule, against the kinds that a report
lists for that place. The list holds no kind that cannot stand there, but it is not always whole:
where a condition is complete and could still get longer, the kinds that only lengthen it are left
out. These are a dash behind a count, `and`, `or` and a percent sign behind comparisons, and `or`
behind options.

* **Drafts** — a report lists what the draft expects (`Draft.listed_of_step`), and the draft takes
  that and what lengthens its condition.
* **The grammar** — which kinds lengthen the condition of a draft is seen from the tokens that have
  led to it (`Draft.mem_lengthening_iff`).
* **Texts** — the tokens of a text stand at larger and larger offsets, so that of an error tells
  which tokens are before it (`Token.before_eq`).

Main result: `Rule.listed_iff_canFollow`.
-/

namespace ChecklistLogic

/-- The kinds that a report of a fault lists, if it lists any. -/
def ParseFault.listed? : ParseFault → Option (List TokenKind)
  | .unexpected expected _ | .unterminated expected => some expected
  | .trailing _ | .numberOutOfRange _ => none

/-- The tokens of a list that stand before an offset. -/
def Token.before (position : Nat) (tokens : List Token) : List Token :=
  tokens.takeWhile (·.position < position)

/-- Whether some token of a kind, put behind a token list, begins a list that is read as a rule. -/
def CanFollow (front : List Token) (kind : TokenKind) : Prop :=
  ∃ (token : Token) (rest : List Token) (rule : Rule), token.kind = kind ∧
    Rule.ofTokens (front ++ token :: rest) = .ok rule

/-- Whether a token of a kind makes a condition longer that is complete without it. -/
inductive Lengthens : List Token → TokenKind → Prop where
  | range {front : List Token} {number : UInt32}
      (hCount : Opened (Condition.count number).Spelled front) : Lengthens front .dash
  | percentage {front : List Token} {digits : Token} {tree : ComparisonTree}
      (hChain : Opened tree.Spelled (front ++ [digits])) (hDigits : digits.kind = .digits) :
      Lengthens (front ++ [digits]) .percent
  | comparison {front : List Token} {tree : ComparisonTree} (connective : Connective)
      (hChain : Opened tree.Spelled front) : Lengthens front (.connective connective)
  | option {front : List Token} {options : List UInt32}
      (hOptions : Opened (Selection.OptionsSpelled options) front) :
      Lengthens front (.connective .or)

-- ---------------------------------------------------------------------------
-- What reports list
-- ---------------------------------------------------------------------------

namespace Draft

variable {draft : Draft} {token : Token} {e : ParseError}

/-- A report that a draft refuses a token of a text lists what the draft expects. -/
theorem listed_of_step {text : String} {listed : List TokenKind} (hToken : token.StandsIn text)
    (hStep : draft.step token = .error e) (hListed : e.fault.listed? = some listed) :
    e.position = token.position ∧ listed = draft.expected := by
  -- a number that is too large lists nothing
  have hNumber : ∀ {number : Token}, number.number ≠ .error e := by
    intro number hOverflow
    obtain ⟨-, rfl⟩ := Token.number_eq_error_iff.1 hOverflow
    cases hListed
  rcases step_eq_error_cases hStep with rfl | ⟨-, hKind, hText, -⟩ | ⟨-, -, hOverflow⟩ |
    ⟨hKind, -, hQuestion⟩ | ⟨rule, -, rfl⟩
  · cases hListed
    exact ⟨rfl, rfl⟩
  · have hSpelling := hToken.spelling
    rw [hKind] at hSpelling
    obtain ⟨answer, hChars⟩ := hSpelling
    rw [Answer.ofText?_eq_some_iff.2 (String.toList_inj.1 hChars)] at hText
    cases hText
  · exact absurd hOverflow hNumber
  · obtain ⟨digits, hNonempty, hText⟩ := hToken.exists_question_text hKind
    rw [Token.question_eq_map_number hText hNonempty, Except.map_eq_error_iff] at hQuestion
    exact absurd hQuestion hNumber
  · cases hListed

end Draft

-- ---------------------------------------------------------------------------
-- What the tokens say
-- ---------------------------------------------------------------------------

section

variable {front tokens : List Token} {draft : Draft} {kind : TokenKind}

theorem Opened.exists_read {body : List Token → Prop} (hTokens : Opened body front)
    (hFront : Draft.blank.read front = .ok draft) :
    ∃ rest, body rest ∧ Draft.opened.read rest = .ok draft := by
  obtain ⟨word, rest, hWord, hRest, rfl⟩ := hTokens
  have hOpen : Draft.blank.step word = .ok .opened := by
    simp [Draft.step, hWord]
  rw [Draft.read_cons_of_step hOpen] at hFront
  exact ⟨rest, hRest, hFront⟩

/-- A comparison may get its percent sign as long as its number is the last token. -/
theorem Draft.isPercent_eq_false_iff {before : OpenComparison} {last : Comparison}
    (hDraft : (Draft.comparison before last).Spelled tokens) :
    last.isPercent = false ↔
      ∃ front digits, tokens = front ++ [digits] ∧ digits.kind = .digits := by
  obtain ⟨word, _, -, ⟨first, back, -, hLast, rfl⟩, rfl⟩ := hDraft
  cases hLast with
  | @count sign digits _ _ _ hDigits =>
    exact iff_of_true rfl ⟨word :: (first ++ [sign]), digits, by simp, hDigits.1⟩
  | @percentage sign digits percent _ _ _ _ hPercent =>
    refine iff_of_false Bool.noConfusion ?_
    rintro ⟨front, other, hSame, hOther⟩
    have hEnds : (word :: (first ++ [sign, digits])) ++ [percent] = front ++ [other] := by
      simpa using hSame
    obtain rfl := List.singleton_inj.1 (List.append_inj' hEnds rfl).2
    cases hOther.symm.trans hPercent

/-- Whether more tokens lengthen the condition of a draft is seen from the tokens behind it. -/
theorem Draft.mem_lengthening_iff (hFront : Draft.blank.read front = .ok draft) :
    kind ∈ draft.lengthening ↔ Lengthens front kind := by
  have hSpelled := Draft.spelled_of_read_blank hFront
  constructor
  · intro hMem
    cases draft with
    | count =>
      obtain rfl := List.mem_singleton.1 hMem
      exact .range hSpelled
    | options =>
      obtain rfl := List.mem_singleton.1 hMem
      exact .option hSpelled
    | comparison before last =>
      have hChain := hSpelled.chain
      rcases mem_lengthening_comparison.1 hMem with ⟨rfl, hCount⟩ | ⟨connective, rfl⟩
      · obtain ⟨others, digits, rfl, hDigits⟩ := (isPercent_eq_false_iff hSpelled).1 hCount
        exact .percentage hChain hDigits
      · exact .comparison connective hChain
    | _ => exact absurd hMem List.not_mem_nil
  · have hComparison : ∀ {tree : ComparisonTree}, Opened tree.Spelled front →
        ∃ before last, draft = .comparison before last := by
      intro tree hChain
      obtain ⟨rest, hTree, hRest⟩ := hChain.exists_read hFront
      obtain ⟨before, last, -, hRead⟩ := hTree.read
      exact ⟨before, last, Except.ok.inj (hRest.symm.trans hRead)⟩
    intro hLengthens
    cases hLengthens with
    | @range _ number hCount =>
      obtain ⟨_, hNumber, hRest⟩ := hCount.exists_read hFront
      cases hNumber with
      | @count digits _ hDigits =>
        have hRead : Draft.opened.read [digits] = .ok (.count number) :=
          read_cons_of_step (step_opened_digits hDigits)
        obtain rfl := Except.ok.inj (hRest.symm.trans hRead)
        exact List.mem_singleton.2 rfl
    | percentage hChain hDigits =>
      obtain ⟨before, last, rfl⟩ := hComparison hChain
      have hCount := (isPercent_eq_false_iff hSpelled).2 ⟨_, _, rfl, hDigits⟩
      exact mem_lengthening_comparison.2 (.inl ⟨rfl, hCount⟩)
    | comparison connective hChain =>
      obtain ⟨before, last, rfl⟩ := hComparison hChain
      exact mem_lengthening_comparison.2 (.inr ⟨connective, rfl⟩)
    | option hOptions =>
      obtain ⟨rest, hSpelled, hRest⟩ := hOptions.exists_read hFront
      obtain rfl := Except.ok.inj (hRest.symm.trans hSpelled.read)
      exact List.mem_singleton.2 rfl

/-- Behind tokens that are no rule yet can follow what their draft takes. -/
theorem canFollow_iff (hFront : Draft.blank.read front = .ok draft)
    (hKinds : ∀ token ∈ front, token.kind ≠ .endOfInput) (hOpen : ∀ rule, draft ≠ .complete rule) :
    CanFollow front kind ↔ kind ∈ draft.expected ∨ Lengthens front kind := by
  rw [← Draft.mem_lengthening_iff hFront, ← Draft.exists_step_iff]
  have hAll : ∀ {token : Token}, token.kind ≠ .endOfInput →
      ∀ other ∈ front ++ [token], other.kind ≠ .endOfInput := by
    intro token hKind
    exact List.forall_mem_append.2 ⟨hKinds, List.forall_mem_singleton.2 hKind⟩
  constructor
  · rintro ⟨token, rest, rule, rfl, hRule⟩
    by_cases hKind : token.kind = .endOfInput
    · -- an end marker can only follow a whole rule
      have hCounted : Token.counted (front ++ token :: rest) = front := by
        rw [Token.counted_append hKinds]
        simp [Token.counted, hKind]
      have hWhole : rule.Spelled front := hCounted ▸ Rule.ofClause_eq_ok_iff.1 hRule
      exact absurd ((spelled_iff_eq_complete hFront).1 hWhole) (hOpen rule)
    · have hViable : Viable (front ++ [token]) :=
        (viable_iff_ofTokens (hAll hKind)).2 ⟨rest, rule, by rwa [List.append_assoc]⟩
      obtain ⟨next, hStep⟩ := (viable_concat_iff hFront).1 hViable
      exact ⟨token, next, rfl, hStep⟩
  · rintro ⟨token, next, rfl, hStep⟩
    have hViable : Viable (front ++ [token]) := (viable_concat_iff hFront).2 ⟨next, hStep⟩
    have hKind : token.kind ≠ .endOfInput := Draft.kind_ne_of_step hStep (by simp)
    obtain ⟨rest, rule, hRule⟩ := (viable_iff_ofTokens (hAll hKind)).1 hViable
    exact ⟨token, rest, rule, rfl, by rwa [List.append_assoc] at hRule⟩

end

-- ---------------------------------------------------------------------------
-- Errors of texts
-- ---------------------------------------------------------------------------

/-- The tokens before the offset of one of them, or of the end marker, are those in front of it. -/
theorem Token.before_eq {text : String} {front back : List Token} {token : Token}
    (hTokens : Token.ofText text = .ok (front ++ token :: back)) :
    Token.before token.position (front ++ token :: back) = front := by
  have hIncreasing : (front ++ token :: back).Pairwise fun a b => a.position < b.position := by
    obtain ⟨body, hScan, hEnd⟩ := Token.ofText_eq_ok_iff.1 hTokens
    have hWhole : text.toList = [] ++ text.toList := rfl
    have hMunched := hScan.isMunched hWhole rfl
    rw [hEnd, List.pairwise_append]
    refine ⟨hScan.pairwise_position_lt hMunched, List.pairwise_singleton _ _, ?_⟩
    intro other hMem marker hMarker
    obtain rfl := List.mem_singleton.1 hMarker
    exact Nat.lt_of_lt_of_le (hMunched _ hMem).position_lt_stop (hMunched _ hMem).stop_le
  have hBefore : ∀ other ∈ front, other.position < token.position := fun other hMem =>
    (List.pairwise_append.1 hIncreasing).2.2 other hMem token List.mem_cons_self
  unfold Token.before
  rw [List.takeWhile_append_of_pos fun other hMem => decide_eq_true (hBefore other hMem)]
  simp

/-- An error that lists kinds stands at a token or the end marker. The tokens before it are no rule
yet, and it lists what their draft expects. -/
theorem Rule.exists_listed_of_error {text : String} {tokens : List Token} {e : ParseError}
    {listed : List TokenKind} (hTokens : Token.ofText text = .ok tokens)
    (hError : Rule.ofTokens tokens = .error e) (hListed : e.fault.listed? = some listed) :
    ∃ front token back draft, tokens = front ++ token :: back ∧ token.position = e.position ∧
      (∀ other ∈ front, other.kind ≠ .endOfInput) ∧ Draft.blank.read front = .ok draft ∧
      (∀ rule, draft ≠ .complete rule) ∧ listed = draft.expected := by
  obtain ⟨body, hScan, rfl⟩ := Token.ofText_eq_ok_iff.1 hTokens
  rw [Rule.ofTokens, Clause.ofTokens_of_scan hScan] at hError
  rcases Except.bind_eq_error_iff.1 hError with hRead | ⟨draft, hRead, hFinish⟩
  · obtain ⟨front, token, back, draft, rfl, hFront, hStep⟩ := Draft.exists_refused_of_read hRead
    have hStands : Clause.StandsIn text False ⟨front ++ token :: back, text.utf8ByteSize⟩ :=
      Clause.standsIn_of_ofText (Clause.ofText_of_scan hScan)
    have hToken : token.StandsIn text := hStands.tokens token (by simp)
    obtain ⟨hPosition, hExpected⟩ := Draft.listed_of_step hToken hStep hListed
    refine ⟨front, token, back ++ [.endAt text.utf8ByteSize], draft, by simp, hPosition.symm,
      ?_, hFront, ?_, hExpected⟩
    · exact fun other hMem => hScan.kind_ne_endOfInput other (List.mem_append_left _ hMem)
    · rintro rule rfl
      cases hStep
      cases hListed
  · obtain ⟨hOpen, rfl⟩ := Draft.finish_eq_error_iff.1 hFinish
    cases hListed
    exact ⟨body, .endAt text.utf8ByteSize, [], draft, rfl, rfl, hScan.kind_ne_endOfInput, hRead,
      hOpen, rfl⟩

/--
**What reports leave out.** Where reading the tokens of a text fails with a list of kinds, the error
stands at one of the tokens or at the end marker, and the kinds that can follow the tokens before it
are those that it lists together with those that lengthen a condition which is complete there. So
the list is whole if and only if there is no such condition.
-/
theorem Rule.listed_iff_canFollow {text : String} {tokens : List Token} {e : ParseError}
    {listed : List TokenKind} (hTokens : Token.ofText text = .ok tokens)
    (hError : Rule.ofTokens tokens = .error e) (hListed : e.fault.listed? = some listed) :
    (∃ token back, tokens = Token.before e.position tokens ++ token :: back ∧
      token.position = e.position) ∧
    (∀ kind, CanFollow (Token.before e.position tokens) kind ↔
      kind ∈ listed ∨ Lengthens (Token.before e.position tokens) kind) ∧
    ((∀ kind, CanFollow (Token.before e.position tokens) kind → kind ∈ listed) ↔
      ∀ kind, ¬ Lengthens (Token.before e.position tokens) kind) := by
  obtain ⟨front, token, back, draft, rfl, hPosition, hKinds, hFront, hOpen, rfl⟩ :=
    Rule.exists_listed_of_error hTokens hError hListed
  have hBefore := Token.before_eq hTokens
  rw [hPosition] at hBefore
  have hFollow : ∀ kind, CanFollow front kind ↔ kind ∈ draft.expected ∨ Lengthens front kind :=
    fun _ => canFollow_iff hFront hKinds hOpen
  rw [hBefore]
  refine ⟨⟨token, back, rfl, hPosition⟩, hFollow, ?_⟩
  constructor
  · intro hAll kind hLengthens
    have hListed : kind ∈ draft.expected := hAll kind ((hFollow kind).2 (.inr hLengthens))
    have hMem := (Draft.mem_lengthening_iff hFront).2 hLengthens
    exact Draft.not_mem_expected_of_mem_lengthening hMem hListed
  · intro hNone kind hKind
    exact ((hFollow kind).1 hKind).resolve_right (hNone kind)

/-- Behind a range only `=` can follow, as is reported. Behind an option a report leaves out
`or`. -/
theorem Rule.listed_iff_canFollow_range_and_option :
    let range : List Token := [⟨.ifWord, "If", 0⟩, ⟨.digits, "1", 3⟩, ⟨.dash, "-", 4⟩,
      ⟨.digits, "3", 5⟩]
    let rangeTokens := range ++ [⟨.comma, ",", 6⟩, ⟨.thenWord, "then", 8⟩, ⟨.question, "Q2", 13⟩,
      .endAt 15]
    let option : List Token := [⟨.ifWord, "If", 0⟩, ⟨.hash, "#", 3⟩, ⟨.digits, "1", 4⟩]
    let optionTokens := option ++ [.endAt 5]
    Token.ofText "If 1-3, then Q2" = .ok rangeTokens ∧
    Rule.ofTokens rangeTokens = .error ⟨6, .unexpected [.equals] ","⟩ ∧
    Token.before 6 rangeTokens = range ∧
    (∀ kind, CanFollow range kind → kind ∈ [.equals]) ∧
    Token.ofText "If #1" = .ok optionTokens ∧
    Rule.ofTokens optionTokens = .error ⟨5, .unterminated [.equals]⟩ ∧
    Token.before 5 optionTokens = option ∧
    ∀ kind, CanFollow option kind ↔ kind ∈ [.equals, .connective .or] := by
  intro range rangeTokens option optionTokens
  have hRange : Token.ofText "If 1-3, then Q2" = .ok rangeTokens := by decide +kernel
  have hRangeError : Rule.ofTokens rangeTokens = .error ⟨6, .unexpected [.equals] ","⟩ := by
    decide +kernel
  have hOption : Token.ofText "If #1" = .ok optionTokens := by decide +kernel
  have hOptionError : Rule.ofTokens optionTokens = .error ⟨5, .unterminated [.equals]⟩ := by
    decide +kernel
  have hRangeDraft : Draft.blank.read range = .ok (.range ⟨1, 3⟩) := by decide +kernel
  have hOptionDraft : Draft.blank.read option = .ok (.options [1]) := by decide +kernel
  obtain ⟨-, -, hWhole⟩ := Rule.listed_iff_canFollow hRange hRangeError rfl
  obtain ⟨-, hFollow, -⟩ := Rule.listed_iff_canFollow hOption hOptionError rfl
  refine ⟨hRange, hRangeError, rfl, ?_, hOption, hOptionError, rfl, ?_⟩
  · refine hWhole.2 fun kind hLengthens => ?_
    exact List.not_mem_nil ((Draft.mem_lengthening_iff hRangeDraft).2 hLengthens)
  · intro kind
    have hKind : CanFollow option kind ↔ kind ∈ [.equals] ∨ Lengthens option kind := hFollow kind
    rw [hKind, ← Draft.mem_lengthening_iff hOptionDraft]
    simp [Draft.lengthening]

/-- The report for two numbers in a row lists `=` and the comma, and no dash, which would make a
range of them. -/
theorem Rule.listed_without_dash :
    let front : List Token := [⟨.ifWord, "If", 0⟩, ⟨.digits, "3", 3⟩]
    let tokens := front ++ [⟨.digits, "5", 5⟩, .endAt 6]
    Token.ofText "If 3 5" = .ok tokens ∧
    Rule.ofTokens tokens = .error ⟨5, .unexpected [.equals, .comma] "5"⟩ ∧
    Token.before 5 tokens = front ∧ CanFollow front .dash ∧
    .dash ∉ ([.equals, .comma] : List TokenKind) := by
  intro front tokens
  have hTokens : Token.ofText "If 3 5" = .ok tokens := by decide +kernel
  have hError : Rule.ofTokens tokens = .error ⟨5, .unexpected [.equals, .comma] "5"⟩ := by
    decide +kernel
  have hRange : Rule.ofTokens (front ++ [⟨.dash, "-", 5⟩, ⟨.digits, "5", 6⟩, ⟨.equals, "=", 8⟩,
      ⟨.score, "Green", 10⟩, .endAt 15]) = .ok (.scoring ⟨.range ⟨3, 5⟩, .green⟩) := by
    decide +kernel
  exact ⟨hTokens, hError, rfl, ⟨_, _, _, rfl, hRange⟩, by decide⟩

end ChecklistLogic
