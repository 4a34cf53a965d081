import ChecklistLogic.Proofs.Except
import ChecklistLogic.ScoringLogic

/-!
# ChecklistLogic — sections

The calculation of a section is written question by question from the last one to the first, each
with the calculation behind it as what holds otherwise. What comes out is one chain: the rules of
all questions in order, each with the field of its own question, and only the very last rule
without its condition.

* `sectionCalculation_eq_scored` — questions without scoring logic do not count.
* `scoredCalculation_eq_error_iff` — the writing goes backwards, so of several questions that fail
  the last one is reported (`lastFailure?`).
* `exists_chain` — what is written if none fails, by induction on the questions before the last.

Main result: `sectionCalculation_flat`.
-/

namespace ChecklistLogic

open Form

variable {options : FormOptions}

-- ---------------------------------------------------------------------------
-- Questions and their rules
-- ---------------------------------------------------------------------------

/-- A question that has scoring logic. -/
structure ScoredQuestion where
  fieldName : String
  logic : ScoringLogic

/-- The questions of a section that have scoring logic. -/
def scoredQuestions (questions : List SectionQuestion) : List ScoredQuestion :=
  questions.filterMap fun question => question.logic.map (ScoredQuestion.mk question.fieldName)

/-- Why no calculation is written for a question. Only the last one needs two rules. -/
def ScoredQuestion.failure? (question : ScoredQuestion) (isLast : Bool) : Option FormError :=
  if !FormField.isLegalName question.fieldName then some (.invalidField question.fieldName)
  else if isLast && question.logic.rules.length < 2 then some .missingFallback
  else none

/-- A question with a legal field. -/
def ScoredQuestion.bound (question : FormField × ScoringLogic) : ScoredQuestion :=
  ⟨question.1.name, question.2⟩

/-- The rules of questions in order, each with the field of its question. -/
def boundRules (questions : List (FormField × ScoringLogic)) : List (FormField × ScoringRule) :=
  questions.flatMap fun (field, logic) => logic.rules.map fun rule => (field, rule)

/-- The text of choices nested to the right: each rule has the rest of the chain for its
alternative. -/
def chainText (options : FormOptions) (rules : List (FormField × ScoringRule))
    (otherwise : String) : String :=
  rules.foldr
    (fun (field, rule) rest =>
      branchText (rule.condition.expr options field).render (quote rule.target.choiceName) rest)
    otherwise

theorem chainText_append (front back : List (FormField × ScoringRule)) (otherwise : String) :
    chainText options (front ++ back) otherwise =
      chainText options front (chainText options back otherwise) :=
  List.foldr_append

theorem ScoringLogic.render_firstMatch (field : FormField) (rules : List ScoringRule)
    (otherwise : Expr) :
    (firstMatch options field rules otherwise).render =
      chainText options (rules.map fun rule => (field, rule)) otherwise.render := by
  induction rules with
  | nil => rfl
  | cons rule rest ih =>
    show branchText _ _ (firstMatch options field rest otherwise).render = _
    rw [ih]
    rfl

-- ---------------------------------------------------------------------------
-- From the last question to the first
-- ---------------------------------------------------------------------------

/-- The calculation of questions that all have scoring logic. -/
def scoredCalculation (options : FormOptions) :
    List ScoredQuestion → Except FormError (Option Expr)
  | [] => .ok none
  | question :: rest => do
    let otherwise ← scoredCalculation options rest
    some <$> question.logic.calculation options question.fieldName otherwise

theorem sectionCalculation_eq_scored (questions : List SectionQuestion) :
    sectionCalculation options questions =
      scoredCalculation options (scoredQuestions questions) := by
  induction questions with
  | nil => rfl
  | cons question rest ih =>
    obtain ⟨fieldName, logic⟩ := question
    rw [sectionCalculation, ih]
    cases logic with
    | none =>
      show _ = scoredCalculation options (scoredQuestions rest)
      cases scoredCalculation options (scoredQuestions rest) <;> rfl
    | some logic => rfl

/-- The failure of the last question that fails. -/
def lastFailure? : List ScoredQuestion → Option FormError
  | [] => none
  | question :: rest => (lastFailure? rest).or (question.failure? rest.isEmpty)

theorem lastFailure?_eq_none_iff {questions : List ScoredQuestion} :
    lastFailure? questions = none ↔ ∀ before question after,
      questions = before ++ question :: after → question.failure? after.isEmpty = none := by
  induction questions with
  | nil => simp [lastFailure?]
  | cons question rest ih =>
    rw [lastFailure?, Option.or_eq_none_iff, ih]
    constructor
    · rintro ⟨hRest, hQuestion⟩ before other after hSame
      cases before with
      | nil =>
        obtain ⟨rfl, rfl⟩ := List.cons.inj hSame
        exact hQuestion
      | cons first others =>
        obtain ⟨rfl, rfl⟩ := List.cons.inj hSame
        exact hRest others other after rfl
    · intro hNone
      refine ⟨fun before other after hSame => ?_, hNone [] question rest rfl⟩
      exact hNone (question :: before) other after (by rw [hSame]; rfl)

theorem lastFailure?_eq_some_iff {questions : List ScoredQuestion} {e : FormError} :
    lastFailure? questions = some e ↔ ∃ before question after,
      questions = before ++ question :: after ∧ question.failure? after.isEmpty = some e ∧
      lastFailure? after = none := by
  induction questions with
  | nil => simp [lastFailure?]
  | cons question rest ih =>
    rw [lastFailure?, Option.or_eq_some_iff, ih]
    constructor
    · rintro (⟨before, failing, after, rfl, hFails, hAfter⟩ | ⟨hRest, hFails⟩)
      · exact ⟨question :: before, failing, after, rfl, hFails, hAfter⟩
      · exact ⟨[], question, rest, rfl, hFails, hRest⟩
    · rintro ⟨before, failing, after, hSame, hFails, hAfter⟩
      cases before with
      | nil =>
        obtain ⟨rfl, rfl⟩ := List.cons.inj hSame
        exact .inr ⟨hAfter, hFails⟩
      | cons first others =>
        obtain ⟨rfl, rfl⟩ := List.cons.inj hSame
        exact .inl ⟨others, failing, after, rfl, hFails, hAfter⟩

/-- A calculation fails as its question does, which is the last one if nothing is behind it. -/
theorem ScoredQuestion.calculation_eq_error_iff {question : ScoredQuestion}
    {otherwise : Option Expr} {e : FormError} :
    question.logic.calculation options question.fieldName otherwise = .error e ↔
      question.failure? otherwise.isNone = some e := by
  obtain ⟨fieldName, logic⟩ := question
  unfold failure?
  cases hLegal : FormField.isLegalName fieldName with
  | false =>
    rw [ScoringLogic.calculation_of_not_legal hLegal]
    simp
  | true =>
    obtain ⟨field, rfl⟩ : ∃ field : FormField, field.name = fieldName :=
      ⟨⟨fieldName, hLegal⟩, rfl⟩
    cases otherwise with
    | some rest =>
      rw [ScoringLogic.calculation_some]
      simp
    | none =>
      by_cases hFew : logic.rules.length < 2
      · rw [ScoringLogic.calculation_none_of_length_lt hFew]
        simp [hFew]
      · obtain ⟨front, last, hRules, hFront⟩ := logic.exists_concat (by omega)
        rw [ScoringLogic.calculation_none hRules hFront]
        simp [hFew]

theorem scoredCalculation_cons_of_error {question : ScoredQuestion} {rest : List ScoredQuestion}
    {e : FormError} (hRest : scoredCalculation options rest = .error e) :
    scoredCalculation options (question :: rest) = .error e := by
  rw [scoredCalculation, hRest]
  rfl

theorem scoredCalculation_cons_of_ok {question : ScoredQuestion} {rest : List ScoredQuestion}
    {otherwise : Option Expr} (hRest : scoredCalculation options rest = .ok otherwise) :
    scoredCalculation options (question :: rest) =
      some <$> question.logic.calculation options question.fieldName otherwise := by
  rw [scoredCalculation, hRest]
  rfl

/-- Only where there is no question there is no calculation. -/
theorem isNone_of_scoredCalculation {questions : List ScoredQuestion} {result : Option Expr}
    (hOk : scoredCalculation options questions = .ok result) :
    result.isNone = questions.isEmpty := by
  cases questions with
  | nil =>
    cases hOk
    rfl
  | cons question rest =>
    obtain ⟨otherwise, -, hCalculation⟩ := Except.bind_eq_ok_iff.1 hOk
    obtain ⟨e, -, rfl⟩ := Except.map_eq_ok_iff.1 hCalculation
    rfl

/-- Of several questions that fail the last one is reported. -/
theorem scoredCalculation_eq_error_iff {questions : List ScoredQuestion} {e : FormError} :
    scoredCalculation options questions = .error e ↔ lastFailure? questions = some e := by
  induction questions generalizing e with
  | nil => simp [scoredCalculation, lastFailure?]
  | cons question rest ih =>
    rw [lastFailure?, Option.or_eq_some_iff, ← ih]
    cases hRest : scoredCalculation options rest with
    | error other =>
      rw [scoredCalculation_cons_of_error hRest, ih.1 hRest]
      simp
    | ok otherwise =>
      have hNone : lastFailure? rest = none := by
        refine Option.eq_none_iff_forall_ne_some.2 fun other hOther => ?_
        rw [ih.2 hOther] at hRest
        cases hRest
      rw [scoredCalculation_cons_of_ok hRest, ← isNone_of_scoredCalculation hRest, hNone,
        ← ScoredQuestion.calculation_eq_error_iff]
      cases question.logic.calculation options question.fieldName otherwise <;>
        simp [Functor.map, Except.map]

-- ---------------------------------------------------------------------------
-- The chain
-- ---------------------------------------------------------------------------

/-- Questions with legal fields, the last of which has two rules, become one chain. -/
theorem exists_chain (fields : List (FormField × ScoringLogic)) (field : FormField)
    {logic : ScoringLogic} (hLogic : 2 ≤ logic.rules.length) : ∃ e front last,
      scoredCalculation options
        ((fields ++ [(field, logic)]).map .bound) = .ok (some e) ∧
      boundRules (fields ++ [(field, logic)]) = front ++ [last] ∧
      e.render = chainText options front (quote last.2.target.choiceName) := by
  induction fields with
  | nil =>
    obtain ⟨front, last, hRules, hFront⟩ := logic.exists_concat hLogic
    refine ⟨ScoringLogic.firstMatch options field front last.target.expr,
      front.map fun rule => (field, rule), (field, last), ?_, ?_, ?_⟩
    · rw [List.nil_append, List.map_singleton, scoredCalculation_cons_of_ok rfl]
      show some <$> logic.calculation options field.name none = _
      rw [ScoringLogic.calculation_none hRules hFront]
      rfl
    · simp [boundRules, hRules]
    · rw [ScoringLogic.render_firstMatch]
      rfl
  | cons first rest ih =>
    obtain ⟨ownField, own⟩ := first
    obtain ⟨e, front, last, hRest, hRules, hText⟩ := ih
    refine ⟨ScoringLogic.firstMatch options ownField own.rules e,
      (own.rules.map fun rule => (ownField, rule)) ++ front, last, ?_, ?_, ?_⟩
    · rw [List.cons_append, List.map_cons, scoredCalculation_cons_of_ok hRest]
      show some <$> own.calculation options ownField.name (some e) = _
      rw [ScoringLogic.calculation_some]
      rfl
    · unfold boundRules at hRules ⊢
      rw [List.cons_append, List.flatMap_cons, hRules, List.append_assoc]
    · rw [ScoringLogic.render_firstMatch, hText, chainText_append]

theorem exists_fields {questions : List ScoredQuestion}
    (hLegal : ∀ question ∈ questions, FormField.isLegalName question.fieldName = true) :
    ∃ fields : List (FormField × ScoringLogic),
      questions = fields.map .bound := by
  induction questions with
  | nil => exact ⟨[], rfl⟩
  | cons question rest ih =>
    obtain ⟨fields, rfl⟩ := ih fun other hMem => hLegal other (by simp [hMem])
    exact ⟨(⟨question.fieldName, hLegal question (by simp)⟩, question.logic) :: fields, rfl⟩

theorem exists_chain_of_legal (options : FormOptions) {before : List ScoredQuestion}
    {final : ScoredQuestion}
    (hLegal : ∀ question ∈ before ++ [final],
      FormField.isLegalName question.fieldName = true)
    (hRules : 2 ≤ final.logic.rules.length) : ∃ fields e front last,
      before ++ [final] = fields.map .bound ∧
      scoredCalculation options (before ++ [final]) = .ok (some e) ∧
      boundRules fields = front ++ [last] ∧
      e.render = chainText options front (quote last.2.target.choiceName) := by
  obtain ⟨earlier, rfl⟩ := exists_fields fun question hMem =>
    hLegal question (List.mem_append_left [final] hMem)
  obtain ⟨field, hField⟩ : ∃ field : FormField, field.name = final.fieldName :=
    ⟨⟨final.fieldName, hLegal final (by simp)⟩, rfl⟩
  have hFinal : ScoredQuestion.bound (field, final.logic) = final := by
    unfold ScoredQuestion.bound
    rw [hField]
  have hQuestions : earlier.map .bound ++ [final] =
      (earlier ++ [(field, final.logic)]).map .bound := by
    rw [List.map_append, List.map_singleton, hFinal]
  obtain ⟨e, front, last, hOk, hBound, hText⟩ := exists_chain earlier field hRules
  rw [hQuestions]
  exact ⟨_, e, front, last, rfl, hOk, hBound, hText⟩

theorem ScoredQuestion.failure?_eq_none_iff {question : ScoredQuestion} {isLast : Bool} :
    question.failure? isLast = none ↔ FormField.isLegalName question.fieldName = true ∧
      (isLast = true → 2 ≤ question.logic.rules.length) := by
  have hRules : ¬ question.logic.rules.length < 2 ↔ 2 ≤ question.logic.rules.length := Nat.not_lt
  unfold failure?
  rw [← hRules]
  cases FormField.isLegalName question.fieldName <;> cases isLast <;> simp

/-- What is written has been written for legal fields and a last question with two rules. -/
theorem legal_of_scoredCalculation {before : List ScoredQuestion} {final : ScoredQuestion}
    {result : Option Expr} (hOk : scoredCalculation options (before ++ [final]) = .ok result) :
    (∀ question ∈ before ++ [final], FormField.isLegalName question.fieldName = true) ∧
      2 ≤ final.logic.rules.length := by
  have hNone : lastFailure? (before ++ [final]) = none := by
    refine Option.eq_none_iff_forall_ne_some.2 fun e hFailure => ?_
    rw [scoredCalculation_eq_error_iff.2 hFailure] at hOk
    cases hOk
  rw [lastFailure?_eq_none_iff] at hNone
  constructor
  · intro question hMem
    obtain ⟨earlier, later, hSplit⟩ := List.append_of_mem hMem
    exact (ScoredQuestion.failure?_eq_none_iff.1 (hNone earlier question later hSplit)).1
  · exact (ScoredQuestion.failure?_eq_none_iff.1 (hNone before final [] rfl)).2 rfl

/--
**A section is one chain of rules.** Questions without scoring logic do not count; if none is left
there is no calculation. Otherwise one is written exactly if all fields are legal and the last
question has at least two rules. It is the chain of all rules of all questions in order, each bound
to the field of its own question, in which the very last rule gives its score without a condition.
If no calculation is written, the failure is that of the last question that fails.
-/
theorem sectionCalculation_flat (options : FormOptions) (questions : List SectionQuestion) :
    (scoredQuestions questions = [] → sectionCalculation options questions = .ok none) ∧
    (∀ before final, scoredQuestions questions = before ++ [final] →
      ((∃ result, sectionCalculation options questions = .ok result) ↔
        (∀ question ∈ before ++ [final], FormField.isLegalName question.fieldName = true) ∧
          2 ≤ final.logic.rules.length) ∧
      ∀ result, sectionCalculation options questions = .ok result →
        ∃ fields e front last,
          before ++ [final] = fields.map .bound ∧
          result = some e ∧ boundRules fields = front ++ [last] ∧
          e.render = chainText options front (quote last.2.target.choiceName)) ∧
    ∀ e, sectionCalculation options questions = .error e ↔ ∃ before question after,
      scoredQuestions questions = before ++ question :: after ∧
      question.failure? after.isEmpty = some e ∧
      ∀ others other behind, after = others ++ other :: behind →
        other.failure? behind.isEmpty = none := by
  rw [sectionCalculation_eq_scored]
  refine ⟨fun hNone => ?_, fun before final hQuestions => ?_, fun e => ?_⟩
  · rw [hNone]
    rfl
  · rw [hQuestions]
    refine ⟨⟨?_, ?_⟩, fun result hOk => ?_⟩
    · rintro ⟨result, hOk⟩
      exact legal_of_scoredCalculation hOk
    · rintro ⟨hLegal, hRules⟩
      obtain ⟨_, e, _, _, _, hOk, _⟩ := exists_chain_of_legal options hLegal hRules
      exact ⟨some e, hOk⟩
    · obtain ⟨hLegal, hRules⟩ := legal_of_scoredCalculation hOk
      obtain ⟨fields, e, front, last, hFields, hChain, hBound, hText⟩ :=
        exists_chain_of_legal options hLegal hRules
      rw [hChain] at hOk
      cases hOk
      exact ⟨fields, e, front, last, hFields, rfl, hBound, hText⟩
  · rw [scoredCalculation_eq_error_iff, lastFailure?_eq_some_iff]
    simp only [lastFailure?_eq_none_iff]

/-- A question without scoring logic between one with a single rule and one with two. -/
theorem sectionCalculation_flat_skipping :
    let questions : List SectionQuestion :=
      [⟨"Q1", some ⟨[⟨.common (.answer .no), .red⟩]⟩⟩, ⟨"7!", none⟩,
        ⟨"Q3", some ⟨[⟨.range ⟨1, 2⟩, .green⟩, ⟨.common (.count 3), .yellow⟩]⟩⟩]
    ∃ e, sectionCalculation {} questions = .ok (some e) ∧
      e.render = "if(not(selected($\x7bQ1\x7d, 'yes')), 'red', " ++
        "if(count-selected($\x7bQ3\x7d) >= 1 and count-selected($\x7bQ3\x7d) <= 2, " ++
        "'green', 'yellow'))" := by
  intro questions
  obtain ⟨hIff, hChain⟩ := (sectionCalculation_flat {} questions).2.1
    [⟨"Q1", ⟨[⟨.common (.answer .no), .red⟩]⟩⟩]
    ⟨"Q3", ⟨[⟨.range ⟨1, 2⟩, .green⟩, ⟨.common (.count 3), .yellow⟩]⟩⟩ rfl
  obtain ⟨result, hOk⟩ := hIff.2 (by decide)
  obtain ⟨_, e, _, _, _, rfl, _⟩ := hChain result hOk
  refine ⟨e, hOk, ?_⟩
  cases hOk
  decide

end ChecklistLogic
