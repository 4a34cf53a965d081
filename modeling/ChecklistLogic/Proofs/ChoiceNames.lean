import ChecklistLogic.Proofs.Readback
import ChecklistLogic.ScoringLogic

/-!
# ChecklistLogic — names of choices in expressions

The choices for "yes" and "no" are named by the form, and an expression has these names between
apostrophes as they are. The text of an expression is made of a front part with the names in it and
a tail that is the same for all names (`Woven`). What becomes of the tokens of the front part if the
names change is said by a list of slots: each is a token that is the same whatever the names, or a
literal for the name of a choice.

* **Names without apostrophes** — the front part has the tokens of the slots with the names filled
  in, and nothing is pending behind it. So other names change the contents of literals only.
* **Names with apostrophes** — a literal ends at the first apostrophe. All is as it should be up to
  the literal of the first name that has one (`BreaksOff`); what follows can be anything.
* **Foreign text** — an expression to fall back on may be any text. It stands in the tail, which is
  read as it is by itself, if it can be read at all.

Main results: `Woven.splits` says so of one text, and `Rule.choice_names` of all that is emitted.
-/

namespace ChecklistLogic

open Form XPath

-- ---------------------------------------------------------------------------
-- Names and slots
-- ---------------------------------------------------------------------------

/-- The options with other names for the choices "yes" and "no". -/
def FormOptions.named (options : FormOptions) (names : Answer → String) : FormOptions :=
  { options with yesChoice := names .yes, noChoice := names .no }

/-- The answer by whose choice an answer is looked up. -/
def Answer.choice (options : FormOptions) : Answer → Answer
  | .yes => if options.negateBoolean then .no else .yes
  | .no => if options.negateBoolean then .yes else .no

/-- The choices that the condition of a rule names, apart from answer options. -/
def Condition.choices (options : FormOptions) : Condition → List Answer
  | .answer a => [a.choice options]
  | _ => []

/-- The choices that the condition of a scoring rule names, apart from answer options. -/
def ScoringCondition.choices (options : FormOptions) : ScoringCondition → List Answer
  | .common c => c.choices options
  | _ => []

/-- The choices that the condition of a rule names, apart from answer options. -/
def Rule.choices (options : FormOptions) : Rule → List Answer
  | .scoring rule => rule.condition.choices options
  | .skip rule => rule.condition.choices options

/-- The rules whose conditions a calculation has: all of them, or all but the last if there is
nothing else to fall back on. -/
def ScoringLogic.conditional (logic : ScoringLogic) (otherwise : Option Expr) : List ScoringRule :=
  if otherwise.isSome then logic.rules else logic.rules.dropLast

/-- The choices that a calculation names. -/
def ScoringLogic.choices (options : FormOptions) (logic : ScoringLogic) (otherwise : Option Expr) :
    List Answer :=
  (logic.conditional otherwise).flatMap fun rule => rule.condition.choices options

namespace XPath

/-- A place among the tokens of an expression. -/
inductive Slot where
  /-- A token that does not depend on names. -/
  | fixed (token : Token)
  /-- A literal for the name of a choice. -/
  | choice (answer : Answer)

namespace Slot

/-- The token in a place if the choices have the given names. -/
def fill (names : Answer → String) : Slot → Token
  | .fixed token => token
  | .choice answer => .literal (names answer)

/-- The choice whose name stands in a place. -/
def choice? : Slot → Option Answer
  | .fixed _ => none
  | .choice answer => some answer

theorem fill_fixed (names : Answer → String) (tokens : List Token) :
    (tokens.map fixed).map (fill names) = tokens := by
  simp [Function.comp_def, fill]

theorem choice?_fixed (tokens : List Token) : (tokens.map fixed).filterMap choice? = [] := by
  simp [List.filterMap_map, Function.comp_def, choice?]

end Slot

/-- The token without the contents of its literal. -/
def Token.shape : Token → Token
  | .literal _ => .literal ""
  | token => token

theorem Slot.shape_fill (first second : Answer → String) (slot : Slot) :
    (slot.fill first).shape = (slot.fill second).shape := by
  cases slot <;> rfl

end XPath

/-- No name of these choices has an apostrophe. -/
def Quotable (choices : List Answer) (names : Answer → String) : Prop :=
  ∀ answer ∈ choices, NoApostrophe (names answer)

/-- The part of a text in front of its first apostrophe. -/
def beforeApostrophe (text : String) : String :=
  String.ofList (text.toList.takeWhile (· ≠ '\''))

/-- Whether a text fills slots with names up to the first name that has an apostrophe. There the
literal ends too early; what follows is not told. -/
def BreaksOff (names : Answer → String) (slots : List Slot) (text : String) : Prop :=
  ∃ before answer after, slots = before ++ .choice answer :: after ∧
    Quotable (before.filterMap Slot.choice?) names ∧ ¬ NoApostrophe (names answer) ∧
    ∃ front rest, text = front ++ rest ∧
      Closes front (before.map (Slot.fill names) ++ [.literal (beforeApostrophe (names answer))])

/-- Expressions that depend on names by slots in front of a tail. -/
structure SplitsAs (emit : (Answer → String) → Except FormError Expr) (choices : List Answer)
    (slots : List Slot) (tail : String) : Prop where
  choices_eq : slots.filterMap Slot.choice? = choices
  /-- If the names can be quoted, they fill the slots, and nothing is pending in front of the
  tail. -/
  fills : ∀ names, Quotable choices names → ∃ e front, emit names = .ok e ∧
    e.render = front ++ tail ∧ Closes front (slots.map (Slot.fill names))
  /-- So the tokens are the filled slots and those of the tail, if that can be read. -/
  tokens : ∀ names e, Quotable choices names → emit names = .ok e →
    XPath.Token.ofText? e.render =
      (XPath.Token.ofText? tail).map fun more => slots.map (Slot.fill names) ++ more
  /-- Other names that can be quoted give the same tokens up to the contents of literals. -/
  alike : ∀ first second e other, Quotable choices first → Quotable choices second →
    emit first = .ok e → emit second = .ok other →
    (XPath.Token.ofText? e.render).map (List.map XPath.Token.shape) =
      (XPath.Token.ofText? other.render).map (List.map XPath.Token.shape)
  breaks : ∀ names, ¬ Quotable choices names → ∃ e, emit names = .ok e ∧
    BreaksOff names slots e.render

-- ---------------------------------------------------------------------------
-- Texts with names in them
-- ---------------------------------------------------------------------------

/-- A text that leaves nothing pending behind its slots, unless a name breaks it off. -/
structure ClosesAs (text : (Answer → String) → String) (slots : List Slot) : Prop where
  closes : ∀ names, Quotable (slots.filterMap Slot.choice?) names →
    Closes (text names) (slots.map (Slot.fill names))
  breaks : ∀ names, ¬ Quotable (slots.filterMap Slot.choice?) names →
    BreaksOff names slots (text names)

variable {names : Answer → String}

theorem quotable_append {front back : List Answer} :
    Quotable (front ++ back) names ↔ Quotable front names ∧ Quotable back names := by
  simp [Quotable, or_imp, forall_and]

/-- A text stays broken off whatever follows it. -/
theorem BreaksOff.append {slots : List Slot} {text : String} (hText : BreaksOff names slots text)
    (others : List Slot) (more : String) : BreaksOff names (slots ++ others) (text ++ more) := by
  obtain ⟨before, answer, after, rfl, hBefore, hName, front, rest, rfl, hFront⟩ := hText
  refine ⟨before, answer, after ++ others, by simp, hBefore, hName, front, rest ++ more, ?_, hFront⟩
  rw [String.append_assoc]

/-- A text that is broken off may stand behind one that fills its slots. -/
theorem BreaksOff.prepend {slots others : List Slot} {text more : String}
    (hNames : Quotable (slots.filterMap Slot.choice?) names)
    (hText : Closes text (slots.map (Slot.fill names))) (hMore : BreaksOff names others more) :
    BreaksOff names (slots ++ others) (text ++ more) := by
  obtain ⟨before, answer, after, rfl, hBefore, hName, front, rest, rfl, hFront⟩ := hMore
  refine ⟨slots ++ before, answer, after, by simp, ?_, hName, text ++ front, rest, ?_, ?_⟩
  · rw [List.filterMap_append]
    exact quotable_append.2 ⟨hNames, hBefore⟩
  · rw [String.append_assoc]
  · rw [List.map_append, List.append_assoc]
    exact hText.append hFront

theorem closesAs_fixed {text : String} {tokens : List XPath.Token} (hText : Closes text tokens) :
    ClosesAs (fun _ => text) (tokens.map .fixed) where
  closes := fun names _ => by
    rw [Slot.fill_fixed]
    exact hText
  breaks := fun names hNot => by
    rw [Slot.choice?_fixed] at hNot
    exact absurd (by simp [Quotable]) hNot

theorem noApostrophe_beforeApostrophe (text : String) : NoApostrophe (beforeApostrophe text) := by
  intro c hMem
  rw [beforeApostrophe, String.toList_ofList] at hMem
  simpa using List.all_eq_true.1 List.all_takeWhile c hMem

/-- In quotes a text with an apostrophe begins with the quoted part in front of it. -/
theorem exists_quote_eq {text : String} (hText : ¬ NoApostrophe text) :
    ∃ rest, quote text = quote (beforeApostrophe text) ++ rest := by
  obtain ⟨apostrophe, hMem, rfl⟩ : ∃ c ∈ text.toList, c = '\'' := by
    simpa [NoApostrophe] using hText
  obtain ⟨contents, behind, hSplit, hFirst⟩ := List.eq_append_cons_of_mem hMem
  have hOrdinary : ∀ c ∈ contents, decide (c ≠ '\'') = true := fun c hInside =>
    decide_eq_true fun hSame => hFirst (hSame ▸ hInside)
  have hContents : text.toList.takeWhile (· ≠ '\'') = contents := by
    rw [hSplit, List.takeWhile_append_of_pos hOrdinary]
    simp
  refine ⟨String.ofList (behind ++ ['\'']), String.toList_inj.1 ?_⟩
  rw [quote, quote, beforeApostrophe, hContents]
  simp [hSplit]

theorem closesAs_choice (answer : Answer) :
    ClosesAs (fun names => quote (names answer)) [.choice answer] where
  closes := fun names hNames => closes_quote (hNames answer (by simp [Slot.choice?]))
  breaks := fun names hNot => by
    have hName : ¬ NoApostrophe (names answer) := by simpa [Quotable, Slot.choice?] using hNot
    obtain ⟨rest, hQuote⟩ := exists_quote_eq hName
    exact ⟨[], answer, [], rfl, by simp [Quotable], hName, _, rest, hQuote,
      closes_quote (noApostrophe_beforeApostrophe _)⟩

theorem ClosesAs.append {front back : (Answer → String) → String} {slots others : List Slot}
    (hFront : ClosesAs front slots) (hBack : ClosesAs back others) :
    ClosesAs (fun names => front names ++ back names) (slots ++ others) where
  closes := fun names hNames => by
    rw [List.filterMap_append, quotable_append] at hNames
    rw [List.map_append]
    exact (hFront.closes names hNames.1).append (hBack.closes names hNames.2)
  breaks := fun names hNot => by
    rw [List.filterMap_append, quotable_append] at hNot
    by_cases hFirst : Quotable (slots.filterMap Slot.choice?) names
    · have hSecond : ¬ Quotable (others.filterMap Slot.choice?) names := fun hNames =>
        hNot ⟨hFirst, hNames⟩
      exact (hBack.breaks names hSecond).prepend hFirst (hFront.closes names hFirst)
    · exact (hFront.breaks names hFirst).append others (back names)

/-- A text with names in its front part, behind which all is the same for all names. -/
structure Woven (text : (Answer → String) → String) (choices : List Answer)
    (front : (Answer → String) → String) (slots : List Slot) (tail : String) : Prop where
  closes : ClosesAs front slots
  choices_eq : slots.filterMap Slot.choice? = choices
  text_eq : ∀ names, text names = front names ++ tail

theorem closesAs_empty : ClosesAs (fun _ => "") [] := by
  have hEmpty : Closes "" [] := rfl
  exact closesAs_fixed hEmpty

/-- A text that is the same for all names. -/
theorem woven_of_same {text : (Answer → String) → String} {same : String}
    (hSame : ∀ names, text names = same) : Woven text [] (fun _ => "") [] same where
  closes := closesAs_empty
  choices_eq := rfl
  text_eq := fun names => by rw [hSame, String.empty_append]

variable {text : (Answer → String) → String} {choices : List Answer}
  {front : (Answer → String) → String} {slots : List Slot} {tail : String}

/-- Expressions with such a text depend on names by the slots of the front part. -/
theorem Woven.splits (hWoven : Woven text choices front slots tail)
    {emit : (Answer → String) → Except FormError Expr} {expr : (Answer → String) → Expr}
    (hEmit : ∀ names, emit names = .ok (expr names))
    (hText : ∀ names, (expr names).render = text names) : SplitsAs emit choices slots tail := by
  obtain ⟨hCloses, rfl, hTextEq⟩ := hWoven
  have hRender : ∀ {names e}, emit names = .ok e → e.render = front names ++ tail := by
    intro names e hOk
    obtain rfl : expr names = e := Except.ok.inj ((hEmit names).symm.trans hOk)
    rw [hText, hTextEq]
  have hTokens : ∀ names e, Quotable (slots.filterMap Slot.choice?) names → emit names = .ok e →
      XPath.Token.ofText? e.render =
        (XPath.Token.ofText? tail).map fun more => slots.map (Slot.fill names) ++ more :=
    fun names e hNames hOk => by
      rw [hRender hOk, (hCloses.closes names hNames).ofText?_append]
  constructor
  case choices_eq => rfl
  case fills =>
    intro names hNames
    exact ⟨_, _, hEmit names, hRender (hEmit names), hCloses.closes names hNames⟩
  case tokens => exact hTokens
  case alike =>
    intro first second e other hFirst hSecond hOk hOther
    rw [hTokens first e hFirst hOk, hTokens second other hSecond hOther]
    simp [Function.comp_def, Slot.shape_fill first second]
  case breaks =>
    intro names hNot
    refine ⟨_, hEmit names, ?_⟩
    rw [hRender (hEmit names)]
    simpa using (hCloses.breaks names hNot).append [] tail

-- ---------------------------------------------------------------------------
-- Conditions and choices between scores
-- ---------------------------------------------------------------------------

variable (options : FormOptions) (field : FormField)

theorem Answer.expr_named (answer : Answer) (names : Answer → String) :
    answer.expr (options.named names) field =
      if options.negateBoolean then .not (.selected field (names (answer.choice options)))
      else .selected field (names (answer.choice options)) := by
  cases hNegate : options.negateBoolean <;> cases answer <;>
    simp [expr, choice, FormOptions.named, hNegate]

theorem ComparisonTree.expr_named (tree : ComparisonTree) (names : Answer → String) :
    tree.expr (options.named names) field = tree.expr options field := by
  induction tree with
  | atom => rfl
  | join connective left right ihLeft ihRight => simp only [expr, ihLeft, ihRight]

theorem closesAs_selected (answer : Answer) :
    ∃ slots, slots.filterMap Slot.choice? = [answer] ∧
      ClosesAs (fun names => (Expr.selected field (names answer)).render) slots := by
  have hName : Closes "selected(" [.name "selected", .opening] := rfl
  have hFront := closesAs_fixed
    ((hName.append (closes_reference field)).append Expr.closes_comma)
  exact ⟨_, rfl, (hFront.append (closesAs_choice answer)).append
    (closesAs_fixed Expr.closes_closing)⟩

theorem Answer.exists_woven (answer : Answer) :
    ∃ front slots, Woven (fun names => (answer.expr (options.named names) field).render)
      [answer.choice options] front slots "" := by
  obtain ⟨slots, hChoice, hSelected⟩ := closesAs_selected field (answer.choice options)
  cases hNegate : options.negateBoolean with
  | false =>
    refine ⟨_, slots, hSelected, hChoice, fun names => ?_⟩
    rw [answer.expr_named, hNegate, String.append_empty]
    rfl
  | true =>
    have hName : Closes "not(" [.name "not", .opening] := rfl
    refine ⟨_, _, ((closesAs_fixed hName).append hSelected).append
      (closesAs_fixed Expr.closes_closing), ?_, fun names => ?_⟩
    · rw [List.filterMap_append, List.filterMap_append, Slot.choice?_fixed, Slot.choice?_fixed,
        hChoice]
      rfl
    · rw [answer.expr_named, hNegate, String.append_empty]
      rfl

/-- The text of a condition has names in front at most, and the rest of it has tokens. -/
theorem Condition.exists_woven (condition : Condition) :
    ∃ front slots tail, Woven (fun names => (condition.expr (options.named names) field).render)
      (condition.choices options) front slots tail ∧ (XPath.Token.ofText? tail).isSome := by
  cases condition with
  | answer a =>
    obtain ⟨front, slots, hWoven⟩ := a.exists_woven options field
    exact ⟨front, slots, "", hWoven, rfl⟩
  | count n =>
    have hShows : (Expr.compare .selectedCount field .equal (.whole n.toNat)).Shows _ := .compare
    obtain ⟨tokens, hScans, -⟩ := hShows.exists_tokens
    exact ⟨_, _, _, woven_of_same fun _ => rfl, Option.isSome_of_mem hScans⟩
  | comparison tree =>
    have hShows : (tree.expr options field).Shows _ := tree.shows_expr
    obtain ⟨tokens, hScans, -⟩ := hShows.exists_tokens
    refine ⟨_, _, (tree.expr options field).render, woven_of_same fun names => ?_,
      Option.isSome_of_mem hScans⟩
    exact congrArg Expr.render (tree.expr_named options field names)

theorem ScoringCondition.exists_woven (condition : ScoringCondition) :
    ∃ front slots tail, Woven (fun names => (condition.expr (options.named names) field).render)
      (condition.choices options) front slots tail ∧ (XPath.Token.ofText? tail).isSome := by
  cases condition with
  | common c => exact c.exists_woven options field
  | range r =>
    have hShows : (r.expr field).Shows _ := r.shows_expr
    obtain ⟨tokens, hScans, -⟩ := hShows.exists_tokens
    exact ⟨_, _, _, woven_of_same fun _ => rfl, Option.isSome_of_mem hScans⟩
  | selection s =>
    refine ⟨_, _, (s.expr field).render, woven_of_same fun _ => rfl, ?_⟩
    by_cases hOptions : s.options = []
    · -- a selection of no options is the empty text
      have hText : (s.expr field).render = "" := by simp [Selection.expr, hOptions, Expr.render]
      rw [hText]
      rfl
    · have hShows : (s.expr field).Shows _ := Selection.shows_expr hOptions
      obtain ⟨tokens, hScans, -⟩ := hShows.exists_tokens
      exact Option.isSome_of_mem hScans

theorem Rule.exists_woven (rule : Rule) :
    ∃ front slots tail,
      Woven (fun names => (rule.conditionExpr (options.named names) field).render)
        (rule.choices options) front slots tail ∧ (XPath.Token.ofText? tail).isSome := by
  cases rule with
  | scoring rule => exact rule.condition.exists_woven options field
  | skip rule => exact rule.condition.exists_woven options field

/-- The text of nested choices has names in front, and what it falls back on in the rest. -/
theorem ScoringLogic.exists_woven (rules : List ScoringRule) (e : Expr) :
    ∃ front slots tail, Woven (fun names => (firstMatch (options.named names) field rules e).render)
      (rules.flatMap fun rule => rule.condition.choices options) front slots tail ∧
      ((XPath.Token.ofText? e.render).isSome → (XPath.Token.ofText? tail).isSome) := by
  induction rules with
  | nil => exact ⟨_, _, _, woven_of_same fun _ => rfl, id⟩
  | cons rule rest ih =>
    obtain ⟨front, slots, tail, hCondition, hTail⟩ := rule.condition.exists_woven options field
    obtain ⟨behind, others, last, hRest, hLast⟩ := ih
    obtain ⟨tokens, hScans⟩ := Option.isSome_iff_exists.1 hTail
    have hOpen : Closes "if(" [.name "if", .opening] := rfl
    have hMiddle := ((Scans.append hScans Expr.closes_comma ⟨_, rfl, rfl⟩).append
      (closes_quote (noApostrophe_choiceName rule.target))).append Expr.closes_comma
    refine ⟨_, _, last ++ ")", ⟨(((closesAs_fixed hOpen).append hCondition.closes).append
      (closesAs_fixed hMiddle)).append hRest.closes, ?_, fun names => ?_⟩, fun hFallback => ?_⟩
    · simp only [List.filterMap_append, Slot.choice?_fixed, hCondition.choices_eq,
        hRest.choices_eq, List.nil_append, List.append_nil, List.flatMap_cons]
    · have hFirst := hCondition.text_eq names
      have hOthers := hRest.text_eq names
      simp only [firstMatch, List.foldr_cons, Expr.render, branchText] at hFirst hOthers ⊢
      rw [hFirst, hOthers]
      simp only [String.append_assoc]
      rfl
    · obtain ⟨more, hMore⟩ := Option.isSome_iff_exists.1 (hLast hFallback)
      exact Option.isSome_of_mem (Scans.append hMore Expr.closes_closing ⟨_, rfl, rfl⟩).scans

/-- Nested choices that fall back on a score depend on the names in their conditions. -/
theorem ScoringLogic.exists_slots (rules : List ScoringRule) (score : Score)
    {emit : (Answer → String) → Except FormError Expr}
    (hEmit : ∀ names,
      emit names = .ok (firstMatch (options.named names) field rules score.expr)) :
    ∃ slots tail, SplitsAs emit (rules.flatMap fun rule => rule.condition.choices options)
      slots tail ∧ (XPath.Token.ofText? tail).isSome := by
  obtain ⟨front, slots, tail, hWoven, hTail⟩ := exists_woven options field rules score.expr
  have hScore := (closes_quote (noApostrophe_choiceName score)).scans
  exact ⟨slots, tail, hWoven.splits hEmit fun _ => rfl, hTail (Option.isSome_of_mem hScore)⟩

-- ---------------------------------------------------------------------------
-- Names do not change the tokens
-- ---------------------------------------------------------------------------

/--
**Names without apostrophes leave the tokens alone.** For every rule and every legal field, the
condition and the whole expression depend on the names of the choices "yes" and "no" by a list of
slots in front of a tail: if none of the names that are written has an apostrophe, the text begins
with the tokens of the slots with the names filled in, each as the contents of one literal, and goes
on with the tail, which is the same for all names. So for two such assignments of names the tokens
differ in the contents of those literals only. If a written name has an apostrophe, this is so up to
the first such name, whose literal ends at its first apostrophe. The same holds for the calculation
of scoring rules, with or without an expression to fall back on, which may be any text; without one
a single rule has no calculation, whatever the names. The tail can be read, if the expression to
fall back on can.
-/
theorem Rule.choice_names (options : FormOptions) (field : FormField) :
    (∀ rule : Rule,
      (∃ slots tail, SplitsAs (fun names => rule.condition (options.named names) field.name)
        (rule.choices options) slots tail ∧ (XPath.Token.ofText? tail).isSome) ∧
      ∃ slots tail, SplitsAs (fun names => rule.expression (options.named names) field.name)
        (rule.choices options) slots tail ∧ (XPath.Token.ofText? tail).isSome) ∧
    ∀ (logic : ScoringLogic) (otherwise : Option String),
      (∃ slots tail,
        SplitsAs (fun names => logic.calculation (options.named names) field.name
            (otherwise.map .verbatim))
          (logic.choices options (otherwise.map .verbatim)) slots tail ∧
        ((∀ text ∈ otherwise, (XPath.Token.ofText? text).isSome) →
          (XPath.Token.ofText? tail).isSome)) ∨
      otherwise = none ∧ logic.rules.length < 2 ∧
        ∀ names, logic.calculation (options.named names) field.name none =
          .error .missingFallback := by
  refine ⟨fun rule => ?_, fun logic otherwise => ?_⟩
  · have hCondition : ∃ slots tail, SplitsAs
        (fun names => rule.condition (options.named names) field.name)
        (rule.choices options) slots tail ∧ (XPath.Token.ofText? tail).isSome := by
      obtain ⟨front, slots, tail, hWoven, hTail⟩ := rule.exists_woven options field
      have hSplits := hWoven.splits (fun names => rule.condition_name _ field) fun _ => rfl
      exact ⟨slots, tail, hSplits, hTail⟩
    refine ⟨hCondition, ?_⟩
    cases rule with
    | skip rule => exact hCondition
    | scoring rule =>
      have hSlots := ScoringLogic.exists_slots options field [rule] options.fallbackScore
        fun names => (Rule.scoring rule).expression_name (options.named names) field
      rw [List.flatMap_singleton] at hSlots
      exact hSlots
  · cases otherwise with
    | some text =>
      obtain ⟨front, slots, tail, hWoven, hTail⟩ :=
        ScoringLogic.exists_woven options field logic.rules (.verbatim text)
      have hSplits := hWoven.splits (fun _ => logic.calculation_some (.verbatim text)) fun _ => rfl
      exact .inl ⟨slots, tail, hSplits, fun hText => hTail (hText text rfl)⟩
    | none =>
      rcases Nat.lt_or_ge logic.rules.length 2 with hFew | hMany
      · exact .inr ⟨rfl, hFew, fun names => ScoringLogic.calculation_none_of_length_lt hFew⟩
      · obtain ⟨init, last, hRules, hInit⟩ := logic.exists_concat hMany
        have hChoices : logic.choices options none =
            init.flatMap fun rule => rule.condition.choices options := by
          simp [ScoringLogic.choices, ScoringLogic.conditional, hRules]
        obtain ⟨slots, tail, hSplits, hTail⟩ := ScoringLogic.exists_slots options field init
          last.target fun _ => ScoringLogic.calculation_none hRules hInit
        exact .inl ⟨slots, tail, hChoices ▸ hSplits, fun _ => hTail⟩

/-- Names with quotation marks and brackets, in a condition and in front of foreign text. -/
theorem Rule.choice_names_quotation_marks :
    let field : FormField := ⟨"Q1", rfl⟩
    let names : Answer → String := fun answer =>
      if answer = .yes then "oui" else "\"non\", (jamais)"
    let rule : ScoringRule := ⟨.common (.answer .yes), .green⟩
    (∃ (slots : List Slot) (e : Expr) (more : List XPath.Token),
      slots.filterMap Slot.choice? = [.no] ∧
      (Rule.scoring rule).condition (FormOptions.named {} names) field.name = .ok e ∧
      XPath.Token.ofText? e.render = some (slots.map (Slot.fill names) ++ more)) ∧
    ∃ (slots : List Slot) (e : Expr) (front tail : String),
      slots.filterMap Slot.choice? = [.no] ∧
      ScoringLogic.calculation (FormOptions.named {} names) ⟨[rule]⟩ field.name
        (some (.verbatim "../total")) = .ok e ∧
      e.render = front ++ tail ∧ Closes front (slots.map (Slot.fill names)) := by
  intro field names rule
  have hNames : Quotable [.no] names := by
    have hText : NoApostrophe "\"non\", (jamais)" := by simp [NoApostrophe]
    simpa [Quotable, names] using hText
  obtain ⟨hRules, hLogic⟩ := Rule.choice_names {} field
  constructor
  · obtain ⟨⟨slots, tail, hSplits, hTail⟩, -⟩ := hRules (.scoring rule)
    obtain ⟨e, front, hOk, -⟩ := hSplits.fills names hNames
    obtain ⟨more, hMore⟩ := Option.isSome_iff_exists.1 hTail
    refine ⟨slots, e, more, hSplits.choices_eq, hOk, ?_⟩
    rw [hSplits.tokens names e hNames hOk, hMore]
    rfl
  · obtain ⟨slots, tail, hSplits, -⟩ | ⟨hNone, -⟩ := hLogic ⟨[rule]⟩ (some "../total")
    · obtain ⟨e, front, hOk, hText, hFront⟩ := hSplits.fills names hNames
      exact ⟨slots, e, front, tail, hSplits.choices_eq, hOk, hText, hFront⟩
    · cases hNone

/-- A name with an apostrophe ends its literal, so that what stands behind it becomes tokens. -/
theorem Rule.choice_names_apostrophe :
    let field : FormField := ⟨"Q1", rfl⟩
    let rule : Rule := .scoring ⟨.common (.answer .yes), .green⟩
    ∃ e other tokens others, rule.condition {} field.name = .ok e ∧
      rule.condition { noChoice := "no' or 'x" } field.name = .ok other ∧
      XPath.Token.ofText? e.render = some tokens ∧
      XPath.Token.ofText? other.render = some others ∧
      tokens.map XPath.Token.shape ≠ others.map XPath.Token.shape := by
  intro field rule
  let front : List XPath.Token :=
    [.name "not", .opening, .name "selected", .opening, .field field, .comma, .literal "no"]
  refine ⟨_, _, front ++ [.closing, .closing],
    front ++ [.name "or", .literal "x", .closing, .closing], rule.condition_name _ field,
    rule.condition_name _ field, ?_, ?_, ?_⟩
  · decide +kernel
  · decide +kernel
  · decide +kernel

end ChecklistLogic
