import ChecklistLogic.Rule.Draft
import ChecklistLogic.Rule.Expression

/-!
# ChecklistLogic — scoring logic

The scoring rules of one question. In text they are separated by semicolons; in a form the first
rule whose condition holds gives the score.

* `ScoringLogic.ofText` reads all rules of a text, each with the offsets of the whole text. There
  is at least one (`rules_ne_nil_of_ofClause`).
* `ScoringLogic.calculation` is the expression of the score. What holds if no rule applies is
  given from outside; otherwise the last rule is taken to apply whenever no other rule does.
* `sectionCalculation` chains the questions of a section: what holds if no rule of a question
  applies is the calculation of the questions behind it.
-/

namespace ChecklistLogic

open Form

/-- Scoring rules in the order in which they are tried. Reading never gives an empty list. -/
structure ScoringLogic where
  rules : List ScoringRule
  deriving DecidableEq

/-- Reads a clause that makes up a valid scoring rule. A skip rule is refused at its comma, where
a scoring rule has `=`. -/
def ScoringRule.ofClause (policy : Policy) (clause : Clause) :
    Except LogicError ScoringRule :=
  match Rule.ofClause clause with
  | .error e => .error (.parse e)
  | .ok (.skip _) => .error (.parse ((clause.dropTo .comma).refusal [.equals]))
  | .ok (.scoring rule) =>
    match rule.condition.violation? policy with
    | some violation => .error (.violation violation)
    | none => .ok rule

namespace ScoringLogic

/-- Reads the scoring rules of a clause, one in each of its pieces. -/
def ofClause (policy : Policy) (clause : Clause) : Except LogicError ScoringLogic :=
  ScoringLogic.mk <$> clause.pieces.mapM (ScoringRule.ofClause policy)

/-- Reads the scoring rules of a text. -/
def ofText (policy : Policy) (text : String) : Except LogicError ScoringLogic := do
  let clause ← (Clause.ofText text).mapError .lex
  ofClause policy clause

/-- What has been read holds at least one rule. -/
theorem rules_ne_nil_of_ofClause {policy : Policy} {clause : Clause} {logic : ScoringLogic}
    (hLogic : ofClause policy clause = .ok logic) : logic.rules ≠ [] := by
  unfold ofClause Clause.pieces at hLogic
  generalize Clause.cut clause.stop clause.tokens = parts at hLogic
  obtain ⟨first, others⟩ := parts
  simp only [List.mapM_cons] at hLogic
  cases hFirst : ScoringRule.ofClause policy first with
  | error e => simp [hFirst, bind, Except.bind, Functor.map, Except.map] at hLogic
  | ok rule =>
    cases hOthers : others.mapM (ScoringRule.ofClause policy) with
    | error e => simp [hFirst, hOthers, bind, Except.bind, Functor.map, Except.map] at hLogic
    | ok rules =>
      simp [hFirst, hOthers, bind, Except.bind, Functor.map, Except.map, pure, Except.pure]
        at hLogic
      simp [← hLogic]

/-- Scoring rules in canonical text. -/
def text (logic : ScoringLogic) : String :=
  String.intercalate "; " (logic.rules.map ScoringRule.text)

/-- The score of the first rule that applies, or `otherwise` if none does. -/
def firstMatch (options : FormOptions) (field : FormField) (rules : List ScoringRule)
    (otherwise : Expr) : Expr :=
  rules.foldr (fun rule rest => .branch (rule.condition.expr options field) rule.target.expr rest)
    otherwise

/-- The expression of the score, or of `otherwise` if no rule applies. Without `otherwise` the last
rule needs no condition, provided that there is a rule before it. -/
def calculation (options : FormOptions) (logic : ScoringLogic) (fieldName : String)
    (otherwise : Option Expr) : Except FormError Expr := do
  let field ← FormField.ofName fieldName
  match otherwise with
  | some e => .ok (firstMatch options field logic.rules e)
  | none =>
    match logic.rules.dropLast, logic.rules.getLast? with
    | first :: rest, some last => .ok (firstMatch options field (first :: rest) last.target.expr)
    | _, _ => .error .missingFallback

variable {options : FormOptions} {field : FormField}

theorem calculation_some (logic : ScoringLogic) (e : Expr) :
    logic.calculation options field.name (some e) =
      .ok (firstMatch options field logic.rules e) := by
  unfold calculation
  rw [FormField.ofName_name]
  rfl

/-- Without an expression to fall back on, the last of several rules is the one to fall back on. -/
theorem calculation_none {logic : ScoringLogic} {front : List ScoringRule} {last : ScoringRule}
    (hRules : logic.rules = front ++ [last]) (hFront : front ≠ []) :
    logic.calculation options field.name none =
      .ok (firstMatch options field front last.target.expr) := by
  obtain ⟨first, rest, rfl⟩ := List.exists_cons_of_ne_nil hFront
  unfold calculation
  rw [FormField.ofName_name, hRules, List.dropLast_concat, List.getLast?_concat]
  rfl

/-- What is fallen back on stands at one place of the text of nested choices, as it is. -/
theorem exists_render_firstMatch (options : FormOptions) (field : FormField)
    (rules : List ScoringRule) : ∃ opening closing, ∀ e : Expr,
      (firstMatch options field rules e).render = opening ++ e.render ++ closing := by
  induction rules with
  | nil => exact ⟨"", "", fun e => by rw [String.empty_append, String.append_empty]; rfl⟩
  | cons rule rest ih =>
    obtain ⟨opening, closing, hRest⟩ := ih
    refine ⟨"if(" ++ (rule.condition.expr options field).render ++ ", " ++
      rule.target.expr.render ++ ", " ++ opening, closing ++ ")", fun e => ?_⟩
    show branchText _ _ (firstMatch options field rest e).render = _
    rw [hRest]
    simp only [branchText, String.append_assoc]

theorem exists_concat (logic : ScoringLogic) (hRules : 2 ≤ logic.rules.length) :
    ∃ front last, logic.rules = front ++ [last] ∧ front ≠ [] := by
  have hNonempty : logic.rules ≠ [] := by
    rintro hNil
    simp [hNil] at hRules
  refine ⟨logic.rules.dropLast, logic.rules.getLast hNonempty,
    (List.dropLast_concat_getLast hNonempty).symm, ?_⟩
  rw [ne_eq, ← List.length_eq_zero_iff, List.length_dropLast]
  omega

/-- A single rule has none before it. -/
theorem calculation_none_of_length_lt {logic : ScoringLogic} (hFew : logic.rules.length < 2) :
    logic.calculation options field.name none = .error .missingFallback := by
  have hNone : logic.rules.dropLast = [] := by
    rw [← List.length_eq_zero_iff, List.length_dropLast]
    omega
  unfold calculation
  rw [FormField.ofName_name, hNone]
  rfl

theorem calculation_of_not_legal {fieldName : String}
    (hIllegal : FormField.isLegalName fieldName = false) (logic : ScoringLogic)
    (otherwise : Option Expr) :
    logic.calculation options fieldName otherwise = .error (.invalidField fieldName) := by
  unfold calculation
  rw [FormField.ofName_of_not_legal hIllegal]
  rfl

end ScoringLogic

/-- A question of a section by its field, with its scoring logic if it has any. -/
structure SectionQuestion where
  fieldName : String
  logic : Option ScoringLogic
  deriving DecidableEq

/-- The calculation of a section: that of the first question whose rules apply. It is nothing if
no question has scoring logic. -/
def sectionCalculation (options : FormOptions) :
    List SectionQuestion → Except FormError (Option Expr)
  | [] => .ok none
  | question :: rest => do
    let otherwise ← sectionCalculation options rest
    match question.logic with
    | none => .ok otherwise
    | some logic => some <$> logic.calculation options question.fieldName otherwise

end ChecklistLogic
