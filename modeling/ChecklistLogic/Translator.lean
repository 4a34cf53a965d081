import ChecklistLogic.ScoringLogic

/-!
# ChecklistLogic — translators

A translator reads rules under a policy and writes them as expressions of a form.

* `Setting` is one choice in the making of a translator; `Translator.ofSettings` makes them in
  order, so that of two choices on the same matter the later one holds.
* `Translator.readRule` reads one valid rule, `Translator.readLogic` the scoring logic of a cell.
* `Translator.scoringCalculation` reads scoring logic and writes its expression. A single rule
  falls back on the fallback score of the form.
-/

namespace ChecklistLogic

open Form

/-- A policy for reading rules and options for writing them. -/
structure Translator where
  policy : Policy := {}
  options : FormOptions := {}
  deriving DecidableEq

/-- One choice in the making of a translator. -/
inductive Setting where
  | allowDuplicateOptions (allow : Bool)
  | yesChoice (name : String)
  | noChoice (name : String)
  | negateBoolean (negate : Bool)
  | percentAsFraction (fraction : Bool)
  | fallbackScore (score : Score)
  deriving DecidableEq

namespace Translator

/-- Makes one choice. -/
def set (t : Translator) : Setting → Translator
  | .allowDuplicateOptions allow => { t with policy.allowDuplicateOptions := allow }
  | .yesChoice name => { t with options.yesChoice := name }
  | .noChoice name => { t with options.noChoice := name }
  | .negateBoolean negate => { t with options.negateBoolean := negate }
  | .percentAsFraction fraction => { t with options.percentAsFraction := fraction }
  | .fallbackScore score => { t with options.fallbackScore := score }

/-- The translator of the given choices; all others are the usual ones. -/
def ofSettings (settings : List Setting) : Translator :=
  settings.foldl set {}

/-- Reads a clause that makes up a valid rule. -/
def ruleOfClause (t : Translator) (clause : Clause) : Except LogicError Rule := do
  let rule ← (Rule.ofClause clause).mapError .parse
  (rule.validate t.policy).mapError .violation
  return rule

/-- Reads a text that makes up a valid rule. -/
def readRule (t : Translator) (text : String) : Except LogicError Rule := do
  let clause ← (Clause.ofText text).mapError .lex
  t.ruleOfClause clause

/-- Reads the scoring logic of a text. -/
def readLogic (t : Translator) (text : String) : Except LogicError ScoringLogic :=
  ScoringLogic.ofText t.policy text

/-- What a calculation falls back on if nothing else is given: the fallback score, but only for a
single rule. -/
def fallback? (t : Translator) (logic : ScoringLogic) : Option Expr :=
  if logic.rules.length = 1 then some t.options.fallbackScore.expr else none

/-- Reads scoring logic and writes its expression for the field of the given name. -/
def scoringCalculation (t : Translator) (text fieldName : String) (otherwise : Option Expr) :
    Except LogicError Expr := do
  let logic ← t.readLogic text
  (logic.calculation t.options fieldName (otherwise <|> t.fallback? logic)).mapError .form

end Translator

end ChecklistLogic
