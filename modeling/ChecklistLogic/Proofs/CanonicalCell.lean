import ChecklistLogic.Proofs.Canonical
import ChecklistLogic.Proofs.CellGrammar

/-!
# ChecklistLogic — canonical text of cells

Scoring logic is written rule by rule with semicolons between the rules, and read by cutting its
text at all semicolons. The two fit together because the text of a rule has no semicolon in it and a
semicolon changes no lexeme beside it.

* `ScoringLogic.scansAs_text` — the text of rules scans as tokens that spell them.
* `ScoringLogic.count_semicolon_text` — the semicolons of the text are those between the rules.
* `ScoringLogic.ofText_text` — which scoring logic is read again from its own text.
-/

namespace ChecklistLogic

theorem Rule.semicolon_not_mem_text {rule : Rule} (hOptions : rule.HasOptions) :
    ';' ∉ rule.text.toList := by
  obtain ⟨clause, hClause, hSpelled⟩ := (Rule.scansAs_text hOptions).ofText
  exact (Clause.ofText_eq_ok_iff.1 hClause).not_mem_of_kind_ne Lexeme.isSign_semicolon
    hSpelled.kind_ne_semicolon

/-- A valid rule has options where it selects. -/
theorem Rule.hasOptions_of_validate {policy : Policy} {rule : Rule}
    (hValid : rule.validate policy = .ok ()) : rule.HasOptions := by
  rintro selection hMem hNone
  rw [validate_eq_ok_iff] at hValid
  cases rule with
  | skip rule => cases hMem
  | scoring rule =>
    obtain ⟨condition, target⟩ := rule
    cases condition with
    | selection own =>
      obtain rfl : own = selection := Option.some.inj hMem
      simp [violation?, ScoringCondition.violation?, Selection.violation?, hNone] at hValid
    | _ => cases hMem

namespace ScoringLogic

theorem toList_text_cons {rule : ScoringRule} {rules : List ScoringRule} (hRules : rules ≠ []) :
    (text ⟨rule :: rules⟩).toList =
      rule.text.toList ++ ([';'] ++ ' ' :: (text ⟨rules⟩).toList) := by
  obtain ⟨next, rest, rfl⟩ := List.exists_cons_of_ne_nil hRules
  simp [text]

/-- The text of rules that are nested to the left spells them. -/
theorem scansAs_text {rules : List ScoringRule} (hRules : rules ≠ [])
    (hRegular : ∀ rule ∈ rules,
      (Rule.scoring rule).IsLeftNested ∧ (Rule.scoring rule).HasOptions) :
    ScansAs (text ⟨rules⟩).toList (Spelled rules) := by
  induction rules with
  | nil => exact absurd rfl hRules
  | cons rule rest ih =>
    obtain ⟨⟨hNested, hOptions⟩, hRest⟩ := List.forall_mem_cons.1 hRegular
    have hRule : ScansAs rule.text.toList (Rule.scoring rule).Spelled := by
      have hScans := ScoringRule.scansAs_text hOptions
      rwa [(Rule.scoring rule).leftNested_eq_self_iff.2 hNested] at hScans
    by_cases hLast : rest = []
    · subst hLast
      exact hRule.imp fun _ hSpelled => .single hSpelled
    · have hWhole : Lexeme.IsWhole ⟨.semicolon, [';']⟩ := rfl
      have hBehind := ScansAs.lexeme_append hWhole ((ih hLast hRest).blank (c := ' ') rfl) (by simp)
        (by rintro c ⟨⟩; rfl)
      rw [toList_text_cons hLast]
      refine (hRule.append hBehind (by simp) (by simp)).imp ?_
      rintro tokens ⟨front, back, hFront, ⟨position, others, hOthers, rfl⟩, rfl⟩
      exact .more hFront rfl hOthers

/-- The semicolons of a text are those between its rules. -/
theorem count_semicolon_text {rules : List ScoringRule}
    (hOptions : ∀ rule ∈ rules, (Rule.scoring rule).HasOptions) :
    (text ⟨rules⟩).toList.count ';' = rules.length - 1 := by
  induction rules with
  | nil => rfl
  | cons rule rest ih =>
    obtain ⟨hRule, hRest⟩ := List.forall_mem_cons.1 hOptions
    have hNone : rule.text.toList.count ';' = 0 :=
      List.count_eq_zero.2 (Rule.semicolon_not_mem_text hRule)
    by_cases hLast : rest = []
    · subst hLast
      exact hNone
    · have hLength : 0 < rest.length := List.length_pos_iff.2 hLast
      rw [toList_text_cons hLast, List.count_append, hNone]
      simp [ih hRest]
      omega

variable {policy : Policy} {logic : ScoringLogic}

/-- A text is read as scoring logic if it scans as tokens that spell valid rules. -/
theorem ofText_eq_ok_iff {text : String} :
    ofText policy text = .ok logic ↔ ∃ clause, Clause.ofText text = .ok clause ∧
      Spelled logic.rules clause.tokens ∧
        ∀ rule ∈ logic.rules, (Rule.scoring rule).validate policy = .ok () := by
  unfold ofText
  rw [Except.bind_eq_ok_iff]
  simp only [Except.mapError_eq_ok_iff, ofClause_eq_ok_iff]

/-- Valid rules that are nested to the left are read from their own text. -/
theorem ofText_text_eq_ok_iff :
    ofText policy logic.text = .ok logic ↔ logic.rules ≠ [] ∧ ∀ rule ∈ logic.rules,
      (Rule.scoring rule).validate policy = .ok () ∧ (Rule.scoring rule).IsLeftNested := by
  rw [ofText_eq_ok_iff]
  constructor
  · rintro ⟨clause, -, hSpelled, hValid⟩
    obtain ⟨hRules, hRegular⟩ := hSpelled.regular
    exact ⟨hRules, fun rule hMem => ⟨hValid rule hMem, (hRegular rule hMem).1⟩⟩
  · rintro ⟨hRules, hEach⟩
    have hRegular : ∀ rule ∈ logic.rules,
        (Rule.scoring rule).IsLeftNested ∧ (Rule.scoring rule).HasOptions := fun rule hMem =>
      ⟨(hEach rule hMem).2, Rule.hasOptions_of_validate (hEach rule hMem).1⟩
    obtain ⟨clause, hClause, hSpelled⟩ := (scansAs_text hRules hRegular).ofText
    exact ⟨clause, hClause, hSpelled, fun rule hMem => (hEach rule hMem).1⟩

/--
**Canonical text of a cell reads back.** Scoring logic is read from its own text, rule by rule as it
is, exactly if it has rules, all of them are valid, and the comparisons of each are nested to the
left. So whatever has been read from some text is read again from its canonical text, in which the
semicolons are one fewer than the rules. Scoring logic without rules has a text that is none.
-/
theorem ofText_text (policy : Policy) (logic : ScoringLogic) :
    (ofText policy logic.text = .ok logic ↔ logic.rules ≠ [] ∧ ∀ rule ∈ logic.rules,
      (Rule.scoring rule).validate policy = .ok () ∧ (Rule.scoring rule).IsLeftNested) ∧
    (∀ text, ofText policy text = .ok logic → ofText policy logic.text = .ok logic ∧
      logic.text.toList.count ';' = logic.rules.length - 1) ∧
    (logic.rules = [] →
      ofText policy logic.text = .error (.parse ⟨0, .unterminated [.ifWord]⟩)) := by
  refine ⟨ofText_text_eq_ok_iff, fun text hRead => ?_, fun hNone => ?_⟩
  · obtain ⟨clause, -, hSpelled, hValid⟩ := ofText_eq_ok_iff.1 hRead
    obtain ⟨hRules, hRegular⟩ := hSpelled.regular
    refine ⟨ofText_text_eq_ok_iff.2 ⟨hRules, fun rule hMem => ?_⟩, ?_⟩
    · exact ⟨hValid rule hMem, (hRegular rule hMem).1⟩
    · exact count_semicolon_text fun rule hMem => (hRegular rule hMem).2
  · obtain ⟨rules⟩ := logic
    subst hNone
    have hEmpty : Clause.ofText (text ⟨[]⟩) = .ok ⟨[], 0⟩ := Clause.ofText_of_scan (.nil 0)
    unfold ofText
    rw [hEmpty]
    rfl

/-- Two rules, the first of which mixes the connectives. -/
theorem ofText_text_two_rules :
    let tree : ComparisonTree := .chain ⟨.lessThan, 2, false⟩
      [(.or, ⟨.moreThan, 80, true⟩), (.and, ⟨.atMost, 100, true⟩)]
    let logic : ScoringLogic :=
      ⟨[⟨.common (.comparison tree), .green⟩, ⟨.selection ⟨[2, 3]⟩, .red⟩]⟩
    logic.text = "If <2 or >80% and =<100% = Green; If #2 or #3 = Red" ∧
    ofText {} "If <2 or >80% and =<100% = Green; If #2 or #3 = Red" = .ok logic := by
  intro tree logic
  have hText : logic.text = "If <2 or >80% and =<100% = Green; If #2 or #3 = Red" := by
    decide +kernel
  have hNested : ∀ rule ∈ logic.rules,
      (Rule.scoring rule).validate {} = .ok () ∧ (Rule.scoring rule).IsLeftNested := by
    refine List.forall_mem_cons.2 ⟨⟨rfl, ?_⟩, List.forall_mem_cons.2 ⟨⟨rfl, nofun⟩, nofun⟩⟩
    rintro _ ⟨⟩
    exact tree.leftNested_eq_self_iff.1 rfl
  refine ⟨hText, ?_⟩
  rw [← hText]
  exact (ofText_text {} logic).1.2 ⟨by simp [logic], hNested⟩

end ScoringLogic

end ChecklistLogic
