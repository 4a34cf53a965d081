import ChecklistLogic.Proofs.Batches

/-!
# ChecklistLogic — allowing duplicate options

A policy that allows duplicate options accepts whatever the strict policy accepts, with the same
result. The two go through a text in step until the strict one meets a duplicate and gives up. From
there on only the lenient one goes on, and it alone reports what comes up behind the duplicate: an
option `#0`, a sentence that does not parse, a skip rule among the scoring rules, an illegal field.

* `OnlyAdds strict lenient` relates the outcomes of the two. `OnlyAdds.iff_same_or_refused` is the
  form in which it passes through the stages, by `OnlyAdds.bind` and `OnlyAdds.mapM`.
* `Selection.firstViolation?_strict` compares the two policies on the options of one selection. No
  other check looks at the policy.
* `Translator.allowDuplicateOptions_only_adds` compares whole translators, up to their batches.
-/

namespace ChecklistLogic

-- ---------------------------------------------------------------------------
-- Two outcomes
-- ---------------------------------------------------------------------------

/-- How an outcome under the strict policy and the one under the lenient policy may differ. -/
structure OnlyAdds {α : Type} (strict lenient : Except LogicError α) : Prop where
  /-- What the strict policy accepts, the lenient one accepts with the same result. -/
  kept : ∀ result, strict = .ok result → lenient = .ok result
  /-- What the lenient policy accepts beyond that had been refused for a duplicate option. -/
  added : ∀ result, lenient = .ok result →
    strict = .ok result ∨ ∃ option, strict = .error (.violation (.duplicateOption option))
  /-- What the lenient policy refuses, the strict one refuses as well, for the same reason or for a
  duplicate option. -/
  refused : ∀ e, lenient = .error e →
    strict = .error e ∨ ∃ option, strict = .error (.violation (.duplicateOption option))

namespace OnlyAdds

variable {α β : Type} {strict lenient : Except LogicError α}

/-- Either nothing has told the policies apart, or the strict one has met a duplicate. -/
theorem iff_same_or_refused :
    OnlyAdds strict lenient ↔ strict = lenient ∨
      ∃ option, strict = .error (.violation (.duplicateOption option)) := by
  constructor
  · intro hAdds
    cases hLenient : lenient with
    | ok result => exact hAdds.added result hLenient
    | error e => exact hAdds.refused e hLenient
  · rintro (rfl | ⟨option, rfl⟩)
    · exact ⟨fun _ hOk => hOk, fun _ hOk => .inl hOk, fun _ hError => .inl hError⟩
    · exact ⟨nofun, fun _ _ => .inr ⟨option, rfl⟩, fun _ _ => .inr ⟨option, rfl⟩⟩

theorem refl (outcome : Except LogicError α) : OnlyAdds outcome outcome :=
  iff_same_or_refused.2 (.inl rfl)

theorem of_duplicate (option : UInt32) (lenient : Except LogicError α) :
    OnlyAdds (.error (.violation (.duplicateOption option))) lenient :=
  iff_same_or_refused.2 (.inr ⟨option, rfl⟩)

/-- A stage behind another one. If the strict policy refused at the first stage, the second one
does not matter. -/
theorem bind {strictNext lenientNext : α → Except LogicError β} (hFirst : OnlyAdds strict lenient)
    (hNext : ∀ result, OnlyAdds (strictNext result) (lenientNext result)) :
    OnlyAdds (strict >>= strictNext) (lenient >>= lenientNext) := by
  rcases iff_same_or_refused.1 hFirst with rfl | ⟨option, rfl⟩
  · cases strict with
    | ok result => exact hNext result
    | error e => exact refl _
  · exact of_duplicate option _

theorem map (f : α → β) (hFirst : OnlyAdds strict lenient) :
    OnlyAdds (f <$> strict) (f <$> lenient) := by
  rcases iff_same_or_refused.1 hFirst with rfl | ⟨option, rfl⟩
  · exact refl _
  · exact of_duplicate option _

/-- A stage for each item of a list: the policies agree on the items in front of the first
duplicate, and the strict one does not get further. -/
theorem mapM {strictOf lenientOf : α → Except LogicError β}
    (hItem : ∀ item, OnlyAdds (strictOf item) (lenientOf item)) (items : List α) :
    OnlyAdds (items.mapM strictOf) (items.mapM lenientOf) := by
  induction items with
  | nil => exact refl _
  | cons item rest ih =>
    rw [List.mapM_cons, List.mapM_cons]
    exact (hItem item).bind fun first => ih.bind fun others => refl _

end OnlyAdds

-- ---------------------------------------------------------------------------
-- Two policies
-- ---------------------------------------------------------------------------

/-- The policy that refuses duplicate options. -/
def Policy.strict : Policy := ⟨false⟩

/-- The policy that allows duplicate options. -/
def Policy.lenient : Policy := ⟨true⟩

/-- Options are looked at one by one. While the strict policy finds no duplicate, both take the
same decision at each of them and have seen the same options. -/
theorem Selection.firstViolation?_strict (seen options : List UInt32) :
    firstViolation? .strict seen options = firstViolation? .lenient seen options ∨
      ∃ option, firstViolation? .strict seen options = some (.duplicateOption option) := by
  induction options generalizing seen with
  | nil => exact .inl rfl
  | cons option rest ih =>
    unfold firstViolation?
    by_cases hZero : option = 0
    · left
      rw [if_pos hZero, if_pos hZero]
    · rw [if_neg hZero, if_neg hZero]
      cases hSeen : seen.contains option with
      | true => exact .inr ⟨option, rfl⟩
      | false => exact ih (option :: seen)

theorem Selection.violation?_strict (selection : Selection) :
    selection.violation? .strict = selection.violation? .lenient ∨
      ∃ option, selection.violation? .strict = some (.duplicateOption option) := by
  unfold violation?
  cases selection.options.isEmpty with
  | true => exact .inl rfl
  | false => exact firstViolation?_strict [] selection.options

theorem ScoringCondition.violation?_strict (condition : ScoringCondition) :
    condition.violation? .strict = condition.violation? .lenient ∨
      ∃ option, condition.violation? .strict = some (.duplicateOption option) := by
  cases condition with
  | common c => exact .inl rfl
  | range r => exact .inl rfl
  | selection s => exact s.violation?_strict

theorem Rule.violation?_strict (rule : Rule) :
    rule.violation? .strict = rule.violation? .lenient ∨
      ∃ option, rule.violation? .strict = some (.duplicateOption option) := by
  cases rule with
  | scoring rule => exact rule.condition.violation?_strict
  | skip rule => exact .inl rfl

-- ---------------------------------------------------------------------------
-- Stages
-- ---------------------------------------------------------------------------

theorem Rule.validate_onlyAdds (rule : Rule) :
    OnlyAdds ((rule.validate .strict).mapError .violation)
      ((rule.validate .lenient).mapError .violation) := by
  unfold validate
  rcases rule.violation?_strict with hSame | ⟨option, hDuplicate⟩
  · rw [hSame]
    exact .refl _
  · rw [hDuplicate]
    exact .of_duplicate option _

/-- A sentence that is no scoring rule is refused before the policy is asked. -/
theorem ScoringRule.ofClause_onlyAdds (clause : Clause) :
    OnlyAdds (ScoringRule.ofClause .strict clause) (ScoringRule.ofClause .lenient clause) := by
  unfold ofClause
  cases Rule.ofClause clause with
  | error e => exact .refl _
  | ok rule =>
    cases rule with
    | skip rule => exact .refl _
    | scoring rule =>
      rcases rule.condition.violation?_strict with hSame | ⟨option, hDuplicate⟩
      · simp only [hSame]
        exact .refl _
      · simp only [hDuplicate]
        exact .of_duplicate option _

theorem ScoringLogic.ofText_onlyAdds (text : String) :
    OnlyAdds (ofText .strict text) (ofText .lenient text) :=
  .bind (.refl _) fun _ => .map _ (.mapM ScoringRule.ofClause_onlyAdds _)

/-- Where a cell stands and which field it is about. -/
def CellFailure.origin (failure : CellFailure) : UInt64 × LogicColumn × String :=
  (failure.row, failure.column, failure.fieldName)

namespace Translator

/-- The translator with the strict policy. -/
def strict (t : Translator) : Translator := t.set (.allowDuplicateOptions false)

/-- The translator with the lenient policy. -/
def lenient (t : Translator) : Translator := t.set (.allowDuplicateOptions true)

variable (t : Translator)

theorem ruleOfClause_onlyAdds (clause : Clause) :
    OnlyAdds (t.strict.ruleOfClause clause) (t.lenient.ruleOfClause clause) :=
  .bind (.refl _) fun rule => rule.validate_onlyAdds.bind fun _ => .refl _

theorem readRule_onlyAdds (text : String) :
    OnlyAdds (t.strict.readRule text) (t.lenient.readRule text) :=
  .bind (.refl _) t.ruleOfClause_onlyAdds

/-- Writing does not look at the policy. -/
theorem scoringCalculation_onlyAdds (text fieldName : String) (otherwise : Option Form.Expr) :
    OnlyAdds (t.strict.scoringCalculation text fieldName otherwise)
      (t.lenient.scoringCalculation text fieldName otherwise) :=
  .bind (ScoringLogic.ofText_onlyAdds text) fun _ => .refl _

theorem readSkipRule_onlyAdds (text : String) :
    OnlyAdds (t.strict.readSkipRule text) (t.lenient.readSkipRule text) :=
  .bind (.refl _) fun clause => (t.ruleOfClause_onlyAdds clause).bind fun _ => .refl _

theorem translateCell_onlyAdds (cell : LogicCell) :
    OnlyAdds (t.strict.translateCell cell) (t.lenient.translateCell cell) := by
  refine .map _ ?_
  unfold cellContent
  cases cell.column with
  | scoring => exact (t.scoringCalculation_onlyAdds _ _ _).bind fun _ => .refl _
  | skip => exact (t.readSkipRule_onlyAdds _).bind fun _ => .refl _

-- ---------------------------------------------------------------------------
-- Batches
-- ---------------------------------------------------------------------------

/-- What is kept of a list grows with the items that are kept. -/
theorem filterMap_sublist {α β : Type} {f g : α → Option β}
    (hExtends : ∀ item result, f item = some result → g item = some result) (items : List α) :
    (items.filterMap f).Sublist (items.filterMap g) := by
  induction items with
  | nil => exact .refl _
  | cons item rest ih =>
    cases hItem : f item with
    | some result =>
      rw [List.filterMap_cons_some hItem, List.filterMap_cons_some (hExtends item result hItem)]
      exact ih.cons_cons result
    | none =>
      rw [List.filterMap_cons_none hItem]
      exact ih.trans ((List.sublist_cons_self item rest).filterMap g)

/-- A cell that the strict translator alone refuses is left out of its translations. -/
theorem translated_sublist (cells : List LogicCell) :
    (t.strict.translateBatch cells).translated.Sublist
      (t.lenient.translateBatch cells).translated := by
  simp only [translateBatch_eq]
  refine filterMap_sublist (fun cell result hStrict => ?_) cells
  rw [translation?_eq_some_iff] at hStrict ⊢
  exact (t.translateCell_onlyAdds cell).kept result hStrict

/-- It is one of its failures instead. -/
theorem origins_sublist (cells : List LogicCell) :
    ((t.lenient.translateBatch cells).failures.map CellFailure.origin).Sublist
      ((t.strict.translateBatch cells).failures.map CellFailure.origin) := by
  simp only [translateBatch_eq, List.map_filterMap]
  refine filterMap_sublist (fun cell origin hLenient => ?_) cells
  obtain ⟨failure, hFailure, rfl⟩ := Option.map_eq_some_iff.1 hLenient
  obtain ⟨e, hError, rfl⟩ := t.lenient.failure?_eq_some_iff.1 hFailure
  obtain ⟨cause, hStrict⟩ : ∃ cause, t.strict.translateCell cell = .error cause := by
    rcases (t.translateCell_onlyAdds cell).refused e hError with hSame | ⟨option, hDuplicate⟩
    · exact ⟨e, hSame⟩
    · exact ⟨_, hDuplicate⟩
  rw [t.strict.failure?_eq_some_iff.2 ⟨cause, hStrict, rfl⟩]
  rfl

/--
Let two translators differ only in that one of them allows duplicate options. Whatever is read or
translated, the lenient one keeps what the strict one accepts, and adds to it only what the strict
one refuses for a duplicate; it fails only if the strict one fails, for the same reason or for a
duplicate. In a batch it translates all cells that the strict one does and fails on none besides.
-/
theorem allowDuplicateOptions_only_adds :
    (∀ text, OnlyAdds (t.strict.readRule text) (t.lenient.readRule text)) ∧
    (∀ text, OnlyAdds (t.strict.readLogic text) (t.lenient.readLogic text)) ∧
    (∀ text fieldName otherwise, OnlyAdds (t.strict.scoringCalculation text fieldName otherwise)
      (t.lenient.scoringCalculation text fieldName otherwise)) ∧
    (∀ cell, OnlyAdds (t.strict.translateCell cell) (t.lenient.translateCell cell)) ∧
    ∀ cells,
      (t.strict.translateBatch cells).translated.Sublist
        (t.lenient.translateBatch cells).translated ∧
      ((t.lenient.translateBatch cells).failures.map CellFailure.origin).Sublist
        ((t.strict.translateBatch cells).failures.map CellFailure.origin) :=
  ⟨t.readRule_onlyAdds, ScoringLogic.ofText_onlyAdds, t.scoringCalculation_onlyAdds,
    t.translateCell_onlyAdds, fun cells => ⟨t.translated_sublist cells, t.origins_sublist cells⟩⟩

/-- A duplicate in front of an option `#0`: each policy reports another one of the two. -/
theorem allowDuplicateOptions_only_adds_masked :
    let text := "If #1 or #1 = Red; If #0 = Green"
    readLogic (strict {}) text = .error (.violation (.duplicateOption 1)) ∧
    readLogic (lenient {}) text = .error (.violation .zeroOption) ∧
    OnlyAdds (readLogic (strict {}) text) (readLogic (lenient {}) text) := by
  intro text
  have hStrict : readLogic (strict {}) text = .error (.violation (.duplicateOption 1)) := by
    decide +kernel
  have hLenient : readLogic (lenient {}) text = .error (.violation .zeroOption) := by
    decide +kernel
  exact ⟨hStrict, hLenient, (allowDuplicateOptions_only_adds {}).2.1 text⟩

end Translator

end ChecklistLogic
