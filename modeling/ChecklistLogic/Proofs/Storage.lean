import ChecklistLogic.Serial.Cell
import ChecklistLogic.Serial.Settings
import Mathlib.Data.List.Forall2
import Mathlib.Data.List.Nodup

/-!
# ChecklistLogic — what storing keeps

A stored form gives back what was stored, even if somebody has put the members of its objects into
another order or has added members that no reader asks for. So no two values share a stored form.

* **Rearranging** — `Value.Rearranged` holds between a value and what may become of it on the way.
  Forms with content are left alone in that they keep their one member.
* **Finding** — a record has its fields at their names, wherever they stand and whatever stands
  beside them (`Rearranged.exists_fields?`).
* **Reading** — `Restores` says of a type that its reader gives back what was stored; there is one
  lemma for each type, along the structure of its stored form. Trees of comparisons take an
  induction.

Main result: `Serial.reads_stored`.
-/

namespace ChecklistLogic

open Serial (Value)

namespace Serial.Value

-- ---------------------------------------------------------------------------
-- Rearranged values
-- ---------------------------------------------------------------------------

/-- The tags of forms with content. No field of a record has such a name. -/
def tags : List String :=
  ["Leaf", "And", "Or", "Boolean", "Count", "Comparison", "Range", "Selection", "Scoring", "Skip"]

/-- What may become of a value: at any depth, the members of an object change their order, and a
record gets members whose names are none of its own. An object with a tag for its only name is a
form with content and no record. -/
inductive Rearranged : Value → Value → Prop where
  | same (value : Value) : Rearranged value value
  | array {elements others : List Value} (hElements : List.Forall₂ Rearranged elements others) :
      Rearranged (.array elements) (.array others)
  | form {tag : String} {content other : Value} (hTag : tag ∈ tags)
      (hContent : Rearranged content other) :
      Rearranged (variant tag content) (variant tag other)
  | record {names : List String} {fields others : List Value}
      {members extra : List (String × Value)} (hRecord : ∀ tag ∈ tags, names ≠ [tag])
      (hLength : names.length = fields.length) (hFields : List.Forall₂ Rearranged fields others)
      (hExtra : ∀ member ∈ extra, member.1 ∉ names)
      (hMembers : members.Perm (names.zip others ++ extra)) :
      Rearranged (record names fields) (.object members)

/-- Whether a value is neither an array nor an object. -/
def isPlain : Value → Bool
  | .array _ | .object _ => false
  | _ => true

/-- Members may change their order unless two of them have the name that is looked for. -/
theorem lookup_eq_of_perm {name : String} {members others : List (String × Value)}
    (hPerm : members.Perm others)
    (hOne : ∀ a ∈ members, ∀ b ∈ members, a.1 = name → b.1 = name → a = b) :
    members.lookup name = others.lookup name := by
  induction hPerm with
  | nil => rfl
  | cons member _ ih =>
    rw [List.lookup_cons, List.lookup_cons,
      ih fun a hA b hB => hOne a (by simp [hA]) b (by simp [hB])]
  | swap first second rest =>
    obtain ⟨firstName, field⟩ := first
    obtain ⟨secondName, other⟩ := second
    simp only [List.lookup_cons]
    cases hFirst : name == firstName with
    | false => cases name == secondName <;> rfl
    | true =>
      cases hSecond : name == secondName with
      | false => rfl
      | true =>
        have hSame := hOne (firstName, field) (by simp) (secondName, other) (by simp)
          (beq_iff_eq.1 hFirst).symm (beq_iff_eq.1 hSecond).symm
        exact congrArg some (Prod.mk.inj hSame).2.symm
  | trans hFirst _ ihFirst ihSecond =>
    rw [ihFirst hOne]
    exact ihSecond fun a hA b hB =>
      hOne a (hFirst.mem_iff.2 hA) b (hFirst.mem_iff.2 hB)

/-- A record among further members has its fields at its names, in whatever order they are. -/
theorem fields?_of_perm {names : List String} {fields : List Value}
    {members extra : List (String × Value)} (hNames : names.Nodup)
    (hLength : names.length = fields.length) (hExtra : ∀ member ∈ extra, member.1 ∉ names)
    (hMembers : members.Perm (names.zip fields ++ extra)) :
    (object members).fields? names = some fields := by
  have hKeys : (names.zip fields).map Prod.fst = names := List.map_fst_zip (Nat.le_of_eq hLength)
  have hLookup : ∀ name ∈ names, members.lookup name = (names.zip fields).lookup name := by
    intro name hName
    have hNone : extra.lookup name = none := by
      rw [List.lookup_eq_none_iff]
      intro member hMember
      rw [bne_iff_ne]
      rintro rfl
      exact hExtra member hMember hName
    -- the name is that of a field, of which there is only one
    have hField : ∀ a ∈ names.zip fields ++ extra, a.1 = name → a ∈ names.zip fields := by
      rintro a hA rfl
      rcases List.mem_append.1 hA with hZip | hOther
      · exact hZip
      · exact absurd hName (hExtra a hOther)
    have hOne : ∀ a ∈ names.zip fields ++ extra, ∀ b ∈ names.zip fields ++ extra,
        a.1 = name → b.1 = name → a = b := fun a hA b hB hNameA hNameB =>
      List.inj_on_of_nodup_map (hKeys.symm ▸ hNames) (hField a hA hNameA) (hField b hB hNameB)
        (hNameA.trans hNameB.symm)
    rw [← lookup_eq_of_perm hMembers.symm hOne, List.lookup_append, hNone, Option.or_none]
  rw [← fields?_record hNames hLength]
  simp only [record, fields?, Option.some.injEq]
  exact List.map_congr_left fun name hName => by rw [hLookup name hName]

namespace Rearranged

variable {value : Value}

/-- A value without parts stays as it is. -/
theorem eq_of_isPlain {plain : Value} (hPlain : plain.isPlain = true)
    (hValue : Rearranged plain value) : value = plain := by
  cases hValue with
  | same => rfl
  | array | form | record => cases hPlain

theorem exists_elements {elements : List Value} (hValue : Rearranged (.array elements) value) :
    ∃ others, value = .array others ∧ List.Forall₂ Rearranged elements others := by
  cases hValue with
  | same => exact ⟨elements, rfl, List.forall₂_same.2 fun element _ => .same element⟩
  | array hElements => exact ⟨_, rfl, hElements⟩

/-- A form with content keeps its one member. -/
theorem exists_content {tag : String} {content : Value} (hTag : tag ∈ tags)
    (hValue : Rearranged (variant tag content) value) :
    ∃ other, value = variant tag other ∧ Rearranged content other := by
  generalize hForm : variant tag content = form at hValue
  cases hValue with
  | same =>
    subst hForm
    exact ⟨content, rfl, .same content⟩
  | array => cases hForm
  | form _ hContent =>
    cases hForm
    exact ⟨_, rfl, hContent⟩
  | @record names fields _ _ _ hRecord hLength =>
    have hZip : names.zip fields = [(tag, content)] := (Value.object.inj hForm).symm
    have hNames : names = [tag] := by
      rw [← List.map_fst_zip (Nat.le_of_eq hLength), hZip]
      rfl
    exact absurd hNames (hRecord tag hTag)

/-- The fields of a record are found again, each of them rearranged at most. -/
theorem exists_fields? {names : List String} {fields : List Value} (hNames : names.Nodup)
    (hRecord : ∀ tag ∈ tags, names ≠ [tag]) (hLength : names.length = fields.length)
    (hValue : Rearranged (.record names fields) value) :
    ∃ others, value.fields? names = some others ∧ List.Forall₂ Rearranged fields others := by
  generalize hForm : Value.record names fields = form at hValue
  cases hValue with
  | same =>
    subst hForm
    exact ⟨fields, fields?_record hNames hLength,
      List.forall₂_same.2 fun field _ => .same field⟩
  | array => cases hForm
  | @form tag _ _ hTag =>
    have hZip := Value.object.inj hForm
    have hOnly : names = [tag] := by
      rw [← List.map_fst_zip (Nat.le_of_eq hLength), hZip]
      rfl
    exact absurd hOnly (hRecord tag hTag)
  | @record own parts others members extra _ hParts hFields hExtra hMembers =>
    have hZip : names.zip fields = own.zip parts := Value.object.inj hForm
    obtain rfl : names = own := by
      rw [← List.map_fst_zip (Nat.le_of_eq hLength), hZip, List.map_fst_zip (Nat.le_of_eq hParts)]
    obtain rfl : fields = parts := by
      rw [← List.map_snd_zip (Nat.le_of_eq hLength.symm), hZip,
        List.map_snd_zip (Nat.le_of_eq hParts.symm)]
    have hOthers : names.length = others.length := hLength.trans hFields.length_eq
    exact ⟨others, fields?_of_perm hNames hOthers hExtra hMembers, hFields⟩

end Rearranged

-- ---------------------------------------------------------------------------
-- Readers
-- ---------------------------------------------------------------------------

/-- Whether a reader gives back what was stored, however the stored form has been rearranged. -/
def Restores {α : Type} (toValue : α → Value) (ofValue? : Value → Option α) : Prop :=
  ∀ (x : α) (value : Value), Rearranged (toValue x) value → ofValue? value = some x

theorem restores_text : Restores text text? := by
  intro x value hValue
  rw [hValue.eq_of_isPlain rfl]
  rfl

theorem restores_bool : Restores bool bool? := by
  intro x value hValue
  rw [hValue.eq_of_isPlain rfl]
  rfl

theorem restores_uint32 : Restores ofUInt32 uint32? := by
  intro x value hValue
  rw [hValue.eq_of_isPlain rfl, uint32?_ofUInt32]

theorem restores_uint64 : Restores ofUInt64 uint64? := by
  intro x value hValue
  rw [hValue.eq_of_isPlain rfl, uint64?_ofUInt64]

/-- A form without content is found by its name. -/
theorem restores_named {α : Type} {all : List α} {name : α → String}
    (hFind : ∀ x, (all.find? fun candidate => name candidate = name x) = some x) :
    Restores (fun x => .text (name x)) (named? all name) := by
  intro x value hValue
  rw [hValue.eq_of_isPlain rfl]
  exact hFind x

/-- A list is read element by element. -/
theorem Restores.elements {α : Type} {toValue : α → Value} {ofValue? : Value → Option α}
    (hElement : Restores toValue ofValue?) :
    Restores (fun xs : List α => .array (xs.map toValue))
      fun value => value.elements? >>= fun elements => elements.mapM ofValue? := by
  intro xs value hValue
  obtain ⟨others, rfl, hOthers⟩ := hValue.exists_elements
  show others.mapM ofValue? = some xs
  clear hValue
  induction xs generalizing others with
  | nil =>
    cases hOthers
    rfl
  | cons x rest ih =>
    obtain _ | ⟨hHead, hTail⟩ := hOthers
    rw [List.mapM_cons, hElement _ _ hHead, ih _ hTail]
    rfl

end Serial.Value

open Serial.Value

-- ---------------------------------------------------------------------------
-- Stored rules
-- ---------------------------------------------------------------------------

theorem Score.restores : Restores toValue ofValue? :=
  restores_named fun x => by cases x <;> rfl

theorem Answer.restores : Restores toValue ofValue? :=
  restores_named fun x => by cases x <;> rfl

theorem Comparator.restores : Restores toValue ofValue? :=
  restores_named fun x => by cases x <;> rfl

theorem Comparison.restores : Restores toValue ofValue? := by
  rintro ⟨comparator, threshold, isPercent⟩ value hValue
  obtain ⟨_, hFields, hOthers⟩ := hValue.exists_fields? (by decide) (by decide) rfl
  obtain _ | ⟨hComparator, _ | ⟨hThreshold, _ | ⟨hPercent, _ | _⟩⟩⟩ := hOthers
  simp [ofValue?, hFields, Comparator.restores _ _ hComparator,
    restores_uint32 _ _ hThreshold, restores_bool _ _ hPercent]

/-- The operands of a join are read as the tree is built. -/
theorem ComparisonTree.restores : Restores toValue ofValue? := by
  intro tree
  induction tree with
  | atom c =>
    intro value hValue
    obtain ⟨content, rfl, hContent⟩ := hValue.exists_content (by decide)
    rw [variant, ofValue?, Comparison.restores _ _ hContent]
    rfl
  | join connective left right ihLeft ihRight =>
    intro value hValue
    have hTag : connective.tag ∈ tags := by cases connective <;> decide
    obtain ⟨content, rfl, hContent⟩ := hValue.exists_content hTag
    obtain ⟨_, rfl, hOperands⟩ := hContent.exists_elements
    obtain _ | ⟨hLeft, _ | ⟨hRight, _ | _⟩⟩ := hOperands
    have hLeaf : connective.tag ≠ "Leaf" := by cases connective <;> decide
    have hFound : Connective.ofTag? connective.tag = some connective := by
      cases connective <;> decide
    rw [variant, ofValue?, hFound, ihLeft _ hLeft, ihRight _ hRight]
    · rfl
    · exact fun h => absurd h hLeaf

theorem CountRange.restores : Restores toValue ofValue? := by
  rintro ⟨low, high⟩ value hValue
  obtain ⟨_, hFields, hOthers⟩ := hValue.exists_fields? (by decide) (by decide) rfl
  obtain _ | ⟨hLow, _ | ⟨hHigh, _ | _⟩⟩ := hOthers
  simp [ofValue?, hFields, restores_uint32 _ _ hLow, restores_uint32 _ _ hHigh]

theorem Selection.restores : Restores toValue ofValue? := by
  rintro ⟨options⟩ value hValue
  obtain ⟨_, hFields, hOthers⟩ := hValue.exists_fields? (by decide) (by decide) rfl
  obtain _ | ⟨hOptions, _ | _⟩ := hOthers
  obtain ⟨elements, hElements, hRead⟩ :=
    Option.bind_eq_some_iff.1 (restores_uint32.elements _ _ hOptions)
  simp [ofValue?, hFields, hElements, hRead]

theorem Condition.restores : Restores toValue ofValue? := by
  intro condition value hValue
  cases condition with
  | answer a =>
    obtain ⟨content, rfl, hContent⟩ := hValue.exists_content (by decide)
    simp [ofValue?, Answer.restores _ _ hContent]
  | count n =>
    obtain ⟨content, rfl, hContent⟩ := hValue.exists_content (by decide)
    simp [ofValue?, restores_uint32 _ _ hContent]
  | comparison tree =>
    obtain ⟨content, rfl, hContent⟩ := hValue.exists_content (by decide)
    simp [ofValue?, ComparisonTree.restores _ _ hContent]

/-- The tags of the conditions that only scoring rules have are not among those of the others. -/
theorem ScoringCondition.restores : Restores toValue ofValue? := by
  intro condition value hValue
  cases condition with
  | range r =>
    obtain ⟨content, rfl, hContent⟩ := hValue.exists_content (by decide)
    simp [ofValue?, CountRange.restores _ _ hContent]
  | selection s =>
    obtain ⟨content, rfl, hContent⟩ := hValue.exists_content (by decide)
    simp [ofValue?, Selection.restores _ _ hContent]
  | common c =>
    have hCommon := Condition.restores _ _ hValue
    cases c <;> obtain ⟨content, rfl, -⟩ := hValue.exists_content (by decide) <;>
      simp [ofValue?, hCommon]

theorem Question.restores : Restores toValue ofValue? := by
  rintro ⟨number⟩ value hValue
  obtain ⟨_, hFields, hOthers⟩ := hValue.exists_fields? (by decide) (by decide) rfl
  obtain _ | ⟨hNumber, _ | _⟩ := hOthers
  simp [ofValue?, hFields, restores_uint32 _ _ hNumber]

theorem ScoringRule.restores : Restores toValue ofValue? := by
  rintro ⟨condition, target⟩ value hValue
  obtain ⟨_, hFields, hOthers⟩ := hValue.exists_fields? (by decide) (by decide) rfl
  obtain _ | ⟨hCondition, _ | ⟨hTarget, _ | _⟩⟩ := hOthers
  simp [ofValue?, hFields, ScoringCondition.restores _ _ hCondition, Score.restores _ _ hTarget]

theorem SkipRule.restores : Restores toValue ofValue? := by
  rintro ⟨condition, target⟩ value hValue
  obtain ⟨_, hFields, hOthers⟩ := hValue.exists_fields? (by decide) (by decide) rfl
  obtain _ | ⟨hCondition, _ | ⟨hTarget, _ | _⟩⟩ := hOthers
  simp [ofValue?, hFields, Condition.restores _ _ hCondition, Question.restores _ _ hTarget]

theorem Rule.restores : Restores toValue ofValue? := by
  intro rule value hValue
  cases rule with
  | scoring rule =>
    obtain ⟨content, rfl, hContent⟩ := hValue.exists_content (by decide)
    simp [ofValue?, ScoringRule.restores _ _ hContent]
  | skip rule =>
    obtain ⟨content, rfl, hContent⟩ := hValue.exists_content (by decide)
    simp [ofValue?, SkipRule.restores _ _ hContent]

theorem ScoringLogic.restores : Restores toValue ofValue? := by
  rintro ⟨rules⟩ value hValue
  obtain ⟨_, hFields, hOthers⟩ := hValue.exists_fields? (by decide) (by decide) rfl
  obtain _ | ⟨hRules, _ | _⟩ := hOthers
  obtain ⟨elements, hElements, hRead⟩ :=
    Option.bind_eq_some_iff.1 (ScoringRule.restores.elements _ _ hRules)
  simp [ofValue?, hFields, hElements, hRead]

-- ---------------------------------------------------------------------------
-- Stored settings and cells
-- ---------------------------------------------------------------------------

theorem Policy.restores : Restores toValue ofValue? := by
  rintro ⟨allow⟩ value hValue
  obtain ⟨_, hFields, hOthers⟩ := hValue.exists_fields? (by decide) (by decide) rfl
  obtain _ | ⟨hAllow, _ | _⟩ := hOthers
  simp [ofValue?, hFields, restores_bool _ _ hAllow]

theorem FormOptions.restores : Restores toValue ofValue? := by
  rintro ⟨yes, no, negate, fraction, fallback⟩ value hValue
  obtain ⟨_, hFields, hOthers⟩ := hValue.exists_fields? (by decide) (by decide) rfl
  obtain _ | ⟨hYes, _ | ⟨hNo, _ | ⟨hNegate, _ | ⟨hFraction, _ | ⟨hFallback, _ | _⟩⟩⟩⟩⟩ := hOthers
  simp [ofValue?, hFields, restores_text _ _ hYes, restores_text _ _ hNo,
    restores_bool _ _ hNegate, restores_bool _ _ hFraction, Score.restores _ _ hFallback]

theorem LogicColumn.restores : Restores toValue ofValue? :=
  restores_named fun x => by cases x <;> rfl

theorem LogicCell.restores : Restores toValue ofValue? := by
  rintro ⟨row, column, field, text⟩ value hValue
  obtain ⟨_, hFields, hOthers⟩ := hValue.exists_fields? (by decide) (by decide) rfl
  obtain _ | ⟨hRow, _ | ⟨hColumn, _ | ⟨hField, _ | ⟨hText, _ | _⟩⟩⟩⟩ := hOthers
  simp [ofValue?, hFields, restores_uint64 _ _ hRow, LogicColumn.restores _ _ hColumn,
    restores_text _ _ hField, restores_text _ _ hText]

/-- No stored question is `null`, which stands for none. -/
theorem TranslatedCell.restores_target : Restores targetToValue targetOfValue? := by
  intro target value hValue
  cases target with
  | none =>
    rw [hValue.eq_of_isPlain rfl]
    rfl
  | some question =>
    have hQuestion := Question.restores _ _ hValue
    unfold targetOfValue?
    split
    · cases hQuestion
    · rw [hQuestion]
      rfl

theorem TranslatedCell.restores : Restores toValue ofValue? := by
  rintro ⟨row, column, field, expression, target⟩ value hValue
  obtain ⟨_, hFields, hOthers⟩ := hValue.exists_fields? (by decide) (by decide) rfl
  obtain _ | ⟨hRow, _ | ⟨hColumn, _ | ⟨hField, _ | ⟨hExpression, _ | ⟨hTarget, _ | _⟩⟩⟩⟩⟩ := hOthers
  simp [ofValue?, hFields, restores_uint64 _ _ hRow, LogicColumn.restores _ _ hColumn,
    restores_text _ _ hField, restores_text _ _ hExpression, restores_target _ _ hTarget]

-- ---------------------------------------------------------------------------
-- What storing keeps
-- ---------------------------------------------------------------------------

namespace Serial

/-- Whether storing the values of a type loses nothing. -/
structure Faithful {α : Type} (toValue : α → Value) (ofValue? : Value → Option α) : Prop where
  reads : ∀ x, ofValue? (toValue x) = some x
  reads_rearranged : ∀ x value, Rearranged (toValue x) value → ofValue? value = some x
  injective : Function.Injective toValue

theorem Value.Restores.faithful {α : Type} {toValue : α → Value} {ofValue? : Value → Option α}
    (hRestores : Restores toValue ofValue?) : Faithful toValue ofValue? := by
  have hReads : ∀ x, ofValue? (toValue x) = some x := fun x => hRestores x _ (.same _)
  refine ⟨hReads, hRestores, fun x y hSame => ?_⟩
  have hBoth : some x = some y := by rw [← hReads x, hSame, hReads y]
  exact Option.some.inj hBoth

/--
**Stored forms lose nothing.** Whatever its rules are, valid or not, and however its comparisons
are nested, a value is read again from its stored form, and also from one in which the members of
objects stand in another order and records have members of other names beside their own, at any
depth. So two values of one type never have the same stored form.
-/
theorem reads_stored :
    Faithful Rule.toValue Rule.ofValue? ∧
    Faithful ScoringLogic.toValue ScoringLogic.ofValue? ∧
    Faithful FormOptions.toValue FormOptions.ofValue? ∧
    Faithful Policy.toValue Policy.ofValue? ∧
    Faithful LogicCell.toValue LogicCell.ofValue? ∧
    Faithful TranslatedCell.toValue TranslatedCell.ofValue? :=
  ⟨Rule.restores.faithful, ScoringLogic.restores.faithful, FormOptions.restores.faithful,
    Policy.restores.faithful, LogicCell.restores.faithful, TranslatedCell.restores.faithful⟩

/-- A skip rule with its members turned round and a member more in either of its records. -/
theorem reads_stored_rearranged :
    let rule : Rule := .skip ⟨.answer .no, ⟨5⟩⟩
    let condition : Value := .object [("Boolean", .text "No")]
    let target : Value := .object [("page", .integer 2), ("number", .integer 5)]
    let value : Value := .object [("Skip",
      .object [("note", .text "seen"), ("target_question", target), ("condition", condition)])]
    Rearranged rule.toValue value ∧ Rule.ofValue? value = some rule := by
  intro rule condition target value
  have hTarget : Rearranged (Question.toValue ⟨5⟩) target :=
    @Rearranged.record ["number"] [.integer 5] [.integer 5] _ [("page", .integer 2)] (by decide) rfl
      (.cons (.same _) .nil) (by decide) (.swap _ _ _)
  have hRule : Rearranged rule.toValue value :=
    .form (by decide) (@Rearranged.record SkipRule.fieldNames
      [(Condition.answer .no).toValue, Question.toValue ⟨5⟩] [condition, target] _
      [("note", .text "seen")] (by decide) rfl (.cons (.same _) (.cons hTarget .nil)) (by decide)
      (List.reverse_perm [("condition", condition), ("target_question", target), _]))
  exact ⟨hRule, reads_stored.1.reads_rearranged rule value hRule⟩

end Serial

end ChecklistLogic
