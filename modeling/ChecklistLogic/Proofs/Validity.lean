import ChecklistLogic.Violation

/-!
# ChecklistLogic — valid rules

What a valid rule is and which violation is the first one of a rule that is not valid, told without
going through the checks. A rule can be any rule, not only one that has been read: its comparisons
may be nested in any way and its selection may be empty.

* **Comparisons** — `ComparisonTree.HasAtom` and `ComparisonTree.FirstAtom` follow the tree; the
  checks go over the list of its atoms, which has them from left to right
  (`ComparisonTree.violation?_join`).
* **Options** — the first fault of a selection is the least index at which the option is `0` or
  occurs before (`Selection.IsFirstFault`). The checks carry the options that they have seen; by
  induction on those still to come, these are the options in front
  (`Selection.firstViolation?_eq_some_iff`).

Main result: `Rule.validate_decides`.
-/

namespace ChecklistLogic

-- ---------------------------------------------------------------------------
-- Valid rules
-- ---------------------------------------------------------------------------

/-- A comparison is one of the leaves of a tree. -/
inductive ComparisonTree.HasAtom (c : Comparison) : ComparisonTree → Prop where
  | here : HasAtom c (.atom c)
  | left {connective : Connective} {left right : ComparisonTree} (hLeft : HasAtom c left) :
      HasAtom c (.join connective left right)
  | right {connective : Connective} {left right : ComparisonTree} (hRight : HasAtom c right) :
      HasAtom c (.join connective left right)

/-- A percentage that can never be reached. -/
def Comparison.IsExcessive (c : Comparison) : Prop :=
  c.isPercent = true ∧ 100 < c.threshold

/-- No percentage of a tree is above one hundred. Counts are not bounded. -/
def ComparisonTree.IsValid (tree : ComparisonTree) : Prop :=
  ∀ c, tree.HasAtom c → c.isPercent = true → c.threshold ≤ 100

/-- A range has its bounds in order. -/
def CountRange.IsValid (range : CountRange) : Prop :=
  range.low ≤ range.high

/-- A selection has options, none of which is `0`, and names each of them once unless duplicates
are allowed. -/
structure Selection.IsValid (policy : Policy) (selection : Selection) : Prop where
  nonempty : selection.options ≠ []
  noZero : 0 ∉ selection.options
  noDuplicate : policy.allowDuplicateOptions = true ∨ selection.options.Nodup

/-- A condition that either kind of rule may have is valid. -/
def Condition.IsValid : Condition → Prop
  | .answer _ | .count _ => True
  | .comparison tree => tree.IsValid

/-- The condition of a scoring rule is valid. -/
def ScoringCondition.IsValid (policy : Policy) : ScoringCondition → Prop
  | .common c => c.IsValid
  | .range r => r.IsValid
  | .selection s => s.IsValid policy

/-- A rule is valid. -/
def Rule.IsValid (policy : Policy) : Rule → Prop
  | .scoring rule => rule.condition.IsValid policy
  | .skip rule => rule.target.number ≠ 0 ∧ rule.condition.IsValid

-- ---------------------------------------------------------------------------
-- First violations
-- ---------------------------------------------------------------------------

/-- A comparison is the leftmost leaf of a tree that has a property. -/
inductive ComparisonTree.FirstAtom (p : Comparison → Prop) (c : Comparison) :
    ComparisonTree → Prop where
  | here (hAtom : p c) : FirstAtom p c (.atom c)
  | left {connective : Connective} {left right : ComparisonTree} (hLeft : FirstAtom p c left) :
      FirstAtom p c (.join connective left right)
  | right {connective : Connective} {left right : ComparisonTree}
      (hNone : ∀ earlier, left.HasAtom earlier → ¬ p earlier) (hRight : FirstAtom p c right) :
      FirstAtom p c (.join connective left right)

namespace Selection

/-- At an index stands an option that is `0` or, unless duplicates are allowed, one of those before
it. -/
def IsFault (policy : Policy) (options : List UInt32) (i : Nat) (option : UInt32) : Prop :=
  options[i]? = some option ∧
    (option = 0 ∨ policy.allowDuplicateOptions = false ∧ option ∈ options.take i)

/-- The least index with a fault. -/
structure IsFirstFault (policy : Policy) (options : List UInt32) (i : Nat) (option : UInt32) :
    Prop where
  fault : IsFault policy options i option
  least : ∀ j < i, ∀ earlier, ¬ IsFault policy options j earlier

/-- What is reported of a faulty option. -/
def report (option : UInt32) : Violation :=
  if option = 0 then .zeroOption else .duplicateOption option

/-- The first violation of a selection. -/
inductive Breaks (policy : Policy) (selection : Selection) : Violation → Prop where
  | empty (hNone : selection.options = []) : Breaks policy selection .emptySelection
  | fault {i : Nat} {option : UInt32} (hFirst : IsFirstFault policy selection.options i option) :
      Breaks policy selection (report option)

end Selection

/-- The first violation of a condition that either kind of rule may have. -/
inductive Condition.Breaks : Condition → Violation → Prop where
  | comparison {tree : ComparisonTree} {c : Comparison}
      (hFirst : tree.FirstAtom Comparison.IsExcessive c) :
      Breaks (.comparison tree) (.percentOutOfRange c.threshold)

/-- The first violation of the condition of a scoring rule. -/
inductive ScoringCondition.Breaks (policy : Policy) : ScoringCondition → Violation → Prop where
  | common {condition : Condition} {violation : Violation} (hBreaks : condition.Breaks violation) :
      Breaks policy (.common condition) violation
  | range {range : CountRange} (hInverted : range.high < range.low) :
      Breaks policy (.range range) (.invertedRange range.low range.high)
  | selection {selection : Selection} {violation : Violation}
      (hBreaks : selection.Breaks policy violation) :
      Breaks policy (.selection selection) violation

/-- The first violation of a rule. The question of a skip rule comes before its condition. -/
inductive Rule.Breaks (policy : Policy) : Rule → Violation → Prop where
  | scoring {rule : ScoringRule} {violation : Violation}
      (hBreaks : rule.condition.Breaks policy violation) : Breaks policy (.scoring rule) violation
  | question {rule : SkipRule} (hZero : rule.target.number = 0) :
      Breaks policy (.skip rule) .zeroQuestion
  | skip {rule : SkipRule} {violation : Violation} (hTarget : rule.target.number ≠ 0)
      (hBreaks : rule.condition.Breaks violation) : Breaks policy (.skip rule) violation

-- ---------------------------------------------------------------------------
-- Comparisons
-- ---------------------------------------------------------------------------

theorem Comparison.violation?_eq_some_iff {c : Comparison} {violation : Violation} :
    c.violation? = some violation ↔ c.IsExcessive ∧ .percentOutOfRange c.threshold = violation := by
  unfold violation? IsExcessive
  by_cases hPercent : c.isPercent = true <;> by_cases hLarge : 100 < c.threshold <;>
    simp [hPercent, hLarge]

theorem Comparison.violation?_eq_none_iff {c : Comparison} :
    c.violation? = none ↔ ¬ c.IsExcessive := by
  unfold violation? IsExcessive
  by_cases hPercent : c.isPercent = true <;> by_cases hLarge : 100 < c.threshold <;>
    simp [hPercent, hLarge]

namespace ComparisonTree

variable {tree left right : ComparisonTree} {connective : Connective} {violation : Violation}

theorem violation?_atom (c : Comparison) : (atom c).violation? = c.violation? := by
  simp [violation?, atoms]

/-- The left operand is looked at first. -/
theorem violation?_join :
    (join connective left right).violation? = left.violation?.or right.violation? := by
  simp [violation?, atoms, List.findSome?_append]

theorem violation?_eq_none_iff :
    tree.violation? = none ↔ ∀ c, tree.HasAtom c → ¬ c.IsExcessive := by
  induction tree with
  | atom own =>
    rw [violation?_atom, Comparison.violation?_eq_none_iff]
    constructor
    · intro hOwn c hAtom
      cases hAtom
      exact hOwn
    · intro hEach
      exact hEach own .here
  | join connective left right ihLeft ihRight =>
    rw [violation?_join, Option.or_eq_none_iff, ihLeft, ihRight]
    constructor
    · rintro ⟨hLeft, hRight⟩ c hAtom
      cases hAtom with
      | left hAtom => exact hLeft c hAtom
      | right hAtom => exact hRight c hAtom
    · intro hEach
      exact ⟨fun c hAtom => hEach c (.left hAtom), fun c hAtom => hEach c (.right hAtom)⟩

theorem violation?_eq_some_iff : tree.violation? = some violation ↔
    ∃ c, tree.FirstAtom Comparison.IsExcessive c ∧ .percentOutOfRange c.threshold = violation := by
  induction tree with
  | atom own =>
    rw [violation?_atom, Comparison.violation?_eq_some_iff]
    constructor
    · rintro ⟨hOwn, hSame⟩
      exact ⟨own, .here hOwn, hSame⟩
    · rintro ⟨c, hFirst, hSame⟩
      cases hFirst with
      | here hOwn => exact ⟨hOwn, hSame⟩
  | join connective left right ihLeft ihRight =>
    rw [violation?_join, Option.or_eq_some_iff, ihLeft, ihRight, violation?_eq_none_iff]
    constructor
    · rintro (⟨c, hFirst, hSame⟩ | ⟨hNone, c, hFirst, hSame⟩)
      · exact ⟨c, .left hFirst, hSame⟩
      · exact ⟨c, .right hNone hFirst, hSame⟩
    · rintro ⟨c, hFirst, hSame⟩
      cases hFirst with
      | left hFirst => exact .inl ⟨c, hFirst, hSame⟩
      | right hNone hFirst => exact .inr ⟨hNone, c, hFirst, hSame⟩

theorem isValid_iff : tree.IsValid ↔ tree.violation? = none := by
  rw [violation?_eq_none_iff]
  simp only [IsValid, Comparison.IsExcessive, not_and, UInt32.not_lt]

end ComparisonTree

-- ---------------------------------------------------------------------------
-- Ranges and selections
-- ---------------------------------------------------------------------------

theorem CountRange.isValid_iff {range : CountRange} :
    range.IsValid ↔ range.violation? = none := by
  unfold IsValid violation?
  by_cases hInverted : range.high < range.low
  · simp [hInverted]
  · simp [hInverted, UInt32.not_lt.1 hInverted]

namespace Selection

variable {policy : Policy} {selection : Selection} {violation : Violation}

/-- An option is faulty or taken in with those that have been seen. -/
theorem firstViolation?_cons (seen : List UInt32) (option : UInt32) (rest : List UInt32) :
    firstViolation? policy seen (option :: rest) =
      if option = 0 ∨ policy.allowDuplicateOptions = false ∧ option ∈ seen then
        some (report option)
      else firstViolation? policy (option :: seen) rest := by
  by_cases hZero : option = 0
  · simp [firstViolation?, report, hZero]
  · by_cases hSeen : option ∈ seen <;> cases hAllow : policy.allowDuplicateOptions <;>
      simp [firstViolation?, report, hZero, hSeen, hAllow]

/-- Options have no violation behind those seen if none is `0` and, where it matters, none occurs a
second time. -/
theorem firstViolation?_eq_none_iff {seen options : List UInt32} :
    firstViolation? policy seen options = none ↔ 0 ∉ options ∧
      (policy.allowDuplicateOptions = true ∨
        options.Nodup ∧ ∀ option ∈ options, option ∉ seen) := by
  induction options generalizing seen with
  | nil => simp [firstViolation?]
  | cons option rest ih =>
    rw [firstViolation?_cons]
    by_cases hFault : option = 0 ∨ policy.allowDuplicateOptions = false ∧ option ∈ seen
    · rw [if_pos hFault]
      grind
    · rw [if_neg hFault, ih]
      grind

/-- What stands behind `front` is a fault if it is `0` or one of `front`. -/
theorem isFault_append_iff {front rest : List UInt32} {option found : UInt32} :
    IsFault policy (front ++ option :: rest) front.length found ↔ option = found ∧
      (option = 0 ∨ policy.allowDuplicateOptions = false ∧ option ∈ front) := by
  have hHere : (front ++ option :: rest)[front.length]? = some option := by simp
  have hFront : (front ++ option :: rest).take front.length = front := List.take_left
  rw [IsFault, hHere, hFront, Option.some.injEq]
  constructor
  · rintro ⟨rfl, hFault⟩
    exact ⟨rfl, hFault⟩
  · rintro ⟨rfl, hFault⟩
    exact ⟨rfl, hFault⟩

theorem IsFault.lt_length {options : List UInt32} {i : Nat} {option : UInt32}
    (hFault : IsFault policy options i option) : i < options.length :=
  (List.getElem?_eq_some_iff.1 hFault.1).1

theorem IsFirstFault.unique {options : List UInt32} {i j : Nat} {option other : UInt32}
    (hFirst : IsFirstFault policy options i option)
    (hSecond : IsFirstFault policy options j other) : option = other := by
  have hIndex : i = j := by
    rcases Nat.lt_trichotomy i j with hLess | hSame | hMore
    · exact absurd hFirst.fault (hSecond.least i hLess option)
    · exact hSame
    · exact absurd hSecond.fault (hFirst.least j hMore other)
  have hSame := hSecond.fault.1
  rw [← hIndex, hFirst.fault.1] at hSame
  exact Option.some.inj hSame

/-- The options that have been seen are those in front of the others, and none of them is a
fault. -/
theorem firstViolation?_eq_some_iff {front rest seen : List UInt32}
    (hSeen : ∀ option, option ∈ seen ↔ option ∈ front)
    (hClean : ∀ j < front.length, ∀ earlier, ¬ IsFault policy (front ++ rest) j earlier) :
    firstViolation? policy seen rest = some violation ↔
      ∃ i option, IsFirstFault policy (front ++ rest) i option ∧ report option = violation := by
  induction rest generalizing front seen with
  | nil =>
    constructor
    · intro hSome
      cases hSome
    · rintro ⟨i, option, hFirst, -⟩
      have hLess := hFirst.fault.lt_length
      rw [List.append_nil] at hLess
      exact absurd hFirst.fault (hClean i hLess option)
  | cons option rest ih =>
    have hFault : ∀ found, IsFault policy (front ++ option :: rest) front.length found ↔
        option = found ∧
          (option = 0 ∨ policy.allowDuplicateOptions = false ∧ option ∈ seen) := by
      intro found
      rw [isFault_append_iff, hSeen]
    rw [firstViolation?_cons]
    by_cases hHere : option = 0 ∨ policy.allowDuplicateOptions = false ∧ option ∈ seen
    · rw [if_pos hHere]
      have hFirst : IsFirstFault policy (front ++ option :: rest) front.length option :=
        ⟨(hFault option).2 ⟨rfl, hHere⟩, hClean⟩
      constructor
      · intro hSome
        exact ⟨front.length, option, hFirst, Option.some.inj hSome⟩
      · rintro ⟨i, other, hOther, hReport⟩
        rw [hFirst.unique hOther, hReport]
    · rw [if_neg hHere, List.append_cons]
      refine ih (fun other => ?_) fun j hLess earlier => ?_
      · rw [List.mem_cons, hSeen, List.mem_append, List.mem_singleton, or_comm]
      · rw [← List.append_cons]
        rcases Nat.lt_succ_iff_lt_or_eq.1 (by simpa using hLess) with hBefore | rfl
        · exact hClean j hBefore earlier
        · intro hEarlier
          exact hHere ((hFault earlier).1 hEarlier).2

theorem isValid_iff : selection.IsValid policy ↔ selection.violation? policy = none := by
  unfold violation?
  cases hOptions : selection.options with
  | nil =>
    constructor
    · intro hValid
      exact absurd hOptions hValid.nonempty
    · intro hNone
      cases hNone
  | cons option rest =>
    show selection.IsValid policy ↔ firstViolation? policy [] (option :: rest) = none
    rw [firstViolation?_eq_none_iff, ← hOptions]
    constructor
    · rintro ⟨-, hZero, hDuplicate⟩
      exact ⟨hZero, hDuplicate.imp_right fun hNodup => ⟨hNodup, by simp⟩⟩
    · rintro ⟨hZero, hDuplicate⟩
      exact ⟨by simp [hOptions], hZero, hDuplicate.imp_right And.left⟩

theorem breaks_iff : selection.Breaks policy violation ↔
    selection.violation? policy = some violation := by
  have hFaults : firstViolation? policy [] selection.options = some violation ↔
      ∃ i option, IsFirstFault policy selection.options i option ∧ report option = violation := by
    have hClean : ∀ j < ([] : List UInt32).length, ∀ earlier,
        ¬ IsFault policy ([] ++ selection.options) j earlier := by
      simp
    exact firstViolation?_eq_some_iff (fun _ => Iff.rfl) hClean
  by_cases hOptions : selection.options = []
  · have hEmpty : selection.violation? policy = some .emptySelection := by
      simp [violation?, hOptions]
    rw [hEmpty]
    constructor
    · intro hBreaks
      cases hBreaks with
      | empty => rfl
      | fault hFirst =>
        have hLess := hFirst.fault.lt_length
        simp [hOptions] at hLess
    · rintro ⟨⟩
      exact .empty hOptions
  · have hSome : selection.violation? policy = firstViolation? policy [] selection.options := by
      simp [violation?, hOptions]
    rw [hSome, hFaults]
    constructor
    · intro hBreaks
      cases hBreaks with
      | empty hNone => exact absurd hNone hOptions
      | fault hFirst => exact ⟨_, _, hFirst, rfl⟩
    · rintro ⟨i, option, hFirst, rfl⟩
      exact .fault hFirst

end Selection

-- ---------------------------------------------------------------------------
-- Rules
-- ---------------------------------------------------------------------------

namespace Condition

variable {condition : Condition} {violation : Violation}

theorem isValid_iff : condition.IsValid ↔ condition.violation? = none := by
  cases condition with
  | answer a => simp [IsValid, violation?]
  | count n => simp [IsValid, violation?]
  | comparison tree => exact tree.isValid_iff

theorem breaks_iff : condition.Breaks violation ↔ condition.violation? = some violation := by
  constructor
  · intro hBreaks
    cases hBreaks with
    | comparison hFirst => exact ComparisonTree.violation?_eq_some_iff.2 ⟨_, hFirst, rfl⟩
  · intro hSome
    cases condition with
    | answer a => cases hSome
    | count n => cases hSome
    | comparison tree =>
      obtain ⟨c, hFirst, rfl⟩ := ComparisonTree.violation?_eq_some_iff.1 hSome
      exact .comparison hFirst

end Condition

namespace ScoringCondition

variable {policy : Policy} {condition : ScoringCondition} {violation : Violation}

theorem isValid_iff : condition.IsValid policy ↔ condition.violation? policy = none := by
  cases condition with
  | common c => exact c.isValid_iff
  | range r => exact r.isValid_iff
  | selection s => exact s.isValid_iff

theorem breaks_iff : condition.Breaks policy violation ↔
    condition.violation? policy = some violation := by
  constructor
  · intro hBreaks
    cases hBreaks with
    | common hBreaks => exact Condition.breaks_iff.1 hBreaks
    | range hInverted => exact if_pos hInverted
    | selection hBreaks => exact Selection.breaks_iff.1 hBreaks
  · intro hSome
    cases condition with
    | common c => exact .common (Condition.breaks_iff.2 hSome)
    | range r =>
      obtain ⟨hInverted, hSame⟩ := Option.ite_none_right_eq_some.1 hSome
      cases hSame
      exact .range hInverted
    | selection s => exact .selection (Selection.breaks_iff.2 hSome)

end ScoringCondition

namespace Rule

variable {policy : Policy} {rule : Rule} {violation : Violation}

theorem isValid_iff : rule.IsValid policy ↔ rule.violation? policy = none := by
  cases rule with
  | scoring rule => exact rule.condition.isValid_iff
  | skip rule =>
    unfold IsValid violation?
    by_cases hZero : rule.target.number = 0
    · simp [hZero]
    · simp [hZero, Condition.isValid_iff]

theorem breaks_iff : rule.Breaks policy violation ↔ rule.violation? policy = some violation := by
  constructor
  · intro hBreaks
    cases hBreaks with
    | scoring hBreaks => exact ScoringCondition.breaks_iff.1 hBreaks
    | question hZero => exact if_pos hZero
    | skip hTarget hBreaks => exact (if_neg hTarget).trans (Condition.breaks_iff.1 hBreaks)
  · intro hSome
    cases rule with
    | scoring rule => exact .scoring (ScoringCondition.breaks_iff.2 hSome)
    | skip rule =>
      by_cases hZero : rule.target.number = 0
      · rw [violation?, if_pos hZero] at hSome
        cases hSome
        exact .question hZero
      · rw [violation?, if_neg hZero] at hSome
        exact .skip hZero (Condition.breaks_iff.2 hSome)

/--
**A rule is refused exactly if it is not valid, and for its first violation.** The checks accept a
rule under a policy if and only if the bounds of its range are in order, its selection is valid, no
percentage is above one hundred and its question is not `Q0`. Otherwise they report one violation,
the first in the order in which the rule is written, but that of the question before all others.
-/
theorem validate_decides (policy : Policy) (rule : Rule) :
    (rule.validate policy = .ok () ↔ rule.IsValid policy) ∧
    ∀ violation, rule.validate policy = .error violation ↔ rule.Breaks policy violation := by
  constructor
  · rw [validate_eq_ok_iff, isValid_iff]
  · intro violation
    rw [validate_eq_error_iff, breaks_iff]

/-- Of an option `#0` and a duplicate the one in front is reported. -/
example : validate {} (.scoring ⟨.selection ⟨[2, 3, 2, 0]⟩, .red⟩) =
    .error (.duplicateOption 2) :=
  rfl

end Rule

end ChecklistLogic
