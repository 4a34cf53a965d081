import ChecklistLogic.Proofs.Doubles
import ChecklistLogic.Proofs.Outcome

/-!
# ChecklistLogic — percentages as fractions

A form may hold percentages as fractions of one. The threshold of a percentage is then divided by a
hundred in floating point, and the quotient is written as the decimal by which it is made known.
Expressions have the exact hundredth part instead (`Hundredths.text`); both are the same text.

* **Notation** — `Decimal` is a number in positional notation without an exponent, a leading zero
  or a zero at the end of its decimal places. Every number has at most one
  (`Decimal.text_eq_of_value_eq`).
* **Division** — a threshold of 32 bits has at most ten digits, so its hundredth part is the
  shortest decimal of the double it is rounded to (`isShortest_hundredth_iff`).
* **Two forms** — the condition of a tree of comparisons has one truth in a form with fractions and
  in a form with percentages, if the same is answered in both (`ComparisonTree.value_fraction`).

Main result: `Rule.fraction_exact`.
-/

namespace ChecklistLogic

open Form XPath

-- ---------------------------------------------------------------------------
-- Digits
-- ---------------------------------------------------------------------------

theorem toNat_digit_bounds {c : Char} (hDigit : c.isDigit = true) :
    '0'.toNat ≤ c.toNat ∧ c.toNat - '0'.toNat < 10 := by
  obtain ⟨hLow, hHigh⟩ := Char.isDigit_iff_toNat.1 hDigit
  have hNine : '9'.toNat = '0'.toNat + 9 := rfl
  omega

theorem ofDigitChars_concat (front : List Char) (c : Char) :
    Nat.ofDigitChars 10 (front ++ [c]) 0 =
      10 * Nat.ofDigitChars 10 front 0 + (c.toNat - '0'.toNat) := by
  simp [Nat.ofDigitChars_append, Nat.ofDigitChars_cons]

/-- Digits behind a point are worth less than one before it. -/
theorem ofDigitChars_lt {digits : List Char} (hDigits : ∀ c ∈ digits, c.isDigit = true) :
    Nat.ofDigitChars 10 digits 0 < 10 ^ digits.length := by
  induction digits using List.reverseRecOn with
  | nil => simp
  | append_singleton front c ih =>
    have hFront := ih fun d hMem => hDigits d (by simp [hMem])
    have hLast := toNat_digit_bounds (hDigits c (by simp))
    rw [ofDigitChars_concat, List.length_append, List.length_singleton, pow_succ]
    omega

/-- As many digits of one value are the same digits. -/
theorem eq_of_ofDigitChars_eq {first second : List Char}
    (hFirst : ∀ c ∈ first, c.isDigit = true) (hSecond : ∀ c ∈ second, c.isDigit = true)
    (hLength : first.length = second.length)
    (hValue : Nat.ofDigitChars 10 first 0 = Nat.ofDigitChars 10 second 0) : first = second := by
  induction first using List.reverseRecOn generalizing second with
  | nil => exact (List.length_eq_zero_iff.1 hLength.symm).symm
  | append_singleton front c ih =>
    cases second using List.reverseRecOn with
    | nil => simp at hLength
    | append_singleton other d =>
      have hLast := toNat_digit_bounds (hFirst c (by simp))
      have hOther := toNat_digit_bounds (hSecond d (by simp))
      rw [ofDigitChars_concat, ofDigitChars_concat] at hValue
      have hSame : front = other := ih (fun e hMem => hFirst e (by simp [hMem]))
        (fun e hMem => hSecond e (by simp [hMem])) (by simpa using hLength) (by omega)
      have hChar : c = d := Char.toNat_inj.1 (by omega)
      rw [hSame, hChar]

theorem ofDigitChars_zeros (digits : List Char) (count : Nat) :
    Nat.ofDigitChars 10 (digits ++ List.replicate count '0') 0 =
      Nat.ofDigitChars 10 digits 0 * 10 ^ count := by
  induction count with
  | zero => simp
  | succ count ih =>
    rw [List.replicate_succ', ← List.append_assoc, ofDigitChars_concat, ih, pow_succ, Nat.sub_self]
    ring

-- ---------------------------------------------------------------------------
-- Decimals without an exponent
-- ---------------------------------------------------------------------------

/-- A number in positional notation: the whole part without leading zeros, and decimal places of
which the last is not zero. -/
structure Decimal where
  whole : Nat
  fraction : List Char
  isDigit : ∀ c ∈ fraction, c.isDigit = true
  noZeroLast : fraction.getLast? ≠ some '0'

namespace Decimal

/-- A decimal as it is written, with a point only if there are decimal places. -/
def text (d : Decimal) : String :=
  toString d.whole ++ (if d.fraction = [] then "" else "." ++ String.ofList d.fraction)

/-- The number that a decimal stands for. -/
def value (d : Decimal) : Rat :=
  decimal (Nat.toDigits 10 d.whole) d.fraction

theorem ofDigitChars_append (d : Decimal) :
    Nat.ofDigitChars 10 (Nat.toDigits 10 d.whole ++ d.fraction) 0 =
      d.whole * 10 ^ d.fraction.length + Nat.ofDigitChars 10 d.fraction 0 := by
  rw [Nat.ofDigitChars_append, Nat.ofDigitChars_ten_toDigits, Nat.ofDigitChars_eq_ofDigitChars_zero,
    mul_comm]

/-- Decimals of one value are written alike. -/
theorem text_eq_of_value_eq {d e : Decimal} (hValue : d.value = e.value) : d.text = e.text := by
  wlog hLength : d.fraction.length ≤ e.fraction.length generalizing d e
  · exact (this hValue.symm (Nat.le_of_not_le hLength)).symm
  obtain ⟨missing, hMissing⟩ := Nat.exists_eq_add_of_le hLength
  -- the shorter places are filled up with zeros, then both numbers count the same unit
  have hFilled : ∀ c ∈ d.fraction ++ List.replicate missing '0', c.isDigit = true := by
    intro c hMem
    rcases List.mem_append.1 hMem with hOwn | hZero
    · exact d.isDigit c hOwn
    · rw [List.eq_of_mem_replicate hZero]
      rfl
  have hSame : d.whole * 10 ^ e.fraction.length +
        Nat.ofDigitChars 10 (d.fraction ++ List.replicate missing '0') 0 =
      e.whole * 10 ^ e.fraction.length + Nat.ofDigitChars 10 e.fraction 0 := by
    have hScale : ∀ n : Nat, ((10 ^ n : Nat) : Rat) ≠ 0 := fun n => by positivity
    have hCross := (div_eq_div_iff (hScale _) (hScale _)).1 hValue
    rw [d.ofDigitChars_append, e.ofDigitChars_append] at hCross
    have hNat : (d.whole * 10 ^ d.fraction.length + Nat.ofDigitChars 10 d.fraction 0) *
        10 ^ e.fraction.length =
      (e.whole * 10 ^ e.fraction.length + Nat.ofDigitChars 10 e.fraction 0) *
        10 ^ d.fraction.length := by
      exact_mod_cast hCross
    refine Nat.eq_of_mul_eq_mul_right (Nat.pow_pos (by decide : 0 < 10)) (Eq.trans ?_ hNat)
    rw [ofDigitChars_zeros, hMissing, pow_add]
    ring
  have hFilledLength : (d.fraction ++ List.replicate missing '0').length = e.fraction.length := by
    rw [List.length_append, List.length_replicate, hMissing]
  have hPlaces : Nat.ofDigitChars 10 (d.fraction ++ List.replicate missing '0') 0 =
      Nat.ofDigitChars 10 e.fraction 0 := by
    have hFirst := ofDigitChars_lt hFilled
    have hSecond := ofDigitChars_lt e.isDigit
    rw [hFilledLength] at hFirst
    have hRest := congrArg (· % 10 ^ e.fraction.length) hSame
    simpa only [Nat.mul_add_mod_of_lt hFirst, Nat.mul_add_mod_of_lt hSecond] using hRest
  have hWhole : d.whole = e.whole := by
    rw [hPlaces] at hSame
    exact Nat.eq_of_mul_eq_mul_right (Nat.pow_pos (by decide)) (Nat.add_right_cancel hSame)
  have hDigits := eq_of_ofDigitChars_eq hFilled e.isDigit hFilledLength hPlaces
  have hFraction : d.fraction = e.fraction := by
    cases missing with
    | zero => simpa using hDigits
    | succ more =>
      have hLast : e.fraction.getLast? = some '0' := by
        rw [← hDigits, List.replicate_succ', ← List.append_assoc, List.getLast?_concat]
      exact absurd hLast e.noZeroLast
  unfold text
  rw [hWhole, hFraction]

/-- A number of hundredths as it is written is a decimal. -/
theorem exists_hundredths (n : Hundredths) :
    ∃ d : Decimal, d.text = n.text ∧ d.fraction.length ≤ 2 ∧ d.value = hundredthsValue n := by
  obtain ⟨fraction, hPlaces, hDigits, hValue, hLength, hLast⟩ :=
    exists_places (Nat.mod_lt n.count (by decide : 100 > 0))
  refine ⟨⟨n.count / 100, fraction, hDigits, hLast⟩, ?_, hLength, decimal_hundredths hValue⟩
  unfold text Hundredths.text
  congr 1
  rw [← String.toList_inj, hPlaces]
  split <;> simp

end Decimal

-- ---------------------------------------------------------------------------
-- A threshold divided by a hundred
-- ---------------------------------------------------------------------------

/-- A double of at least zero is written as this text: by its shortest decimal, and without an
exponent. -/
def Prints (x : Rat) (text : String) : Prop :=
  ∃ d : Decimal, d.text = text ∧ Double.IsShortest x d.value

/-- The hundredth part of a threshold is rounded to some double, whose shortest decimal it is. -/
theorem isShortest_hundredth_iff (threshold : UInt32) :
    (∃ x, Double.RoundsTo (threshold.toNat / 100) x) ∧
      ∀ x, Double.RoundsTo (threshold.toNat / 100) x →
        ∀ r, Double.IsShortest x r ↔ r = threshold.toNat / 100 := by
  by_cases hZero : threshold.toNat = 0
  · rw [hZero, Nat.cast_zero, zero_div]
    refine ⟨⟨0, Double.roundsTo_zero⟩, fun x hRounds r => ?_⟩
    rw [hRounds.eq_zero]
    exact Double.isShortest_zero_iff
  · have hLeast : (1 : Rat) ≤ threshold.toNat := by
      exact_mod_cast Nat.one_le_iff_ne_zero.2 hZero
    have hMost : (threshold.toNat : Rat) < 2 ^ 32 := by exact_mod_cast threshold.toNat_lt
    have hLow : (2 : Rat) ^ (-7 : Int) ≤ threshold.toNat / 100 := by
      norm_num
      linarith
    have hHigh : (threshold.toNat / 100 : Rat) ≤ 2 ^ (32 : Int) := by
      norm_num
      linarith
    have hDigits : Double.HasDigits 15 (threshold.toNat / 100) := by
      refine ⟨threshold.toNat, -2, ?_, ?_⟩
      · have hBound := threshold.toNat_lt
        rw [abs_of_nonneg (by omega)]
        omega
      · norm_num
        exact div_eq_mul_one_div _ _
    refine ⟨Double.exists_roundsTo (.of_bounds hLow hHigh (by decide) (by decide)),
      fun x hRounds r => ?_⟩
    exact Double.isShortest_iff
      (hRounds.isNormal hLow hHigh (by decide) (by decide) (by decide)) hRounds hDigits

-- ---------------------------------------------------------------------------
-- Conditions in two forms
-- ---------------------------------------------------------------------------

variable {options : FormOptions} {field : FormField} {i j : Interpretation}

/-- A comparison has one truth in a form with fractions and in a form with percentages. -/
theorem Comparison.holds_fraction (c : Comparison)
    (hCount : i.selectedCount field = j.selectedCount field)
    (hNumber : 100 * i.number field = j.number field) :
    c.holds { options with percentAsFraction := true } i.toAnswers field =
      c.holds { options with percentAsFraction := false } j.toAnswers field := by
  simp [holds, Answers.percentage, hCount, hNumber]

/-- The condition of a tree, whatever its nesting, has one truth in a form with fractions and in a
form with percentages. -/
theorem ComparisonTree.value_fraction (tree : ComparisonTree)
    (hCount : i.selectedCount field = j.selectedCount field)
    (hNumber : 100 * i.number field = j.number field) :
    ∃ truth, (tree.term { options with percentAsFraction := true } field).value i = .truth truth ∧
      (tree.term { options with percentAsFraction := false } field).value j = .truth truth := by
  induction tree with
  | atom c =>
    refine ⟨_, c.value_term, ?_⟩
    rw [c.holds_fraction hCount hNumber]
    exact c.value_term
  | join connective left right ihLeft ihRight =>
    obtain ⟨first, hFraction, hPercent⟩ := ihLeft
    obtain ⟨second, hOtherFraction, hOtherPercent⟩ := ihRight
    refine ⟨connective.apply first second, ?_, ?_⟩
    · simp [term, hFraction, hOtherFraction, Interpretation.operate, Value.isTrue]
    · simp [term, hPercent, hOtherPercent, Interpretation.operate, Value.isTrue]

-- ---------------------------------------------------------------------------
-- Fractions are exact
-- ---------------------------------------------------------------------------

theorem Rule.conditionExpr_of_tree? {rule : Rule} {tree : ComparisonTree}
    (hTree : rule.tree? = some tree) (options : FormOptions) :
    rule.conditionExpr options field = tree.expr options field := by
  have hCommon : ∀ condition : Condition, condition.tree? = some tree →
      condition.expr options field = tree.expr options field := by
    intro condition hOwn
    cases condition with
    | comparison own =>
      obtain rfl : own = tree := Option.some.inj hOwn
      rfl
    | answer | count => cases hOwn
  cases rule with
  | skip rule => exact hCommon rule.condition hTree
  | scoring rule =>
    obtain ⟨condition, target⟩ := rule
    cases condition with
    | common condition => exact hCommon condition hTree
    | range | selection => cases hTree

/--
**Percentages as fractions are exact.** With percentages as fractions of one, the threshold of a
percentage is written behind its sign as a decimal without an exponent, with at most two decimal
places of which the last is not zero, and its value is exactly the hundredth part of the threshold,
for every threshold of 32 bits. This is the text that floating-point arithmetic gives: the quotient
is rounded to a double, and every such double is written as that decimal and no other.

So a form with fractions asks the same as a form with percentages. The condition of a rule with a
tree of comparisons, of any nesting and with any mixture of percentages and counts, is a readable
expression in both forms, and if the same choices are selected and the number in one form is the
hundredth part of that in the other, both expressions have the same truth.
-/
theorem Rule.fraction_exact (options : FormOptions) (field : FormField) :
    let fractions := { options with percentAsFraction := true }
    let percentages := { options with percentAsFraction := false }
    (∀ (comparator : Comparator) (threshold : UInt32),
      ∃ d : Decimal,
        ((⟨comparator, threshold, true⟩ : Comparison).expr fractions field).render =
          "number(" ++ field.reference ++ ") " ++ (Relation.order comparator).sign ++ " " ++
            d.text ∧
        d.fraction.length ≤ 2 ∧ d.value = (threshold.toNat : Rat) / 100 ∧
        (∃ x, Double.RoundsTo (threshold.toNat / 100) x) ∧
        ∀ x, Double.RoundsTo (threshold.toNat / 100) x →
          ∀ text, Prints x text ↔ text = d.text) ∧
    ∀ (rule : Rule) (tree : ComparisonTree), rule.tree? = some tree →
      ∃ fraction percent fractionTerm percentTerm,
        rule.condition fractions field.name = .ok fraction ∧
        rule.condition percentages field.name = .ok percent ∧
        Term.ofText? fraction.render = some fractionTerm ∧
        Term.ofText? percent.render = some percentTerm ∧
        ∀ (i j : Interpretation) (v : Rat), i.selectedCount field = j.selectedCount field →
          i.number field = v / 100 → j.number field = v →
          ∃ truth, fractionTerm.value i = .truth truth ∧ percentTerm.value j = .truth truth := by
  intro fractions percentages
  refine ⟨fun comparator threshold => ?_, fun rule tree hTree => ?_⟩
  · obtain ⟨d, hText, hLength, hValue⟩ := Decimal.exists_hundredths ⟨threshold.toNat⟩
    obtain ⟨hExists, hShortest⟩ := isShortest_hundredth_iff threshold
    refine ⟨d, ?_, hLength, hValue, hExists, fun x hRounds text => ?_⟩
    · rw [hText]
      rfl
    · constructor
      · rintro ⟨other, rfl, hOther⟩
        have hSame := (hShortest x hRounds other.value).1 hOther
        exact Decimal.text_eq_of_value_eq (hSame.trans hValue.symm)
      · rintro rfl
        exact ⟨d, rfl, (hShortest x hRounds d.value).2 hValue⟩
  · have hRead : ∀ own : FormOptions,
        Term.ofText? (rule.conditionExpr own field).render = some (tree.term own field) := by
      intro own
      rw [conditionExpr_of_tree? hTree]
      exact tree.shows_expr.ofText?_render
    refine ⟨_, _, _, _, rule.condition_name _ field, rule.condition_name _ field, hRead fractions,
      hRead percentages, fun i j v hCount hFraction hPercent => tree.value_fraction hCount ?_⟩
    rw [hFraction, hPercent]
    ring

/-- A tree with a join on the right, at four fifths. -/
theorem Rule.fraction_exact_mixed :
    let field : FormField := ⟨"Q1", rfl⟩
    let tree : ComparisonTree := .join .and (.atom ⟨.atLeast, 80, true⟩)
      (.join .or (.atom ⟨.moreThan, 5, false⟩) (.atom ⟨.lessThan, 99, true⟩))
    let rule : Rule := .skip ⟨.comparison tree, ⟨4⟩⟩
    let interpretation (number : Rat) : Interpretation :=
      { isSelected := fun _ _ => false, selectedCount := fun _ => 3, number := fun _ => number,
        bareField := fun _ => .truth false, negation := id, operation := fun _ left _ => left,
        function := fun _ _ => .truth false }
    ∃ fraction percent fractionTerm percentTerm,
      rule.condition { percentAsFraction := true } field.name = .ok fraction ∧
      rule.condition {} field.name = .ok percent ∧
      Term.ofText? fraction.render = some fractionTerm ∧
      Term.ofText? percent.render = some percentTerm ∧
      ∃ truth, fractionTerm.value (interpretation (80 / 100)) = .truth truth ∧
        percentTerm.value (interpretation 80) = .truth truth := by
  intro field tree rule interpretation
  obtain ⟨fraction, percent, fractionTerm, percentTerm, hFraction, hPercent, hRead, hOther,
    hValue⟩ := (Rule.fraction_exact {} field).2 rule tree rfl
  exact ⟨fraction, percent, fractionTerm, percentTerm, hFraction, hPercent, hRead, hOther,
    hValue (interpretation (80 / 100)) (interpretation 80) 80 rfl rfl rfl⟩

end ChecklistLogic
