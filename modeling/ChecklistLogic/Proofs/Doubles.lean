import Mathlib.Algebra.Order.Field.Power
import Mathlib.Algebra.Order.Round
import Mathlib.Data.Int.Log
import Mathlib.Data.Rat.Floor
import Mathlib.Tactic.Linarith
import Mathlib.Tactic.NormNum
import Mathlib.Tactic.Positivity
import Mathlib.Tactic.Ring

/-!
# ChecklistLogic — floating-point numbers and their shortest decimals

The finite numbers of binary floating-point arithmetic with 53 significant bits, the rounding of a
rational number to one of them, and the decimal by which such a number is made known: the one with
the fewest significant digits that is rounded to it. Zeros have no sign here.

* `RoundsTo` — rounding to the nearest double, ties to the even one. Every number of a normal
  magnitude is rounded to some double (`exists_roundsTo`).
* `RoundsTo.abs_sub_le` — what is rounded to a double is no farther from it than half the distance
  `ulp` to its neighbours.
* `HasDigits.lt_mul_sub` — two decimals of few digits are far apart in comparison with their size.
* `eq_of_roundsTo` — therefore a double is the rounding of at most one decimal with up to fifteen
  digits, and if there is one, that is its shortest decimal (`isShortest_iff`).
-/

namespace ChecklistLogic.Double

-- ---------------------------------------------------------------------------
-- Doubles
-- ---------------------------------------------------------------------------

/-- A finite floating-point number: at most 53 bits and a power of two. -/
def IsDouble (x : Rat) : Prop :=
  ∃ m e : Int, |m| < 2 ^ 53 ∧ -1074 ≤ e ∧ e ≤ 971 ∧ x = m * 2 ^ e

/-- A floating-point number that has a bit to spare, so that its significand of 53 bits is even. -/
def IsEven (x : Rat) : Prop :=
  ∃ m e : Int, |m| < 2 ^ 52 ∧ -1073 ≤ e ∧ e ≤ 972 ∧ x = m * 2 ^ e

/-- A number is rounded to the nearest double, and to the even one of two that are equally near.
Beyond the range of doubles nothing is rounded to a finite number. -/
structure RoundsTo (q x : Rat) : Prop where
  inRange : |q| < 2 ^ 1024 - 2 ^ 970
  isDouble : IsDouble x
  nearest : ∀ y, IsDouble y → |x - q| ≤ |y - q|
  tie : ∀ y, IsDouble y → y ≠ x → |y - q| = |x - q| → IsEven x

/-- A positive magnitude at which all 53 bits can be used and no neighbour overflows. -/
structure IsNormal (q : Rat) : Prop where
  low : (2 : Rat) ^ (-1022 : Int) ≤ q
  high : q < (2 : Rat) ^ (1022 : Int)

/-- The distance between neighbouring doubles at a magnitude. -/
def ulp (q : Rat) : Rat :=
  2 ^ (Int.log 2 q - 52)

theorem IsNormal.pos {q : Rat} (hNormal : IsNormal q) : 0 < q :=
  lt_of_lt_of_le (by positivity) hNormal.low

theorem IsNormal.of_bounds {q : Rat} {low high : Int} (hLow : 2 ^ low ≤ q) (hHigh : q ≤ 2 ^ high)
    (hLeast : -1022 ≤ low) (hMost : high < 1022) : IsNormal q where
  low := (zpow_le_zpow_right₀ (by decide) hLeast).trans hLow
  high := hHigh.trans_lt (zpow_lt_zpow_right₀ (by decide) hMost)

theorem ulp_pos (q : Rat) : 0 < ulp q := by
  unfold ulp
  positivity

theorem two_pow_mul_ulp (q : Rat) (k : Nat) : 2 ^ k * ulp q = 2 ^ (Int.log 2 q - 52 + k) := by
  unfold ulp
  rw [zpow_add₀ (by decide), zpow_natCast, mul_comm]

/-- At its own magnitude a number has 53 bits before the point. -/
theorem ulp_bounds {q : Rat} (hPositive : 0 < q) : 2 ^ 52 * ulp q ≤ q ∧ q < 2 ^ 53 * ulp q := by
  rw [two_pow_mul_ulp, two_pow_mul_ulp]
  have hLow := Int.zpow_log_le_self (b := 2) (by decide) hPositive
  have hHigh := Int.lt_zpow_succ_log_self (b := 2) (by decide) q
  constructor
  · simpa using hLow
  · have hExponent : Int.log 2 q - 52 + (53 : Nat) = Int.log 2 q + 1 := by omega
    rw [hExponent]
    exact_mod_cast hHigh

theorem IsNormal.log_bounds {q : Rat} (hNormal : IsNormal q) :
    -1022 ≤ Int.log 2 q ∧ Int.log 2 q < 1022 := by
  constructor
  · rw [← Int.zpow_le_iff_le_log (by decide) hNormal.pos]
    exact_mod_cast hNormal.low
  · rw [← Int.lt_zpow_iff_log_lt (by decide) hNormal.pos]
    exact_mod_cast hNormal.high

theorem isDouble_zero : IsDouble 0 :=
  ⟨0, 0, by decide, by decide, by decide, by simp⟩

theorem isDouble_zpow {e : Int} (hLow : -1074 ≤ e) (hHigh : e ≤ 971) : IsDouble (2 ^ e) :=
  ⟨1, e, by decide, hLow, hHigh, by simp⟩

/-- A double is on the grid of a magnitude or below all numbers of that magnitude. -/
theorem IsDouble.multiple_or_small {x : Rat} (hDouble : IsDouble x) (q : Rat) :
    (∃ k : Int, x = k * ulp q) ∨ |x| < 2 ^ 52 * ulp q := by
  obtain ⟨m, e, hBits, -, -, rfl⟩ := hDouble
  rcases le_or_gt (Int.log 2 q - 52) e with hFine | hCoarse
  · left
    obtain ⟨k, hExponent⟩ := Int.eq_ofNat_of_zero_le (sub_nonneg.2 hFine)
    refine ⟨m * 2 ^ k, ?_⟩
    have hSplit : e = Int.log 2 q - 52 + k := by omega
    rw [hSplit, ← two_pow_mul_ulp]
    push_cast
    ring
  · right
    have hPower : (2 : Rat) ^ e ≤ 2 ^ (Int.log 2 q - 53) :=
      zpow_le_zpow_right₀ (by decide) (by omega)
    have hCast : |(m : Rat)| < 2 ^ 53 := by exact_mod_cast hBits
    have hExponent : Int.log 2 q - 52 + (52 : Nat) = 53 + (Int.log 2 q - 53) := by omega
    have hPositive : (0 : Rat) < 2 ^ e := by positivity
    rw [abs_mul, abs_of_pos hPositive, two_pow_mul_ulp, hExponent, zpow_add₀ (by decide)]
    exact mul_lt_mul hCast hPower hPositive (by positivity)

theorem exists_half {k : Int} {bits : Nat} (hPower : |k| = 2 ^ (bits + 1)) :
    ∃ half : Int, |half| = 2 ^ bits ∧ k = half * 2 := by
  have hPositive : (0 : Int) < 2 ^ bits := by positivity
  rcases (abs_eq (by positivity)).1 hPower with rfl | rfl
  · exact ⟨2 ^ bits, abs_of_pos hPositive, pow_succ 2 bits⟩
  · exact ⟨-2 ^ bits, by rw [abs_neg, abs_of_pos hPositive], by rw [pow_succ, neg_mul]⟩

/-- The numbers of the grid of a magnitude are doubles as far as 53 bits go. -/
theorem isDouble_mul_ulp {q : Rat} (hNormal : IsNormal q) {k : Int} (hBits : |k| ≤ 2 ^ 53) :
    IsDouble (k * ulp q) := by
  obtain ⟨hLow, hHigh⟩ := hNormal.log_bounds
  rcases lt_or_eq_of_le hBits with hLess | hFull
  · exact ⟨k, Int.log 2 q - 52, hLess, by omega, by omega, rfl⟩
  · -- the significand of a power of two can be halved
    obtain ⟨half, hHalf, rfl⟩ := exists_half hFull
    refine ⟨half, Int.log 2 q - 52 + (1 : Nat), ?_, by omega, by omega, ?_⟩
    · rw [hHalf]
      decide
    · rw [← two_pow_mul_ulp]
      push_cast
      ring

/-- An even multiple of the grid is an even double. -/
theorem isEven_mul_ulp {q : Rat} (hNormal : IsNormal q) {k : Int} (hBits : |k| ≤ 2 ^ 53)
    (hEven : Even k) : IsEven (k * ulp q) := by
  obtain ⟨hLow, hHigh⟩ := hNormal.log_bounds
  obtain ⟨half, rfl⟩ := hEven
  have hHalf : |half| ≤ 2 ^ 52 := by
    rw [← two_mul, abs_mul, abs_two] at hBits
    omega
  rcases lt_or_eq_of_le hHalf with hLess | hFull
  · refine ⟨half, Int.log 2 q - 52 + (1 : Nat), hLess, by omega, by omega, ?_⟩
    rw [← two_pow_mul_ulp]
    push_cast
    ring
  · obtain ⟨quarter, hQuarter, rfl⟩ := exists_half hFull
    refine ⟨quarter, Int.log 2 q - 52 + (2 : Nat), ?_, by omega, by omega, ?_⟩
    · rw [hQuarter]
      decide
    · rw [← two_pow_mul_ulp]
      push_cast
      ring

-- ---------------------------------------------------------------------------
-- Rounding
-- ---------------------------------------------------------------------------

/-- A number has a nearest integer, and an even one if two are equally near. -/
theorem exists_nearest_int (q : Rat) :
    ∃ k : Int, |(k : Rat) - q| ≤ 1 / 2 ∧ (|(k : Rat) - q| = 1 / 2 → Even k) := by
  have hNear : |(round q : Rat) - q| ≤ 1 / 2 := by
    rw [abs_sub_comm]
    exact abs_sub_round q
  rcases lt_or_eq_of_le hNear with hLess | hHalf
  · exact ⟨round q, hNear, fun hTie => absurd hTie hLess.ne⟩
  · by_cases hEven : Even (round q)
    · exact ⟨round q, hNear, fun _ => hEven⟩
    · -- half a unit from an odd integer: the neighbour on the other side is as near, and even
      have hOdd : Odd (round q) := Int.not_even_iff_odd.1 hEven
      rcases (abs_eq (by norm_num)).1 hHalf with hAbove | hBelow
      · refine ⟨round q - 1, ?_, fun _ => hOdd.sub_odd odd_one⟩
        have hDistance : ((round q - 1 : Int) : Rat) - q = -(1 / 2) := by
          push_cast
          linarith
        rw [hDistance, abs_neg, abs_of_pos (by norm_num)]
      · refine ⟨round q + 1, ?_, fun _ => hOdd.add_odd odd_one⟩
        have hDistance : ((round q + 1 : Int) : Rat) - q = 1 / 2 := by
          push_cast
          linarith
        rw [hDistance, abs_of_pos (by norm_num)]

/-- Any other integer is at least half a unit away. -/
theorem half_le_abs_sub {q : Rat} {k j : Int} (hNear : |(k : Rat) - q| ≤ 1 / 2) (hOther : j ≠ k) :
    1 / 2 ≤ |(j : Rat) - q| := by
  have hApart : (1 : Rat) ≤ |(j : Rat) - k| := by
    have hInt : (1 : Int) ≤ |j - k| := Int.one_le_abs (sub_ne_zero.2 hOther)
    exact_mod_cast hInt
  have hTriangle := abs_sub_le (j : Rat) q k
  rw [abs_sub_comm q k] at hTriangle
  linarith

/-- Some number of the grid is as near as a double, and nearer unless it is that double. -/
theorem IsDouble.exists_multiple {q y : Rat} (hPositive : 0 < q) (hDouble : IsDouble y) :
    ∃ j : Int, |j * ulp q - q| ≤ |y - q| ∧ (y = j * ulp q ∨ |j * ulp q - q| < |y - q|) := by
  rcases hDouble.multiple_or_small q with ⟨j, rfl⟩ | hSmall
  · exact ⟨j, le_rfl, .inl rfl⟩
  · have hLow := (ulp_bounds hPositive).1
    have hBelow := (abs_lt.1 hSmall).2
    have hNearer : |((2 ^ 52 : Int) : Rat) * ulp q - q| < |y - q| := by
      push_cast
      rw [abs_of_nonpos (by linarith), abs_of_nonpos (by linarith)]
      linarith
    exact ⟨2 ^ 52, hNearer.le, .inr hNearer⟩

/-- Some number of the grid is nearest, and an even one if two are equally near. -/
theorem exists_nearest_multiple {q : Rat} (hPositive : 0 < q) :
    ∃ k : Int, |k| ≤ 2 ^ 53 ∧ (∀ j : Int, |k * ulp q - q| ≤ |j * ulp q - q|) ∧
      ∀ j : Int, j ≠ k → |j * ulp q - q| = |k * ulp q - q| → Even k := by
  have hUnit := ulp_pos q
  obtain ⟨hLow, hHigh⟩ := ulp_bounds hPositive
  obtain ⟨k, hNear, hEven⟩ := exists_nearest_int (q / ulp q)
  have hScaled : ∀ j : Int, |j * ulp q - q| = |(j : Rat) - q / ulp q| * ulp q := by
    intro j
    have hDistance : j * ulp q - q = (j - q / ulp q) * ulp q := by
      rw [sub_mul, div_mul_cancel₀ _ hUnit.ne']
    rw [hDistance, abs_mul, abs_of_pos hUnit]
  refine ⟨k, ?_, fun j => ?_, fun j hOther hTie => ?_⟩
  · have hScaledLow : 2 ^ 52 ≤ q / ulp q := (le_div_iff₀ hUnit).2 hLow
    have hScaledHigh : q / ulp q < 2 ^ 53 := (div_lt_iff₀ hUnit).2 hHigh
    obtain ⟨hDown, hUp⟩ := abs_le.1 hNear
    have hMost : (k : Rat) < 2 ^ 53 + 1 := by linarith
    have hLeast : (0 : Rat) < k := by linarith
    have hMostInt : k < 2 ^ 53 + 1 := by exact_mod_cast hMost
    have hLeastInt : 0 < k := by exact_mod_cast hLeast
    rw [abs_of_pos hLeastInt]
    exact Int.lt_add_one_iff.1 hMostInt
  · by_cases hSame : j = k
    · rw [hSame]
    · rw [hScaled, hScaled]
      exact mul_le_mul_of_nonneg_right (hNear.trans (half_le_abs_sub hNear hSame)) hUnit.le
  · rw [hScaled, hScaled] at hTie
    have hSame := mul_right_cancel₀ hUnit.ne' hTie
    have hFar := half_le_abs_sub hNear hOther
    exact hEven (le_antisymm hNear (hSame ▸ hFar))

/-- Every number of a normal magnitude is rounded to some double. -/
theorem exists_roundsTo {q : Rat} (hNormal : IsNormal q) : ∃ x, RoundsTo q x := by
  obtain ⟨k, hBits, hNearest, hTies⟩ := exists_nearest_multiple hNormal.pos
  refine ⟨k * ulp q, ?_, isDouble_mul_ulp hNormal hBits, fun y hDouble => ?_,
    fun y hDouble hOther hTie => ?_⟩
  · have hRange : (2 : Rat) ^ (1022 : Int) < 2 ^ 1024 - 2 ^ 970 := by decide +kernel
    rw [abs_of_pos hNormal.pos]
    exact hNormal.high.trans hRange
  · obtain ⟨j, hNearer, -⟩ := hDouble.exists_multiple hNormal.pos
    exact (hNearest j).trans hNearer
  · obtain ⟨j, -, rfl | hNearer⟩ := hDouble.exists_multiple hNormal.pos
    · have hDistinct : j ≠ k := by
        rintro rfl
        exact hOther rfl
      exact isEven_mul_ulp hNormal hBits (hTies j hDistinct hTie)
    · exact absurd (hTie ▸ hNearer) (not_lt.2 (hNearest j))

theorem roundsTo_zero : RoundsTo 0 0 where
  inRange := by decide +kernel
  isDouble := isDouble_zero
  nearest := fun y _ => by simp
  tie := fun y _ hOther hTie => absurd (by simpa using hTie) hOther

namespace RoundsTo

variable {q x y : Rat}

/-- Rounding does not go past a double. -/
theorem le_of_isDouble (hRounds : RoundsTo q x) (hDouble : IsDouble y) (hBelow : y ≤ q) :
    y ≤ x := by
  have hNearest := hRounds.nearest y hDouble
  rw [abs_of_nonpos (sub_nonpos.2 hBelow)] at hNearest
  have hDistance := (abs_le.1 hNearest).1
  linarith

theorem isDouble_le (hRounds : RoundsTo q x) (hDouble : IsDouble y) (hAbove : q ≤ y) :
    x ≤ y := by
  have hNearest := hRounds.nearest y hDouble
  rw [abs_of_nonneg (sub_nonneg.2 hAbove)] at hNearest
  have hDistance := (abs_le.1 hNearest).2
  linarith

/-- Nothing but zero is nearest to zero. -/
theorem eq_zero (hRounds : RoundsTo 0 x) : x = 0 :=
  le_antisymm (hRounds.isDouble_le isDouble_zero le_rfl)
    (hRounds.le_of_isDouble isDouble_zero le_rfl)

/-- A number between powers of two is rounded to a number between them. -/
theorem isNormal (hRounds : RoundsTo q x) {low high : Int} (hLow : 2 ^ low ≤ q)
    (hHigh : q ≤ 2 ^ high) (hLeast : -1022 ≤ low) (hMost : high < 971) (hOrder : low ≤ high) :
    IsNormal x :=
  .of_bounds (hRounds.le_of_isDouble (isDouble_zpow (by omega) (by omega)) hLow)
    (hRounds.isDouble_le (isDouble_zpow (by omega) (by omega)) hHigh) hLeast (by omega)

/-- What is rounded to a double is at most half a unit away. -/
theorem abs_sub_le (hRounds : RoundsTo q x) (hNormal : IsNormal x) : |x - q| ≤ ulp x / 2 := by
  have hUnit := ulp_pos x
  obtain ⟨hLow, hHigh⟩ := ulp_bounds hNormal.pos
  -- the double is a multiple of its own unit, so both neighbours are multiples as well
  obtain ⟨k, hMultiple⟩ : ∃ k : Int, x = k * ulp x := by
    refine (hRounds.isDouble.multiple_or_small x).resolve_right fun hSmall => ?_
    rw [abs_of_pos hNormal.pos] at hSmall
    linarith
  have hPositive : 0 < k := by
    have hProduct : 0 * ulp x < k * ulp x := by
      rw [← hMultiple, zero_mul]
      exact hNormal.pos
    exact_mod_cast lt_of_mul_lt_mul_right hProduct hUnit.le
  have hBits : k < 2 ^ 53 := by
    have hProduct : k * ulp x < 2 ^ 53 * ulp x := hMultiple ▸ hHigh
    exact_mod_cast lt_of_mul_lt_mul_right hProduct hUnit.le
  have hNeighbour : ∀ j : Int, 0 ≤ j → j ≤ 2 ^ 53 → |x - q| ≤ |j * ulp x - q| := by
    intro j hLeast hMost
    rw [← abs_of_nonneg hLeast] at hMost
    exact hRounds.nearest _ (isDouble_mul_ulp hNormal hMost)
  have hAbove : |x - q| ≤ |x - q + ulp x| := by
    have hNext : ((k + 1 : Int) : Rat) * ulp x - q = x - q + ulp x := by
      push_cast
      linarith
    exact hNext ▸ hNeighbour (k + 1) (by omega) (by omega)
  have hBelow : |x - q| ≤ |x - q - ulp x| := by
    have hNext : ((k - 1 : Int) : Rat) * ulp x - q = x - q - ulp x := by
      push_cast
      linarith
    exact hNext ▸ hNeighbour (k - 1) (by omega) (by omega)
  have hSquareAbove := sq_le_sq.2 hAbove
  have hSquareBelow := sq_le_sq.2 hBelow
  refine abs_le.2 ⟨?_, ?_⟩
  · nlinarith
  · nlinarith

end RoundsTo

-- ---------------------------------------------------------------------------
-- Decimals
-- ---------------------------------------------------------------------------

/-- A number that has at most so many significant decimal digits. -/
def HasDigits (count : Nat) (q : Rat) : Prop :=
  ∃ m e : Int, |m| < 10 ^ count ∧ q = m * 10 ^ e

/-- The decimals by which a double is made known: rounded to it, of the fewest digits, and as near
as any other of those. -/
structure IsShortest (x q : Rat) : Prop where
  rounds : RoundsTo q x
  fewest : ∀ count r, RoundsTo r x → HasDigits count r → HasDigits count q
  closest : ∀ r, RoundsTo r x → (∀ count, HasDigits count q → HasDigits count r) →
    |x - q| ≤ |x - r|

namespace HasDigits

variable {count more : Nat} {q r : Rat}

theorem mono (hDigits : HasDigits count q) (hMore : count ≤ more) : HasDigits more q := by
  obtain ⟨m, e, hCount, rfl⟩ := hDigits
  exact ⟨m, e, hCount.trans_le (pow_le_pow_right₀ (by decide) hMore), rfl⟩

/-- Only zero has no significant digits. -/
theorem zero_iff : HasDigits 0 q ↔ q = 0 := by
  constructor
  · rintro ⟨m, e, hCount, rfl⟩
    obtain rfl : m = 0 := Int.abs_lt_one_iff.1 hCount
    simp
  · rintro rfl
    exact ⟨0, 0, by decide, by simp⟩

theorem zero : HasDigits count 0 :=
  (zero_iff.2 rfl).mono (Nat.zero_le count)

theorem lt_of_significand {m : Int} (hCount : |m| < 10 ^ count) (e : Int) :
    (m * 10 ^ e : Rat) < 10 ^ count * 10 ^ e := by
  have hScale : (0 : Rat) < 10 ^ e := by positivity
  have hCast : (m : Rat) < 10 ^ count := by exact_mod_cast (abs_lt.1 hCount).2
  exact mul_lt_mul_of_pos_right hCast hScale

/-- A positive multiple of a power of ten is at least that power. -/
theorem zpow_le_of_multiple {j e : Int} (hMultiple : q = j * 10 ^ e) (hPositive : 0 < q) :
    10 ^ e ≤ q := by
  have hScale : (0 : Rat) < 10 ^ e := by positivity
  have hProduct : 0 * (10 : Rat) ^ e < j * 10 ^ e := by
    rw [zero_mul, ← hMultiple]
    exact hPositive
  have hInt : 0 < j := by exact_mod_cast lt_of_mul_lt_mul_right hProduct hScale.le
  have hWhole : (1 : Rat) ≤ j := by exact_mod_cast hInt
  rw [hMultiple]
  exact le_mul_of_one_le_left hScale.le hWhole

/-- Two decimals are apart by more than the last of their digits. -/
theorem lt_mul_sub (hFirst : HasDigits count q) (hSecond : HasDigits count r) (hLess : q < r) :
    q < 10 ^ count * (r - q) := by
  obtain ⟨m, e, hCount, rfl⟩ := hFirst
  obtain ⟨n, f, hOther, rfl⟩ := hSecond
  have hScaled : ∀ {exponent : Int}, (10 : Rat) ^ exponent ≤ n * 10 ^ f - m * 10 ^ e →
      (10 : Rat) ^ count * 10 ^ exponent ≤ 10 ^ count * (n * 10 ^ f - m * 10 ^ e) :=
    fun hStep => mul_le_mul_of_nonneg_left hStep (by positivity)
  -- the difference is a multiple of the smaller power of ten
  rcases le_total e f with hOrder | hOrder
  · obtain ⟨k, hExponent⟩ := Int.eq_ofNat_of_zero_le (sub_nonneg.2 hOrder)
    have hMultiple : (n * 10 ^ f - m * 10 ^ e : Rat) = (n * 10 ^ k - m : Int) * 10 ^ e := by
      rw [show f = e + k by omega, zpow_add₀ (by decide), zpow_natCast]
      push_cast
      ring
    have hGap := zpow_le_of_multiple hMultiple (sub_pos.2 hLess)
    exact (lt_of_significand hCount e).trans_le (hScaled hGap)
  · obtain ⟨k, hExponent⟩ := Int.eq_ofNat_of_zero_le (sub_nonneg.2 hOrder)
    have hMultiple : (n * 10 ^ f - m * 10 ^ e : Rat) = (n - m * 10 ^ k : Int) * 10 ^ f := by
      rw [show e = f + k by omega, zpow_add₀ (by decide), zpow_natCast]
      push_cast
      ring
    have hGap := zpow_le_of_multiple hMultiple (sub_pos.2 hLess)
    exact (hLess.trans (lt_of_significand hOther f)).trans_le (hScaled hGap)

end HasDigits

variable {q r x : Rat}

/-- Decimals with up to fifteen digits that are rounded to one double are equal: their difference
is at most one unit of the double, and that is less than the last of fifteen digits. -/
theorem eq_of_roundsTo (hNormal : IsNormal x) (hFirst : RoundsTo q x) (hSecond : RoundsTo r x)
    (hFirstDigits : HasDigits 15 q) (hSecondDigits : HasDigits 15 r) : q = r := by
  wlog hOrder : q ≤ r generalizing q r
  · exact (this hSecond hFirst hSecondDigits hFirstDigits (le_of_not_ge hOrder)).symm
  refine hOrder.eq_of_not_lt fun hLess => ?_
  have hGap := hFirstDigits.lt_mul_sub hSecondDigits hLess
  have hUnit := (ulp_bounds hNormal.pos).1
  have hBelow := (abs_le.1 (hFirst.abs_sub_le hNormal)).2
  have hAbove := (abs_le.1 (hSecond.abs_sub_le hNormal)).1
  have hPositive := ulp_pos x
  linarith

/-- A decimal with up to fifteen digits is the shortest one of the double that it is rounded to. -/
theorem isShortest_iff (hNormal : IsNormal x) (hRounds : RoundsTo q x)
    (hDigits : HasDigits 15 q) : IsShortest x r ↔ r = q := by
  constructor
  · rintro ⟨hOther, hFewest, -⟩
    exact eq_of_roundsTo hNormal hOther hRounds (hFewest 15 q hRounds hDigits) hDigits
  · rintro rfl
    refine ⟨hRounds, fun count other hOther hCount => ?_, fun other hOther hFew => ?_⟩
    · rcases le_total count 15 with hFew | hMany
      · rwa [eq_of_roundsTo hNormal hRounds hOther hDigits (hCount.mono hFew)]
      · exact hDigits.mono hMany
    · rw [eq_of_roundsTo hNormal hRounds hOther hDigits (hFew 15 hDigits)]

/-- Zero is made known by itself. -/
theorem isShortest_zero_iff : IsShortest 0 r ↔ r = 0 := by
  constructor
  · rintro ⟨-, hFewest, -⟩
    exact HasDigits.zero_iff.1 (hFewest 0 0 roundsTo_zero (HasDigits.zero_iff.2 rfl))
  · rintro rfl
    exact ⟨roundsTo_zero, fun _ _ _ _ => .zero, fun _ _ _ => by simp⟩

end ChecklistLogic.Double
