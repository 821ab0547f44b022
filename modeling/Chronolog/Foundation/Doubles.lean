import Chronolog.Foundation.Binary64
import Mathlib.Data.Int.Log
import Mathlib.Data.Rat.Floor

/-!
# Rationals rounded to double precision

The double nearest to a rational number, subnormals and overflow included.  On
the integers this is the rounding of integers, and the integers up to `2 ^ 53`
are doubles themselves.
-/

namespace Binary64

/-- A double, but for the sign of a zero. -/
inductive Double
  | finite (value : Rat)
  | infinite (negative : Bool)
  | notANumber
  deriving DecidableEq

/-- The order of the doubles, which leaves out what is not a number. -/
def Double.AtMost : Double → Double → Prop
  | .finite left, .finite right => left ≤ right
  | .infinite negative, .finite _ => negative = true
  | .finite _, .infinite negative => negative = false
  | .infinite left, .infinite right => left = true ∨ right = false
  | _, _ => False

/-- The spacing of the doubles around a rational number. -/
def gap (number : Rat) : Rat :=
  2 ^ max (Int.log 2 |number| - 52) (-1074)

/-- The nearest integer, ties to even. -/
def nearestInt (number : Rat) : Int :=
  let rest := number - ⌊number⌋
  if 2 * rest < 1 ∨ 2 * rest = 1 ∧ ⌊number⌋ % 2 = 0 then ⌊number⌋ else ⌊number⌋ + 1

/-- The nearest multiple of the spacing. -/
def rounded (number : Rat) : Rat := nearestInt (number / gap number) * gap number

/-- The double nearest to a rational number. -/
def ofRat (number : Rat) : Double :=
  if |rounded number| < 2 ^ 1024 then .finite (rounded number)
  else .infinite (decide (number < 0))

theorem nearestInt_intCast (number : Int) : nearestInt number = number := by
  rw [nearestInt, Int.floor_intCast, sub_self, mul_zero]
  exact if_pos (Or.inl (by norm_num))

/-- Quotients of natural numbers are rounded by their remainder. -/
theorem nearestInt_div (number divisor : Nat) (positive : 0 < divisor) :
    nearestInt ((number : Rat) / divisor) =
      if 2 * (number % divisor) < divisor ∨
          2 * (number % divisor) = divisor ∧ number / divisor % 2 = 0 then
        ((number / divisor : Nat) : Int)
      else ((number / divisor + 1 : Nat) : Int) := by
  have floor : ⌊(number : Rat) / divisor⌋ = ((number / divisor : Nat) : Int) := by
    rw [Rat.floor_natCast_div_natCast]
    rfl
  have nonzero : (divisor : Rat) ≠ 0 := Nat.cast_ne_zero.mpr positive.ne'
  have rest : (number : Rat) / divisor - ((number / divisor : Nat) : Int) =
      (number % divisor : Nat) / (divisor : Rat) := by
    have split := congrArg (Nat.cast : Nat → Rat) (Nat.div_add_mod number divisor)
    rw [Nat.cast_add, Nat.cast_mul] at split
    rw [Int.cast_natCast, sub_eq_iff_eq_add, div_add' _ _ _ nonzero, ← split]
    ring
  have less : 2 * ((number % divisor : Nat) / (divisor : Rat)) < 1 ↔
      2 * (number % divisor) < divisor := by
    rw [mul_div_assoc', div_lt_one (Nat.cast_pos.mpr positive)]
    exact_mod_cast Iff.rfl
  have tie : 2 * ((number % divisor : Nat) / (divisor : Rat)) = 1 ↔
      2 * (number % divisor) = divisor := by
    rw [mul_div_assoc', div_eq_one_iff_eq nonzero]
    exact_mod_cast Iff.rfl
  have even : ((number / divisor : Nat) : Int) % 2 = 0 ↔ number / divisor % 2 = 0 := by
    omega
  rw [nearestInt, floor, rest]
  simp only [less, tie, even]
  split <;> rfl

/-- Where the spacing divides a number, the number is a double. -/
theorem ofRat_of_integral
    {number : Rat}
    (multiple : Int)
    (integral : number = multiple * gap number)
    (small : |number| < 2 ^ 1024) : ofRat number = .finite number := by
  have positive : gap number ≠ 0 := (zpow_pos two_pos _).ne'
  have ratio : number / gap number = multiple := by
    rw [div_eq_iff positive]
    exact integral
  rw [ofRat, rounded, ratio, nearestInt_intCast, ← integral]
  exact if_pos small

theorem gap_natCast (number : Nat) :
    gap (number : Rat) = 2 ^ ((Nat.log2 number : Int) - 52) := by
  have log : Int.log 2 |(number : Rat)| = (Nat.log2 number : Int) := by
    rw [Nat.abs_cast, Int.log_natCast, Nat.log2_eq_log_two]
  rw [gap, log, max_eq_left (by omega)]

/-- On the natural numbers the two roundings agree. -/
theorem ofRat_natCast
    (number : Nat)
    (small : roundNat number < 2 ^ 1024) :
    ofRat (number : Rat) = .finite (roundNat number : Nat) := by
  by_cases fits : number.log2 ≤ 52
  · -- a number of at most 53 bits
    rw [roundNat_of_log2_le fits] at small ⊢
    apply ofRat_of_integral (number * 2 ^ (52 - number.log2))
    · rw [gap_natCast, Int.cast_mul, Int.cast_pow, Int.cast_natCast, Int.cast_ofNat,
        mul_assoc, ← zpow_natCast, ← zpow_add₀ two_ne_zero]
      have exponent : ((52 - number.log2 : Nat) : Int) + ((number.log2 : Int) - 52) = 0 := by
        omega
      rw [exponent, zpow_zero, mul_one]
    · rw [Nat.abs_cast]
      exact_mod_cast small
  · have gapEq : gap (number : Rat) = (spacing number : Rat) := by
      rw [gap_natCast, spacing, Nat.cast_pow, Nat.cast_ofNat, ← zpow_natCast]
      congr 1
      omega
    have rounded : ((nearestInt ((number : Rat) / (spacing number : Rat)) : Int) : Rat) *
        (spacing number : Rat) = (roundNat number : Rat) := by
      rw [nearestInt_div number (spacing number) (spacing_pos number), roundNat]
      split <;> rw [Int.cast_natCast, Nat.cast_mul]
    rw [ofRat, Binary64.rounded, gapEq, rounded, Nat.abs_cast]
    exact if_pos (by exact_mod_cast small)

/-- The integers of at most 53 bits are doubles. -/
theorem ofRat_intCast
    {number : Int}
    (small : number.natAbs ≤ 2 ^ 53) : ofRat (number : Rat) = .finite number := by
  have size : |(number : Rat)| = (number.natAbs : Rat) := by
    rw [Nat.cast_natAbs, Int.cast_abs]
  have gapEq : gap (number : Rat) = 2 ^ ((Nat.log2 number.natAbs : Int) - 52) := by
    rw [← gap_natCast, gap, gap, size, Nat.abs_cast]
  have finite : |(number : Rat)| < 2 ^ 1024 := by
    rw [size]
    have bound : number.natAbs < 2 ^ 1024 := lt_of_le_of_lt small (by decide +kernel)
    exact_mod_cast bound
  by_cases fits : number.natAbs.log2 ≤ 52
  · apply ofRat_of_integral (number * 2 ^ (52 - number.natAbs.log2)) _ finite
    rw [gapEq, Int.cast_mul, Int.cast_pow, Int.cast_ofNat, mul_assoc, ← zpow_natCast,
      ← zpow_add₀ two_ne_zero]
    have exponent :
        ((52 - number.natAbs.log2 : Nat) : Int) + ((number.natAbs.log2 : Int) - 52) = 0 := by
      omega
    rw [exponent, zpow_zero, mul_one]
  · -- only the power of two itself has 54 bits
    have large : 2 ^ 53 ≤ number.natAbs := by
      by_contra less
      apply fits
      rcases Nat.eq_zero_or_pos number.natAbs with zero | positive
      · rw [zero]
        decide
      · exact Nat.lt_succ_iff.mp ((Nat.log2_lt positive.ne').mpr (Nat.lt_of_not_le less))
    have exact53 : number.natAbs = 2 ^ 53 := le_antisymm small large
    have even : number = number / 2 * 2 := by omega
    apply ofRat_of_integral (number / 2) _ finite
    rw [gapEq, exact53, show (Nat.log2 (2 ^ 53) : Int) - 52 = 1 by decide +kernel, zpow_one]
    exact_mod_cast even

/-! ## Rounding is monotone -/

theorem floor_le_nearestInt (number : Rat) : ⌊number⌋ ≤ nearestInt number := by
  rw [nearestInt]
  split <;> omega

theorem nearestInt_le_floor_add_one (number : Rat) : nearestInt number ≤ ⌊number⌋ + 1 := by
  rw [nearestInt]
  split <;> omega

theorem nearestInt_mono {left right : Rat} (less : left ≤ right) :
    nearestInt left ≤ nearestInt right := by
  rcases (Int.floor_mono less).lt_or_eq with below | same
  · calc
      nearestInt left ≤ ⌊left⌋ + 1 := nearestInt_le_floor_add_one left
      _ ≤ ⌊right⌋ := below
      _ ≤ nearestInt right := floor_le_nearestInt right
  · -- with equal floors the larger rest is rounded up whenever the smaller one is
    have rests : left - ⌊left⌋ ≤ right - ⌊right⌋ := by
      rw [same]
      exact sub_le_sub_right less _
    rw [nearestInt, nearestInt]
    split
    · split <;> omega
    · next up =>
        rw [if_neg]
        · omega
        · rintro (low | ⟨tie, even⟩)
          · exact up (Or.inl (by linarith))
          · rcases lt_or_eq_of_le (by linarith : 2 * (left - ⌊left⌋) ≤ 1) with low | half
            · exact up (Or.inl low)
            · exact up (Or.inr ⟨half, same ▸ even⟩)

/-- A multiple of the gap at or above a number stays above the rounded one. -/
theorem rounded_le
    {number : Rat}
    (multiple : Int)
    (above : number ≤ multiple * gap number) :
    nearestInt (number / gap number) * gap number ≤ multiple * gap number := by
  have positive : 0 < gap number := zpow_pos two_pos _
  apply mul_le_mul_of_nonneg_right _ positive.le
  rw [Int.cast_le, ← nearestInt_intCast multiple]
  exact nearestInt_mono ((div_le_iff₀ positive).mpr above)

/-- A multiple of the gap at or below a number stays below the rounded one. -/
theorem le_rounded
    {number : Rat}
    (multiple : Int)
    (below : multiple * gap number ≤ number) :
    multiple * gap number ≤ nearestInt (number / gap number) * gap number := by
  have positive : 0 < gap number := zpow_pos two_pos _
  apply mul_le_mul_of_nonneg_right _ positive.le
  rw [Int.cast_le, ← nearestInt_intCast multiple]
  exact nearestInt_mono ((le_div_iff₀ positive).mpr below)

theorem rounded_nonneg {number : Rat} (nonneg : 0 ≤ number) : 0 ≤ rounded number := by
  have bound := le_rounded 0 (by simpa using nonneg)
  rwa [Int.cast_zero, zero_mul] at bound

theorem rounded_mono
    {left right : Rat}
    (nonneg : 0 ≤ left)
    (less : left ≤ right) : rounded left ≤ rounded right := by
  rcases nonneg.eq_or_lt with rfl | positive
  · have zero : rounded 0 = 0 := by
      rw [rounded, zero_div, show nearestInt 0 = 0 from nearestInt_intCast 0, Int.cast_zero,
        zero_mul]
    rw [zero]
    exact rounded_nonneg less
  have rightPositive : 0 < right := positive.trans_le less
  have logs : Int.log 2 left ≤ Int.log 2 right := Int.log_mono_right positive less
  have leftGap : gap left = 2 ^ max (Int.log 2 left - 52) (-1074) := by
    rw [gap, abs_of_pos positive]
  have rightGap : gap right = 2 ^ max (Int.log 2 right - 52) (-1074) := by
    rw [gap, abs_of_pos rightPositive]
  by_cases same : max (Int.log 2 left - 52) (-1074) = max (Int.log 2 right - 52) (-1074)
  · -- one grid for both
    have gaps : gap left = gap right := by rw [leftGap, rightGap, same]
    have spaced : 0 < gap right := zpow_pos two_pos _
    rw [rounded, rounded, gaps]
    apply mul_le_mul_of_nonneg_right _ spaced.le
    exact Int.cast_le.mpr (nearestInt_mono (div_le_div_of_nonneg_right less spaced.le))
  · -- the power of two at the bottom of the higher binade lies on both grids
    obtain ⟨exponent, logEq⟩ : ∃ exponent, Int.log 2 right = exponent := ⟨_, rfl⟩
    have higher : max (Int.log 2 left - 52) (-1074) < exponent - 52 := by omega
    have rightExponent : max (Int.log 2 right - 52) (-1074) = exponent - 52 := by omega
    have bottom : (2 : Rat) ^ exponent ≤ right := by
      have bound := Int.zpow_log_le_self (b := 2) one_lt_two rightPositive
      rwa [logEq, Nat.cast_ofNat] at bound
    have top : left ≤ (2 : Rat) ^ exponent := by
      have bound := Int.lt_zpow_succ_log_self (b := 2) one_lt_two left
      rw [Nat.cast_ofNat] at bound
      exact (bound.trans_le (zpow_le_zpow_right₀ one_le_two (by omega))).le
    have onLeft : (2 : Rat) ^ exponent =
        ((2 ^ (exponent - max (Int.log 2 left - 52) (-1074)).toNat : Int) : Rat) * gap left := by
      rw [leftGap, Int.cast_pow, Int.cast_ofNat, ← zpow_natCast, ← zpow_add₀ two_ne_zero]
      congr 1
      omega
    have onRight : (2 : Rat) ^ exponent = ((2 ^ 52 : Int) : Rat) * gap right := by
      rw [rightGap, rightExponent, Int.cast_pow, Int.cast_ofNat, ← zpow_natCast,
        ← zpow_add₀ two_ne_zero]
      congr 1
      omega
    calc
      rounded left ≤ (2 : Rat) ^ exponent := by
        rw [onLeft]
        exact rounded_le _ (onLeft ▸ top)
      _ ≤ rounded right := by
        rw [onRight]
        exact le_rounded _ (onRight ▸ bottom)

theorem ofRat_mono
    {left right : Rat}
    (nonneg : 0 ≤ left)
    (less : left ≤ right) : (ofRat left).AtMost (ofRat right) := by
  have ordered := rounded_mono nonneg less
  have leftAbs : |rounded left| = rounded left := abs_of_nonneg (rounded_nonneg nonneg)
  have rightAbs : |rounded right| = rounded right :=
    abs_of_nonneg (rounded_nonneg (nonneg.trans less))
  rw [ofRat, ofRat, leftAbs, rightAbs]
  split
  next fits =>
    split
    next => exact ordered
    next => exact decide_eq_false (not_lt.mpr (nonneg.trans less))
  next overflows =>
    -- what overflows on the left overflows on the right
    rw [if_neg fun fits => overflows (ordered.trans_lt fits)]
    exact Or.inr (decide_eq_false (not_lt.mpr (nonneg.trans less)))

end Binary64
