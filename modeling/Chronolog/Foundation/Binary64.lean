import Mathlib.Algebra.Order.Ring.Nat
import Mathlib.Data.Nat.Log
import Mathlib.Tactic.Ring

/-!
# Integers rounded to double precision

The double nearest to an integer, ties to the even significand, as an integer.
Rounding is monotone.  Magnitudes from `2 ^ 1024` on, which overflow, are not
covered.
-/

namespace Binary64

/-- The spacing of the doubles around a number. -/
def spacing (number : Nat) : Nat := 2 ^ (number.log2 - 52)

/-- The double nearest to a natural number. -/
def roundNat (number : Nat) : Nat :=
  let quotient := number / spacing number
  let remainder := number % spacing number
  if 2 * remainder < spacing number ∨
      2 * remainder = spacing number ∧ quotient % 2 = 0 then
    quotient * spacing number
  else
    (quotient + 1) * spacing number

/-- The double nearest to an integer. -/
def round : Int → Int
  | .ofNat number => roundNat number
  | .negSucc number => -roundNat (number + 1)

example : round 1700000000001000000 = 1700000000000999936 := by decide +kernel

/-- The floor of the double nearest to a quotient. -/
def floorDiv (number : Int) (divisor : Nat) : Int :=
  let scaled : Int := number * 2 ^ 128
  -- one more bit tells a quotient that was cut off from an exact one
  let cutOff : Int := if scaled % (divisor : Int) = 0 then 0 else 1
  round (2 * (scaled / (divisor : Int)) + cutOff) / 2 ^ 129

/-- The quotient is less than a millionth below the integer it is rounded to. -/
example : floorDiv 1690000000000999936 1000000 = 1690000000001 ∧
    floorDiv 9007199254740999168 1000000 = 9007199254741 := by decide +kernel

theorem spacing_pos (number : Nat) : 0 < spacing number :=
  Nat.two_pow_pos _

/-- The integers of at most 53 bits are doubles. -/
theorem roundNat_of_log2_le {number : Nat} (fits : number.log2 ≤ 52) :
    roundNat number = number := by
  have spacingOne : spacing number = 1 := by
    rw [spacing, Nat.sub_eq_zero_of_le fits, Nat.pow_zero]
  rw [roundNat, spacingOne, Nat.mod_one, Nat.div_one, Nat.mul_one]
  exact if_pos (Or.inl (by decide))

theorem lower_le_roundNat (number : Nat) :
    number / spacing number * spacing number ≤ roundNat number := by
  rw [roundNat]
  split
  · exact le_rfl
  · exact Nat.mul_le_mul_right _ (Nat.le_succ _)

theorem roundNat_le_upper (number : Nat) :
    roundNat number ≤ (number / spacing number + 1) * spacing number := by
  rw [roundNat]
  split
  · exact Nat.mul_le_mul_right _ (Nat.le_succ _)
  · exact le_rfl

/-- Rounding stays in the binade, its upper end included. -/
theorem roundNat_le_pow (number : Nat) :
    roundNat number ≤ 2 ^ (number.log2 + 1) := by
  obtain ⟨ratio, split⟩ : spacing number ∣ 2 ^ (number.log2 + 1) :=
    Nat.pow_dvd_pow 2 (by omega)
  have below : number / spacing number < ratio := by
    apply Nat.div_lt_of_lt_mul
    rw [← split]
    exact Nat.lt_log2_self
  calc
    roundNat number ≤ (number / spacing number + 1) * spacing number :=
      roundNat_le_upper number
    _ ≤ ratio * spacing number := Nat.mul_le_mul_right _ below
    _ = 2 ^ (number.log2 + 1) := by rw [split, Nat.mul_comm]

theorem pow_le_roundNat
    {number : Nat}
    (nonzero : number ≠ 0) : 2 ^ number.log2 ≤ roundNat number := by
  obtain ⟨ratio, split⟩ : spacing number ∣ 2 ^ number.log2 :=
    Nat.pow_dvd_pow 2 (by omega)
  have above : ratio ≤ number / spacing number := by
    rw [Nat.le_div_iff_mul_le (spacing_pos number), Nat.mul_comm, ← split]
    exact Nat.log2_self_le nonzero
  calc
    2 ^ number.log2 = ratio * spacing number := by rw [split, Nat.mul_comm]
    _ ≤ number / spacing number * spacing number := Nat.mul_le_mul_right _ above
    _ ≤ roundNat number := lower_le_roundNat number

/-- Within a binade the spacing is constant, and rounding is monotone. -/
theorem roundNat_mono_of_log2_eq
    {left right : Nat}
    (less : left ≤ right)
    (sameBinade : left.log2 = right.log2) : roundNat left ≤ roundNat right := by
  have spacings : spacing left = spacing right := by
    rw [spacing, sameBinade, spacing]
  have quotients : left / spacing right ≤ right / spacing right :=
    Nat.div_le_div_right less
  rcases Nat.lt_or_eq_of_le quotients with smaller | equal
  · calc
      roundNat left ≤ (left / spacing left + 1) * spacing left :=
        roundNat_le_upper left
      _ ≤ right / spacing right * spacing right := by
        rw [spacings]
        exact Nat.mul_le_mul_right _ smaller
      _ ≤ roundNat right := lower_le_roundNat right
  · -- With equal quotients the larger remainder rounds up whenever the
    -- smaller one does.
    have remainders : left % spacing right ≤ right % spacing right := by
      have leftSplit := Nat.div_add_mod left (spacing right)
      have rightSplit := Nat.div_add_mod right (spacing right)
      rw [equal] at leftSplit
      omega
    rw [roundNat, roundNat, spacings, equal]
    split
    · split
      · exact le_rfl
      · exact Nat.mul_le_mul_right _ (Nat.le_succ _)
    · rw [if_neg (by omega)]

theorem roundNat_mono {left right : Nat} (less : left ≤ right) :
    roundNat left ≤ roundNat right := by
  rcases Nat.eq_zero_or_pos left with rfl | positive
  · exact Nat.zero_le _
  · have nonzero : left ≠ 0 := Nat.pos_iff_ne_zero.mp positive
    have binades : left.log2 ≤ right.log2 := by
      rw [Nat.log2_eq_log_two, Nat.log2_eq_log_two]
      exact Nat.log_mono_right less
    rcases Nat.lt_or_eq_of_le binades with lower | same
    · calc
        roundNat left ≤ 2 ^ (left.log2 + 1) := roundNat_le_pow left
        _ ≤ 2 ^ right.log2 := Nat.pow_le_pow_right (by decide) lower
        _ ≤ roundNat right := pow_le_roundNat (by omega)
    · exact roundNat_mono_of_log2_eq less same

theorem round_mono {left right : Int} (less : left ≤ right) :
    round left ≤ round right := by
  cases left with
  | ofNat left =>
      cases right with
      | ofNat right => exact Int.ofNat_le.mpr (roundNat_mono (Int.ofNat_le.mp less))
      | negSucc right =>
          have negative := Int.negSucc_lt_zero right
          have positive := Int.natCast_nonneg left
          exact absurd (positive.trans less) (by omega)
  | negSucc left =>
      cases right with
      | ofNat right =>
          have negative := Int.natCast_nonneg (roundNat (left + 1))
          have positive := Int.natCast_nonneg (roundNat right)
          rw [round, round]
          omega
      | negSucc right =>
          have magnitudes : right + 1 ≤ left + 1 := by omega
          exact Int.neg_le_neg (Int.ofNat_le.mpr (roundNat_mono magnitudes))

end Binary64
