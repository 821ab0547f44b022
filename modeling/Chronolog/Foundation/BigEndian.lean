import Mathlib.Data.List.Basic
import Mathlib.Algebra.Order.Ring.Nat
import Mathlib.Tactic.Ring

/-!
# Big-endian byte strings

Fixed-width base-256 numerals, most significant digit first, together with the
lexicographic comparison of byte strings.  The two main facts are that the
numeral of a given width determines the number it denotes, and that comparing
two numerals of one width byte by byte compares the numbers.
-/

/-- Byte strings, compared lexicographically. -/
abbrev Bytes := List UInt8

namespace BigEndian

/-- The `width` least significant base-256 digits of a number. -/
def digits : Nat → Nat → Bytes
  | 0, _ => []
  | width + 1, number => UInt8.ofNat (number / 256 ^ width) :: digits width number

/-- The number denoted by a digit string. -/
def value : Bytes → Nat
  | [] => 0
  | digit :: rest => digit.toNat * 256 ^ rest.length + value rest

@[simp] theorem length_digits (width number : Nat) :
    (digits width number).length = width := by
  induction width with
  | zero => rfl
  | succ width inductionHypothesis => simp [digits, inductionHypothesis]

theorem value_lt (bytes : Bytes) : value bytes < 256 ^ bytes.length := by
  induction bytes with
  | nil => simp [value]
  | cons digit rest inductionHypothesis =>
      have digitBound : digit.toNat + 1 ≤ 256 := digit.toNat_lt
      calc
        value (digit :: rest) < (digit.toNat + 1) * 256 ^ rest.length := by
          rw [value, Nat.add_mul, Nat.one_mul]
          omega
        _ ≤ 256 * 256 ^ rest.length := Nat.mul_le_mul_right _ digitBound
        _ = 256 ^ (digit :: rest).length := by
          rw [List.length_cons, Nat.pow_succ, Nat.mul_comm]

/-- Splitting off the leading digit of a number of `width + 1` digits. -/
theorem mod_pow_succ (width number : Nat) :
    number % 256 ^ (width + 1) =
      number / 256 ^ width % 256 * 256 ^ width + number % 256 ^ width := by
  rw [Nat.pow_succ, Nat.mod_mul, Nat.add_comm, Nat.mul_comm (256 ^ width)]

@[simp] theorem value_digits (width number : Nat) :
    value (digits width number) = number % 256 ^ width := by
  induction width with
  | zero => simp [digits, value, Nat.mod_one]
  | succ width inductionHypothesis =>
      rw [digits, value, inductionHypothesis, length_digits, mod_pow_succ]
      simp

theorem digits_value (bytes : Bytes) :
    digits bytes.length (value bytes) = bytes := by
  suffices general : ∀ high,
      digits bytes.length (high * 256 ^ bytes.length + value bytes) = bytes by
    simpa using general 0
  induction bytes with
  | nil => simp [digits]
  | cons digit rest inductionHypothesis =>
      intro high
      have split : high * 256 ^ (rest.length + 1) + value (digit :: rest) =
          (high * 256 + digit.toNat) * 256 ^ rest.length + value rest := by
        rw [value, Nat.pow_succ]
        ring
      rw [List.length_cons, split, digits, inductionHypothesis]
      congr 1
      rw [Nat.mul_comm, Nat.mul_add_div (Nat.pow_pos (by decide)),
        Nat.div_eq_of_lt (value_lt rest)]
      apply UInt8.toNat_inj.mp
      simp

/-! ## Lexicographic comparison -/

theorem compare_cons (leftHead rightHead : UInt8) (left right : Bytes) :
    compare (leftHead :: left) (rightHead :: right) =
      (compare leftHead rightHead).then (compare left right) := by
  simp only [List.compare_eq_compareLex, List.compareLex_cons_cons]

/-- A common prefix does not influence the comparison. -/
theorem compare_append_left (shared left right : Bytes) :
    compare (shared ++ left) (shared ++ right) = compare left right := by
  induction shared with
  | nil => rfl
  | cons head shared inductionHypothesis =>
      rw [List.cons_append, List.cons_append, compare_cons,
        inductionHypothesis, Std.ReflOrd.compare_self, Ordering.eq_then]

/-- Prefixes of one length are compared before what follows them. -/
theorem compare_append (left right leftRest rightRest : Bytes)
    (lengths : left.length = right.length) :
    compare (left ++ leftRest) (right ++ rightRest) =
      (compare left right).then (compare leftRest rightRest) := by
  induction left generalizing right with
  | nil =>
      cases right with
      | nil => simp [Std.ReflOrd.compare_self]
      | cons head right => simp at lengths
  | cons leftHead left inductionHypothesis =>
      cases right with
      | nil => simp at lengths
      | cons rightHead right =>
          rw [List.cons_append, List.cons_append, compare_cons, compare_cons,
            inductionHypothesis right (by simpa using lengths),
            Ordering.then_assoc]

theorem compare_toNat (left right : UInt8) :
    compare left right = compare left.toNat right.toNat := by
  simp only [compare, compareOfLessAndEq, UInt8.lt_iff_toNat_lt, UInt8.toNat_inj]

/-- Comparing a leading digit and then the remainder compares the number. -/
theorem compare_mul_add {base leftLow rightLow : Nat}
    (leftBound : leftLow < base)
    (rightBound : rightLow < base)
    (leftHigh rightHigh : Nat) :
    compare (leftHigh * base + leftLow) (rightHigh * base + rightLow) =
      (compare leftHigh rightHigh).then (compare leftLow rightLow) := by
  rcases Nat.lt_trichotomy leftHigh rightHigh with less | equal | greater
  · have step : (leftHigh + 1) * base ≤ rightHigh * base :=
      Nat.mul_le_mul_right base less
    rw [Nat.compare_eq_lt.mpr less, Ordering.lt_then, Nat.compare_eq_lt]
    rw [Nat.add_mul] at step
    omega
  · subst equal
    rw [Nat.compare_eq_eq.mpr rfl, Ordering.eq_then]
    rcases Nat.lt_trichotomy leftLow rightLow with less | equal | greater
    · rw [Nat.compare_eq_lt.mpr less, Nat.compare_eq_lt]
      omega
    · rw [equal, Nat.compare_eq_eq.mpr rfl]
      exact (Nat.compare_eq_eq.mpr rfl).symm
    · rw [Nat.compare_eq_gt.mpr greater, Nat.compare_eq_gt]
      omega
  · have step : (rightHigh + 1) * base ≤ leftHigh * base :=
      Nat.mul_le_mul_right base greater
    rw [Nat.compare_eq_gt.mpr greater, Ordering.gt_then, Nat.compare_eq_gt]
    rw [Nat.add_mul] at step
    omega

/-- Numerals of one width are ordered as the numbers they denote. -/
theorem compare_digits (width left right : Nat) :
    compare (digits width left) (digits width right) =
      compare (left % 256 ^ width) (right % 256 ^ width) := by
  induction width with
  | zero => simp [digits, Nat.mod_one, Std.ReflOrd.compare_self]
  | succ width inductionHypothesis =>
      rw [digits, digits, compare_cons, inductionHypothesis, compare_toNat,
        mod_pow_succ, mod_pow_succ,
        compare_mul_add (Nat.mod_lt _ (Nat.pow_pos (by decide)))
          (Nat.mod_lt _ (Nat.pow_pos (by decide)))]
      simp

end BigEndian
