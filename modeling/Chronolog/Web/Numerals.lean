import Chronolog.Foundation.Doubles
import Chronolog.Web.SearchWords

/-!
# Numbers as texts

`Number(text)` and `parseInt(text, 10)` as the language defines them, and the
decimal text of an integer.  A number of up to 53 bits is read back from its
text.
-/

namespace Chronolog
namespace Web

open Binary64 Decimal

/-- The digits of an integer below `10 ^ 21`, as `String(number)` writes it. -/
def decimalText : Int → Text
  | .ofNat number => Nat.toDigits 10 number
  | .negSucc number => '-' :: Nat.toDigits 10 (number + 1)

/-- A sign and what is behind it. -/
def signPart : Text → Bool × Text
  | '-' :: rest => (true, rest)
  | '+' :: rest => (false, rest)
  | rest => (false, rest)

/-- The number a sign and digits stand for. -/
def signed (negative : Bool) (number : Rat) : Rat := if negative then -number else number

/-- The digits behind a decimal point, and what is behind them. -/
def fractionPart : Text → Text × Text
  | '.' :: rest => (rest.takeWhile Char.isDigit, rest.dropWhile Char.isDigit)
  | rest => ([], rest)

/-- The exponent a text consists of; no text is the exponent zero. -/
def exponentPart : Text → Option Int
  | [] => some 0
  | mark :: rest =>
      let (negative, digits) := signPart rest
      if (mark = 'e' ∨ mark = 'E') ∧ digits ≠ [] ∧ digits.all Char.isDigit then
        some (if negative then -(digitsValue digits : Int) else digitsValue digits)
      else none

/-- A decimal literal without a sign. -/
def unsignedDecimal (text : Text) : Option Rat :=
  let whole := text.takeWhile Char.isDigit
  let (fraction, rest) := fractionPart (text.dropWhile Char.isDigit)
  if whole = [] ∧ fraction = [] then none
  else
    (exponentPart rest).map fun exponent =>
      digitsValue (whole ++ fraction) * (10 : Rat) ^ (exponent - (fraction.length : Int))

/-- The value of a digit up to `f`, in either case. -/
def digitValue (char : Char) : Option Nat :=
  if char.isDigit then some (char.toNat - '0'.toNat)
  else if 'a' ≤ char ∧ char ≤ 'f' then some (char.toNat - 'a'.toNat + 10)
  else if 'A' ≤ char ∧ char ≤ 'F' then some (char.toNat - 'A'.toNat + 10)
  else none

/-- The number that digits below a radix spell. -/
def radixValue (radix : Nat) (digits : Text) : Option Nat :=
  if digits = [] then none
  else
    digits.foldlM (fun value char => do
      let digit ← digitValue char
      if digit < radix then some (value * radix + digit) else none) 0

/-- The radix a text announces, and the digits behind the announcement. -/
def radixOf : Text → Option (Nat × Text)
  | '0' :: mark :: digits =>
      if mark = 'x' ∨ mark = 'X' then some (16, digits)
      else if mark = 'o' ∨ mark = 'O' then some (8, digits)
      else if mark = 'b' ∨ mark = 'B' then some (2, digits)
      else none
  | _ => none

/-- `Number(text)` -/
def toNumber (text : Text) : Double :=
  let text := trim text
  if text = [] then .finite 0
  else
    match radixOf text with
    | some (radix, digits) =>
        match radixValue radix digits with
        | some value => ofRat value
        | none => .notANumber
    | none =>
        let (negative, digits) := signPart text
        if digits = "Infinity".toList then .infinite negative
        else
          match unsignedDecimal digits with
          | some value => ofRat (signed negative value)
          | none => .notANumber

/-- `parseInt(text, 10)`, if it is a number. -/
def parseInt10 (text : Text) : Option Int :=
  let (negative, rest) := signPart (text.dropWhile isSpace)
  let digits := rest.takeWhile Char.isDigit
  if digits = [] then none
  else some (if negative then -(digitsValue digits : Int) else digitsValue digits)

/-- An exponent moves the point, a hexadecimal text needs no sign, and a point
needs a digit beside it. -/
example : toNumber " 15e-1\n".toList = .finite (3 / 2) ∧ toNumber "0x1F".toList = .finite 31 ∧
    toNumber "-0x1F".toList = .notANumber ∧ toNumber ".".toList = .notANumber ∧
    parseInt10 "12px".toList = some 12 := by
  decide +kernel

/-! ## Reading back -/

theorem isSpace_of_isDigit {char : Char} (digit : char.isDigit = true) :
    isSpace char = false := by
  rw [Bool.eq_false_iff]
  intro space
  rw [Char.isDigit, Bool.and_eq_true, decide_eq_true_eq, decide_eq_true_eq] at digit
  rw [isSpace, Bool.or_eq_true, decide_eq_true_eq, Bool.and_eq_true, decide_eq_true_eq,
    decide_eq_true_eq] at space
  rcases space with listed | ⟨low, _⟩
  · simp only [List.mem_cons, List.not_mem_nil, or_false] at listed
    obtain ⟨low, high⟩ := digit
    rcases listed with rfl | rfl | rfl | rfl | rfl | rfl | rfl | rfl | rfl | rfl | rfl | rfl |
      rfl | rfl <;> revert low high <;> decide
  · have high := digit.2
    rw [Char.le_def] at low
    exact absurd (UInt32.le_trans low high) (by decide)

/-- Digits are taken whole. -/
theorem takeWhile_toDigits (number : Nat) :
    (Nat.toDigits 10 number).takeWhile Char.isDigit = Nat.toDigits 10 number ∧
      (Nat.toDigits 10 number).dropWhile Char.isDigit = [] := by
  have digits : ∀ char ∈ Nat.toDigits 10 number, char.isDigit = true :=
    fun char member => isDigit_of_mem_toDigits member
  refine ⟨List.takeWhile_eq_self_iff.mpr digits, List.dropWhile_eq_nil_iff.mpr digits⟩

theorem unsignedDecimal_toDigits (number : Nat) :
    unsignedDecimal (Nat.toDigits 10 number) = some (number : Rat) := by
  obtain ⟨whole, rest⟩ := takeWhile_toDigits number
  rw [unsignedDecimal, whole, rest]
  simp [fractionPart, exponentPart, digitsValue_toDigits]

/-- Digits announce no radix and no sign, and they do not spell `Infinity`. -/
theorem radixOf_toDigits (number : Nat) : radixOf (Nat.toDigits 10 number) = none := by
  unfold radixOf
  split
  next mark digits shape =>
    have member : mark ∈ Nat.toDigits 10 number := by
      rw [shape]
      exact List.mem_cons_of_mem _ List.mem_cons_self
    have digit : mark.isDigit = true := isDigit_of_mem_toDigits member
    have apart : ∀ letter : Char, letter.isDigit = false → mark ≠ letter := by
      rintro letter noDigit rfl
      rw [digit] at noDigit
      exact Bool.false_ne_true noDigit.symm
    rw [if_neg (not_or.mpr ⟨apart 'x' rfl, apart 'X' rfl⟩),
      if_neg (not_or.mpr ⟨apart 'o' rfl, apart 'O' rfl⟩),
      if_neg (not_or.mpr ⟨apart 'b' rfl, apart 'B' rfl⟩)]
  next => rfl

theorem ne_of_isDigit_head
    {text : Text}
    {first : Char}
    {rest : Text}
    (digits : ∀ char ∈ text, char.isDigit = true)
    (noDigit : first.isDigit = false) : text ≠ first :: rest := by
  rintro rfl
  rw [digits first List.mem_cons_self] at noDigit
  exact Bool.false_ne_true noDigit.symm

theorem signPart_toDigits (number : Nat) :
    signPart (Nat.toDigits 10 number) = (false, Nat.toDigits 10 number) := by
  have digits : ∀ char ∈ Nat.toDigits 10 number, char.isDigit = true :=
    fun char member => isDigit_of_mem_toDigits member
  unfold signPart
  split
  next rest shape => exact absurd shape (ne_of_isDigit_head digits rfl)
  next rest shape => exact absurd shape (ne_of_isDigit_head digits rfl)
  next => rfl

theorem toDigits_ne_infinity (number : Nat) :
    Nat.toDigits 10 number ≠ "Infinity".toList :=
  ne_of_isDigit_head (fun _ member => isDigit_of_mem_toDigits member) rfl

/-- An integer of 53 bits is read back from its text. -/
theorem toNumber_decimalText
    {number : Int}
    (small : number.natAbs ≤ 2 ^ 53) : toNumber (decimalText number) = .finite number := by
  cases number with
  | ofNat number =>
      have ink : ∀ char ∈ Nat.toDigits 10 number, isSpace char = false :=
        fun char member => isSpace_of_isDigit (isDigit_of_mem_toDigits member)
      rw [decimalText, toNumber, trim_word ink]
      dsimp only
      rw [if_neg Nat.toDigits_ne_nil, radixOf_toDigits]
      dsimp only
      rw [signPart_toDigits]
      dsimp only
      rw [if_neg (toDigits_ne_infinity number), unsignedDecimal_toDigits]
      exact ofRat_intCast small
  | negSucc number =>
      have ink : ∀ char ∈ '-' :: Nat.toDigits 10 (number + 1), isSpace char = false := by
        intro char member
        rcases List.mem_cons.mp member with rfl | digit
        · rfl
        · exact isSpace_of_isDigit (isDigit_of_mem_toDigits digit)
      rw [decimalText, toNumber, trim_word ink]
      dsimp only
      rw [if_neg (List.cons_ne_nil _ _)]
      have noRadix : radixOf ('-' :: Nat.toDigits 10 (number + 1)) = none := by
        unfold radixOf
        split
        next shape => exact absurd (List.cons.inj shape).1 (by decide)
        next => rfl
      rw [noRadix, signPart]
      dsimp only
      rw [if_neg (toDigits_ne_infinity _), unsignedDecimal_toDigits]
      have negated : signed true ((number + 1 : Nat) : Rat) = (Int.negSucc number : Int) := by
        rw [signed, if_pos rfl, Int.negSucc_eq]
        push_cast
        rfl
      dsimp only
      rw [negated]
      exact ofRat_intCast small

theorem parseInt10_decimalText (number : Nat) :
    parseInt10 (decimalText number) = some (number : Int) := by
  obtain ⟨whole, _⟩ := takeWhile_toDigits number
  have ink : (Nat.toDigits 10 number).dropWhile isSpace = Nat.toDigits 10 number := by
    rw [List.dropWhile_eq_self_iff]
    intro nonempty space
    have digit := isDigit_of_mem_toDigits (List.getElem_mem nonempty)
    rw [isSpace_of_isDigit digit] at space
    exact Bool.false_ne_true space
  change parseInt10 (Nat.toDigits 10 number) = _
  rw [parseInt10, ink, signPart_toDigits]
  dsimp only
  rw [whole, if_neg Nat.toDigits_ne_nil, digitsValue_toDigits]
  exact congrArg some (if_neg Bool.false_ne_true)

end Web
end Chronolog
