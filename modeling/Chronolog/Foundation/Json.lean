import Chronolog.Foundation.TextReaders
import Mathlib.Data.Rat.Defs

/-!
# JSON

Values, their compact text, and a reader of the whole grammar by recursive
descent.  A number is kept as its literal spells it.  Every value is read back
from its text.
-/

namespace Json

open Decimal TextReader

/-- A number literal: the digits before and behind the point, and the exponent. -/
structure Numeral where
  negative : Bool
  whole : Nat
  fraction : List (Fin 10)
  exponent : Int
  deriving DecidableEq

/-- A value.  The members of an object are in the order of its text. -/
inductive Value
  | null
  | bool (value : Bool)
  | number (numeral : Numeral)
  | text (chars : List Char)
  | array (values : List Value)
  | object (members : List (List Char × Value))

/-- The value of a member; the last one of a name counts. -/
def Value.member? (value : Value) (name : List Char) : Option Value :=
  match value with
  | .object members => members.reverse.lookup name
  | _ => none

/-- The literal of a natural number. -/
def Numeral.ofNat (number : Nat) : Numeral where
  negative := false
  whole := number
  fraction := []
  exponent := 0

/-! ## Printing -/

/-- The text of an integer. -/
def intText : Int → List Char
  | .ofNat number => Nat.toDigits 10 number
  | .negSucc number => '-' :: Nat.toDigits 10 (number + 1)

namespace Numeral

/-- The point and the digits behind it. -/
def fractionText (fraction : List (Fin 10)) : List Char :=
  if fraction = [] then [] else '.' :: fraction.map fun digit => Nat.digitChar digit.val

/-- The exponent, unless it is zero. -/
def exponentText (exponent : Int) : List Char :=
  if exponent = 0 then [] else 'e' :: intText exponent

/-- The text of a literal. -/
def print (numeral : Numeral) : List Char :=
  (if numeral.negative then ['-'] else []) ++
    (Nat.toDigits 10 numeral.whole ++
      (fractionText numeral.fraction ++ exponentText numeral.exponent))

end Numeral

/-- The characters with an escape of their own, behind the letter of the escape. -/
def shortEscapes : List (Char × Char) :=
  [('"', '"'), ('\\', '\\'), ('b', '\x08'), ('t', '\t'), ('n', '\n'), ('f', '\x0C'),
    ('r', '\r')]

/-- How a character is written inside a string literal. -/
def escapeChar (char : Char) : List Char :=
  match shortEscapes.find? fun escape => escape.2 = char with
  | some (letter, _) => ['\\', letter]
  | none =>
      if char < ' ' then
        ['\\', 'u', '0', '0', Nat.digitChar (char.toNat / 16), Nat.digitChar (char.toNat % 16)]
      else [char]

/-- The string literal of a text. -/
def quote (text : List Char) : List Char :=
  '"' :: (text.flatMap escapeChar ++ ['"'])

namespace Value

mutual

/-- The text of a value, without blanks. -/
def print : Value → List Char
  | .null => "null".toList
  | .bool true => "true".toList
  | .bool false => "false".toList
  | .number numeral => numeral.print
  | .text chars => quote chars
  | .array [] => ['[', ']']
  | .array (value :: values) => '[' :: (print value ++ printElements values)
  | .object [] => ['\x7b', '\x7d']
  | .object ((name, value) :: members) =>
      '\x7b' :: (quote name ++ (':' :: (print value ++ printMembers members)))

/-- The elements behind the first one, and the bracket. -/
def printElements : List Value → List Char
  | [] => [']']
  | value :: values => ',' :: (print value ++ printElements values)

/-- The members behind the first one, and the brace. -/
def printMembers : List (List Char × Value) → List Char
  | [] => ['\x7d']
  | (name, value) :: members =>
      ',' :: (quote name ++ (':' :: (print value ++ printMembers members)))

end

end Value

/-! ## Reading -/

/-- The blanks of the grammar. -/
def isBlank (char : Char) : Bool :=
  char = ' ' || char = '\t' || char = '\n' || char = '\r'

/-- At least one digit. -/
def digits : TextReader (List Char) := do
  let digits ← many Char.isDigit
  if digits = [] then refuse else return digits

/-- The exponent of a literal. -/
def exponent : TextReader Int := do
  if ← skip (fun char => char = 'e' || char = 'E') then
    let negative ← skip (· = '-')
    let _ ← if negative then pure false else skip (· = '+')
    let digits ← digits
    return if negative then -(digitsValue digits : Int) else digitsValue digits
  else return 0

/-- The digits behind the point of a literal. -/
def fraction : TextReader (List (Fin 10)) := do
  if ← skip (· = '.') then
    return (← digits).map fun digit => Fin.ofNat 10 (digit.toNat - '0'.toNat)
  else return []

/-- A number literal behind its sign.  The digits before the point do not begin
with a zero that others follow. -/
def unsigned (negative : Bool) : TextReader Numeral := do
  let whole ← digits
  if whole.head? = some '0' ∧ whole ≠ ['0'] then refuse
  else
    let fraction ← fraction
    let exponent ← exponent
    return { negative, whole := digitsValue whole, fraction, exponent }

/-- A number literal. -/
def numeral : TextReader Numeral := do
  unsigned (← skip (· = '-'))

/-- The value of a hexadecimal digit in either case. -/
def hexValue (char : Char) : Option Nat :=
  if char.isDigit then some (char.toNat - '0'.toNat)
  else if 'a' ≤ char ∧ char ≤ 'f' then some (char.toNat - 'a'.toNat + 10)
  else if 'A' ≤ char ∧ char ≤ 'F' then some (char.toNat - 'A'.toNat + 10)
  else none

/-- Four hexadecimal digits. -/
def codeUnit : TextReader Nat
  | first :: second :: third :: fourth :: rest =>
      ([first, second, third, fourth].foldlM (fun value char =>
        (hexValue char).map fun digit => value * 16 + digit) 0).map fun value => (value, rest)
  | _ => none

/-- What follows a backslash.  A surrogate outside a pair is no character and is
refused. -/
def escape : TextReader Char := do
  let letter ← item
  if letter = 'u' then
    let unit ← codeUnit
    if 0xD800 ≤ unit ∧ unit < 0xDC00 then
      expect ['\\', 'u']
      let low ← codeUnit
      if 0xDC00 ≤ low ∧ low < 0xE000 then
        return Char.ofNat (0x10000 + (unit - 0xD800) * 0x400 + (low - 0xDC00))
      else refuse
    else if 0xDC00 ≤ unit ∧ unit < 0xE000 then refuse
    else return Char.ofNat unit
  else if letter = '/' then return '/'
  else
    match shortEscapes.lookup letter with
    | some char => return char
    | none => refuse

/-- A character of a string literal, or its closing quote. -/
def stringItem : TextReader (Option Char) := do
  let char ← item
  if char = '"' then return none
  else if char < ' ' then refuse
  else if char = '\\' then return some (← escape)
  else return some char

/-- A string literal behind its opening quote, of fewer characters than the fuel. -/
def stringBody : Nat → TextReader (List Char)
  | 0 => refuse
  | fuel + 1 => do
      match ← stringItem with
      | none => return []
      | some char => return char :: (← stringBody fuel)

/-- A string literal behind its opening quote. -/
def string : TextReader (List Char) := fun text => stringBody text.length text

/-- The blanks before something. -/
def blanks : TextReader (List Char) := many isBlank

/-- The name of a member and the colon. -/
def memberName : TextReader (List Char) := do
  let _ ← blanks
  expect ['"']
  let name ← string
  let _ ← blanks
  expect [':']
  return name

mutual

/-- A value. -/
def value : Nat → TextReader Value
  | 0 => refuse
  | fuel + 1 => do
      let _ ← blanks
      match ← peek with
      | some '"' => do
          let _ ← item
          return .text (← string)
      | some '[' => do
          let _ ← item
          let _ ← blanks
          if ← skip (· = ']') then return .array []
          else return .array (← elements fuel)
      | some '\x7b' => do
          let _ ← item
          let _ ← blanks
          if ← skip (· = '\x7d') then return .object []
          else return .object (← members fuel)
      | some 'n' => do
          expect "null".toList
          return .null
      | some 't' => do
          expect "true".toList
          return .bool true
      | some 'f' => do
          expect "false".toList
          return .bool false
      | _ => return .number (← numeral)

/-- The elements of an array, of which there is one. -/
def elements : Nat → TextReader (List Value)
  | 0 => refuse
  | fuel + 1 => do
      let first ← value fuel
      let _ ← blanks
      match ← item with
      | ',' => return first :: (← elements fuel)
      | ']' => return [first]
      | _ => refuse

/-- The members of an object, of which there is one. -/
def members : Nat → TextReader (List (List Char × Value))
  | 0 => refuse
  | fuel + 1 => do
      let name ← memberName
      let first ← value fuel
      let _ ← blanks
      match ← item with
      | ',' => return (name, first) :: (← members fuel)
      | '\x7d' => return [(name, first)]
      | _ => refuse

end

/-- `JSON.parse`.  No value takes more steps than twice its characters. -/
def parse (text : List Char) : Option Value :=
  whole (do
    let value ← value (2 * text.length)
    let _ ← blanks
    return value) text

/-! ## Numbers are read back -/

/-- The characters that would continue a number literal. -/
def continuesNumeral (char : Char) : Bool :=
  char.isDigit || char = '.' || char = 'e' || char = 'E'

theorem lacks_isDigit {rest : List Char} (ends : Lacks continuesNumeral rest) :
    Lacks Char.isDigit rest := by
  apply ends.mono
  intro char digit
  rw [continuesNumeral, digit]
  rfl

theorem takes_digits
    {text rest : List Char}
    (nonempty : text ≠ [])
    (accepted : ∀ char ∈ text, char.isDigit = true)
    (lacks : Lacks Char.isDigit rest) : Takes digits text rest text := by
  apply (takes_many accepted lacks).bind_last
  rw [if_neg nonempty]
  exact takes_pure text rest

theorem takes_toDigits
    (number : Nat)
    {rest : List Char}
    (lacks : Lacks Char.isDigit rest) :
    Takes digits (Nat.toDigits 10 number) rest (Nat.toDigits 10 number) :=
  takes_digits Nat.toDigits_ne_nil (fun _ member => isDigit_of_mem_toDigits member) lacks

/-- A class without digits is not where digits begin. -/
theorem lacks_toDigits
    {accept : Char → Bool}
    (number : Nat)
    (rest : List Char)
    (apart : ∀ char, accept char = true → char.isDigit = false) :
    Lacks accept (Nat.toDigits 10 number ++ rest) := by
  cases shape : Nat.toDigits 10 number with
  | nil => exact absurd shape Nat.toDigits_ne_nil
  | cons first digits =>
      apply lacks_cons
      rw [Bool.eq_false_iff]
      intro accepted
      have member : first ∈ Nat.toDigits 10 number := by
        rw [shape]
        exact List.mem_cons_self
      have digit := isDigit_of_mem_toDigits member
      rw [apart first accepted] at digit
      exact Bool.false_ne_true digit

theorem head?_toDigits {number : Nat} (zero : (Nat.toDigits 10 number).head? = some '0') :
    number = 0 := by
  induction number using Nat.strongRecOn with
  | ind number inductionHypothesis =>
      by_cases small : number < 10
      · rw [Nat.toDigits_of_lt_base small] at zero
        exact Nat.digitChar_eq_zero.mp (Option.some.inj zero)
      · rw [Nat.toDigits_of_base_le (by decide) (Nat.le_of_not_lt small),
          List.head?_append, List.head?_eq_some_head Nat.toDigits_ne_nil, Option.some_or,
          ← List.head?_eq_some_head Nat.toDigits_ne_nil] at zero
        have tens := inductionHypothesis (number / 10) (by omega) zero
        omega

theorem lacks_exponentText
    {accept : Char → Bool}
    (exponent : Int)
    {rest : List Char}
    (lacks : Lacks accept rest)
    (apart : accept 'e' = false) :
    Lacks accept (Numeral.exponentText exponent ++ rest) := by
  unfold Numeral.exponentText
  split
  · exact lacks
  · exact lacks_cons _ apart

/-- The exponent of a literal is read back. -/
theorem takes_exponent
    (value : Int)
    {rest : List Char}
    (ends : Lacks continuesNumeral rest) :
    Takes exponent (Numeral.exponentText value) rest value := by
  have stop := lacks_isDigit ends
  unfold Numeral.exponentText
  split
  next zero =>
    rw [zero]
    refine Takes.skip_bind_nil (ends.mono ?_) (takes_pure 0 rest)
    intro char mark
    rw [continuesNumeral, Bool.or_assoc, mark, Bool.or_true]
  next =>
    refine Takes.skip_bind rfl ?_
    rw [if_pos rfl]
    cases value with
    | ofNat number =>
        apply Takes.skip_bind_nil (lacks_toDigits number rest ?_)
        · apply Takes.skip_bind_nil (lacks_toDigits number rest ?_)
          · apply (takes_toDigits number stop).bind_last
            rw [if_neg Bool.false_ne_true, digitsValue_toDigits]
            exact takes_pure _ rest
          · intro char plus
            rw [of_decide_eq_true plus]
            rfl
        · intro char minus
          rw [of_decide_eq_true minus]
          rfl
    | negSucc number =>
        refine Takes.skip_bind rfl ?_
        refine Takes.bind_nil (takes_pure false _) ?_
        apply (takes_toDigits (number + 1) stop).bind_last
        rw [if_pos rfl, digitsValue_toDigits]
        exact takes_pure _ rest

/-- The digits behind the point are read back. -/
theorem takes_fraction
    (value : List (Fin 10))
    {rest : List Char}
    (lacks : Lacks Char.isDigit rest)
    (noPoint : Lacks (· = '.') rest) :
    Takes fraction (Numeral.fractionText value) rest value := by
  unfold Numeral.fractionText
  split
  next empty =>
    rw [empty]
    exact Takes.skip_bind_nil noPoint (takes_pure [] rest)
  next nonempty =>
    refine Takes.skip_bind rfl ?_
    have accepted : ∀ char ∈ value.map fun digit => Nat.digitChar digit.val,
        char.isDigit = true := by
      intro char member
      obtain ⟨digit, _, rfl⟩ := List.mem_map.mp member
      rw [Nat.isDigit_digitChar, decide_eq_true_eq]
      exact digit.isLt
    rw [if_pos rfl]
    apply (takes_digits (mt List.map_eq_nil_iff.mp nonempty) accepted lacks).bind_last
    have same : (value.map fun digit => Nat.digitChar digit.val).map
        (fun digit => Fin.ofNat 10 (digit.toNat - '0'.toNat)) = value := by
      rw [List.map_map]
      apply List.map_id''
      intro digit
      apply Fin.ext
      exact (congrArg (· % 10) (Nat.toNat_digitChar_sub_48_of_lt_ten digit.isLt)).trans
        (Nat.mod_eq_of_lt digit.isLt)
    rw [same]
    exact takes_pure value rest

/-- A number literal is read back behind its sign, where no character continues it. -/
theorem takes_unsigned
    (value : Numeral)
    {rest : List Char}
    (ends : Lacks continuesNumeral rest) :
    Takes (unsigned value.negative) (Nat.toDigits 10 value.whole ++
      (Numeral.fractionText value.fraction ++ Numeral.exponentText value.exponent))
      rest value := by
  have point : Lacks (· = '.') rest := by
    apply ends.mono
    intro char point
    rw [of_decide_eq_true point]
    rfl
  have noDigit := lacks_exponentText value.exponent (lacks_isDigit ends) rfl
  refine Takes.bind (takes_toDigits value.whole ?_) ?_
  · rw [List.append_assoc]
    unfold Numeral.fractionText
    split
    · exact noDigit
    · exact lacks_cons _ rfl
  · rw [if_neg, digitsValue_toDigits]
    · apply Takes.bind (takes_fraction value.fraction noDigit
        (lacks_exponentText value.exponent point rfl))
      exact (takes_exponent value.exponent ends).bind_last (takes_pure value rest)
    · rintro ⟨zero, long⟩
      rw [head?_toDigits zero] at long
      exact long (Nat.toDigits_zero 10)

/-- A number literal is read back, where no character continues it. -/
theorem takes_numeral
    (value : Numeral)
    {rest : List Char}
    (ends : Lacks continuesNumeral rest) : Takes numeral value.print rest value := by
  have behind := takes_unsigned value ends
  unfold Numeral.print
  cases sign : value.negative with
  | true =>
      rw [sign] at behind
      exact Takes.skip_bind rfl behind
  | false =>
      rw [sign] at behind
      rw [if_neg Bool.false_ne_true, List.nil_append]
      refine Takes.skip_bind_nil ?_ behind
      rw [List.append_assoc]
      apply lacks_toDigits
      intro char minus
      rw [of_decide_eq_true minus]
      rfl

/-! ## Strings are read back -/

theorem takes_shortEscape
    {escape : Char × Char}
    (member : escape ∈ shortEscapes)
    (rest : List Char) : Takes stringItem ['\\', escape.1] rest (some escape.2) := by
  have listed : ∀ escape ∈ shortEscapes, ∀ rest,
      Takes stringItem ['\\', escape.1] rest (some escape.2) := by
    unfold shortEscapes
    simp only [List.forall_mem_cons, List.not_mem_nil, false_implies, implies_true, and_true]
    refine ⟨?_, ?_, ?_, ?_, ?_, ?_, ?_⟩ <;> exact fun rest => rfl
  exact listed escape member rest

/-- A control character is read back from its code. -/
theorem takes_controlEscape
    {char : Char}
    (control : char < ' ')
    (rest : List Char) :
    Takes stringItem
      ['\\', 'u', '0', '0', Nat.digitChar (char.toNat / 16), Nat.digitChar (char.toNat % 16)]
      rest (some char) := by
  have table : ∀ code < 32,
      ['0', '0', Nat.digitChar (code / 16), Nat.digitChar (code % 16)].foldlM
        (fun value char => (hexValue char).map fun digit => value * 16 + digit) 0 =
          some code := by
    decide
  have code : char.toNat < 32 := control
  have unit : Takes codeUnit
      ['0', '0', Nat.digitChar (char.toNat / 16), Nat.digitChar (char.toNat % 16)] rest
      char.toNat :=
    congrArg (Option.map fun value => (value, rest)) (table char.toNat code)
  have escaped : Takes escape
      ['u', '0', '0', Nat.digitChar (char.toNat / 16), Nat.digitChar (char.toNat % 16)] rest
      char := by
    apply Takes.item_bind
    rw [if_pos rfl]
    apply unit.bind_last
    rw [if_neg (by omega), if_neg (by omega), Char.ofNat_toNat]
    exact takes_pure char rest
  apply Takes.item_bind
  exact escaped.bind_last (takes_pure (some char) rest)

/-- A character of a string literal is read back. -/
theorem takes_escapeChar (char : Char) (rest : List Char) :
    Takes stringItem (escapeChar char) rest (some char) := by
  unfold escapeChar
  split
  next letter same found =>
    have escaped := List.find?_some found
    have member := List.mem_of_find?_eq_some found
    rw [← of_decide_eq_true escaped]
    exact takes_shortEscape member rest
  next absent =>
    have notListed : ∀ escape ∈ shortEscapes, char ≠ escape.2 := by
      intro escape member same
      exact List.find?_eq_none.mp absent escape member (decide_eq_true same.symm)
    split
    next control => exact takes_controlEscape control rest
    next plain =>
      have noQuote : char ≠ '"' := notListed ('"', '"') List.mem_cons_self
      have noBackslash : char ≠ '\\' := notListed ('\\', '\\') (by decide)
      refine Takes.bind_last (takes_item char rest) ?_
      rw [if_neg noQuote, if_neg plain, if_neg noBackslash]
      exact takes_pure (some char) rest

theorem length_le_flatMap_escapeChar (text : List Char) :
    text.length ≤ (text.flatMap escapeChar).length := by
  induction text with
  | nil => exact Nat.le_refl 0
  | cons char text inductionHypothesis =>
      have positive : 0 < (escapeChar char).length := by
        unfold escapeChar
        split
        · exact Nat.zero_lt_succ _
        · split <;> exact Nat.zero_lt_succ _
      rw [List.flatMap_cons, List.length_append, List.length_cons]
      omega

theorem takes_stringBody
    (text : List Char)
    {fuel : Nat}
    (rest : List Char)
    (enough : text.length < fuel) :
    Takes (stringBody fuel) (text.flatMap escapeChar ++ ['"']) rest text := by
  induction text generalizing fuel with
  | nil =>
      obtain ⟨fuel, rfl⟩ := Nat.exists_eq_add_one.mpr enough
      have closing : Takes stringItem ['"'] rest none := rfl
      exact closing.bind_last (takes_pure [] rest)
  | cons char text inductionHypothesis =>
      obtain ⟨fuel, rfl⟩ := Nat.exists_eq_add_one.mpr (Nat.zero_lt_of_lt enough)
      rw [List.flatMap_cons, List.append_assoc]
      refine Takes.bind (takes_escapeChar char _) ?_
      exact (inductionHypothesis (Nat.lt_of_succ_lt_succ enough)).bind_last
        (takes_pure (char :: text) rest)

/-- A string literal is read back behind its opening quote. -/
theorem takes_string (text rest : List Char) :
    Takes string (text.flatMap escapeChar ++ ['"']) rest text := by
  apply takes_stringBody
  have long := length_le_flatMap_escapeChar text
  rw [List.length_append, List.length_append, List.length_singleton]
  omega

/-! ## Values are read back -/

/-- No blank comes first. -/
theorem takes_blanks
    {first : Char}
    (rest : List Char)
    (ink : isBlank first = false) : Takes blanks [] (first :: rest) [] :=
  takes_many (fun _ member => absurd member List.not_mem_nil) (lacks_cons rest ink)

theorem Numeral.length_print_pos (numeral : Numeral) : 0 < numeral.print.length := by
  have digits := Nat.length_toDigits_pos (b := 10) (n := numeral.whole)
  rw [Numeral.print, List.length_append, List.length_append]
  omega

theorem Value.length_print_pos (value : Value) : 0 < value.print.length := by
  match value with
  | .null => decide
  | .bool true => decide
  | .bool false => decide
  | .number numeral => exact numeral.length_print_pos
  | .text _ => exact Nat.zero_lt_succ _
  | .array [] => exact Nat.zero_lt_succ _
  | .array (_ :: _) =>
      rw [Value.print]
      exact Nat.zero_lt_succ _
  | .object [] => exact Nat.zero_lt_succ _
  | .object (_ :: _) =>
      rw [Value.print]
      exact Nat.zero_lt_succ _

/-- A literal begins with a minus sign or a digit. -/
theorem Numeral.head?_print
    (numeral : Numeral)
    (rest : List Char) :
    ∃ first, (numeral.print ++ rest).head? = some first ∧
      (first = '-' ∨ first.isDigit = true) := by
  unfold Numeral.print
  cases numeral.negative with
  | true => exact ⟨'-', rfl, Or.inl rfl⟩
  | false =>
      cases shape : Nat.toDigits 10 numeral.whole with
      | nil => exact absurd shape Nat.toDigits_ne_nil
      | cons first digits =>
          have member : first ∈ Nat.toDigits 10 numeral.whole := by
            rw [shape]
            exact List.mem_cons_self
          exact ⟨first, rfl, Or.inr (isDigit_of_mem_toDigits member)⟩

/-- No value begins with a blank or a closing bracket. -/
theorem Value.lacks_print (value : Value) (rest : List Char) :
    Lacks (fun char => isBlank char || char = ']') (value.print ++ rest) := by
  match value with
  | .null => exact lacks_cons _ rfl
  | .bool true => exact lacks_cons _ rfl
  | .bool false => exact lacks_cons _ rfl
  | .number numeral =>
      obtain ⟨first, head, sort⟩ := numeral.head?_print rest
      intro char found
      obtain rfl := Option.some.inj (head.symm.trans found)
      rcases sort with rfl | digit
      · rfl
      · rw [Bool.eq_false_iff]
        intro closing
        simp only [isBlank, Bool.or_eq_true, decide_eq_true_eq] at closing
        rcases closing with (((rfl | rfl) | rfl) | rfl) | rfl <;> exact absurd digit (by decide)
  | .text _ => exact lacks_cons _ rfl
  | .array [] => exact lacks_cons _ rfl
  | .array (_ :: _) =>
      rw [Value.print]
      exact lacks_cons _ rfl
  | .object [] => exact lacks_cons _ rfl
  | .object (_ :: _) =>
      rw [Value.print]
      exact lacks_cons _ rfl

theorem takes_blanks_print (value : Value) (rest : List Char) :
    Takes blanks [] (value.print ++ rest) [] := by
  apply takes_many fun _ member => absurd member List.not_mem_nil
  apply (value.lacks_print rest).mono
  intro char blank
  rw [blank, Bool.true_or]

/-- The value is read back in as many steps as twice its characters. -/
def ReadBack (read : Value) : Prop :=
  ∀ fuel rest, 2 * read.print.length ≤ fuel → Lacks continuesNumeral rest →
    Takes (value fuel) read.print rest read

theorem exists_steps
    {read : Value}
    {fuel : Nat}
    (enough : 2 * read.print.length ≤ fuel) : ∃ steps, fuel = steps + 1 := by
  apply Nat.exists_eq_add_one.mpr
  have nonempty := read.length_print_pos
  omega

theorem readBack_null : ReadBack .null := by
  intro fuel rest enough _
  obtain ⟨fuel, rfl⟩ := exists_steps enough
  refine Takes.bind_nil (takes_blanks _ rfl) (Takes.peek_bind ?_)
  exact (takes_expect _ rest).bind_last (takes_pure _ rest)

theorem readBack_bool (value : Bool) : ReadBack (.bool value) := by
  intro fuel rest enough _
  obtain ⟨fuel, rfl⟩ := exists_steps enough
  cases value with
  | true =>
      refine Takes.bind_nil (takes_blanks _ rfl) (Takes.peek_bind ?_)
      exact (takes_expect _ rest).bind_last (takes_pure _ rest)
  | false =>
      refine Takes.bind_nil (takes_blanks _ rfl) (Takes.peek_bind ?_)
      exact (takes_expect _ rest).bind_last (takes_pure _ rest)

theorem readBack_text (chars : List Char) : ReadBack (.text chars) := by
  intro fuel rest enough _
  obtain ⟨fuel, rfl⟩ := exists_steps enough
  refine Takes.bind_nil (takes_blanks _ rfl) (Takes.peek_bind ?_)
  apply Takes.item_bind
  exact (takes_string chars rest).bind_last (takes_pure _ rest)

theorem readBack_number (numeral : Numeral) : ReadBack (.number numeral) := by
  intro fuel rest enough ends
  obtain ⟨fuel, rfl⟩ := exists_steps enough
  refine Takes.bind_nil (takes_blanks_print (.number numeral) rest) (Takes.peek_bind ?_)
  obtain ⟨first, head, sort⟩ := numeral.head?_print rest
  rw [Value.print, head]
  have apart : ∀ other : Char, other ≠ '-' → other.isDigit = false → first ≠ other := by
    rintro other noMinus noDigit rfl
    rcases sort with rfl | digit
    · exact noMinus rfl
    · rw [noDigit] at digit
      exact Bool.false_ne_true digit
  split
  next same => exact absurd (Option.some.inj same) (apart _ (by decide) rfl)
  next same => exact absurd (Option.some.inj same) (apart _ (by decide) rfl)
  next same => exact absurd (Option.some.inj same) (apart _ (by decide) rfl)
  next same => exact absurd (Option.some.inj same) (apart _ (by decide) rfl)
  next same => exact absurd (Option.some.inj same) (apart _ (by decide) rfl)
  next same => exact absurd (Option.some.inj same) (apart _ (by decide) rfl)
  next => exact (takes_numeral numeral ends).bind_last (takes_pure _ rest)

/-- The value is read back as the last element of an array. -/
theorem takes_elements_nil
    {first : Value}
    (firstRead : ReadBack first)
    {fuel : Nat}
    (rest : List Char)
    (enough : 2 * first.print.length ≤ fuel) :
    Takes (elements (fuel + 1)) (first.print ++ [']']) rest [first] := by
  refine Takes.bind (firstRead fuel _ enough (lacks_cons rest rfl)) ?_
  refine Takes.bind_nil (takes_blanks rest rfl) ?_
  exact (takes_item ']' rest).bind_last (takes_pure [first] rest)

/-- The value is read back before other elements of an array. -/
theorem takes_elements_cons
    {first : Value}
    {text rest : List Char}
    {values : List Value}
    {fuel : Nat}
    (firstRead : ReadBack first)
    (enough : 2 * first.print.length ≤ fuel)
    (others : Takes (elements fuel) text rest values) :
    Takes (elements (fuel + 1)) (first.print ++ ',' :: text) rest (first :: values) := by
  refine Takes.bind (firstRead fuel _ enough (lacks_cons _ rfl)) ?_
  refine Takes.bind_nil (takes_blanks _ rfl) ?_
  apply Takes.item_bind
  exact others.bind_last (takes_pure _ rest)

theorem takes_memberName (name rest : List Char) :
    Takes memberName (quote name ++ [':']) rest name := by
  refine Takes.bind_nil (takes_blanks _ rfl) ?_
  apply Takes.expect_bind
  refine Takes.bind (takes_string name _) ?_
  refine Takes.bind_nil (takes_blanks rest rfl) ?_
  exact (takes_expect [':'] rest).bind_last (takes_pure name rest)

/-- The value is read back as the last member of an object. -/
theorem takes_members_nil
    {first : Value}
    (firstRead : ReadBack first)
    (name : List Char)
    {fuel : Nat}
    (rest : List Char)
    (enough : 2 * first.print.length ≤ fuel) :
    Takes (members (fuel + 1)) (quote name ++ [':'] ++ (first.print ++ ['\x7d'])) rest
      [(name, first)] := by
  refine Takes.bind (takes_memberName name _) ?_
  refine Takes.bind (firstRead fuel _ enough (lacks_cons rest rfl)) ?_
  refine Takes.bind_nil (takes_blanks rest rfl) ?_
  exact (takes_item '\x7d' rest).bind_last (takes_pure [(name, first)] rest)

/-- The value is read back before other members of an object. -/
theorem takes_members_cons
    {first : Value}
    {text rest : List Char}
    {others : List (List Char × Value)}
    {fuel : Nat}
    (firstRead : ReadBack first)
    (name : List Char)
    (enough : 2 * first.print.length ≤ fuel)
    (othersRead : Takes (members fuel) text rest others) :
    Takes (members (fuel + 1)) (quote name ++ [':'] ++ (first.print ++ ',' :: text)) rest
      ((name, first) :: others) := by
  refine Takes.bind (takes_memberName name _) ?_
  refine Takes.bind (firstRead fuel _ enough (lacks_cons _ rfl)) ?_
  refine Takes.bind_nil (takes_blanks _ rfl) ?_
  apply Takes.item_bind
  exact othersRead.bind_last (takes_pure _ rest)

mutual

/-- Every value is read back. -/
theorem readBack : ∀ value, ReadBack value
  | .null => readBack_null
  | .bool value => readBack_bool value
  | .number numeral => readBack_number numeral
  | .text chars => readBack_text chars
  | .array [] => by
      intro fuel rest enough _
      obtain ⟨fuel, rfl⟩ := exists_steps enough
      refine Takes.bind_nil (takes_blanks _ rfl) (Takes.peek_bind ?_)
      apply Takes.item_bind
      refine Takes.bind_nil (takes_blanks _ rfl) ?_
      exact Takes.bind_last (takes_skip rfl rest) (takes_pure _ rest)
  | .array (first :: values) => by
      intro fuel rest enough _
      obtain ⟨fuel, rfl⟩ := exists_steps enough
      rw [Value.print] at enough ⊢
      have elementsRead := readBackElements values first (readBack first) fuel rest (by
        rw [List.length_cons] at enough
        omega)
      refine Takes.bind_nil (takes_blanks _ rfl) (Takes.peek_bind ?_)
      apply Takes.item_bind
      have behind := List.append_assoc first.print (Value.printElements values) rest
      apply Takes.bind_nil (behind ▸ takes_blanks_print first _)
      apply Takes.skip_bind_nil
      · rw [behind]
        apply (first.lacks_print _).mono
        intro char bracket
        rw [bracket, Bool.or_true]
      · exact elementsRead.bind_last (takes_pure _ rest)
  | .object [] => by
      intro fuel rest enough _
      obtain ⟨fuel, rfl⟩ := exists_steps enough
      refine Takes.bind_nil (takes_blanks _ rfl) (Takes.peek_bind ?_)
      apply Takes.item_bind
      refine Takes.bind_nil (takes_blanks _ rfl) ?_
      exact Takes.bind_last (takes_skip rfl rest) (takes_pure _ rest)
  | .object ((name, first) :: members) => by
      intro fuel rest enough _
      obtain ⟨fuel, rfl⟩ := exists_steps enough
      rw [Value.print] at enough ⊢
      have membersRead := readBackMembers members name first (readBack first) fuel rest (by
        rw [List.length_cons] at enough
        omega)
      refine Takes.bind_nil (takes_blanks _ rfl) (Takes.peek_bind ?_)
      apply Takes.item_bind
      refine Takes.bind_nil (takes_blanks _ rfl) ?_
      apply Takes.skip_bind_nil (lacks_cons _ rfl)
      exact membersRead.bind_last (takes_pure _ rest)

theorem readBackElements : ∀ (values : List Value) (first : Value), ReadBack first →
    ∀ fuel rest, 2 * (first.print ++ Value.printElements values).length < fuel →
      Takes (elements fuel) (first.print ++ Value.printElements values) rest (first :: values)
  | [], first, firstRead, fuel, rest, enough => by
      obtain ⟨fuel, rfl⟩ := Nat.exists_eq_add_one.mpr (Nat.zero_lt_of_lt enough)
      rw [List.length_append] at enough
      exact takes_elements_nil firstRead rest (by omega)
  | second :: values, first, firstRead, fuel, rest, enough => by
      obtain ⟨fuel, rfl⟩ := Nat.exists_eq_add_one.mpr (Nat.zero_lt_of_lt enough)
      rw [Value.printElements] at enough ⊢
      rw [List.length_append, List.length_cons] at enough
      apply takes_elements_cons firstRead (by omega)
      exact readBackElements values second (readBack second) fuel rest (by omega)

theorem readBackMembers : ∀ (members : List (List Char × Value)) (name : List Char)
    (first : Value), ReadBack first → ∀ fuel rest,
      2 * (quote name ++ ':' :: (first.print ++ Value.printMembers members)).length < fuel →
      Takes (Json.members fuel)
        (quote name ++ ':' :: (first.print ++ Value.printMembers members)) rest
        ((name, first) :: members)
  | [], name, first, firstRead, fuel, rest, enough => by
      obtain ⟨fuel, rfl⟩ := Nat.exists_eq_add_one.mpr (Nat.zero_lt_of_lt enough)
      rw [List.length_append, List.length_cons, List.length_append] at enough
      rw [← List.singleton_append, ← List.append_assoc]
      exact takes_members_nil firstRead name rest (by omega)
  | (second, value) :: members, name, first, firstRead, fuel, rest, enough => by
      obtain ⟨fuel, rfl⟩ := Nat.exists_eq_add_one.mpr (Nat.zero_lt_of_lt enough)
      rw [Value.printMembers] at enough ⊢
      rw [List.length_append, List.length_cons, List.length_append, List.length_cons] at enough
      rw [← List.singleton_append, ← List.append_assoc]
      apply takes_members_cons firstRead name (by omega)
      exact readBackMembers members second value (readBack value) fuel rest (by omega)

end

/-- `JSON.parse` reads back what `JSON.stringify` writes. -/
theorem parse_print (value : Value) : parse value.print = some value := by
  have read := readBack value (2 * value.print.length) [] (Nat.le_refl _) (lacks_nil _)
  apply whole_of_takes
  apply read.bind_last
  exact takes_pure value []

/-- Blanks, escapes and surrogate pairs are read as well. -/
example :
    (parse ("\x7b \"a\" : [1, -0.5e+3, true], ".toList ++
      "\"b\\u00e9\\ud83d\\ude00\" : \x7b\x7d\x7d\n".toList)).map Value.print =
      some "\x7b\"a\":[1,-0.5e3,true],\"bé😀\":\x7b\x7d\x7d".toList := by
  decide +kernel

end Json
