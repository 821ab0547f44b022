import Mathlib.Data.List.TakeWhile

/-!
# Deterministic readers

A reader takes a value from the beginning of a text and leaves the rest, or
refuses the text.  Readers are sequenced by a monad.  What a reader does is
described text by text: it takes this text, before that rest, as this value; the
rules below follow the way a reader is put together.
-/

/-- What is taken from the beginning of a text, and what is left. -/
def TextReader (α : Type) : Type := List Char → Option (α × List Char)

namespace TextReader

variable {α β : Type}

instance : Monad TextReader where
  pure value := fun text => some (value, text)
  bind first next := fun text => (first text).bind fun taken => next taken.1 taken.2

/-- No text is accepted. -/
def refuse : TextReader α := fun _ => none

/-- One character. -/
def item : TextReader Char
  | [] => none
  | char :: rest => some (char, rest)

/-- The next character, which is left. -/
def peek : TextReader (Option Char) := fun text => some (text.head?, text)

/-- A given text. -/
def expect (expected : List Char) : TextReader Unit := fun text =>
  if expected.isPrefixOf text then some ((), text.drop expected.length) else none

/-- Whether the next character is of a class; then it is taken. -/
def skip (accept : Char → Bool) : TextReader Bool
  | [] => some (false, [])
  | char :: rest => if accept char then some (true, rest) else some (false, char :: rest)

/-- As many characters of a class as there are. -/
def many (accept : Char → Bool) : TextReader (List Char) := fun text =>
  some (text.takeWhile accept, text.dropWhile accept)

/-- The value of a whole text. -/
def whole (reader : TextReader α) (text : List Char) : Option α :=
  match reader text with
  | some (value, []) => some value
  | _ => none

/-- The reader takes the text, before the rest, as the value. -/
def Takes (reader : TextReader α) (text rest : List Char) (value : α) : Prop :=
  reader (text ++ rest) = some (value, rest)

/-- The text does not begin with a character of the class. -/
def Lacks (accept : Char → Bool) (text : List Char) : Prop :=
  ∀ char ∈ text.head?, accept char = false

theorem lacks_nil (accept : Char → Bool) : Lacks accept [] := by
  intro char first
  exact absurd first (Option.not_mem_none char)

theorem lacks_cons
    {accept : Char → Bool}
    {char : Char}
    (rest : List Char)
    (rejected : accept char = false) : Lacks accept (char :: rest) := by
  intro first same
  rw [← Option.some.inj same]
  exact rejected

/-- A class that is rejected with every larger one. -/
theorem Lacks.mono
    {accept larger : Char → Bool}
    {text : List Char}
    (lacks : Lacks larger text)
    (contained : ∀ char, accept char = true → larger char = true) : Lacks accept text := by
  intro char first
  have rejected := lacks char first
  rw [Bool.eq_false_iff] at rejected ⊢
  intro accepted
  exact rejected (contained char accepted)

theorem Takes.bind
    {first : TextReader α}
    {next : α → TextReader β}
    {left right rest : List Char}
    {value : α}
    {result : β}
    (taken : Takes first left (right ++ rest) value)
    (after : Takes (next value) right rest result) :
    Takes (first >>= next) (left ++ right) rest result := by
  unfold Takes at *
  change (first (left ++ right ++ rest)).bind _ = _
  rw [List.append_assoc, taken]
  exact after

/-- A reader that leaves the text alone comes before one that takes it. -/
theorem Takes.bind_nil
    {first : TextReader α}
    {next : α → TextReader β}
    {text rest : List Char}
    {value : α}
    {result : β}
    (taken : Takes first [] (text ++ rest) value)
    (after : Takes (next value) text rest result) :
    Takes (first >>= next) text rest result :=
  Takes.bind taken after

/-- What follows the last reader that takes something. -/
theorem Takes.bind_last
    {first : TextReader α}
    {next : α → TextReader β}
    {text rest : List Char}
    {value : α}
    {result : β}
    (taken : Takes first text rest value)
    (after : Takes (next value) [] rest result) :
    Takes (first >>= next) text rest result := by
  have both : Takes (first >>= next) (text ++ []) rest result := Takes.bind taken after
  rwa [List.append_nil] at both

theorem takes_pure (value : α) (rest : List Char) : Takes (pure value) [] rest value :=
  rfl

theorem takes_item (char : Char) (rest : List Char) : Takes item [char] rest char :=
  rfl

/-- Looking at the next character takes nothing. -/
theorem Takes.peek_bind
    {next : Option Char → TextReader α}
    {text rest : List Char}
    {value : α}
    (after : Takes (next (text ++ rest).head?) text rest value) :
    Takes (peek >>= next) text rest value :=
  after

/-- The character that comes first is taken. -/
theorem Takes.item_bind
    {next : Char → TextReader α}
    {char : Char}
    {text rest : List Char}
    {value : α}
    (after : Takes (next char) text rest value) :
    Takes (item >>= next) (char :: text) rest value :=
  after

theorem takes_expect (text rest : List Char) : Takes (expect text) text rest () := by
  unfold Takes expect
  rw [if_pos (List.isPrefixOf_iff_prefix.mpr (List.prefix_append text rest)), List.drop_left]

/-- The character that is expected comes first. -/
theorem Takes.expect_bind
    {next : Unit → TextReader α}
    {char : Char}
    {text rest : List Char}
    {value : α}
    (after : Takes (next ()) text rest value) :
    Takes (expect [char] >>= next) (char :: text) rest value := by
  rw [← List.singleton_append]
  exact Takes.bind (takes_expect [char] _) after

theorem takes_skip
    {accept : Char → Bool}
    {char : Char}
    (accepted : accept char = true)
    (rest : List Char) : Takes (skip accept) [char] rest true :=
  if_pos accepted

theorem takes_skip_nil
    {accept : Char → Bool}
    {rest : List Char}
    (lacks : Lacks accept rest) : Takes (skip accept) [] rest false := by
  cases rest with
  | nil => rfl
  | cons char rest => exact if_neg (Bool.eq_false_iff.mp (lacks char rfl))

/-- A character of the class comes first and is taken. -/
theorem Takes.skip_bind
    {accept : Char → Bool}
    {next : Bool → TextReader α}
    {char : Char}
    {text rest : List Char}
    {value : α}
    (accepted : accept char = true)
    (after : Takes (next true) text rest value) :
    Takes (skip accept >>= next) (char :: text) rest value := by
  rw [← List.singleton_append]
  exact Takes.bind (takes_skip accepted _) after

/-- No character of the class comes first. -/
theorem Takes.skip_bind_nil
    {accept : Char → Bool}
    {next : Bool → TextReader α}
    {text rest : List Char}
    {value : α}
    (lacks : Lacks accept (text ++ rest))
    (after : Takes (next false) text rest value) :
    Takes (skip accept >>= next) text rest value :=
  Takes.bind_nil (takes_skip_nil lacks) after

theorem takes_many
    {accept : Char → Bool}
    {text rest : List Char}
    (accepted : ∀ char ∈ text, accept char = true)
    (lacks : Lacks accept rest) : Takes (many accept) text rest text := by
  unfold Takes many
  rw [List.takeWhile_append_of_pos accepted, List.dropWhile_append_of_pos accepted]
  cases rest with
  | nil => rw [List.takeWhile_nil, List.dropWhile_nil, List.append_nil]
  | cons char rest =>
      have rejected := Bool.eq_false_iff.mp (lacks char rfl)
      rw [List.takeWhile_cons_of_neg rejected, List.dropWhile_cons_of_neg rejected,
        List.append_nil]

theorem whole_of_takes
    {reader : TextReader α}
    {text : List Char}
    {value : α}
    (taken : Takes reader text [] value) : whole reader text = some value := by
  unfold Takes at taken
  rw [List.append_nil] at taken
  rw [whole, taken]

end TextReader

/-! ## Decimal digits -/

namespace Decimal

/-- The number that digits spell. -/
def digitsValue (digits : List Char) : Nat := Nat.ofDigitChars 10 digits 0

theorem digitsValue_toDigits (number : Nat) : digitsValue (Nat.toDigits 10 number) = number :=
  Nat.ofDigitChars_ten_toDigits

theorem isDigit_of_mem_toDigits
    {number : Nat}
    {char : Char}
    (member : char ∈ Nat.toDigits 10 number) : char.isDigit = true :=
  Nat.isDigit_of_mem_toDigits (by decide) (by decide) member

end Decimal
