import Chronolog.Foundation.FirstOccurrence
import Chronolog.Foundation.Utf8Cuts
import Chronolog.Pipeline.Tokenizer

/-!
# Tokens on both sides of a separator

No character is read across an ASCII byte, and no word runs across a separator.
So a payload can be tokenized piece by piece: the tokens are the lower-cased
words of the right size without their repetitions.
-/

namespace Chronolog
namespace Pipeline

open Utf8

variable {unicode : UnicodeTables}

/-! ## Fields -/

theorem fieldsLoop_append_separator
    {separator : Char → Bool}
    {middle : Rune}
    (separates : separator middle.char = true)
    (before after : List Rune)
    (span : Option Bytes) :
    fieldsLoop separator (before ++ middle :: after) span =
      fieldsLoop separator before span ++ fieldsLoop separator after none := by
  induction before generalizing span with
  | nil => cases span <;> simp [fieldsLoop, separates]
  | cons rune before inductionHypothesis =>
      cases span with
      | none =>
          simp only [List.cons_append, fieldsLoop, inductionHypothesis]
          split <;> rfl
      | some span =>
          simp only [List.cons_append, fieldsLoop, inductionHypothesis]
          split <;> rfl

/-- An ASCII letter or digit. -/
def isAsciiWord (byte : UInt8) : Bool :=
  (0x30 ≤ byte && byte ≤ 0x39) || (0x41 ≤ byte && byte ≤ 0x5A) ||
    (0x61 ≤ byte && byte ≤ 0x7A)

variable (unicode) in
/-- The character of an ASCII byte that is no letter and no digit. -/
theorem exists_separator_of_byte
    {byte : UInt8}
    (ascii : IsAscii byte)
    (symbol : isAsciiWord byte = false) :
    ∃ char, encode char = [byte] ∧ isSeparator unicode char = true := by
  have table : ∀ code < 128, isAsciiWord (UInt8.ofNat code) = false →
      encode (Char.ofNat code) = [UInt8.ofNat code] ∧ (Char.ofNat code).val < 128 ∧
        (Char.ofNat code).isAlpha = false ∧ (Char.ofNat code).isDigit = false := by
    decide +kernel
  obtain ⟨encoded, low, noLetter, noDigit⟩ :=
    table byte.toNat (UInt8.lt_iff_toNat_lt.mp ascii) (by rwa [UInt8.ofNat_toNat])
  refine ⟨Char.ofNat byte.toNat, by rw [encoded, UInt8.ofNat_toNat], ?_⟩
  rw [isSeparator, unicode.isLetter_ascii _ low, unicode.isNumber_ascii _ low, noLetter,
    noDigit]
  rfl

/-- The fields of a text are those on the left and those on the right of a
separating byte. -/
theorem fieldsFunc_append_separator
    (before after : Bytes)
    {byte : UInt8}
    (ascii : IsAscii byte)
    (symbol : isAsciiWord byte = false) :
    fieldsFunc (before ++ byte :: after) (isSeparator unicode) =
      fieldsFunc before (isSeparator unicode) ++
        fieldsFunc after (isSeparator unicode) := by
  obtain ⟨char, encoded, separates⟩ :=
    exists_separator_of_byte unicode ascii symbol
  have middle : runes (byte :: after) = ⟨char, [byte]⟩ :: runes after := by
    rw [← encoded, ← runes_encode_append, encoded]
    rfl
  rw [fieldsFunc, runes_append_ascii before after ascii, middle,
    fieldsLoop_append_separator separates]
  rfl

/-! ## Tokens -/

/-- The tokens of a text are those on the left of a separating byte and then
those on the right that are not on the left. -/
theorem tokenize_append_separator
    (before after : Bytes)
    {byte : UInt8}
    (ascii : IsAscii byte)
    (symbol : isAsciiWord byte = false) :
    tokenize unicode (before ++ byte :: after) =
      tokenize unicode before ++
        (tokenize unicode after).filter fun term => term ∉ tokenize unicode before := by
  simp only [tokenize_eq_eraseDups]
  rw [fieldsFunc_append_separator before after ascii symbol, terms_append,
    List.eraseDups_append, List.removeAll, FirstOccurrence.eraseDups_filter]
  congr 1
  apply List.filter_congr
  intro term _
  simp

/-- Blanks in front of a text hold no token. -/
theorem tokenize_dropWhile_blank (text : Bytes) :
    tokenize unicode (text.dropWhile fun byte => byte == 0x20) = tokenize unicode text := by
  induction text with
  | nil => rfl
  | cons first rest inductionHypothesis =>
      by_cases blank : first = 0x20
      · have split : tokenize unicode ([] ++ 0x20 :: rest) = _ :=
          tokenize_append_separator [] rest (by decide) (by decide)
        rw [blank, List.dropWhile_cons_of_pos (by decide), inductionHypothesis]
        rw [List.nil_append] at split
        rw [split]
        have nothing : tokenize unicode [] = [] := rfl
        rw [nothing, List.nil_append]
        exact (List.filter_eq_self.mpr fun term _ => by simp).symm
      · rw [List.dropWhile_cons_of_neg (by simpa using blank)]

end Pipeline
end Chronolog
