import Chronolog.Foundation.BigEndian

/-!
# JSON string literals

The literal of a text, byte by byte, and the fact that a literal determines the
text and where it ends.  The texts are UTF-8, where the escaped characters are
single bytes and all other bytes stand for themselves.
-/

namespace JsonText

section PrefixCode

variable {α β : Type*}

/-- Words of a prefix code followed by a stop symbol determine the coded list
and what comes after it. -/
theorem flatMap_append_inj
    {code : α → List β}
    {stop : β}
    (nonempty : ∀ symbol, code symbol ≠ [])
    (apart : ∀ symbol, (code symbol).head? ≠ some stop)
    (prefixFree : ∀ left right, code left <+: code right → left = right)
    {left right : List α}
    {leftRest rightRest : List β}
    (equal : left.flatMap code ++ stop :: leftRest =
      right.flatMap code ++ stop :: rightRest) :
    left = right ∧ leftRest = rightRest := by
  have stops : ∀ symbol rest after, code symbol ++ rest ≠ stop :: after := by
    intro symbol rest after clash
    cases word : code symbol with
    | nil => exact nonempty symbol word
    | cons head tail =>
        rw [word] at clash
        have heads : head = stop := (List.cons.inj clash).1
        exact apart symbol (by rw [word, heads]; rfl)
  induction left generalizing right with
  | nil =>
      cases right with
      | nil => exact ⟨rfl, (List.cons.inj equal).2⟩
      | cons symbol right =>
          rw [List.flatMap_cons, List.append_assoc] at equal
          exact absurd equal.symm (stops symbol _ _)
  | cons leftSymbol left inductionHypothesis =>
      cases right with
      | nil =>
          rw [List.flatMap_cons, List.append_assoc] at equal
          exact absurd equal (stops leftSymbol _ _)
      | cons rightSymbol right =>
          rw [List.flatMap_cons, List.flatMap_cons, List.append_assoc,
            List.append_assoc] at equal
          have same : leftSymbol = rightSymbol := by
            have leftPrefix := List.prefix_append (code leftSymbol)
              (left.flatMap code ++ stop :: leftRest)
            have rightPrefix := List.prefix_append (code rightSymbol)
              (right.flatMap code ++ stop :: rightRest)
            rw [equal] at leftPrefix
            rcases List.prefix_or_prefix_of_prefix leftPrefix rightPrefix with
              shorter | longer
            · exact prefixFree _ _ shorter
            · exact (prefixFree _ _ longer).symm
          subst same
          obtain ⟨texts, rests⟩ := inductionHypothesis (List.append_cancel_left equal)
          exact ⟨by rw [texts], rests⟩

end PrefixCode

/-- A lower-case hexadecimal digit. -/
def hexDigit (digit : UInt8) : UInt8 :=
  if digit < 10 then 0x30 + digit else 0x57 + digit

/-- How a byte is written inside a string literal. -/
def escapeByte (byte : UInt8) : Bytes :=
  if byte = 0x22 then [0x5c, 0x22]
  else if byte = 0x5c then [0x5c, 0x5c]
  else if byte = 0x08 then [0x5c, 0x62]
  else if byte = 0x09 then [0x5c, 0x74]
  else if byte = 0x0a then [0x5c, 0x6e]
  else if byte = 0x0c then [0x5c, 0x66]
  else if byte = 0x0d then [0x5c, 0x72]
  else if byte < 0x20 then
    [0x5c, 0x75, 0x30, 0x30, hexDigit (byte >>> 4), hexDigit (byte &&& 0x0f)]
  else [byte]

/-- The string literal of a text. -/
def quote (text : Bytes) : Bytes :=
  0x22 :: (text.flatMap escapeByte ++ [0x22])

/-- The bytes that are escaped. -/
def escaped : List UInt8 :=
  [0x22, 0x5c] ++ (List.range 0x20).map UInt8.ofNat

theorem mem_escaped_of_lt {byte : UInt8} (control : byte < 0x20) :
    byte ∈ escaped := by
  refine List.mem_append_right _ (List.mem_map.mpr ⟨byte.toNat, ?_, ?_⟩)
  · exact List.mem_range.mpr (UInt8.lt_iff_toNat_lt.mp control)
  · exact UInt8.ofNat_toNat

/-- A byte that is not escaped stands for itself. -/
theorem escapeByte_of_notMem {byte : UInt8} (plain : byte ∉ escaped) :
    escapeByte byte = [byte] := by
  have different : ∀ other ∈ escaped, byte ≠ other := fun other member equal =>
    plain (equal ▸ member)
  rw [escapeByte, if_neg (different _ (by decide)), if_neg (different _ (by decide)),
    if_neg (different _ (by decide)), if_neg (different _ (by decide)),
    if_neg (different _ (by decide)), if_neg (different _ (by decide)),
    if_neg (different _ (by decide)), if_neg fun control =>
      plain (mem_escaped_of_lt control)]

theorem escapeByte_of_mem {byte : UInt8} (special : byte ∈ escaped) :
    ∃ rest, escapeByte byte = 0x5c :: rest := by
  have heads : ∀ byte ∈ escaped, (escapeByte byte).head? = some 0x5c := by
    decide +kernel
  exact List.head?_eq_some_iff.mp (heads byte special)

theorem escapeByte_ne_nil (byte : UInt8) : escapeByte byte ≠ [] := by
  by_cases special : byte ∈ escaped
  · obtain ⟨rest, word⟩ := escapeByte_of_mem special
    rw [word]
    exact List.cons_ne_nil _ _
  · rw [escapeByte_of_notMem special]
    exact List.cons_ne_nil _ _

/-- No escape begins with the closing quote. -/
theorem head?_escapeByte_ne (byte : UInt8) :
    (escapeByte byte).head? ≠ some 0x22 := by
  by_cases special : byte ∈ escaped
  · obtain ⟨rest, word⟩ := escapeByte_of_mem special
    rw [word]
    exact fun quotes => absurd (Option.some.inj quotes) (by decide)
  · rw [escapeByte_of_notMem special]
    intro quotes
    obtain rfl : byte = 0x22 := Option.some.inj quotes
    exact special (by decide)

theorem escapeByte_prefixFree
    (left right : UInt8)
    (leading : escapeByte left <+: escapeByte right) : left = right := by
  by_cases leftSpecial : left ∈ escaped
  · by_cases rightSpecial : right ∈ escaped
    · have table : ∀ left ∈ escaped, ∀ right ∈ escaped,
          escapeByte left <+: escapeByte right → left = right := by
        decide +kernel
      exact table left leftSpecial right rightSpecial leading
    · obtain ⟨rest, word⟩ := escapeByte_of_mem leftSpecial
      rw [word, escapeByte_of_notMem rightSpecial, List.cons_prefix_cons] at leading
      exact absurd (leading.1 ▸ by decide) rightSpecial
  · rw [escapeByte_of_notMem leftSpecial] at leading
    by_cases rightSpecial : right ∈ escaped
    · obtain ⟨rest, word⟩ := escapeByte_of_mem rightSpecial
      rw [word, List.cons_prefix_cons] at leading
      exact absurd (leading.1 ▸ by decide) leftSpecial
    · rw [escapeByte_of_notMem rightSpecial, List.cons_prefix_cons] at leading
      exact leading.1

/-- A literal determines its text and what follows it. -/
theorem quote_append_inj
    {left right leftRest rightRest : Bytes}
    (equal : quote left ++ leftRest = quote right ++ rightRest) :
    left = right ∧ leftRest = rightRest := by
  rw [quote, quote, List.cons_append, List.cons_append, List.append_assoc,
    List.append_assoc] at equal
  exact flatMap_append_inj escapeByte_ne_nil head?_escapeByte_ne
    escapeByte_prefixFree (List.cons.inj equal).2

end JsonText
