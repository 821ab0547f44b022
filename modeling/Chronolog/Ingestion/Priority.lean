import Chronolog.Ingestion.Message

/-!
# The priority bracket

RFC 3164 writes a priority as one to three digits of value up to 191 between
angle brackets.  The parser hands what stands in a short bracket to a general
integer parser, and drops the bracket whatever that makes of it.
-/

namespace Chronolog
namespace Ingestion

/-! ## Decimal digits -/

/-- An ASCII digit. -/
def isDecimal (byte : UInt8) : Bool := 0x30 ≤ byte && byte ≤ 0x39

/-- The number that decimal digits spell. -/
def decimalValue (digits : Bytes) : Nat :=
  digits.foldl (fun value digit => value * 10 + (digit.toNat - 0x30)) 0

theorem atoiDigits_decimal
    (number : Nat)
    {digits : Bytes}
    (decimal : ∀ byte ∈ digits, isDecimal byte = true) :
    atoiDigits number digits =
      some ((digits.foldl (fun value digit => value * 10 + (digit.toNat - 0x30)) number : Nat) :
        Int) := by
  induction digits generalizing number with
  | nil => rfl
  | cons digit digits inductionHypothesis =>
      obtain ⟨isDigit, later⟩ := List.forall_mem_cons.mp decimal
      rw [isDecimal, Bool.and_eq_true, decide_eq_true_eq, decide_eq_true_eq] at isDigit
      have low : 0x30 ≤ digit.toNat := UInt8.le_iff_toNat_le.mp isDigit.1
      have step : (number : Int) * 10 + (digit.toNat - 0x30) =
          ((number * 10 + (digit.toNat - 0x30) : Nat) : Int) := by
        omega
      rw [atoiDigits, if_pos isDigit, step, inductionHypothesis _ later, List.foldl_cons]

/-- Decimal digits without a sign are read as their value. -/
theorem atoi_decimal
    {digits : Bytes}
    (decimal : ∀ byte ∈ digits, isDecimal byte = true)
    (nonempty : digits ≠ [])
    (small : decimalValue digits < 2 ^ 63) :
    atoi digits = some (decimalValue digits : Int) := by
  have number := atoiDigits_decimal 0 decimal
  rw [Nat.cast_zero] at number
  rw [atoi, number]
  · refine if_pos ⟨nonempty, ?_, ?_⟩
    · omega
    · exact_mod_cast small
  · rintro rest rfl
    exact absurd (decimal _ List.mem_cons_self) (by decide)
  · rintro rest rfl
    exact absurd (decimal _ List.mem_cons_self) (by decide)

/-! ## Priorities -/

/-- A line starts with a priority of RFC 3164, with something behind it. -/
def StartsWithPri (line : Bytes) (pri : Nat) (after : Bytes) : Prop :=
  ∃ digits, line = 0x3C :: (digits ++ 0x3E :: after) ∧
    (∀ byte ∈ digits, isDecimal byte = true) ∧
    1 ≤ digits.length ∧ digits.length ≤ 3 ∧ decimalValue digits = pri ∧ pri ≤ 191

/-- The parser takes the priority of RFC 3164 that a line starts with, and
consumes nothing where there is none; the stream ID and the severity are in
their ranges. -/
structure PriExact (now : Int64) (line : Bytes) : Prop where
  taken : ∀ pri after, StartsWithPri line pri after →
    (parseSyslogRFC3164 now line).priority = pri ∧
      (parseSyslogRFC3164 now line).facility = pri / 8 ∧
      (parseSyslogRFC3164 now line).severity = pri % 8 ∧
      (parsePri (defaultLog now) line).2 = after
  otherwise : (∀ pri after, ¬ StartsWithPri line pri after) →
    (parseSyslogRFC3164 now line).priority = 0 ∧
      (parseSyslogRFC3164 now line).facility = 1 ∧
      (parseSyslogRFC3164 now line).severity = 6 ∧
      (parsePri (defaultLog now) line).2 = line
  streamID : UInt64.ofInt (parseSyslogRFC3164 now line).facility ≤ 23
  severity : 0 ≤ (parseSyslogRFC3164 now line).severity ∧
    (parseSyslogRFC3164 now line).severity ≤ 7

/-- A line starts with a bracket that the parser looks into. -/
def ShortBracket (line : Bytes) : Prop :=
  ∃ endPri, line.head? = some 0x3C ∧ line.idxOf? 0x3E = some endPri ∧
    1 < endPri ∧ endPri ≤ 5

/-- A short bracket at the start of a line that holds no priority of RFC 3164. -/
def MisreadBracket (line : Bytes) : Prop :=
  ShortBracket line ∧ ∀ pri after, ¬ StartsWithPri line pri after

theorem splitHostname_priority (res : ParsedLog) (data : Bytes) :
    (splitHostname res data).priority = res.priority ∧
      (splitHostname res data).facility = res.facility ∧
      (splitHostname res data).severity = res.severity := by
  unfold splitHostname
  split <;> exact ⟨rfl, rfl, rfl⟩

/-- The priority is that of the first stage. -/
theorem parseSyslogRFC3164_priority (now : Int64) (line : Bytes) :
    (parseSyslogRFC3164 now line).priority = (parsePri (defaultLog now) line).1.priority ∧
      (parseSyslogRFC3164 now line).facility =
        (parsePri (defaultLog now) line).1.facility ∧
      (parseSyslogRFC3164 now line).severity =
        (parsePri (defaultLog now) line).1.severity := by
  rw [parseSyslogRFC3164]
  split
  next empty =>
    rw [empty]
    exact ⟨rfl, rfl, rfl⟩
  next => exact splitHostname_priority _ _

/-- Nothing is consumed without a short bracket. -/
theorem parsePri_of_noBracket
    (res : ParsedLog)
    {line : Bytes}
    (noBracket : ¬ ShortBracket line) :
    parsePri res line = (res, line) := by
  rw [parsePri]
  split
  next opens =>
    split
    next endPri found =>
      rw [if_neg fun short => noBracket ⟨endPri, opens, found, short⟩]
    next => rfl
  next => rfl

/-- A short bracket is dropped. -/
theorem parsePri_of_bracket
    (res : ParsedLog)
    {line : Bytes}
    {endPri : Nat}
    (opens : line.head? = some 0x3C)
    (found : line.idxOf? 0x3E = some endPri)
    (short : 1 < endPri ∧ endPri ≤ 5) :
    (parsePri res line).2 = line.drop (endPri + 1) := by
  rw [parsePri, if_pos opens, found]
  dsimp only
  rw [if_pos short]

theorem parsePri_startsWithPri
    (res : ParsedLog)
    {line after : Bytes}
    {pri : Nat}
    (starts : StartsWithPri line pri after) :
    parsePri res line =
      ({ res with
          priority := pri, facility := (pri : Int) >>> (3 : Nat),
          severity := (pri : Int) % 8 },
        after) := by
  obtain ⟨digits, rfl, decimal, long, short, rfl, small⟩ := starts
  refine parsePri_bracket res after (atoi_decimal decimal ?_ (by omega)) (by omega) long ?_
  · exact List.ne_nil_of_length_pos long
  · exact fun bracket => absurd (decimal _ bracket) (by decide)

theorem shiftRight_three (pri : Nat) : (pri : Int) >>> (3 : Nat) = pri / 8 := by
  have natural : (pri : Int) >>> (3 : Nat) = ((pri >>> 3 : Nat) : Int) := rfl
  rw [natural, Nat.shiftRight_eq_div_pow]
  rfl

/-- The parser reads the priority bracket as RFC 3164 has it exactly when a
short bracket at the start of the line holds a priority. -/
theorem priExact_iff (now : Int64) (line : Bytes) :
    PriExact now line ↔ ¬ MisreadBracket line := by
  obtain ⟨priority, facility, severity⟩ := parseSyslogRFC3164_priority now line
  constructor
  · rintro exact' ⟨⟨endPri, opens, found, short⟩, misread⟩
    obtain ⟨_, _, _, kept⟩ := exact'.otherwise misread
    rw [parsePri_of_bracket _ opens found short] at kept
    have inside := (List.idxOf?_eq_some_iff.mp found).1
    have lengths := congrArg List.length kept
    rw [List.length_drop] at lengths
    omega
  · intro wellRead
    by_cases starts : ∃ pri after, StartsWithPri line pri after
    · obtain ⟨pri, after, starts⟩ := starts
      have small : pri ≤ 191 := by
        obtain ⟨_, _, _, _, _, _, small⟩ := starts
        exact small
      rw [parsePri_startsWithPri _ starts] at priority facility severity
      dsimp only at priority facility severity
      rw [shiftRight_three] at facility
      refine ⟨?_, ?_, ?_, ?_⟩
      · intro other behind again
        have same := (parsePri_startsWithPri (defaultLog now) starts).symm.trans
          (parsePri_startsWithPri (defaultLog now) again)
        rw [Prod.mk.injEq, ParsedLog.mk.injEq, Nat.cast_inj] at same
        obtain ⟨⟨rfl, _⟩, rfl⟩ := same
        refine ⟨priority, facility, severity, ?_⟩
        rw [parsePri_startsWithPri _ starts]
      · exact fun never => absurd starts (never pri after)
      · rw [facility]
        have range : ∀ code : Nat, code < 192 → UInt64.ofInt ((code : Int) / 8) ≤ 23 := by
          decide +kernel
        exact range pri (by omega)
      · rw [severity]
        omega
    · have never : ∀ pri after, ¬ StartsWithPri line pri after :=
        fun pri after found => starts ⟨pri, after, found⟩
      have untouched := parsePri_of_noBracket (defaultLog now)
        fun bracket => wellRead ⟨bracket, never⟩
      rw [untouched] at priority facility severity
      refine ⟨fun pri after found => absurd found (never pri after), ?_, ?_, ?_⟩
      · intro _
        refine ⟨priority, facility, severity, ?_⟩
        rw [untouched]
      · rw [facility]
        exact (by decide : UInt64.ofInt 1 ≤ 23)
      · rw [severity]
        exact (by decide : (0 : Int) ≤ 6 ∧ (6 : Int) ≤ 7)

/-- A negative number in the bracket is taken for a priority. -/
theorem signed_priority_taken :
    ¬ ∀ (now : Int64) (line : Bytes), PriExact now line := by
  intro claim
  have exact' := claim 0 "<-1>disk full".toUTF8.toList
  have value : UInt64.ofInt
      (parseSyslogRFC3164 0 "<-1>disk full".toUTF8.toList).facility = 0xFFFFFFFFFFFFFFFF := by
    decide +kernel
  have range := exact'.streamID
  rw [value] at range
  exact absurd range (by decide)

end Ingestion
end Chronolog
