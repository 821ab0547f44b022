import Chronolog.Foundation.Utf8Cuts
import Chronolog.Ingestion.Parser

/-!
# Where the message is

The message the parser stores is an end of the line.  Every stage of the parser
drops a beginning that stops behind an ASCII byte: the bracket, a blank, or the
last blank of the timestamp.
-/

namespace Chronolog
namespace Ingestion

open Utf8

/-- The byte a search stopped at. -/
theorem getElem?_of_idxOf?
    {bytes : Bytes}
    {byte : UInt8}
    {index : Nat}
    (found : bytes.idxOf? byte = some index) : bytes[index]? = some byte := by
  obtain ⟨bound, same, _⟩ := List.idxOf?_eq_some_iff.mp found
  rw [List.getElem?_eq_getElem bound, same]

theorem trimLeft_cut (data : Bytes) : CutBehindAscii data (trimLeft data) := by
  refine cutBehindAscii_dropWhile (fun byte blank => ?_) data
  rw [eq_of_beq blank]
  decide

theorem parsePri_cut (res : ParsedLog) (data : Bytes) :
    CutBehindAscii data (parsePri res data).2 := by
  unfold parsePri
  split
  · split
    next endPri found =>
      split
      · exact cutBehindAscii_drop (getElem?_of_idxOf? found) (by decide)
      · exact CutBehindAscii.refl data
    next => exact CutBehindAscii.refl data
  · exact CutBehindAscii.refl data

theorem skipTimestamp_cut (data : Bytes) : CutBehindAscii data (skipTimestamp data) := by
  unfold skipTimestamp
  split
  next shape => exact cutBehindAscii_drop shape.2.2.2 (by decide)
  next => exact CutBehindAscii.refl data

theorem splitHostname_cut (res : ParsedLog) (data : Bytes) :
    CutBehindAscii data (splitHostname res data).message := by
  unfold splitHostname
  split
  next spaceIdx found =>
    exact (cutBehindAscii_drop (getElem?_of_idxOf? found) (by decide)).trans (trimLeft_cut _)
  next => exact CutBehindAscii.refl data

/-- The message is the end of the line behind an ASCII byte. -/
theorem message_cut (now : Int64) (data : Bytes) :
    CutBehindAscii data (parseSyslogRFC3164 now data).message := by
  unfold parseSyslogRFC3164
  split
  next empty =>
    rw [empty]
    exact CutBehindAscii.refl []
  next =>
    exact (parsePri_cut _ data).trans ((trimLeft_cut _).trans ((skipTimestamp_cut _).trans
      ((trimLeft_cut _).trans (splitHostname_cut _ _))))

/-! ## The header of a syslog line -/

/-- `<PRI>Mmm dd hh:mm:ss ` -/
def syslogHeader (pri : Nat) (timestamp : Bytes) : Bytes :=
  0x3C :: ((Nat.toDigits 10 pri).flatMap encode ++ 0x3E :: (timestamp ++ [0x20]))

/-- The priority of a syslog line read as a number. -/
theorem atoi_pri :
    ∀ pri < 192,
      atoi ((Nat.toDigits 10 pri).flatMap encode) = some (pri : Int) ∧
      ((Nat.toDigits 10 pri).flatMap encode).length < 4 ∧
      0 < ((Nat.toDigits 10 pri).flatMap encode).length ∧
      0x3E ∉ (Nat.toDigits 10 pri).flatMap encode := by
  decide +kernel

theorem idxOf?_append_cons
    {before after : Bytes}
    {byte : UInt8}
    (absent : byte ∉ before) :
    (before ++ byte :: after).idxOf? byte = some before.length := by
  refine List.idxOf?_eq_some_iff.mpr ⟨by simp, by simp, fun index earlier => ?_⟩
  rw [List.getElem_append_left earlier]
  exact fun same => absent (same ▸ List.getElem_mem earlier)

/-- A bracket with a priority is read and dropped. -/
theorem parsePri_bracket
    (res : ParsedLog)
    {digits : Bytes}
    {priVal : Int}
    (after : Bytes)
    (number : atoi digits = some priVal)
    (short : digits.length < 4)
    (long : 0 < digits.length)
    (noBracket : 0x3E ∉ digits) :
    parsePri res (0x3C :: (digits ++ 0x3E :: after)) =
      ({ res with priority := priVal, facility := priVal >>> (3 : Nat), severity := priVal % 8 },
        after) := by
  have found : (0x3C :: (digits ++ 0x3E :: after) : Bytes).idxOf? 0x3E =
      some (digits.length + 1) := by
    rw [← List.cons_append, idxOf?_append_cons]
    · rfl
    · exact List.not_mem_cons_of_ne_of_not_mem (by decide) noBracket
  have inside : Storage.slice (0x3C :: (digits ++ 0x3E :: after)) 1 (digits.length + 1) =
      digits := by
    simp [Storage.slice]
  have rest : (0x3C :: (digits ++ 0x3E :: after) : Bytes).drop (digits.length + 1 + 1) =
      after := by
    simp
  rw [parsePri, List.head?_cons, if_pos rfl]
  simp only [found]
  rw [if_pos (by omega), inside, number, rest]

theorem splitHostname_word
    (res : ParsedLog)
    {word : Bytes}
    (rest : Bytes)
    (noSpace : 0x20 ∉ word) :
    splitHostname res (word ++ 0x20 :: rest) =
      { res with hostname := word, message := trimLeft rest } := by
  have behind : (word ++ 0x20 :: rest : Bytes).drop (word.length + 1) = rest := by
    simp
  rw [splitHostname, idxOf?_append_cons noSpace]
  simp only [behind, List.take_left]

theorem splitHostname_single
    (res : ParsedLog)
    {word : Bytes}
    (noSpace : 0x20 ∉ word) : splitHostname res word = { res with message := word } := by
  rw [splitHostname, List.idxOf?_eq_none_iff.mpr noSpace]

theorem head?_ne_of_notMem {data : Bytes} {byte : UInt8} (absent : byte ∉ data) :
    data.head? ≠ some byte :=
  fun first => absent (List.mem_of_head? first)

theorem trimLeft_eq_self {data : Bytes} (head : data.head? ≠ some 0x20) :
    trimLeft data = data := by
  cases data with
  | nil => rfl
  | cons first rest =>
      apply List.dropWhile_cons_of_neg
      rw [beq_iff_eq]
      exact fun blank => head (congrArg some blank)

/-- A timestamp is skipped with the blank behind it. -/
theorem skipTimestamp_timestamp
    {timestamp rest : Bytes}
    (length : timestamp.length = 15)
    (month : timestamp[3]? = some 0x20)
    (day : timestamp[6]? = some 0x20)
    (head : timestamp.head? ≠ some 0x20)
    (nonempty : rest ≠ []) :
    skipTimestamp (trimLeft (timestamp ++ 0x20 :: rest)) = rest := by
  have untrimmed : trimLeft (timestamp ++ 0x20 :: rest) = timestamp ++ 0x20 :: rest := by
    have filled : timestamp ≠ [] := List.ne_nil_of_length_pos (by omega)
    apply trimLeft_eq_self
    rwa [List.head?_append_of_ne_nil _ filled]
  have restLength := List.length_pos_iff.mpr nonempty
  have shape : 16 < (timestamp ++ 0x20 :: rest).length ∧
      (timestamp ++ 0x20 :: rest)[3]? = some 0x20 ∧
      (timestamp ++ 0x20 :: rest)[6]? = some 0x20 ∧
      (timestamp ++ 0x20 :: rest)[15]? = some 0x20 := by
    refine ⟨by simp [length]; omega, ?_, ?_, ?_⟩
    · rw [List.getElem?_append_left (by omega), month]
    · rw [List.getElem?_append_left (by omega), day]
    · rw [List.getElem?_append_right (by omega), length]
      rfl
  rw [untrimmed, skipTimestamp, if_pos shape]
  have position : 16 = timestamp.length + 1 := by omega
  rw [position, List.drop_append]
  simp

/-- The parser reads the header of a syslog line and goes on behind it. -/
theorem parseSyslogRFC3164_syslogHeader
    (now : Int64)
    {pri : Nat}
    {timestamp rest : Bytes}
    (small : pri ≤ 191)
    (length : timestamp.length = 15)
    (month : timestamp[3]? = some 0x20)
    (day : timestamp[6]? = some 0x20)
    (head : timestamp.head? ≠ some 0x20)
    (nonempty : rest ≠ []) :
    parseSyslogRFC3164 now (syslogHeader pri timestamp ++ rest) =
      splitHostname
        { defaultLog now with
          priority := pri, facility := (pri : Int) >>> (3 : Nat),
          severity := (pri : Int) % 8 }
        (trimLeft rest) := by
  obtain ⟨number, short, long, noBracket⟩ := atoi_pri pri (Nat.lt_succ_of_le small)
  have whole : syslogHeader pri timestamp ++ rest =
      0x3C :: ((Nat.toDigits 10 pri).flatMap encode ++ 0x3E ::
        (timestamp ++ 0x20 :: rest)) := by
    simp [syslogHeader]
  rw [whole, parseSyslogRFC3164, if_neg (List.cons_ne_nil _ _),
    parsePri_bracket (defaultLog now) _ number short long noBracket]
  simp only [skipTimestamp_timestamp length month day head nonempty]

end Ingestion
end Chronolog
