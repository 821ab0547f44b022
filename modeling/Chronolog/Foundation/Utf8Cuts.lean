import Chronolog.Foundation.Utf8
import Mathlib.Data.List.TakeWhile

/-!
# Cutting UTF-8

A multi-byte character contains no ASCII byte, so a byte string can be cut
behind an ASCII byte without splitting a character, whatever else it contains.
A byte string is valid when every byte of it belongs to a validly encoded
character; the ill-formed offsets are where it is not.
-/

namespace Utf8

/-- Bytes from 0x80 on only occur in multi-byte characters. -/
def IsAscii (byte : UInt8) : Prop := byte < 0x80

instance (byte : UInt8) : Decidable (IsAscii byte) :=
  inferInstanceAs (Decidable (_ < _))

/-! ## Decoding around an ASCII byte -/

/-- Only the first byte of a character can be ASCII. -/
theorem not_isAscii_of_mem_tail
    {char : Char}
    {byte : UInt8}
    (member : byte ∈ (encode char).tail) : ¬ IsAscii byte := by
  have high : ∀ number, 128 ≤ number % 256 → ¬ IsAscii (UInt8.ofNat number) := by
    intro number bound ascii
    have less := UInt8.lt_iff_toNat_lt.mp ascii
    simp at less
    omega
  unfold encode String.utf8EncodeChar at member
  dsimp only at member
  split at member
  · simp at member
  split at member
  · simp only [List.tail_cons, List.mem_singleton] at member
    rw [member]
    exact high _ (by omega)
  split at member
  · simp only [List.tail_cons, List.mem_cons, List.not_mem_nil, or_false] at member
    rcases member with rfl | rfl <;> exact high _ (by omega)
  · simp only [List.tail_cons, List.mem_cons, List.not_mem_nil, or_false] at member
    rcases member with rfl | rfl | rfl <;> exact high _ (by omega)

/-- An ASCII byte is a character of its own. -/
theorem exists_encode_of_isAscii {byte : UInt8} (ascii : IsAscii byte) :
    ∃ char, encode char = [byte] := by
  have small : byte.toNat < 128 := UInt8.lt_iff_toNat_lt.mp ascii
  refine ⟨⟨byte.toUInt32, Or.inl (Nat.lt_trans small (by decide))⟩, ?_⟩
  rw [encode, String.utf8EncodeChar]
  simp only [UInt8.toNat_toUInt32]
  rw [if_pos (by omega), UInt8.ofNat_toNat]

/-- What cannot be decoded still cannot when an ASCII byte follows. -/
theorem decode_undecodable_append
    {byte ascii : UInt8}
    {rest after : Bytes}
    (undecodable : decode (byte :: rest) = (replacement, 1))
    (isAscii : IsAscii ascii) :
    decode (byte :: (rest ++ ascii :: after)) = (replacement, 1) := by
  rcases decode_cases (byte :: (rest ++ ascii :: after)) with
    ⟨char, tail, split, _⟩ | alone
  · exfalso
    have apart : ∀ remaining, byte :: rest ≠ encode char ++ remaining := by
      intro remaining same
      rw [same, decode_encode_append, Prod.mk.injEq] at undecodable
      obtain ⟨rfl, width⟩ := undecodable
      exact absurd width (by decide)
    rw [← List.cons_append] at split
    rcases List.append_eq_append_iff.mp split with ⟨inner, encoded, rest'⟩ | ⟨inner, same, _⟩
    · cases inner with
      | nil => exact apart [] (by rw [encoded, List.append_nil, List.append_nil])
      | cons head inner =>
          obtain rfl := (List.cons.inj rest').1
          have inTail : ascii ∈ (encode char).tail := by
            rw [encoded, List.cons_append, List.tail_cons]
            simp
          exact not_isAscii_of_mem_tail inTail isAscii
    · exact apart inner same
  · exact alone

/-- Characters are not read across an ASCII byte. -/
theorem runes_append_ascii
    (before after : Bytes)
    {ascii : UInt8}
    (isAscii : IsAscii ascii) :
    runes (before ++ ascii :: after) = runes before ++ runes (ascii :: after) := by
  induction before using runes_induction with
  | nil => rfl
  | encoded char rest inductionHypothesis =>
      rw [List.append_assoc, runes_encode_append, runes_encode_append,
        inductionHypothesis, List.cons_append]
  | undecodable byte rest alone inductionHypothesis =>
      rw [List.cons_append, runes_undecodable _ _ (decode_undecodable_append alone isAscii),
        runes_undecodable _ _ alone, inductionHypothesis, List.cons_append]

/-- The bytes of the characters of a byte string are the byte string. -/
theorem flatMap_bytes_runes (bytes : Bytes) :
    (runes bytes).flatMap Rune.bytes = bytes := by
  induction bytes using runes_induction with
  | nil => rfl
  | encoded char rest inductionHypothesis =>
      rw [runes_encode_append, List.flatMap_cons, inductionHypothesis]
  | undecodable byte rest alone inductionHypothesis =>
      rw [runes_undecodable _ _ alone, List.flatMap_cons, inductionHypothesis]
      rfl

/-! ## Cuts behind an ASCII byte -/

/-- The second byte string is what is left of the first one after a cut at its
start or behind an ASCII byte. -/
def CutBehindAscii (bytes rest : Bytes) : Prop :=
  ∃ dropped, bytes = dropped ++ rest ∧ ∀ last, dropped.getLast? = some last → IsAscii last

theorem CutBehindAscii.refl (bytes : Bytes) : CutBehindAscii bytes bytes :=
  ⟨[], rfl, by simp⟩

theorem CutBehindAscii.trans
    {first second third : Bytes}
    (earlier : CutBehindAscii first second)
    (later : CutBehindAscii second third) : CutBehindAscii first third := by
  obtain ⟨dropped, rfl, ascii⟩ := earlier
  obtain ⟨more, rfl, moreAscii⟩ := later
  refine ⟨dropped ++ more, (List.append_assoc _ _ _).symm, fun last isLast => ?_⟩
  rw [List.getLast?_append] at isLast
  cases moreLast : more.getLast? with
  | none =>
      rw [moreLast, Option.none_or] at isLast
      exact ascii last isLast
  | some other =>
      rw [moreLast, Option.some_or, Option.some.injEq] at isLast
      exact isLast ▸ moreAscii other moreLast

/-- Dropping everything up to an ASCII byte and the byte itself. -/
theorem cutBehindAscii_drop
    {bytes : Bytes}
    {index : Nat}
    {byte : UInt8}
    (found : bytes[index]? = some byte)
    (ascii : IsAscii byte) : CutBehindAscii bytes (bytes.drop (index + 1)) := by
  refine ⟨bytes.take (index + 1), (List.take_append_drop _ _).symm, fun last isLast => ?_⟩
  rw [List.take_add_one, found, Option.toList_some, List.getLast?_concat,
    Option.some.injEq] at isLast
  exact isLast ▸ ascii

/-- Dropping leading ASCII bytes. -/
theorem cutBehindAscii_dropWhile
    {select : UInt8 → Bool}
    (ascii : ∀ byte, select byte = true → IsAscii byte)
    (bytes : Bytes) : CutBehindAscii bytes (bytes.dropWhile select) := by
  refine ⟨bytes.takeWhile select, List.takeWhile_append_dropWhile.symm, fun last isLast => ?_⟩
  exact ascii last (List.mem_takeWhile_imp (List.mem_of_getLast? isLast))

/-- The characters on both sides of a cut are read as if it had not been made. -/
theorem runes_cutBehindAscii
    {dropped rest : Bytes}
    (ascii : ∀ last, dropped.getLast? = some last → IsAscii last) :
    runes (dropped ++ rest) = runes dropped ++ runes rest := by
  rcases List.eq_nil_or_concat dropped with rfl | ⟨init, last, rfl⟩
  · rfl
  · rw [List.concat_eq_append] at ascii ⊢
    have isAscii := ascii last List.getLast?_concat
    obtain ⟨char, encoded⟩ := exists_encode_of_isAscii isAscii
    have single : runes (last :: rest) = runes [last] ++ runes rest := by
      have here := runes_encode_append char rest
      have alone := runes_encode_append char []
      rw [encoded, List.singleton_append] at here alone
      rw [here, alone, runes_nil]
      rfl
    rw [List.append_assoc, List.singleton_append, runes_append_ascii _ _ isAscii,
      runes_append_ascii _ _ isAscii, single, List.append_assoc]

/-! ## Validity -/

/-- Every byte belongs to a validly encoded character. -/
def Valid (bytes : Bytes) : Prop :=
  ∀ rune ∈ runes bytes, rune.bytes = encode rune.char

instance (bytes : Bytes) : Decidable (Valid bytes) :=
  inferInstanceAs (Decidable (∀ rune ∈ runes bytes, _))

/-- A byte string is valid when it encodes a text. -/
theorem valid_iff_exists_text {bytes : Bytes} :
    Valid bytes ↔ ∃ text : List Char, bytes = text.flatMap encode := by
  constructor
  · intro valid
    refine ⟨(runes bytes).map Rune.char, ?_⟩
    rw [List.flatMap_map]
    calc bytes = (runes bytes).flatMap Rune.bytes := (flatMap_bytes_runes bytes).symm
      _ = (runes bytes).flatMap fun rune => encode rune.char := List.flatMap_congr valid
  · rintro ⟨text, rfl⟩ rune member
    rw [runes_flatMap_encode, List.mem_map] at member
    obtain ⟨char, _, rfl⟩ := member
    rfl

/-- A cut behind an ASCII byte makes two valid byte strings of one. -/
theorem valid_cutBehindAscii
    {dropped rest : Bytes}
    (ascii : ∀ last, dropped.getLast? = some last → IsAscii last) :
    Valid (dropped ++ rest) ↔ Valid dropped ∧ Valid rest := by
  rw [Valid, runes_cutBehindAscii ascii, List.forall_mem_append]
  rfl

/-- Bytes up to which a byte string is the encoding of whole characters. -/
def Boundary (bytes : Bytes) (size : Nat) : Prop :=
  ∃ before after : List Char, bytes = before.flatMap encode ++ after.flatMap encode ∧
    (before.flatMap encode).length = size

theorem runes_flatMap_encode_append (text : List Char) (rest : Bytes) :
    runes (text.flatMap encode ++ rest) = runes (text.flatMap encode) ++ runes rest := by
  induction text with
  | nil => rfl
  | cons char text inductionHypothesis =>
      rw [List.flatMap_cons, List.append_assoc, runes_encode_append, runes_encode_append,
        inductionHypothesis, List.cons_append]

/-- A valid byte string stays valid when it is cut between two characters, and
only then. -/
theorem valid_take_iff_boundary
    {bytes : Bytes}
    {size : Nat}
    (valid : Valid bytes) :
    Valid (bytes.take size) ↔ bytes.length ≤ size ∨ Boundary bytes size := by
  constructor
  · intro validTake
    rcases Nat.lt_or_ge size bytes.length with longer | short
    · right
      obtain ⟨before, taken⟩ := valid_iff_exists_text.mp validTake
      have split := (List.take_append_drop size bytes).symm
      rw [taken] at split
      have validDrop : Valid (bytes.drop size) := by
        rw [split, Valid, runes_flatMap_encode_append, List.forall_mem_append] at valid
        exact valid.2
      obtain ⟨after, dropped⟩ := valid_iff_exists_text.mp validDrop
      refine ⟨before, after, ?_, ?_⟩
      · rw [← dropped]
        exact split
      · rw [← taken, List.length_take_of_le (Nat.le_of_lt longer)]
    · exact Or.inl short
  · rintro (short | ⟨before, after, rfl, rfl⟩)
    · rwa [List.take_of_length_le short]
    · rw [List.take_left]
      exact valid_iff_exists_text.mpr ⟨before, rfl⟩

/-- Where the ill-formed bytes among some characters are, the first character
being at a given offset. -/
def illFormedFrom : Nat → List Rune → List Nat
  | _, [] => []
  | offset, rune :: rest =>
      if rune.bytes = encode rune.char then illFormedFrom (offset + rune.bytes.length) rest
      else offset :: illFormedFrom (offset + rune.bytes.length) rest

/-- The offsets of the bytes that belong to no validly encoded character. -/
def illFormed (bytes : Bytes) : List Nat := illFormedFrom 0 (runes bytes)

theorem illFormedFrom_append (offset : Nat) (before after : List Rune) :
    illFormedFrom offset (before ++ after) =
      illFormedFrom offset before ++
        illFormedFrom (offset + (before.flatMap Rune.bytes).length) after := by
  induction before generalizing offset with
  | nil => rfl
  | cons rune before inductionHypothesis =>
      rw [List.cons_append, illFormedFrom, illFormedFrom, inductionHypothesis,
        List.flatMap_cons, List.length_append, Nat.add_assoc]
      split <;> rfl

/-- Ill-formed offsets lie among the characters. -/
theorem mem_illFormedFrom_bounds
    {offset position : Nat}
    {list : List Rune}
    (nonempty : ∀ rune ∈ list, rune.bytes ≠ [])
    (member : position ∈ illFormedFrom offset list) :
    offset ≤ position ∧ position < offset + (list.flatMap Rune.bytes).length := by
  induction list generalizing offset with
  | nil => exact absurd member List.not_mem_nil
  | cons rune list inductionHypothesis =>
      obtain ⟨here, later⟩ := List.forall_mem_cons.mp nonempty
      have width := List.length_pos_iff.mpr here
      have rest : position ∈ illFormedFrom (offset + rune.bytes.length) list →
          offset ≤ position ∧ position < offset +
            ((rune :: list).flatMap Rune.bytes).length := by
        intro inRest
        have bounds := inductionHypothesis later inRest
        rw [List.flatMap_cons, List.length_append]
        omega
      rw [illFormedFrom] at member
      split at member
      · exact rest member
      · rcases List.mem_cons.mp member with rfl | inRest
        · rw [List.flatMap_cons, List.length_append]
          omega
        · exact rest inRest

theorem illFormedFrom_eq_nil_iff (offset : Nat) {list : List Rune} :
    illFormedFrom offset list = [] ↔ ∀ rune ∈ list, rune.bytes = encode rune.char := by
  induction list generalizing offset with
  | nil => simp [illFormedFrom]
  | cons rune list inductionHypothesis =>
      rw [illFormedFrom, List.forall_mem_cons]
      by_cases wellFormed : rune.bytes = encode rune.char
      · rw [if_pos wellFormed, inductionHypothesis, and_iff_right wellFormed]
      · simp [wellFormed]

theorem bytes_ne_nil_of_mem_runes
    {bytes : Bytes}
    {rune : Rune}
    (member : rune ∈ runes bytes) : rune.bytes ≠ [] := by
  induction bytes using runes_induction with
  | nil => exact absurd member List.not_mem_nil
  | encoded char rest inductionHypothesis =>
      rw [runes_encode_append, List.mem_cons] at member
      rcases member with rfl | later
      · exact encode_ne_nil char
      · exact inductionHypothesis later
  | undecodable byte rest alone inductionHypothesis =>
      rw [runes_undecodable _ _ alone, List.mem_cons] at member
      rcases member with rfl | later
      · exact List.cons_ne_nil _ _
      · exact inductionHypothesis later

/-- Behind a cut the bytes are valid exactly when all ill-formed bytes were cut
off. -/
theorem valid_iff_illFormed_dropped
    {dropped rest : Bytes}
    (ascii : ∀ last, dropped.getLast? = some last → IsAscii last) :
    Valid rest ↔ ∀ offset ∈ illFormed (dropped ++ rest), offset < dropped.length := by
  rw [illFormed, runes_cutBehindAscii ascii, illFormedFrom_append, flatMap_bytes_runes,
    Nat.zero_add, Valid, ← illFormedFrom_eq_nil_iff dropped.length]
  constructor
  · intro nothing offset member
    rw [nothing, List.append_nil] at member
    have bounds := mem_illFormedFrom_bounds (fun _ => bytes_ne_nil_of_mem_runes) member
    rw [flatMap_bytes_runes, Nat.zero_add] at bounds
    exact bounds.2
  · intro early
    rw [List.eq_nil_iff_forall_not_mem]
    intro offset member
    have bounds := mem_illFormedFrom_bounds (fun _ => bytes_ne_nil_of_mem_runes) member
    exact absurd (early offset (List.mem_append_right _ member)) (Nat.not_lt.mpr bounds.1)

/-! ## Texts -/

/-- The characters of a byte string. -/
def text (bytes : Bytes) : List Char := (runes bytes).map Rune.char

theorem text_flatMap_encode_append (chars : List Char) (rest : Bytes) :
    text (chars.flatMap encode ++ rest) = chars ++ text rest := by
  rw [text, runes_flatMap_encode_append, runes_flatMap_encode, List.map_append,
    List.map_map]
  exact congrArg (· ++ text rest) (List.map_id' chars)

theorem text_flatMap_encode (chars : List Char) : text (chars.flatMap encode) = chars := by
  have whole := text_flatMap_encode_append chars []
  rwa [List.append_nil, show text [] = [] from rfl, List.append_nil] at whole

theorem encode_text {bytes : Bytes} (valid : Valid bytes) :
    (text bytes).flatMap encode = bytes := by
  obtain ⟨chars, rfl⟩ := valid_iff_exists_text.mp valid
  rw [text_flatMap_encode]

/-- The beginning of a byte string, when it is valid, is the beginning of its
text. -/
theorem text_take_prefix
    {bytes : Bytes}
    {size : Nat}
    (valid : Valid (bytes.take size)) : text (bytes.take size) <+: text bytes := by
  refine ⟨text (bytes.drop size), ?_⟩
  have split := text_flatMap_encode_append (text (bytes.take size)) (bytes.drop size)
  rw [encode_text valid, List.take_append_drop] at split
  exact split.symm

/-- An ASCII byte only occurs in a text as the character it encodes. -/
theorem mem_of_mem_flatMap_encode
    {char : Char}
    {byte : UInt8}
    {chars : List Char}
    (encoded : encode char = [byte])
    (ascii : IsAscii byte)
    (member : byte ∈ chars.flatMap encode) : char ∈ chars := by
  obtain ⟨other, inText, inside⟩ := List.mem_flatMap.mp member
  cases encoding : encode other with
  | nil => exact absurd encoding (encode_ne_nil other)
  | cons head tail =>
      rw [encoding] at inside
      rcases List.mem_cons.mp inside with rfl | inTail
      · have first := decode_encode_append other []
        have second := decode_encode_append char tail
        rw [encoded, List.singleton_append, ← encoding] at second
        rw [List.append_nil, second, Prod.mk.injEq] at first
        exact first.1 ▸ inText
      · have tails : byte ∈ (encode other).tail := by
          rw [encoding]
          exact inTail
        exact absurd ascii (not_isAscii_of_mem_tail tails)

theorem length_le_length_flatMap_encode (chars : List Char) :
    chars.length ≤ (chars.flatMap encode).length := by
  induction chars with
  | nil => exact le_rfl
  | cons char chars inductionHypothesis =>
      have positive := List.length_pos_iff.mpr (encode_ne_nil char)
      rw [List.flatMap_cons, List.length_append, List.length_cons]
      omega

end Utf8
