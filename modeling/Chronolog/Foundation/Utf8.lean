import Chronolog.Foundation.BigEndian

/-!
# Code points of arbitrary byte strings

Decoding reads a byte string code point by code point; a byte that does not
start a valid encoding is read alone as the replacement character.  Decoding
the encoding of a text gives the text back.
-/

namespace Utf8

/-- A code point together with the bytes it was read from. -/
structure Rune where
  char : Char
  bytes : Bytes
  deriving DecidableEq

/-- What an undecodable byte is read as. -/
def replacement : Char := '\uFFFD'

/-- The bytes of one code point. -/
def encode (char : Char) : Bytes := String.utf8EncodeChar char

/-- The first code point of a nonempty byte string and its width. -/
def decode (bytes : Bytes) : Char × Nat :=
  match bytes.toByteArray.utf8DecodeChar? 0 with
  | some char => (char, char.utf8Size)
  | none => (replacement, 1)

/-- Read code points after skipping bytes that were already consumed. -/
def runesFrom : Nat → Bytes → List Rune
  | _, [] => []
  | skip + 1, _ :: rest => runesFrom skip rest
  | 0, byte :: rest =>
      let (char, width) := decode (byte :: rest)
      ⟨char, (byte :: rest).take width⟩ :: runesFrom (width - 1) rest

/-- The code points of a byte string, in order. -/
def runes (bytes : Bytes) : List Rune := runesFrom 0 bytes

@[simp] theorem length_encode (char : Char) :
    (encode char).length = char.utf8Size :=
  String.length_utf8EncodeChar char

theorem encode_ne_nil (char : Char) : encode char ≠ [] := by
  intro empty
  have length := length_encode char
  rw [empty, List.length_nil] at length
  exact absurd char.utf8Size_pos (by omega)

theorem decode_encode_append (char : Char) (rest : Bytes) :
    decode (encode char ++ rest) = (char, char.utf8Size) := by
  rw [decode, encode, List.toByteArray_append,
    ByteArray.utf8DecodeChar?_utf8EncodeChar_append]

/-- A byte string starts with the encoding of the code point it decodes to,
or is read as one replacement character. -/
theorem decode_cases (bytes : Bytes) :
    (∃ char rest, bytes = encode char ++ rest ∧
      decode bytes = (char, char.utf8Size)) ∨
      decode bytes = (replacement, 1) := by
  cases decoded : bytes.toByteArray.utf8DecodeChar? 0 with
  | none => exact Or.inr (by rw [decode, decoded])
  | some char =>
      left
      obtain ⟨rest, split⟩ := ByteArray.exists_of_utf8DecodeChar?_eq_some decoded
      refine ⟨char, rest.data.toList, ?_, by rw [decode, decoded]⟩
      have data := congrArg (fun array => array.data.toList) split
      simpa [encode] using data

theorem runesFrom_eq_runes_drop (skip : Nat) (bytes : Bytes) :
    runesFrom skip bytes = runes (bytes.drop skip) := by
  induction bytes generalizing skip with
  | nil => cases skip <;> rfl
  | cons byte rest inductionHypothesis =>
      cases skip with
      | zero => rfl
      | succ skip => exact inductionHypothesis skip

@[simp] theorem runes_nil : runes [] = [] := rfl

theorem runes_cons (byte : UInt8) (rest : Bytes) :
    runes (byte :: rest) =
      ⟨(decode (byte :: rest)).1,
        (byte :: rest).take (decode (byte :: rest)).2⟩ ::
      runes (rest.drop ((decode (byte :: rest)).2 - 1)) := by
  rw [← runesFrom_eq_runes_drop]
  rfl

/-- The encoding of a code point is read back as that code point. -/
theorem runes_encode_append (char : Char) (rest : Bytes) :
    runes (encode char ++ rest) = ⟨char, encode char⟩ :: runes rest := by
  have decoded := decode_encode_append char rest
  have length := length_encode char
  cases encoded : encode char with
  | nil => exact absurd encoded (encode_ne_nil char)
  | cons byte tail =>
      rw [encoded] at decoded length
      rw [List.cons_append] at decoded ⊢
      rw [runes_cons, decoded, ← length, ← List.cons_append]
      simp

theorem runes_undecodable
    (byte : UInt8)
    (rest : Bytes)
    (undecodable : decode (byte :: rest) = (replacement, 1)) :
    runes (byte :: rest) = ⟨replacement, [byte]⟩ :: runes rest := by
  rw [runes_cons, undecodable]
  simp

/-- Induction along the code points of a byte string. -/
theorem runes_induction
    {motive : Bytes → Prop}
    (nil : motive [])
    (encoded : ∀ char rest, motive rest → motive (encode char ++ rest))
    (undecodable : ∀ byte rest,
      decode (byte :: rest) = (replacement, 1) →
      motive rest → motive (byte :: rest))
    (bytes : Bytes) : motive bytes := by
  induction length : bytes.length using Nat.strongRecOn generalizing bytes with
  | ind size inductionHypothesis =>
      cases bytes with
      | nil => exact nil
      | cons byte rest =>
          rcases decode_cases (byte :: rest) with ⟨char, tail, split, _⟩ | alone
          · rw [split]
            have shorter : tail.length < size := by
              have lengths := congrArg List.length split
              rw [List.length_append, length_encode] at lengths
              have positive := char.utf8Size_pos
              omega
            exact encoded char tail (inductionHypothesis _ shorter tail rfl)
          · have shorter : rest.length < size := by
              rw [← length, List.length_cons]
              omega
            exact undecodable byte rest alone
              (inductionHypothesis _ shorter rest rfl)

/-- A code point other than the replacement character was validly encoded. -/
theorem bytes_eq_encode
    {bytes : Bytes}
    {rune : Rune}
    (member : rune ∈ runes bytes)
    (valid : rune.char ≠ replacement) :
    rune.bytes = encode rune.char := by
  induction bytes using runes_induction with
  | nil => simp at member
  | encoded char rest inductionHypothesis =>
      rw [runes_encode_append, List.mem_cons] at member
      rcases member with rfl | later
      · rfl
      · exact inductionHypothesis later
  | undecodable byte rest alone inductionHypothesis =>
      rw [runes_undecodable byte rest alone, List.mem_cons] at member
      rcases member with rfl | later
      · exact absurd rfl valid
      · exact inductionHypothesis later

/-- Decoding the encoding of a text gives the text. -/
theorem runes_flatMap_encode (text : List Char) :
    runes (text.flatMap encode) = text.map fun char => ⟨char, encode char⟩ := by
  induction text with
  | nil => rfl
  | cons char text inductionHypothesis =>
      rw [List.flatMap_cons, runes_encode_append, inductionHypothesis,
        List.map_cons]

/-- Only the NUL character is encoded with a zero byte. -/
theorem zero_notMem_encode {char : Char} (nonzero : char ≠ '\x00') :
    (0 : UInt8) ∉ encode char := by
  have positive : 0 < char.val.toNat :=
    Nat.pos_of_ne_zero fun zero => nonzero (Char.ext (UInt32.toNat_inj.mp zero))
  have bound : char.val.toNat < 0x110000 := by
    rcases char.valid with low | high
    · exact Nat.lt_trans low (by decide)
    · exact high.2
  have nonzeroByte : ∀ number, 0 < number % 256 → (0 : UInt8) ≠ UInt8.ofNat number := by
    intro number remainder equal
    have values := congrArg UInt8.toNat equal
    simp at values
    omega
  unfold encode String.utf8EncodeChar
  dsimp only
  split
  · rw [List.mem_singleton]
    exact nonzeroByte _ (by omega)
  split
  · simp only [List.mem_cons, List.not_mem_nil, or_false, not_or]
    exact ⟨nonzeroByte _ (by omega), nonzeroByte _ (by omega)⟩
  split
  · simp only [List.mem_cons, List.not_mem_nil, or_false, not_or]
    exact ⟨nonzeroByte _ (by omega), nonzeroByte _ (by omega),
      nonzeroByte _ (by omega)⟩
  · simp only [List.mem_cons, List.not_mem_nil, or_false, not_or]
    exact ⟨nonzeroByte _ (by omega), nonzeroByte _ (by omega),
      nonzeroByte _ (by omega), nonzeroByte _ (by omega)⟩

end Utf8
