import Chronolog.Foundation.BigEndian
import Mathlib.Data.List.TakeWhile

/-!
# Form encoding of names and values

The `application/x-www-form-urlencoded` format of a query string: names and
values with a few plain bytes, a plus for a space and a percent sign with two
digits for any other byte, joined by equals signs and ampersands.  Parsing what
was serialized gives the names and values back, whatever bytes they consist of.
-/

namespace FormUrlencoded

/-- The bytes that stand for themselves: letters, digits and `*-._`. -/
def isPlain (byte : UInt8) : Bool :=
  (0x30 ≤ byte && byte ≤ 0x39) || (0x41 ≤ byte && byte ≤ 0x5A) ||
    (0x61 ≤ byte && byte ≤ 0x7A) ||
    byte == 0x2A || byte == 0x2D || byte == 0x2E || byte == 0x5F

/-- An upper-case digit. -/
def hexDigit (digit : UInt8) : UInt8 :=
  if digit < 10 then 0x30 + digit else 0x37 + digit

/-- The value of a digit in either case. -/
def hexValue (byte : UInt8) : Option UInt8 :=
  if 0x30 ≤ byte ∧ byte ≤ 0x39 then some (byte - 0x30)
  else if 0x41 ≤ byte ∧ byte ≤ 0x46 then some (byte - 0x37)
  else if 0x61 ≤ byte ∧ byte ≤ 0x66 then some (byte - 0x57)
  else none

/-- A byte as it is written. -/
def escapeByte (byte : UInt8) : Bytes :=
  if isPlain byte then [byte]
  else if byte = 0x20 then [0x2B]
  else [0x25, hexDigit (byte / 16), hexDigit (byte % 16)]

/-- A name or a value as it is written. -/
def escape (text : Bytes) : Bytes := text.flatMap escapeByte

/-- A name and its value as they are written. -/
def escapePair (pair : Bytes × Bytes) : Bytes :=
  escape pair.1 ++ 0x3D :: escape pair.2

/-- The query string of some names and values. -/
def serialize (pairs : List (Bytes × Bytes)) : Bytes :=
  [0x26].intercalate (pairs.map escapePair)

/-- The byte that two digits stand for. -/
def digitPair : Bytes → Option UInt8
  | high :: low :: _ => do
      let high ← hexValue high
      let low ← hexValue low
      some (high * 16 + low)
  | _ => none

/-- Read what was written, after skipping bytes that were already consumed.  A
percent sign that two digits do not follow stands for itself. -/
def unescapeFrom : Nat → Bytes → Bytes
  | _, [] => []
  | skip + 1, _ :: rest => unescapeFrom skip rest
  | 0, byte :: rest =>
      if byte = 0x2B then 0x20 :: unescapeFrom 0 rest
      else if byte = 0x25 then
        match digitPair rest with
        | some value => value :: unescapeFrom 2 rest
        | none => byte :: unescapeFrom 0 rest
      else byte :: unescapeFrom 0 rest

/-- A name or a value as it is read. -/
def unescape (text : Bytes) : Bytes := unescapeFrom 0 text

/-- A piece between two ampersands: what is before its first equals sign and
what is behind it. -/
def parsePair (piece : Bytes) : Bytes × Bytes :=
  (unescape (piece.takeWhile (· ≠ 0x3D)),
    unescape ((piece.dropWhile (· ≠ 0x3D)).drop 1))

/-- The names and values of a query string. -/
def parse (input : Bytes) : List (Bytes × Bytes) :=
  ((input.splitOn 0x26).filter (· ≠ [])).map parsePair

/-! ## Bytes -/

/-- A property of all bytes can be checked number by number. -/
theorem forall_byte
    {property : UInt8 → Prop}
    (all : ∀ number < 256, property (UInt8.ofNat number))
    (byte : UInt8) : property byte := by
  have checked := all byte.toNat byte.toNat_lt
  rwa [UInt8.ofNat_toNat] at checked

theorem hexValue_hexDigit (byte : UInt8) :
    hexValue (hexDigit (byte / 16)) = some (byte / 16) ∧
      hexValue (hexDigit (byte % 16)) = some (byte % 16) ∧
      byte / 16 * 16 + byte % 16 = byte := by
  revert byte
  apply forall_byte
  decide +kernel

/-- No byte is written with the separators. -/
theorem ne_separator_of_mem_escapeByte
    (byte : UInt8) :
    ∀ written ∈ escapeByte byte, written ≠ 0x26 ∧ written ≠ 0x3D := by
  have checked : ∀ byte : UInt8,
      (escapeByte byte).all (fun written => written ≠ 0x26 && written ≠ 0x3D) = true := by
    apply forall_byte
    decide +kernel
  intro written member
  have apart := List.all_eq_true.mp (checked byte) written member
  rw [Bool.and_eq_true] at apart
  exact ⟨of_decide_eq_true apart.1, of_decide_eq_true apart.2⟩

theorem plain_ne (byte : UInt8) (plain : isPlain byte = true) :
    byte ≠ 0x2B ∧ byte ≠ 0x25 := by
  constructor
  · rintro rfl
    exact absurd plain (by decide)
  · rintro rfl
    exact absurd plain (by decide)

/-- A byte is read back, whatever follows it. -/
theorem unescape_escapeByte_append (byte : UInt8) (rest : Bytes) :
    unescape (escapeByte byte ++ rest) = byte :: unescape rest := by
  rw [escapeByte, unescape, unescape]
  split
  next plain =>
    obtain ⟨notPlus, notPercent⟩ := plain_ne byte plain
    rw [List.singleton_append, unescapeFrom, if_neg notPlus, if_neg notPercent]
  next =>
    split
    next space =>
      rw [List.singleton_append, unescapeFrom, if_pos rfl, space]
    next =>
      obtain ⟨high, low, value⟩ := hexValue_hexDigit byte
      have digits : digitPair (hexDigit (byte / 16) :: hexDigit (byte % 16) :: rest) =
          some byte := by
        rw [digitPair, high, low]
        exact congrArg some value
      rw [List.cons_append, List.cons_append, List.cons_append, List.nil_append,
        unescapeFrom, if_neg (by decide), if_pos rfl, digits]
      rfl

/-! ## Texts -/

theorem escape_cons (byte : UInt8) (text : Bytes) :
    escape (byte :: text) = escapeByte byte ++ escape text := rfl

/-- A text is read back. -/
theorem unescape_escape (text : Bytes) : unescape (escape text) = text := by
  induction text with
  | nil => rfl
  | cons byte text inductionHypothesis =>
      rw [escape_cons, unescape_escapeByte_append, inductionHypothesis]

theorem ne_separator_of_mem_escape
    {text : Bytes}
    {written : UInt8}
    (member : written ∈ escape text) : written ≠ 0x26 ∧ written ≠ 0x3D := by
  obtain ⟨byte, _, here⟩ := List.mem_flatMap.mp member
  exact ne_separator_of_mem_escapeByte byte written here

/-! ## Pairs -/

/-- The first equals sign of a written pair is the one between its parts. -/
theorem parsePair_escapePair (pair : Bytes × Bytes) :
    parsePair (escapePair pair) = pair := by
  have apart : ∀ written ∈ escape pair.1, decide (written ≠ 0x3D) = true := by
    intro written member
    exact decide_eq_true (ne_separator_of_mem_escape member).2
  rw [parsePair, escapePair, List.takeWhile_append_of_pos apart,
    List.dropWhile_append_of_pos apart, List.takeWhile_cons_of_neg (by decide),
    List.dropWhile_cons_of_neg (by decide), List.append_nil, List.drop_one, List.tail_cons,
    unescape_escape, unescape_escape]

theorem escapePair_ne_nil (pair : Bytes × Bytes) : escapePair pair ≠ [] := by
  rw [escapePair]
  exact List.append_ne_nil_of_right_ne_nil _ (List.cons_ne_nil _ _)

theorem ampersand_notMem_escapePair (pair : Bytes × Bytes) : 0x26 ∉ escapePair pair := by
  intro member
  rw [escapePair, List.mem_append, List.mem_cons] at member
  rcases member with inName | equals | inValue
  · exact (ne_separator_of_mem_escape inName).1 rfl
  · exact absurd equals (by decide)
  · exact (ne_separator_of_mem_escape inValue).1 rfl

/-- Names and values of any bytes survive being written and parsed. -/
theorem parse_serialize (pairs : List (Bytes × Bytes)) : parse (serialize pairs) = pairs := by
  by_cases empty : pairs = []
  · subst empty
    decide
  · have pieces : (serialize pairs).splitOn 0x26 = pairs.map escapePair := by
      apply List.splitOn_intercalate
      · intro piece member
        obtain ⟨pair, _, rfl⟩ := List.mem_map.mp member
        exact ampersand_notMem_escapePair pair
      · simpa using empty
    have kept : (pairs.map escapePair).filter (· ≠ []) = pairs.map escapePair := by
      apply List.filter_eq_self.mpr
      intro piece member
      obtain ⟨pair, _, rfl⟩ := List.mem_map.mp member
      exact decide_eq_true (escapePair_ne_nil pair)
    rw [parse, pieces, kept, List.map_map]
    calc
      pairs.map (parsePair ∘ escapePair) = pairs.map id :=
        List.map_congr_left fun pair _ => parsePair_escapePair pair
      _ = pairs := List.map_id pairs

end FormUrlencoded
