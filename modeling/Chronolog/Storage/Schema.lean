import Chronolog.Foundation.BigEndian
import Chronolog.Foundation.OrderedStore

/-!
# Key schema of the persistent store

Raw log records live under `0x01 | streamID | timestamp` and inverted entries
under `0x02 | term | 0x00 | timestamp | streamID`, with every integer in
big-endian order.  A Go string is its byte string, a signed timestamp is stored
through its unsigned reinterpretation, and the LevelDB database is an ordered
store under the bytewise comparer.
-/

namespace Chronolog
namespace Storage

open BigEndian

/-- The LevelDB database: byte strings under byte strings, in key order. -/
abbrev DB := OrderedStore Bytes Bytes

/-- Key space of raw log records. -/
def prefixLogRecord : UInt8 := 0x01

/-- Key space of inverted index entries. -/
def prefixIndexTerm : UInt8 := 0x02

/-- `binary.BigEndian.PutUint64` into eight fresh bytes. -/
def putUint64 (number : UInt64) : Bytes := digits 8 number.toNat

/-- `binary.BigEndian.Uint64` of eight bytes. -/
def uint64 (bytes : Bytes) : UInt64 := UInt64.ofNat (value bytes)

/-- The Go slice expression `bytes[low:high]`. -/
def slice (bytes : Bytes) (low high : Nat) : Bytes :=
  (bytes.take high).drop low

/-- formats: `0x01 | [StreamID: 8B] | [TimestampNano: 8B]` -/
def encodeLogKey (streamID : UInt64) (timestampNano : Int64) : Bytes :=
  prefixLogRecord :: (putUint64 streamID ++ putUint64 timestampNano.toUInt64)

/-- Extracts stream ID and timestamp of a raw record key. -/
def decodeLogKey (key : Bytes) : Option (UInt64 × Int64) :=
  if key.length ≠ 17 ∨ key.head? ≠ some prefixLogRecord then none
  else some (uint64 (slice key 1 9), (uint64 (slice key 9 17)).toInt64)

/-- formats: `0x02 | [Term] | 0x00 | [TimestampNano: 8B] | [StreamID: 8B]` -/
def encodeIndexKey
    (term : Bytes) (timestampNano : Int64) (streamID : UInt64) : Bytes :=
  prefixIndexTerm ::
    (term ++ 0x00 :: (putUint64 timestampNano.toUInt64 ++ putUint64 streamID))

/-- Parses term, timestamp and stream ID of an inverted index key. -/
def decodeIndexKey (key : Bytes) : Option (Bytes × Int64 × UInt64) :=
  if key.length < 18 ∨ key.head? ≠ some prefixIndexTerm then none
  else
    match key.tail.idxOf? 0x00 with
    | none => none
    | some delimIdx =>
        let actualDelim := 1 + delimIdx
        let term := slice key 1 actualDelim
        let offset := actualDelim + 1
        if key.length - offset ≠ 16 then none
        else
          some (term, (uint64 (slice key offset (offset + 8))).toInt64,
            uint64 (slice key (offset + 8) (offset + 16)))

/-- Writes a raw record key into the first 17 bytes of a buffer. -/
def encodeLogKeyToBuf
    (dst : Bytes) (streamID : UInt64) (timestampNano : Int64) : Bytes :=
  prefixLogRecord ::
    (putUint64 streamID ++ putUint64 timestampNano.toUInt64) ++ dst.drop 17

/-- The scan prefix of one term: `0x02 | [Term] | 0x00`. -/
def indexPrefix (term : Bytes) : Bytes :=
  prefixIndexTerm :: (term ++ [0x00])

theorem toNat_lt_pow (number : UInt64) : number.toNat < 256 ^ 8 :=
  Nat.lt_of_lt_of_le number.toNat_lt (by decide)

@[simp] theorem length_putUint64 (number : UInt64) :
    (putUint64 number).length = 8 :=
  length_digits 8 number.toNat

@[simp] theorem uint64_putUint64 (number : UInt64) :
    uint64 (putUint64 number) = number := by
  rw [uint64, putUint64, value_digits, Nat.mod_eq_of_lt (toNat_lt_pow number)]
  exact UInt64.ofNat_toNat

theorem putUint64_inj {left right : UInt64}
    (equal : putUint64 left = putUint64 right) : left = right := by
  rw [← uint64_putUint64 left, equal, uint64_putUint64]

theorem compare_putUint64 (left right : UInt64) :
    compare (putUint64 left) (putUint64 right) =
      compare left.toNat right.toNat := by
  rw [putUint64, putUint64, compare_digits, Nat.mod_eq_of_lt (toNat_lt_pow left),
    Nat.mod_eq_of_lt (toNat_lt_pow right)]

theorem toUInt64_inj {left right : Int64}
    (equal : left.toUInt64 = right.toUInt64) : left = right := by
  rw [← Int64.toInt64_toUInt64 left, equal, Int64.toInt64_toUInt64]

theorem encodeLogKeyToBuf_eq
    (dst : Bytes)
    (streamID : UInt64)
    (timestampNano : Int64)
    (size : dst.length = 17) :
    encodeLogKeyToBuf dst streamID timestampNano =
      encodeLogKey streamID timestampNano := by
  rw [encodeLogKeyToBuf, List.drop_of_length_le (by omega), List.append_nil,
    encodeLogKey]

/-- Raw record keys are collision-free. -/
theorem encodeLogKey_inj
    {streamID otherID : UInt64}
    {timestampNano otherNano : Int64} :
    encodeLogKey streamID timestampNano = encodeLogKey otherID otherNano ↔
      streamID = otherID ∧ timestampNano = otherNano := by
  constructor
  · intro equal
    have parts := List.append_inj (List.cons.inj equal).2 (by simp)
    exact ⟨putUint64_inj parts.1, toUInt64_inj (putUint64_inj parts.2)⟩
  · rintro ⟨rfl, rfl⟩
    rfl

/-- Index keys are collision-free, whatever bytes the terms contain. -/
theorem encodeIndexKey_inj
    {term otherTerm : Bytes}
    {timestampNano otherNano : Int64}
    {streamID otherID : UInt64} :
    encodeIndexKey term timestampNano streamID =
        encodeIndexKey otherTerm otherNano otherID ↔
      term = otherTerm ∧ timestampNano = otherNano ∧ streamID = otherID := by
  constructor
  · intro equal
    have tails := (List.cons.inj equal).2
    have lengths := congrArg List.length tails
    simp only [List.length_append, List.length_cons, length_putUint64] at lengths
    have parts := List.append_inj tails (by omega)
    have binary := List.append_inj (List.cons.inj parts.2).2 (by simp)
    exact ⟨parts.1, toUInt64_inj (putUint64_inj binary.1),
      putUint64_inj binary.2⟩
  · rintro ⟨rfl, rfl, rfl⟩
    rfl

/-- The two key spaces are disjoint. -/
theorem encodeLogKey_ne_encodeIndexKey
    (logID : UInt64)
    (logNano : Int64)
    (term : Bytes)
    (timestampNano : Int64)
    (streamID : UInt64) :
    encodeLogKey logID logNano ≠ encodeIndexKey term timestampNano streamID := by
  intro equal
  exact absurd (List.cons.inj equal).1 (by decide)

theorem idxOf?_append_zero {term : Bytes} (rest : Bytes)
    (nulFree : (0x00 : UInt8) ∉ term) :
    (term ++ 0x00 :: rest).idxOf? 0x00 = some term.length := by
  induction term with
  | nil => simp [List.idxOf?_cons]
  | cons byte term inductionHypothesis =>
      rw [List.mem_cons, not_or] at nulFree
      rw [List.cons_append, List.idxOf?_cons, inductionHypothesis nulFree.2,
        if_neg fun same => nulFree.1 (beq_iff_eq.mp same).symm]
      rfl

/-- Slicing a concatenation at the bounds of its middle part. -/
theorem slice_append
    (before middle after : Bytes)
    {low high : Nat}
    (lowEq : low = before.length)
    (highEq : high = low + middle.length) :
    slice (before ++ (middle ++ after)) low high = middle := by
  rw [slice, List.drop_take, lowEq, List.drop_left, highEq, lowEq,
    Nat.add_sub_cancel_left, List.take_left]

/-- Decoding an index key of a NUL-free term gives the triple back. -/
theorem decodeIndexKey_encodeIndexKey
    {term : Bytes}
    (timestampNano : Int64)
    (streamID : UInt64)
    (nulFree : (0x00 : UInt8) ∉ term) :
    decodeIndexKey (encodeIndexKey term timestampNano streamID) =
      some (term, timestampNano, streamID) := by
  have lengths : (encodeIndexKey term timestampNano streamID).length =
      term.length + 18 := by
    simp [encodeIndexKey]
  have delimiter : (encodeIndexKey term timestampNano streamID).tail.idxOf? 0x00 =
      some term.length :=
    idxOf?_append_zero _ nulFree
  have termSlice : slice (encodeIndexKey term timestampNano streamID) 1
      (1 + term.length) = term :=
    slice_append [prefixIndexTerm] term _ rfl rfl
  have header : encodeIndexKey term timestampNano streamID =
      (prefixIndexTerm :: (term ++ [0x00])) ++
        (putUint64 timestampNano.toUInt64 ++ putUint64 streamID) := by
    simp [encodeIndexKey]
  have timestampSlice : slice (encodeIndexKey term timestampNano streamID)
      (1 + term.length + 1) (1 + term.length + 1 + 8) =
        putUint64 timestampNano.toUInt64 := by
    rw [header]
    exact slice_append _ _ _ (by simp; omega) (by simp)
  have streamSlice : slice (encodeIndexKey term timestampNano streamID)
      (1 + term.length + 1 + 8) (1 + term.length + 1 + 16) =
        putUint64 streamID := by
    rw [header, ← List.append_assoc, ← List.append_nil (putUint64 streamID)]
    exact slice_append _ _ _ (by simp; omega) (by simp)
  rw [decodeIndexKey, if_neg (by
    rw [lengths]
    simp [encodeIndexKey]), delimiter]
  simp only [termSlice, timestampSlice, streamSlice, uint64_putUint64,
    Int64.toInt64_toUInt64, lengths]
  rw [if_neg (by omega)]

end Storage
end Chronolog
