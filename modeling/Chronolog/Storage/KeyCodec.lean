import Chronolog.Storage.Schema

/-!
# The key codecs are exact inverses

A decoder accepts exactly the encodings of its own key space.  The term of an
index key ends at the first NUL, so a term with a NUL of its own leaves a tail
of the wrong length and is rejected; an accepted key is cut into the key space
byte, the term, the delimiter and two numerals, which are written back as they
were read.
-/

namespace Chronolog
namespace Storage

open BigEndian

/-! ## Cutting a byte string into slices -/

/-- Writing back the number read from eight bytes restores them. -/
theorem putUint64_uint64
    {bytes : Bytes}
    (size : bytes.length = 8) : putUint64 (uint64 bytes) = bytes := by
  have bound : value bytes < 2 ^ 64 := by
    have small := value_lt bytes
    rw [size] at small
    exact small
  have read : (uint64 bytes).toNat = value bytes :=
    UInt64.toNat_ofNat_of_lt' bound
  rw [putUint64, read, ← size, digits_value]

theorem length_slice
    {bytes : Bytes}
    {low high : Nat}
    (inside : high ≤ bytes.length) : (slice bytes low high).length = high - low := by
  rw [slice, List.length_drop, List.length_take, Nat.min_eq_left inside]

/-- Two slices that meet are one slice. -/
theorem slice_append_slice
    (bytes : Bytes)
    {low middle high : Nat}
    (lower : low ≤ middle)
    (upper : middle ≤ high) :
    slice bytes low middle ++ slice bytes middle high = slice bytes low high := by
  have shorter : bytes.take middle = (bytes.take high).take middle := by
    rw [List.take_take, Nat.min_eq_left upper]
  rw [slice, slice, slice, shorter]
  generalize bytes.take high = whole
  rw [List.drop_take]
  obtain ⟨count, rfl⟩ := Nat.exists_eq_add_of_le lower
  rw [Nat.add_sub_cancel_left, ← List.drop_drop, List.take_append_drop]

theorem slice_to_end
    (bytes : Bytes)
    {low high : Nat}
    (last : high = bytes.length) : slice bytes low high = bytes.drop low := by
  rw [slice, last, List.take_length]

/-- The bytes before the first NUL, and the NUL. -/
theorem exists_of_idxOf?_eq_some
    {bytes : Bytes}
    {delimIdx : Nat}
    (delimiter : bytes.idxOf? 0x00 = some delimIdx) :
    ∃ term rest, bytes = term ++ 0x00 :: rest ∧ term.length = delimIdx ∧
      (0x00 : UInt8) ∉ term := by
  induction bytes generalizing delimIdx with
  | nil => simp at delimiter
  | cons byte bytes inductionHypothesis =>
      rw [List.idxOf?_cons] at delimiter
      by_cases zero : byte = 0x00
      · rw [if_pos (beq_iff_eq.mpr zero)] at delimiter
        exact ⟨[], bytes, by rw [zero]; rfl, Option.some.inj delimiter, by simp⟩
      · rw [if_neg (by simpa using zero), Option.map_eq_some_iff] at delimiter
        obtain ⟨index, found, rfl⟩ := delimiter
        obtain ⟨term, rest, rfl, rfl, nulFree⟩ := inductionHypothesis found
        refine ⟨byte :: term, rest, rfl, rfl, ?_⟩
        rw [List.mem_cons, not_or]
        exact ⟨fun same => zero same.symm, nulFree⟩

/-! ## Raw record keys -/

theorem decodeLogKey_encodeLogKey
    (streamID : UInt64)
    (timestampNano : Int64) :
    decodeLogKey (encodeLogKey streamID timestampNano) =
      some (streamID, timestampNano) := by
  have streamSlice : slice (encodeLogKey streamID timestampNano) 1 9 =
      putUint64 streamID :=
    slice_append [prefixLogRecord] (putUint64 streamID) _ rfl (by simp)
  have timestampSlice : slice (encodeLogKey streamID timestampNano) 9 17 =
      putUint64 timestampNano.toUInt64 := by
    rw [encodeLogKey, ← List.cons_append,
      ← List.append_nil (putUint64 timestampNano.toUInt64)]
    exact slice_append _ _ [] (by simp) (by simp)
  rw [decodeLogKey, if_neg (by simp [encodeLogKey]), streamSlice, timestampSlice,
    uint64_putUint64, uint64_putUint64, Int64.toInt64_toUInt64]

/-- An accepted raw record key is the encoding of what was decoded. -/
theorem encodeLogKey_of_decodeLogKey
    {key : Bytes}
    {streamID : UInt64}
    {timestampNano : Int64}
    (decoded : decodeLogKey key = some (streamID, timestampNano)) :
    encodeLogKey streamID timestampNano = key := by
  rw [decodeLogKey] at decoded
  split at decoded
  next => simp at decoded
  next accepted =>
    simp only [not_or, ne_eq, not_not] at accepted
    obtain ⟨size, first⟩ := accepted
    obtain ⟨rfl, rfl⟩ := Prod.mk.inj (Option.some.inj decoded)
    rw [encodeLogKey, UInt64.toUInt64_toInt64,
      putUint64_uint64 (length_slice (by omega)),
      putUint64_uint64 (length_slice (by omega)),
      slice_append_slice _ (by omega) (by omega), slice_to_end _ size.symm]
    obtain ⟨rest, rfl⟩ := List.head?_eq_some_iff.mp first
    rfl

/-! ## Index keys -/

/-- A term with a NUL byte encodes to a key that is rejected. -/
theorem decodeIndexKey_encodeIndexKey_of_nul
    {term : Bytes}
    (timestampNano : Int64)
    (streamID : UInt64)
    (nul : (0x00 : UInt8) ∈ term) :
    decodeIndexKey (encodeIndexKey term timestampNano streamID) = none := by
  obtain ⟨before, inner, rfl, nulFree⟩ := List.eq_append_cons_of_mem nul
  have length : (encodeIndexKey (before ++ 0x00 :: inner) timestampNano
      streamID).length = before.length + inner.length + 19 := by
    simp only [encodeIndexKey, List.length_cons, List.length_append,
      length_putUint64]
    omega
  have delimiter : (encodeIndexKey (before ++ 0x00 :: inner) timestampNano
      streamID).tail.idxOf? 0x00 = some before.length := by
    rw [encodeIndexKey, List.tail_cons, List.append_assoc]
    exact idxOf?_append_zero _ nulFree
  rw [decodeIndexKey, if_neg (by rw [length]; simp [encodeIndexKey]), delimiter]
  dsimp only
  -- what follows the first NUL is longer than the two numerals
  rw [if_pos (by omega)]

/-- An accepted index key is the encoding of what was decoded. -/
theorem encodeIndexKey_of_decodeIndexKey
    {key term : Bytes}
    {timestampNano : Int64}
    {streamID : UInt64}
    (decoded : decodeIndexKey key = some (term, timestampNano, streamID)) :
    encodeIndexKey term timestampNano streamID = key := by
  rw [decodeIndexKey] at decoded
  split at decoded
  next => simp at decoded
  next accepted =>
    simp only [not_or, Nat.not_lt, ne_eq, not_not] at accepted
    obtain ⟨tail, rfl⟩ := List.head?_eq_some_iff.mp accepted.2
    split at decoded
    next => simp at decoded
    next delimIdx delimiter =>
      obtain ⟨before, binary, rfl, rfl, _⟩ := exists_of_idxOf?_eq_some delimiter
      dsimp only at decoded
      split at decoded
      next => simp at decoded
      next size =>
        rw [not_not] at size
        rw [Option.some.injEq, Prod.mk.injEq, Prod.mk.injEq] at decoded
        obtain ⟨rfl, rfl, rfl⟩ := decoded
        have termSlice : slice (prefixIndexTerm :: (before ++ 0x00 :: binary)) 1
            (1 + before.length) = before :=
          slice_append [prefixIndexTerm] before _ rfl rfl
        have afterDelim : (prefixIndexTerm :: (before ++ 0x00 :: binary)).drop
            (1 + before.length + 1) = binary := by
          rw [List.append_cons, ← List.cons_append]
          exact List.drop_left' (by simp; omega)
        rw [encodeIndexKey, termSlice, UInt64.toUInt64_toInt64,
          putUint64_uint64 (by rw [length_slice] <;> omega),
          putUint64_uint64 (by rw [length_slice] <;> omega),
          slice_append_slice _ (by omega) (by omega), slice_to_end _ (by omega),
          afterDelim]

/-! ## The laws together -/

/-- Both decoders are partial inverses of their encoders in both directions,
the scratch buffer receives the same bytes, and the key spaces are disjoint. -/
theorem keyCodecs_exact
    (term key dst : Bytes)
    (timestampNano : Int64)
    (streamID : UInt64) :
    decodeIndexKey (encodeIndexKey term timestampNano streamID) =
        (if (0x00 : UInt8) ∈ term then none
          else some (term, timestampNano, streamID)) ∧
      (∀ decoded, decodeIndexKey key = some decoded →
        encodeIndexKey decoded.1 decoded.2.1 decoded.2.2 = key) ∧
      decodeLogKey (encodeLogKey streamID timestampNano) =
        some (streamID, timestampNano) ∧
      (∀ decoded, decodeLogKey key = some decoded →
        encodeLogKey decoded.1 decoded.2 = key) ∧
      (17 ≤ dst.length →
        (encodeLogKeyToBuf dst streamID timestampNano).take 17 =
            encodeLogKey streamID timestampNano ∧
          (encodeLogKeyToBuf dst streamID timestampNano).drop 17 = dst.drop 17) ∧
      (decodeIndexKey key = none ∨ decodeLogKey key = none) := by
  have written : encodeLogKeyToBuf dst streamID timestampNano =
      encodeLogKey streamID timestampNano ++ dst.drop 17 := rfl
  have size : (encodeLogKey streamID timestampNano).length = 17 := by
    simp [encodeLogKey]
  refine ⟨?_, fun _ => encodeIndexKey_of_decodeIndexKey,
    decodeLogKey_encodeLogKey _ _, fun _ => encodeLogKey_of_decodeLogKey,
    fun _ => ⟨?_, ?_⟩, ?_⟩
  · split
    next nul => exact decodeIndexKey_encodeIndexKey_of_nul _ _ nul
    next nulFree => exact decodeIndexKey_encodeIndexKey _ _ nulFree
  · rw [written, List.take_left' size]
  · rw [written, List.drop_left' size]
  · rcases index : decodeIndexKey key with _ | entry
    · exact Or.inl rfl
    · rcases log : decodeLogKey key with _ | id
      · exact Or.inr rfl
      · exact absurd ((encodeLogKey_of_decodeLogKey log).trans
          (encodeIndexKey_of_decodeIndexKey index).symm)
          (encodeLogKey_ne_encodeIndexKey _ _ _ _ _)

/-- The laws at a term with a NUL, at a key with a NUL inside its timestamp, at
a raw record key and at a buffer of twenty bytes. -/
theorem keyCodecs_exact_nulTerm :
    decodeIndexKey (encodeIndexKey [0x61, 0x00] (-1) 7) = none ∧
      encodeIndexKey [0x61] 256 7 =
        [2, 0x61, 0, 0, 0, 0, 0, 0, 0, 1, 0, 0, 0, 0, 0, 0, 0, 0, 7] ∧
      encodeLogKey 7 256 = [1, 0, 0, 0, 0, 0, 0, 0, 7, 0, 0, 0, 0, 0, 0, 1, 0] ∧
      (encodeLogKeyToBuf (List.replicate 20 9) 7 256).drop 17 = [9, 9, 9] :=
  ⟨(keyCodecs_exact [0x61, 0x00] [] [] (-1) 7).1,
    (keyCodecs_exact [] [2, 0x61, 0, 0, 0, 0, 0, 0, 0, 1, 0, 0, 0, 0, 0, 0, 0, 0, 7]
      [] 0 0).2.1 ([0x61], 256, 7) (by decide),
    (keyCodecs_exact [] [1, 0, 0, 0, 0, 0, 0, 0, 7, 0, 0, 0, 0, 0, 0, 1, 0]
      [] 0 0).2.2.2.1 (7, 256) (by decide),
    ((keyCodecs_exact [] [] (List.replicate 20 9) 256 7).2.2.2.2.1 (by decide)).2⟩

end Storage
end Chronolog
