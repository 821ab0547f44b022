import Chronolog.Storage.ScanOrder

/-!
# Key order is scan order

The delimiter sorts below every byte of a NUL-free term, so a term that is a
prefix of another comes first, with all its keys.  Non-negative timestamps keep
their order when they are stored as unsigned numbers.  Together, comparing two
index keys byte by byte compares term, timestamp and stream ID in turn.
-/

namespace Chronolog
namespace Storage

open BigEndian

/-- Two delimited terms are compared before what follows the delimiters. -/
theorem compare_append_zero
    {left right : Bytes}
    (leftRest rightRest : Bytes)
    (nulFree : (0x00 : UInt8) ∉ left)
    (otherNulFree : (0x00 : UInt8) ∉ right) :
    compare (left ++ 0x00 :: leftRest) (right ++ 0x00 :: rightRest) =
      (compare left right).then (compare leftRest rightRest) := by
  have below : ∀ {byte : UInt8}, byte ≠ 0x00 → compare 0x00 byte = .lt := by
    intro byte nonzero
    rw [compare_toNat, Nat.compare_eq_lt]
    exact Nat.pos_of_ne_zero fun zero => nonzero (UInt8.toNat_inj.mp zero)
  induction left generalizing right with
  | nil =>
      cases right with
      | nil =>
          rw [List.nil_append, List.nil_append, compare_cons,
            Std.ReflOrd.compare_self, Std.ReflOrd.compare_self]
      | cons byte right =>
          rw [List.mem_cons, not_or] at otherNulFree
          rw [List.nil_append, List.cons_append, compare_cons,
            below (Ne.symm otherNulFree.1)]
          rfl
  | cons leftByte left inductionHypothesis =>
      rw [List.mem_cons, not_or] at nulFree
      cases right with
      | nil =>
          have above : compare leftByte 0x00 = .gt := by
            rw [Std.OrientedOrd.eq_swap (a := leftByte), below (Ne.symm nulFree.1)]
            rfl
          rw [List.nil_append, List.cons_append, compare_cons, above]
          rfl
      | cons rightByte right =>
          rw [List.mem_cons, not_or] at otherNulFree
          rw [List.cons_append, List.cons_append, compare_cons, compare_cons,
            inductionHypothesis nulFree.2 otherNulFree.2, Ordering.then_assoc]

/-- Non-negative timestamps are stored in their own order. -/
theorem compare_toUInt64_of_nonneg
    {left right : Int64}
    (leftSign : 0 ≤ left)
    (rightSign : 0 ≤ right) :
    compare left.toUInt64.toNat right.toUInt64.toNat = compare left right := by
  have stored : ∀ {nano : Int64}, 0 ≤ nano →
      nano.toInt = (nano.toUInt64.toNat : Int) := by
    intro nano sign
    have bound := nano.toUInt64.toNat_lt
    rw [Int64.le_iff_toInt_le, Int64.toInt_zero, toInt_eq_toUInt64] at sign
    rw [toInt_eq_toUInt64]
    split at sign <;> split <;> omega
  simp only [compare, compareOfLessAndEq, Int64.lt_iff_toInt_lt, ← Int64.toInt_inj,
    stored leftSign, stored rightSign, Nat.cast_lt, Nat.cast_inj]

theorem compare_toNat_uint64 (left right : UInt64) :
    compare left.toNat right.toNat = compare left right := by
  simp only [compare, compareOfLessAndEq, UInt64.lt_iff_toNat_lt, UInt64.toNat_inj]

/-- Index keys are ordered by term, then by what follows the delimiter. -/
theorem compare_encodeIndexKey_terms
    {term other : Bytes}
    (timestampNano otherNano : Int64)
    (streamID otherID : UInt64)
    (nulFree : (0x00 : UInt8) ∉ term)
    (otherNulFree : (0x00 : UInt8) ∉ other) :
    compare (encodeIndexKey term timestampNano streamID)
        (encodeIndexKey other otherNano otherID) =
      (compare term other).then
        ((compare timestampNano.toUInt64.toNat otherNano.toUInt64.toNat).then
          (compare streamID otherID)) := by
  rw [encodeIndexKey, encodeIndexKey, compare_cons, Std.ReflOrd.compare_self,
    Ordering.eq_then, compare_append_zero _ _ nulFree otherNulFree,
    compare_append _ _ _ _ (by simp), compare_putUint64, compare_putUint64,
    compare_toNat_uint64 streamID]

/-- A key between two keys of one term is a key of that term. -/
theorem eq_of_between
    {term other : Bytes}
    {lowNano timestampNano highNano : Int64}
    {lowID streamID highID : UInt64}
    (nulFree : (0x00 : UInt8) ∉ term)
    (otherNulFree : (0x00 : UInt8) ∉ other)
    (lower : (compare (encodeIndexKey term lowNano lowID)
      (encodeIndexKey other timestampNano streamID)).isLE = true)
    (upper : (compare (encodeIndexKey other timestampNano streamID)
      (encodeIndexKey term highNano highID)).isLE = true) :
    other = term := by
  rw [compare_encodeIndexKey_terms _ _ _ _ nulFree otherNulFree] at lower
  rw [compare_encodeIndexKey_terms _ _ _ _ otherNulFree nulFree,
    Std.OrientedOrd.eq_swap (a := other)] at upper
  rcases order : compare term other with _ | _ | _
  · rw [order] at upper
    simp at upper
  · exact (Std.LawfulEqOrd.eq_of_compare order).symm
  · rw [order] at lower
    simp at lower

/-- Key order is the order of term, timestamp and stream ID; a scan prefix
selects the keys of its term; these are contiguous and sorted by time. -/
theorem keyOrder_eq_scanOrder
    (term other : Bytes)
    (nulFree : (0x00 : UInt8) ∉ term)
    (otherNulFree : (0x00 : UInt8) ∉ other) :
    (∀ timestampNano otherNano streamID otherID,
        0 ≤ timestampNano → 0 ≤ otherNano →
        compare (encodeIndexKey term timestampNano streamID)
            (encodeIndexKey other otherNano otherID) =
          (compare term other).then
            ((compare timestampNano otherNano).then (compare streamID otherID))) ∧
      (∀ timestampNano streamID,
        hasPrefix (indexPrefix term) (encodeIndexKey other timestampNano streamID) =
          true ↔ other = term) ∧
      (∀ lowNano timestampNano highNano lowID streamID highID,
        (compare (encodeIndexKey term lowNano lowID)
          (encodeIndexKey other timestampNano streamID)).isLE = true →
        (compare (encodeIndexKey other timestampNano streamID)
          (encodeIndexKey term highNano highID)).isLE = true → other = term) ∧
      (∀ timestampNano otherNano streamID otherID,
        0 ≤ timestampNano → 0 ≤ otherNano →
        (compare (encodeIndexKey term timestampNano streamID)
          (encodeIndexKey term otherNano otherID)).isLE = true →
        timestampNano ≤ otherNano) := by
  refine ⟨?_, ?_, ?_, ?_⟩
  · intro timestampNano otherNano streamID otherID sign otherSign
    rw [compare_encodeIndexKey_terms _ _ _ _ nulFree otherNulFree,
      compare_toUInt64_of_nonneg sign otherSign]
  · intro timestampNano streamID
    rw [hasPrefix_indexPrefix _ _ nulFree otherNulFree, eq_comm]
  · intro lowNano timestampNano highNano lowID streamID highID lower upper
    exact eq_of_between nulFree otherNulFree lower upper
  · intro timestampNano otherNano streamID otherID sign otherSign ordered
    rw [compare_encodeIndexKey_terms _ _ _ _ nulFree nulFree,
      Std.ReflOrd.compare_self, Ordering.eq_then,
      compare_toUInt64_of_nonneg sign otherSign] at ordered
    by_contra later
    have reversed : compare timestampNano otherNano = .gt :=
      Std.compare_eq_gt.mpr (Int64.not_le.mp later)
    rw [reversed] at ordered
    simp at ordered

/-- A term, a longer one that continues it, and their keys. -/
theorem keyOrder_eq_scanOrder_continued :
    compare (encodeIndexKey [0x61] 5 1) (encodeIndexKey [0x61, 0x01] 3 0) = .lt ∧
      hasPrefix (indexPrefix [0x61]) (encodeIndexKey [0x61, 0x01] 3 0) = false :=
  have laws := keyOrder_eq_scanOrder [0x61] [0x61, 0x01] (by decide) (by decide)
  ⟨(laws.1 5 3 1 0 (by decide) (by decide)).trans (by decide),
    Bool.eq_false_iff.mpr fun selected =>
      absurd ((laws.2.1 3 0).mp selected) (by decide)⟩

end Storage
end Chronolog
