import Chronolog.Storage.Schema
import Mathlib.Data.List.TakeWhile

/-!
# Scanning the index keys of a term

A scan prefix ends in the NUL that terminates a term.  Among NUL-free terms it
selects the keys of one term, and they come out in the order of their unsigned
timestamps.  A search string with a NUL of its own makes a prefix that reaches
into the binary timestamps, and then fixes their sign.
-/

namespace Chronolog
namespace Storage

open BigEndian

/-! ## Selection and order -/

/-- Whether a key belongs to the scan range of a prefix. -/
def hasPrefix (keyPrefix key : Bytes) : Bool := keyPrefix.isPrefixOf key

/-- Among NUL-free terms, the scan prefix selects exactly the term's keys. -/
theorem hasPrefix_indexPrefix
    {term other : Bytes}
    (timestampNano : Int64)
    (streamID : UInt64)
    (nulFree : (0x00 : UInt8) ∉ term)
    (otherNulFree : (0x00 : UInt8) ∉ other) :
    hasPrefix (indexPrefix term) (encodeIndexKey other timestampNano streamID) =
      true ↔ term = other := by
  rw [hasPrefix, List.isPrefixOf_iff_prefix]
  constructor
  · rintro ⟨rest, equal⟩
    have tails : term ++ 0x00 :: rest = other ++ 0x00 ::
        (putUint64 timestampNano.toUInt64 ++ putUint64 streamID) := by
      simpa [indexPrefix] using (List.cons.inj equal).2
    have positions := congrArg (List.idxOf? 0x00) tails
    rw [idxOf?_append_zero _ nulFree, idxOf?_append_zero _ otherNulFree] at positions
    exact (List.append_inj tails (Option.some.inj positions)).1
  · rintro rfl
    exact ⟨putUint64 timestampNano.toUInt64 ++ putUint64 streamID, by
      simp [indexPrefix, encodeIndexKey]⟩

/-- Keys of one term are ordered by unsigned timestamp, then stream ID. -/
theorem compare_encodeIndexKey
    (term : Bytes)
    (timestampNano otherNano : Int64)
    (streamID otherID : UInt64) :
    compare (encodeIndexKey term timestampNano streamID)
        (encodeIndexKey term otherNano otherID) =
      (compare timestampNano.toUInt64.toNat otherNano.toUInt64.toNat).then
        (compare streamID.toNat otherID.toNat) := by
  have header : ∀ nano id, encodeIndexKey term nano id =
      indexPrefix term ++ (putUint64 nano.toUInt64 ++ putUint64 id) := by
    intro nano id
    simp [indexPrefix, encodeIndexKey]
  rw [header, header, compare_append_left, compare_append _ _ _ _ (by simp),
    compare_putUint64, compare_putUint64]

/-- A signed timestamp in terms of the stored unsigned one. -/
theorem toInt_eq_toUInt64 (timestampNano : Int64) :
    timestampNano.toInt =
      if timestampNano.toUInt64.toNat < 2 ^ 63 then
        (timestampNano.toUInt64.toNat : Int)
      else (timestampNano.toUInt64.toNat : Int) - 2 ^ 64 := by
  rw [← Int64.toNat_toBitVec, ← Int64.toInt_toBitVec,
    BitVec.toInt_eq_toNat_cond]
  split <;> split <;> omega

/-- The stored order is the signed order unless the signs differ. -/
theorem le_of_toUInt64_le
    {earlier later : Int64}
    (sign : later < 0 → earlier < 0)
    (stored : earlier.toUInt64.toNat ≤ later.toUInt64.toNat) :
    earlier ≤ later := by
  simp only [Int64.le_iff_toInt_le, Int64.lt_iff_toInt_lt, Int64.toInt_zero] at *
  have earlierBound := earlier.toUInt64.toNat_lt
  have laterBound := later.toUInt64.toNat_lt
  rw [toInt_eq_toUInt64 later] at sign ⊢
  rw [toInt_eq_toUInt64 earlier] at sign ⊢
  split at sign <;> split at sign <;> simp_all <;> omega

/-- Non-negative timestamps are stored below negative ones. -/
theorem toUInt64_lt_of_sign
    {nonnegative negative : Int64}
    (lower : 0 ≤ nonnegative)
    (upper : negative < 0) :
    nonnegative.toUInt64.toNat < negative.toUInt64.toNat := by
  simp only [Int64.le_iff_toInt_le, Int64.lt_iff_toInt_lt, Int64.toInt_zero] at *
  have bound := nonnegative.toUInt64.toNat_lt
  rw [toInt_eq_toUInt64] at lower upper
  split at lower <;> split at upper <;> omega

/-! ## Scan prefixes that reach into the binary part -/

/-- The bytes of a term before its first NUL. -/
def beforeNul (term : Bytes) : Bytes := term.takeWhile (· != 0x00)

theorem beforeNul_append (term rest : Bytes) :
    beforeNul (term ++ 0x00 :: rest) = beforeNul term := by
  induction term with
  | nil => rfl
  | cons byte term inductionHypothesis =>
      unfold beforeNul at inductionHypothesis ⊢
      rw [List.cons_append, List.takeWhile_cons, List.takeWhile_cons,
        inductionHypothesis]

theorem beforeNul_eq_self
    {term : Bytes}
    (nulFree : (0x00 : UInt8) ∉ term) : beforeNul term = term := by
  apply List.takeWhile_eq_self_iff.mpr
  intro byte member
  rw [bne_iff_ne]
  rintro rfl
  exact nulFree member

/-- A term with a NUL byte continues after the part before it. -/
theorem exists_eq_beforeNul_append
    {term : Bytes}
    (nul : (0x00 : UInt8) ∈ term) :
    ∃ rest, term = beforeNul term ++ 0x00 :: rest := by
  induction term with
  | nil => simp at nul
  | cons byte term inductionHypothesis =>
      by_cases zero : byte = 0x00
      · subst zero
        exact ⟨term, rfl⟩
      · have later : (0x00 : UInt8) ∈ term := by
          rw [List.mem_cons] at nul
          exact nul.resolve_left fun same => zero same.symm
        obtain ⟨rest, equal⟩ := inductionHypothesis later
        refine ⟨rest, ?_⟩
        have kept : beforeNul (byte :: term) = byte :: beforeNul term :=
          List.takeWhile_cons_of_pos (by simpa using zero)
        rw [kept, List.cons_append, ← equal]

/-- What a scan prefix selects, without the common key space byte. -/
theorem exists_rest_of_hasPrefix
    {term token : Bytes}
    {timestampNano : Int64}
    {streamID : UInt64}
    (selected : hasPrefix (indexPrefix term)
      (encodeIndexKey token timestampNano streamID) = true) :
    ∃ rest, term ++ 0x00 :: rest = token ++ 0x00 ::
      (putUint64 timestampNano.toUInt64 ++ putUint64 streamID) := by
  rw [hasPrefix, List.isPrefixOf_iff_prefix] at selected
  obtain ⟨rest, equal⟩ := selected
  exact ⟨rest, by simpa [indexPrefix] using (List.cons.inj equal).2⟩

/-- A scan prefix only selects keys of one NUL-free term: its own part before
the first NUL. -/
theorem eq_beforeNul_of_hasPrefix
    {term token : Bytes}
    {timestampNano : Int64}
    {streamID : UInt64}
    (nulFree : (0x00 : UInt8) ∉ token)
    (selected : hasPrefix (indexPrefix term)
      (encodeIndexKey token timestampNano streamID) = true) :
    token = beforeNul term := by
  obtain ⟨rest, equal⟩ := exists_rest_of_hasPrefix selected
  have scanned := congrArg beforeNul equal
  rwa [beforeNul_append, beforeNul_append, beforeNul_eq_self nulFree, eq_comm]
    at scanned

/-- The first byte of a stored timestamp carries its sign. -/
theorem lt_zero_iff_head
    {timestampNano : Int64}
    {head : UInt8}
    (first : (putUint64 timestampNano.toUInt64).head? = some head) :
    timestampNano < 0 ↔ 128 ≤ head.toNat := by
  have bound := timestampNano.toUInt64.toNat_lt
  have digit : head = UInt8.ofNat (timestampNano.toUInt64.toNat / 256 ^ 7) :=
    (Option.some.inj first).symm
  have small : timestampNano.toUInt64.toNat / 256 ^ 7 < 256 := by omega
  rw [digit, UInt8.toNat_ofNat', Nat.mod_eq_of_lt small, Int64.lt_iff_toInt_lt,
    toInt_eq_toUInt64, Int64.toInt_zero]
  split <;> omega

/-- A scan prefix with a NUL in its term fixes the sign of the timestamps. -/
theorem exists_head_of_hasPrefix
    {term : Bytes}
    (nul : (0x00 : UInt8) ∈ term) :
    ∃ head, ∀ token timestampNano streamID, (0x00 : UInt8) ∉ token →
      hasPrefix (indexPrefix term)
        (encodeIndexKey token timestampNano streamID) = true →
      (putUint64 timestampNano.toUInt64).head? = some head := by
  obtain ⟨inner, split⟩ := exists_eq_beforeNul_append nul
  obtain ⟨head, tail, shape⟩ : ∃ head tail, inner ++ [0x00] = head :: tail :=
    List.exists_cons_of_ne_nil (by simp)
  refine ⟨head, fun token timestampNano streamID nulFree selected => ?_⟩
  obtain ⟨rest, equal⟩ := exists_rest_of_hasPrefix selected
  have whole : term = token ++ 0x00 :: inner := by
    rw [eq_beforeNul_of_hasPrefix nulFree selected]
    exact split
  rw [whole, List.append_assoc, List.cons_append] at equal
  have binary : head :: (tail ++ rest) =
      putUint64 timestampNano.toUInt64 ++ putUint64 streamID := by
    rw [← List.cons_append, ← shape, List.append_assoc]
    exact (List.cons.inj (List.append_cancel_left equal)).2
  have heads := congrArg List.head? binary
  rw [List.head?_cons, List.head?_append_of_ne_nil _ (by simp [putUint64, digits])]
    at heads
  exact heads.symm

end Storage
end Chronolog
