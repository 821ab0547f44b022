import Chronolog.Search.Candidates
import Chronolog.Server.Contents

/-!
# What a search answers

The answer of a search on a running engine in terms of the items its tiers were
built from.
-/

namespace Chronolog
namespace Server

open Pipeline Search Storage

variable {unicode : UnicodeTables}

/-! ## The scan of the persistent index -/

section Scan

variable {items : List Arrival}

theorem hasPrefix_logKey (term : Bytes) (id : LogRecordID) :
    hasPrefix (indexPrefix term) id.logKey = false := rfl

/-- A scan yields index keys of stored items. -/
theorem mem_scan_storeOf {term key : Bytes} :
    key ∈ (storeOf unicode ∅ items).scan (hasPrefix (indexPrefix term)) ↔
      ∃ arrival ∈ items, ∃ token ∈ arrival.tokens unicode,
        key = (recordID arrival).indexKey token ∧
          hasPrefix (indexPrefix term) key = true := by
  rw [OrderedStore.mem_scan, mem_storeOf]
  constructor
  · rintro ⟨impossible | ⟨arrival, member, value, put⟩, selected⟩
    · simp at impossible
    · rcases mem_puts.mp put with ⟨rfl, _⟩ | ⟨⟨token, tokenMember, rfl⟩, _⟩
      · simp [hasPrefix_logKey] at selected
      · exact ⟨arrival, member, token, tokenMember, rfl, selected⟩
  · rintro ⟨arrival, member, token, tokenMember, rfl, selected⟩
    exact ⟨Or.inr ⟨arrival, member, [],
      indexKey_mem_puts.mpr ⟨rfl, tokenMember, rfl⟩⟩, selected⟩

/-- The identities a scan yields. -/
theorem mem_scannedIDs {term : Bytes} {id : LogRecordID} :
    id ∈ ((storeOf unicode ∅ items).scan
        (hasPrefix (indexPrefix term))).filterMap keyID ↔
      ∃ arrival ∈ items, ∃ token ∈ arrival.tokens unicode,
        recordID arrival = id ∧
          hasPrefix (indexPrefix term) (id.indexKey token) = true := by
  rw [List.mem_filterMap]
  constructor
  · rintro ⟨key, scanned, decoded⟩
    obtain ⟨arrival, member, token, tokenMember, rfl, selected⟩ :=
      mem_scan_storeOf.mp scanned
    rw [keyID_indexKey _ (zero_notMem_of_mem_tokenize tokenMember),
      Option.some.injEq] at decoded
    subst decoded
    exact ⟨arrival, member, token, tokenMember, rfl, selected⟩
  · rintro ⟨arrival, member, token, tokenMember, rfl, selected⟩
    exact ⟨_, mem_scan_storeOf.mpr ⟨arrival, member, token, tokenMember, rfl, selected⟩,
      keyID_indexKey _ (zero_notMem_of_mem_tokenize tokenMember)⟩

/-- The identities come out in the order of their stored timestamps. -/
theorem scannedIDs_sorted
    (unicode : UnicodeTables)
    (items : List Arrival)
    (term : Bytes) :
    (((storeOf unicode ∅ items).scan
      (hasPrefix (indexPrefix term))).filterMap keyID).Pairwise
        fun left right => left.ts.toUInt64.toNat ≤ right.ts.toUInt64.toNat := by
  rw [List.pairwise_filterMap]
  refine (OrderedStore.scan_sorted _ _).imp_of_mem ?_
  intro leftKey rightKey leftScanned rightScanned less left leftDecoded right
    rightDecoded
  obtain ⟨first, _, token, tokenMember, rfl, selected⟩ :=
    mem_scan_storeOf.mp leftScanned
  obtain ⟨second, _, other, otherMember, rfl, otherSelected⟩ :=
    mem_scan_storeOf.mp rightScanned
  have nulFree := zero_notMem_of_mem_tokenize tokenMember
  have otherNulFree := zero_notMem_of_mem_tokenize otherMember
  rw [keyID_indexKey _ nulFree, Option.some.injEq] at leftDecoded
  rw [keyID_indexKey _ otherNulFree, Option.some.injEq] at rightDecoded
  subst leftDecoded rightDecoded
  rw [eq_beforeNul_of_hasPrefix nulFree selected,
    eq_beforeNul_of_hasPrefix otherNulFree otherSelected, LogRecordID.indexKey,
    LogRecordID.indexKey, compare_encodeIndexKey] at less
  apply Nat.le_of_not_lt
  intro greater
  rw [Nat.compare_eq_gt.mpr greater] at less
  exact Ordering.noConfusion less

/-- For a NUL-free term the identities are those of the items with that token. -/
theorem mem_scannedIDs_of_nulFree
    {term : Bytes}
    {id : LogRecordID}
    (nulFree : (0x00 : UInt8) ∉ term) :
    id ∈ ((storeOf unicode ∅ items).scan
        (hasPrefix (indexPrefix term))).filterMap keyID ↔
      ∃ arrival ∈ items, term ∈ arrival.tokens unicode ∧ recordID arrival = id := by
  rw [mem_scannedIDs]
  constructor
  · rintro ⟨arrival, member, token, tokenMember, same, selected⟩
    rw [LogRecordID.indexKey, hasPrefix_indexPrefix _ _ nulFree
      (zero_notMem_of_mem_tokenize tokenMember)] at selected
    subst selected
    exact ⟨arrival, member, tokenMember, same⟩
  · rintro ⟨arrival, member, tokenMember, same⟩
    exact ⟨arrival, member, term, tokenMember, same,
      (hasPrefix_indexPrefix _ _ nulFree nulFree).mpr rfl⟩

/-- Which indexed identities the scan reaches: all of them, unless a record
past the window hides the negative timestamps, which are stored last. -/
theorem mem_scanIDs_storeOf
    {request : SearchRequest}
    {id : LogRecordID}
    (nulFree : (0x00 : UInt8) ∉ request.term) :
    id ∈ scanIDs request ((storeOf unicode ∅ items).scan
        (hasPrefix (indexPrefix request.term))) ↔
      request.Covers id.ts ∧
        (∃ arrival ∈ items,
          request.term ∈ arrival.tokens unicode ∧ recordID arrival = id) ∧
        (0 ≤ id.ts ∨ ∀ other ∈ items, request.term ∈ other.tokens unicode →
          0 ≤ other.now → other.now ≤ request.endNano) := by
  rw [mem_scanIDs]
  apply and_congr_right
  intro covers
  have sorted := scannedIDs_sorted unicode items request.term
  have indexedIff : ∀ other, other ∈ ((storeOf unicode ∅ items).scan
      (hasPrefix (indexPrefix request.term))).filterMap keyID ↔
        ∃ arrival ∈ items,
          request.term ∈ arrival.tokens unicode ∧ recordID arrival = other :=
    fun _ => mem_scannedIDs_of_nulFree nulFree
  constructor
  · rintro ⟨before, after, split, unblocked⟩
    have indexed := (indexedIff id).mp (by rw [split]; simp)
    refine ⟨indexed, ?_⟩
    by_cases sign : 0 ≤ id.ts
    · exact Or.inl sign
    · right
      intro other member token nonnegative
      have present := (indexedIff _).mpr ⟨other, member, token, rfl⟩
      have below := toUInt64_lt_of_sign nonnegative (Int64.not_le.mp sign)
      rw [split] at present sorted
      rw [List.mem_append, List.mem_cons] at present
      rcases present with earlier | rfl | later
      · exact unblocked _ earlier
      · exact absurd nonnegative sign
      · have order := (List.pairwise_cons.mp
          (List.pairwise_append.mp sorted).2.1).1 _ later
        exact absurd below (Nat.not_lt.mpr order)
  · rintro ⟨indexed, reachable⟩
    obtain ⟨before, after, split⟩ :=
      List.append_of_mem ((indexedIff id).mpr indexed)
    refine ⟨before, after, split, fun earlier member => ?_⟩
    rw [split] at sorted
    have order := (List.pairwise_append.mp sorted).2.2 _ member _
      List.mem_cons_self
    by_cases sign : id.ts < 0 → earlier.ts < 0
    · exact Int64.le_trans (le_of_toUInt64_le sign order) covers.2
    · rw [Classical.not_imp, Int64.not_lt] at sign
      have present := (indexedIff earlier).mp (by rw [split]; simp [member])
      obtain ⟨other, otherMember, token, rfl⟩ := present
      exact (reachable.resolve_left (Int64.not_le.mpr sign.1)) other otherMember
        token sign.2

end Scan

end Server
end Chronolog
