import Chronolog.Server.Ledger

/-!
# What the tiers contain

The database and the memory index in terms of the items they were built from:
which keys are present, which records can be read back, and which postings
exist.
-/

namespace Chronolog
namespace Server

open Pipeline Search Storage

variable {unicode : UnicodeTables}

/-! ## Keys of one item -/

theorem item_logKey (arrival : Arrival) :
    (arrival.item unicode).logKey = (recordID arrival).logKey :=
  arrival.item_logKey unicode

theorem mem_termKeys {arrival : Arrival} {key : Bytes} :
    key ∈ (arrival.item unicode).termKeys ↔
      ∃ term ∈ arrival.tokens unicode, key = (recordID arrival).indexKey term := by
  rw [arrival.item_termKeys unicode, List.mem_map]
  simp only [LogRecordID.indexKey, recordID, eq_comm]

/-- An item puts its message under its record key and nothing under its index
keys. -/
theorem mem_puts {arrival : Arrival} {key value : Bytes} :
    (key, value) ∈ puts unicode arrival ↔
      (key = (recordID arrival).logKey ∧ value = arrival.message) ∨
        ((∃ term ∈ arrival.tokens unicode,
          key = (recordID arrival).indexKey term) ∧ value = []) := by
  rw [puts, List.mem_cons, Prod.mk.injEq, item_logKey, List.mem_map, ← mem_termKeys]
  refine or_congr Iff.rfl ⟨?_, ?_⟩
  · rintro ⟨idxKey, member, equal⟩
    obtain ⟨rfl, rfl⟩ := Prod.mk.inj equal
    exact ⟨member, rfl⟩
  · rintro ⟨member, rfl⟩
    exact ⟨key, member, rfl⟩

/-- A put under a record key carries the message of the item of that record. -/
theorem logKey_mem_puts
    {arrival : Arrival}
    {id : LogRecordID}
    {value : Bytes} :
    (id.logKey, value) ∈ puts unicode arrival ↔
      recordID arrival = id ∧ value = arrival.message := by
  rw [mem_puts, LogRecordID.logKey_inj, @eq_comm _ id]
  apply or_iff_left
  rintro ⟨⟨term, _, equal⟩, _⟩
  exact LogRecordID.logKey_ne_indexKey _ _ _ equal

theorem indexKey_mem_puts
    {arrival : Arrival}
    {id : LogRecordID}
    {term value : Bytes} :
    (id.indexKey term, value) ∈ puts unicode arrival ↔
      recordID arrival = id ∧ term ∈ arrival.tokens unicode ∧ value = [] := by
  rw [mem_puts]
  constructor
  · rintro (⟨equal, _⟩ | ⟨⟨other, member, equal⟩, empty⟩)
    · exact absurd equal.symm (LogRecordID.logKey_ne_indexKey _ _ _)
    · obtain ⟨rfl, same⟩ := LogRecordID.indexKey_inj.mp equal
      exact ⟨same.symm, member, empty⟩
  · rintro ⟨rfl, member, empty⟩
    exact Or.inr ⟨⟨term, member, rfl⟩, empty⟩

/-! ## The database -/

section Database

variable {base : DB} {items : List Arrival}

theorem mem_storeOf {key : Bytes} :
    key ∈ storeOf unicode base items ↔
      key ∈ base ∨ ∃ arrival ∈ items, ∃ value, (key, value) ∈ puts unicode arrival := by
  rw [storeOf, OrderedStore.mem_write]
  refine or_congr Iff.rfl ?_
  simp only [List.mem_map, List.mem_flatMap, Prod.exists]
  constructor
  · rintro ⟨_, value, ⟨arrival, member, put⟩, rfl⟩
    exact ⟨arrival, member, value, put⟩
  · rintro ⟨arrival, member, value, put⟩
    exact ⟨key, value, ⟨arrival, member, put⟩, rfl⟩

/-- What is read back was put by an item, unless it was there before. -/
theorem exists_put_of_storeOf
    {key value : Bytes}
    (stored : (storeOf unicode base items)[key]? = some value) :
    base[key]? = some value ∨
      ∃ arrival ∈ items, (key, value) ∈ puts unicode arrival := by
  refine (OrderedStore.getElem?_of_write stored).imp id fun put => ?_
  exact List.mem_flatMap.mp put

/-- The message of an item is read back unless an item of the same identity
and another message was stored too. -/
theorem storeOf_logKey
    {arrival : Arrival}
    (member : arrival ∈ items)
    (single : ∀ other ∈ items, recordID other = recordID arrival →
      other.message = arrival.message) :
    (storeOf unicode base items)[(recordID arrival).logKey]? =
      some arrival.message := by
  apply OrderedStore.getElem?_write_of_mem
  · rw [List.mem_map]
    exact ⟨(_, arrival.message),
      List.mem_flatMap.mpr ⟨arrival, member, logKey_mem_puts.mpr ⟨rfl, rfl⟩⟩, rfl⟩
  · intro value put
    obtain ⟨other, otherMember, otherPut⟩ := List.mem_flatMap.mp put
    obtain ⟨same, rfl⟩ := logKey_mem_puts.mp otherPut
    exact single other otherMember same

theorem logKey_mem_storeOf {id : LogRecordID} :
    id.logKey ∈ storeOf unicode ∅ items ↔
      ∃ arrival ∈ items, recordID arrival = id := by
  rw [mem_storeOf]
  simp [logKey_mem_puts]

theorem indexKey_mem_storeOf {id : LogRecordID} {term : Bytes} :
    id.indexKey term ∈ storeOf unicode ∅ items ↔
      ∃ arrival ∈ items, recordID arrival = id ∧ term ∈ arrival.tokens unicode := by
  rw [mem_storeOf]
  simp [indexKey_mem_puts]

/-- A record read back is the message of a stored item of that identity. -/
theorem exists_item_of_record
    {id : LogRecordID}
    {data : Bytes}
    (stored : (storeOf unicode ∅ items)[id.logKey]? = some data) :
    ∃ arrival ∈ items, recordID arrival = id ∧ data = arrival.message := by
  rcases exists_put_of_storeOf stored with impossible | ⟨arrival, member, put⟩
  · simp at impossible
  · exact ⟨arrival, member, logKey_mem_puts.mp put⟩

end Database

/-! ## The memory index -/

theorem mem_postings_registerKey
    {memIndex : MemoryIndex}
    {idxKey term : Bytes}
    {entry : PostingEntry} :
    entry ∈ (registerKey memIndex idxKey).postings term ↔
      entry ∈ memIndex.postings term ∨
        ∃ ts streamID, decodeIndexKey idxKey = some (term, ts, streamID) ∧
          entry = { timestampNano := ts, streamID, offset := 0, length := 0 } := by
  unfold registerKey
  split
  next other ts streamID decoded =>
    rw [MemoryIndex.postings_add, decoded]
    by_cases same : other = term
    · rw [if_pos same, List.mem_append, List.mem_singleton]
      simp [same, and_comm]
    · rw [if_neg same]
      simp [same]
  next decoded => simp [decoded]

theorem mem_postings_registerAll
    {idxKeys : List Bytes}
    {term : Bytes}
    {entry : PostingEntry} :
    entry ∈ (registerAll idxKeys).postings term ↔
      ∃ idxKey ∈ idxKeys, ∃ ts streamID,
        decodeIndexKey idxKey = some (term, ts, streamID) ∧
          entry = { timestampNano := ts, streamID, offset := 0, length := 0 } := by
  induction idxKeys using List.reverseRecOn with
  | nil => simp [registerAll]
  | append_singleton idxKeys idxKey inductionHypothesis =>
      have last : registerAll (idxKeys ++ [idxKey]) =
          registerKey (registerAll idxKeys) idxKey := by
        rw [registerAll, List.foldl_append]
        rfl
      rw [last, mem_postings_registerKey, inductionHypothesis]
      simp only [List.mem_append, List.mem_singleton, or_and_right, exists_or,
        exists_eq_left]

/-- The index keys of an item decode to its tokens and its identity. -/
theorem decodeIndexKey_termKey
    {arrival : Arrival}
    {term : Bytes}
    (token : term ∈ arrival.tokens unicode) :
    decodeIndexKey ((recordID arrival).indexKey term) =
      some (term, arrival.now, arrival.streamID) :=
  LogRecordID.decodeIndexKey_indexKey _ (zero_notMem_of_mem_tokenize token)

/-! ## The tiers of a running engine -/

namespace Represents

variable {base : DB} {engine : Engine} {ledger : Ledger}

/-- Every posting belongs to a registered item that contains the term. -/
theorem exists_item_of_posting
    (represents : Represents unicode base engine ledger)
    {term : Bytes}
    {entry : PostingEntry}
    (posted : entry ∈ engine.memIndex.postings term) :
    ∃ arrival ∈ ledger.live ++ ledger.current.toList,
      term ∈ arrival.tokens unicode ∧ recordID arrival = entry.id := by
  obtain ⟨handled, agrees, _, memIndex⟩ := represents.inHand
  rw [memIndex] at posted
  obtain ⟨idxKey, member, ts, streamID, decoded, rfl⟩ :=
    mem_postings_registerAll.mp posted
  have source : ∃ arrival ∈ ledger.live ++ ledger.current.toList,
      idxKey ∈ (arrival.item unicode).termKeys := by
    rcases List.mem_append.mp member with registered | inHand
    · obtain ⟨arrival, live, key⟩ := List.mem_flatMap.mp registered
      exact ⟨arrival, List.mem_append_left _ live, key⟩
    · cases point : engine.point with
      | registering remaining =>
          rw [point] at agrees
          obtain ⟨arrival, current, termKeys⟩ := agrees
          refine ⟨arrival, List.mem_append_right _ (by simp [current]), ?_⟩
          rw [termKeys]
          exact List.mem_append_left _ inHand
      | select =>
          rw [point] at agrees
          simp [agrees.2] at inHand
      | stopped =>
          rw [point] at agrees
          simp [agrees.2] at inHand
  obtain ⟨arrival, present, key⟩ := source
  obtain ⟨token, tokenMember, rfl⟩ := mem_termKeys.mp key
  rw [decodeIndexKey_termKey tokenMember, Option.some.injEq] at decoded
  obtain ⟨rfl, rfl, rfl⟩ := decoded
  exact ⟨arrival, present, tokenMember, rfl⟩

/-- Every token of a registered item has a posting. -/
theorem exists_posting_of_live
    (represents : Represents unicode base engine ledger)
    {arrival : Arrival}
    (live : arrival ∈ ledger.live)
    {term : Bytes}
    (token : term ∈ arrival.tokens unicode) :
    ∃ entry ∈ engine.memIndex.postings term, entry.id = recordID arrival := by
  obtain ⟨handled, _, _, memIndex⟩ := represents.inHand
  refine ⟨⟨arrival.now, arrival.streamID, 0, 0⟩, ?_, rfl⟩
  rw [memIndex, mem_postings_registerAll]
  refine ⟨(recordID arrival).indexKey term, List.mem_append_left _ ?_, _, _,
    decodeIndexKey_termKey token, rfl⟩
  exact List.mem_flatMap.mpr ⟨arrival, live, mem_termKeys.mpr ⟨term, token, rfl⟩⟩

end Represents

end Server
end Chronolog
