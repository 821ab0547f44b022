import Chronolog.Server.MemoryTier
import Chronolog.Storage.KeyOrder

/-!
# The persistent scan

A search without a memory index, as the command line runs it.  While no
timestamp is negative, leaving the scan at the first key past the window loses
nothing, and the answer consists of the earliest matches in ascending order.
-/

namespace Chronolog
namespace Server

open Pipeline Search Storage

/-- One pair of timestamp and stream ID comes before another. -/
def Precedes (left right : LogRecordID) : Prop :=
  left.ts < right.ts ∨ left.ts = right.ts ∧ left.streamID < right.streamID

/-- All pairs in the window that have an index entry for the term, in ascending
order and each once. -/
structure AscendingMatches (db : DB) (request : SearchRequest)
    (ids : List LogRecordID) : Prop where
  ascending : ids.Pairwise Precedes
  complete : ∀ id, id ∈ ids ↔
    id.indexKey request.term ∈ db ∧ request.Covers id.ts

theorem Precedes.asymm
    {left right : LogRecordID}
    (before : Precedes left right) : ¬ Precedes right left := by
  intro after
  unfold Precedes at before after
  simp only [Int64.lt_iff_toInt_lt, UInt64.lt_iff_toNat_lt, ← Int64.toInt_inj]
    at before after
  omega

/-- The matches determine their list. -/
theorem AscendingMatches.unique
    {db : DB}
    {request : SearchRequest}
    {ids others : List LogRecordID}
    (first : AscendingMatches db request ids)
    (second : AscendingMatches db request others) : ids = others := by
  have distinct : ∀ {list : List LogRecordID}, list.Pairwise Precedes →
      list.Nodup := by
    intro list ascending
    apply ascending.imp
    rintro left _ before rfl
    exact before.asymm before
  have members : ids.Perm others := by
    rw [List.perm_ext_iff_of_nodup (distinct first.ascending) (distinct second.ascending)]
    intro id
    rw [first.complete, second.complete]
  exact members.eq_of_pairwise (fun _ _ _ _ before after => absurd after before.asymm)
    first.ascending second.ascending

theorem AscendingMatches.eraseDups
    {db : DB}
    {request : SearchRequest}
    {ids : List LogRecordID}
    (ascends : AscendingMatches db request ids) : ids.eraseDups = ids := by
  have once : AscendingMatches db request ids.eraseDups := by
    refine ⟨ascends.ascending.sublist (FirstOccurrence.eraseDups_sublist ids), ?_⟩
    intro id
    rw [List.mem_eraseDups, ascends.complete]
  exact once.unique ascends

/-- Index keys of one term with non-negative timestamps are in the order of the
pairs. -/
theorem precedes_of_indexKey_lt
    {term : Bytes}
    {left right : LogRecordID}
    (nulFree : (0x00 : UInt8) ∉ term)
    (leftSign : 0 ≤ left.ts)
    (rightSign : 0 ≤ right.ts)
    (less : compare (left.indexKey term) (right.indexKey term) = .lt) :
    Precedes left right := by
  rw [LogRecordID.indexKey, LogRecordID.indexKey,
    compare_encodeIndexKey_terms _ _ _ _ nulFree nulFree, Std.ReflOrd.compare_self,
    Ordering.eq_then, compare_toUInt64_of_nonneg leftSign rightSign,
    Ordering.then_eq_lt, Std.compare_eq_lt, Std.compare_eq_lt,
    Std.LawfulEqOrd.compare_eq_iff_eq] at less
  exact less

variable {unicode : UnicodeTables}

/-- Without negative timestamps, the scan gets to all matches, in ascending
order. -/
theorem ascendingMatches_scanIDs
    {items : List Arrival}
    {request : SearchRequest}
    (nulFree : (0x00 : UInt8) ∉ request.term)
    (nonnegative : ∀ id : LogRecordID,
      id.indexKey request.term ∈ storeOf unicode ∅ items → 0 ≤ id.ts) :
    AscendingMatches (storeOf unicode ∅ items) request
      (scanIDs request
        ((storeOf unicode ∅ items).scan (hasPrefix (indexPrefix request.term)))) := by
  have reached : ∀ id, id ∈ scanIDs request
      ((storeOf unicode ∅ items).scan (hasPrefix (indexPrefix request.term))) ↔
        id.indexKey request.term ∈ storeOf unicode ∅ items ∧ request.Covers id.ts := by
    intro id
    have indexed : id.indexKey request.term ∈ storeOf unicode ∅ items ↔
        ∃ arrival ∈ items,
          request.term ∈ arrival.tokens unicode ∧ recordID arrival = id := by
      rw [indexKey_mem_storeOf]
      simp only [and_comm]
    rw [mem_scanIDs_storeOf nulFree, ← indexed]
    constructor
    · rintro ⟨covers, present, _⟩
      exact ⟨present, covers⟩
    · rintro ⟨present, covers⟩
      exact ⟨covers, present, Or.inl (nonnegative id present)⟩
  refine ⟨?_, reached⟩
  refine ((scannedIDs_keys_sorted unicode items nulFree).sublist
    (scanIDs_sublist _ _)).imp_of_mem ?_
  intro left right leftMember rightMember less
  exact precedes_of_indexKey_lt nulFree
    (nonnegative left ((reached left).mp leftMember).1)
    (nonnegative right ((reached right).mp rightMember).1) less

/-- In every state the flush loop reaches, the search without a memory index
answers with the stored values of the first matches, as many as the limit
admits. -/
theorem searchPersistent_earliest
    (unicode : UnicodeTables)
    (events : List LoopEvent)
    (engine : Engine)
    (reached : Engine.Reaches unicode events engine)
    (nonnegative : ∀ (id : LogRecordID) (token : Bytes),
      id.indexKey token ∈ engine.db → 0 ≤ id.ts)
    (request : SearchRequest)
    (nulFree : (0x00 : UInt8) ∉ request.term) :
    ∃ ids, AscendingMatches engine.db request ids ∧
      (engine.searchPersistent request).results.map (Prod.map id some) =
        (ids.take request.effectiveLimit).map (fun id => (id, engine.db[id.logKey]?)) ∧
      (engine.searchPersistent request).err = none := by
  have represents := represents_ofEvents reached
  have stored := represents.db
  generalize (Ledger.ofEvents unicode events).stored = items at stored
  have nonnegativeTerm : ∀ id : LogRecordID,
      id.indexKey request.term ∈ storeOf unicode ∅ items → 0 ≤ id.ts := by
    intro id present
    rw [← stored] at present
    exact nonnegative id request.term present
  have ascends := ascendingMatches_scanIDs nulFree nonnegativeTerm
  rw [← stored] at ascends
  refine ⟨_, ascends, ?_, searchTerm_err_ofDB none engine.db request⟩
  have recorded : ∀ id ∈ scanIDs request
      (engine.db.scan (hasPrefix (indexPrefix request.term))), id.logKey ∈ engine.db := by
    intro id member
    have indexed := ((ascends.complete id).mp member).1
    rw [stored, indexKey_mem_storeOf] at indexed
    obtain ⟨arrival, present, same, _⟩ := indexed
    rw [stored, logKey_mem_storeOf]
    exact ⟨arrival, present, same⟩
  change ((searchTerm none (Reader.ofDB engine.db) request).results.map _) = _
  rw [searchTerm_results]
  change (((found (Reader.ofDB engine.db) (scanIDs request
    (engine.db.scan (hasPrefix (indexPrefix request.term))))).take _).map _) = _
  rw [found_of_stored recorded, ascends.eraseDups, ← List.map_take, List.map_map]
  apply List.map_congr_left
  intro id member
  obtain ⟨data, record⟩ := (OrderedStore.mem_iff_getElem? _ _).mp
    (recorded id (List.mem_of_mem_take member))
  rw [Function.comp_apply, Prod.map_apply, Std.TreeMap.getD_eq_getD_getElem?, record]
  rfl

theorem searchPersistent_earliest_hello :
    ∃ engine, Engine.Reaches asciiTables (iteration helloItem ++ [.tick true]) engine ∧
      ∃ ids, AscendingMatches engine.db (searchFor "hello") ids ∧
        (engine.searchPersistent (searchFor "hello")).results.map (Prod.map id some) =
          (ids.take 10).map (fun id => (id, engine.db[id.logKey]?)) ∧
        (engine.searchPersistent (searchFor "hello")).err = none := by
  obtain ⟨engine, reached⟩ := Option.isSome_iff_exists.mp
    (by decide +kernel : (Transition.run (Engine.step asciiTables) (Engine.start ∅)
      (iteration helloItem ++ [.tick true])).isSome = true)
  refine ⟨engine, reached, searchPersistent_earliest asciiTables _ engine reached
    ?_ (searchFor "hello") (by decide +kernel)⟩
  intro id token present
  rw [(represents_ofEvents reached).db, indexKey_mem_storeOf] at present
  obtain ⟨arrival, stored, rfl, _⟩ := present
  have only := Ledger.stored_subset _ stored
  rw [Ledger.received_ofEvents] at only
  obtain rfl : arrival = helloItem := List.mem_singleton.mp only
  decide +kernel

end Server
end Chronolog
