import Chronolog.Server.Retrieval

/-!
# The order of an answer

A search lists the registered records of a term in the order of registration,
then the others in key order, and stops at its limit.  A matching record is
among the results exactly when a tier gets to it and fewer records than the
limit come before it in this order.
-/

namespace Chronolog
namespace Server

open Pipeline Search Storage

namespace Engine

/-- A stored record in the window whose message has the term among its
tokens. -/
def Matches (unicode : UnicodeTables) (engine : Engine) (request : SearchRequest)
    (id : LogRecordID) : Prop :=
  request.Covers id.ts ∧
    ∃ data, engine.db[id.logKey]? = some data ∧ request.term ∈ tokenize unicode data

/-- A matching record with the greatest timestamp of the window. -/
def Newest (unicode : UnicodeTables) (engine : Engine) (request : SearchRequest)
    (id : LogRecordID) : Prop :=
  engine.Matches unicode request id ∧
    ∀ other, engine.Matches unicode request other → other.ts ≤ id.ts

/-- The records of the window that either tier offers and the database holds. -/
def retrievable (engine : Engine) (request : SearchRequest) : List LogRecordID :=
  (engine.matching request).filter fun id => id.logKey ∈ engine.db

/-- The registered records of a term, in the order of registration. -/
def registered (engine : Engine) (term : Bytes) : List LogRecordID :=
  (engine.memIndex.postings term).map PostingEntry.id

/-- Whether one record of a term comes before another: registered records first
and in the order of registration, the others in key order. -/
def Ahead (engine : Engine) (term : Bytes) (other id : LogRecordID) : Prop :=
  (engine.registered term).idxOf other < (engine.registered term).idxOf id ∨
    (engine.registered term).idxOf other = (engine.registered term).idxOf id ∧
      compare (other.indexKey term) (id.indexKey term) = .lt

instance (engine : Engine) (term : Bytes) : DecidableRel (engine.Ahead term) :=
  fun _ _ => inferInstanceAs (Decidable (_ ∨ _))

theorem Ahead.asymm
    {engine : Engine}
    {term : Bytes}
    (left right : LogRecordID)
    (ahead : engine.Ahead term left right) : ¬ engine.Ahead term right left := by
  rintro (before | ⟨same, less⟩)
  · rcases ahead with earlier | ⟨equal, _⟩ <;> omega
  · rcases ahead with earlier | ⟨_, greater⟩
    · omega
    · exact Std.OrientedCmp.not_lt_of_lt greater less

end Engine

variable {unicode : UnicodeTables}

/-! ## Candidates in order -/

/-- The index keys of one term come out in key order. -/
theorem scannedIDs_keys_sorted
    (unicode : UnicodeTables)
    (items : List Arrival)
    {term : Bytes}
    (nulFree : (0x00 : UInt8) ∉ term) :
    (((storeOf unicode ∅ items).scan
      (hasPrefix (indexPrefix term))).filterMap keyID).Pairwise
        fun left right => compare (left.indexKey term) (right.indexKey term) = .lt := by
  have keyOf : ∀ key ∈ (storeOf unicode ∅ items).scan (hasPrefix (indexPrefix term)),
      ∀ id, keyID key = some id → key = id.indexKey term := by
    intro key scanned id decoded
    obtain ⟨arrival, _, token, tokenMember, rfl, selected⟩ := mem_scan_storeOf.mp scanned
    have tokenNulFree := zero_notMem_of_mem_tokenize tokenMember
    rw [keyID_indexKey _ tokenNulFree, Option.some.injEq] at decoded
    rw [LogRecordID.indexKey, hasPrefix_indexPrefix _ _ nulFree tokenNulFree] at selected
    rw [selected, decoded]
  rw [List.pairwise_filterMap]
  refine (OrderedStore.scan_sorted _ _).imp_of_mem ?_
  intro leftKey rightKey leftScanned rightScanned less left leftDecoded right rightDecoded
  rwa [keyOf _ leftScanned _ leftDecoded, keyOf _ rightScanned _ rightDecoded] at less

/-- The records the scan gets to are some of those it runs over, in order. -/
theorem scanIDs_sublist (request : SearchRequest) (keys : List Bytes) :
    (scanIDs request keys).Sublist (keys.filterMap keyID) := by
  rw [scanIDs_eq]
  exact List.filter_sublist.trans (List.takeWhile_sublist _)

/-- The matches of the memory index are the registered records in the window. -/
theorem memMatches_ids (engine : Engine) (request : SearchRequest) :
    (memMatches (some engine.memIndex) request).map PostingEntry.id =
      (engine.registered request.term).filter fun id => request.Covers id.ts := by
  rw [memMatches, MemoryIndex.query_eq_filter, Engine.registered, List.filter_map]
  congr 1
  apply List.filter_congr
  intro entry _
  exact (Bool.decide_and _ _).symm

/-- Without their repetitions, the candidates come in the order of the answer. -/
theorem candidates_sorted
    {engine : Engine}
    {ledger : Ledger}
    {request : SearchRequest}
    (represents : Represents unicode ∅ engine ledger)
    (nulFree : (0x00 : UInt8) ∉ request.term) :
    (candidates (some engine.memIndex) (Reader.ofDB engine.db) request).eraseDups.Pairwise
      (engine.Ahead request.term) := by
  have unregistered : ∀ id ∈ (scanIDs request (engine.db.scan
      (hasPrefix (indexPrefix request.term)))).removeAll
        ((engine.registered request.term).filter fun id => request.Covers id.ts),
      (engine.registered request.term).idxOf id = (engine.registered request.term).length := by
    intro id member
    rw [List.removeAll, List.mem_filter] at member
    have covers := (mem_scanIDs.mp member.1).1
    rw [List.idxOf_eq_length_iff]
    intro posted
    simp [posted, covers] at member
  rw [candidates, memMatches_ids, List.eraseDups_append, List.pairwise_append]
  refine ⟨?_, ?_, ?_⟩
  · rw [FirstOccurrence.eraseDups_filter]
    exact ((FirstOccurrence.eraseDups_pairwise_idxOf _).filter _).imp fun less => Or.inl less
  · have sorted := scannedIDs_keys_sorted unicode ledger.stored nulFree
    rw [← represents.db] at sorted
    refine (sorted.sublist ((FirstOccurrence.eraseDups_sublist _).trans
      (List.filter_sublist.trans (scanIDs_sublist _ _)))).imp_of_mem ?_
    intro left right leftMember rightMember less
    right
    rw [unregistered left (List.mem_eraseDups.mp leftMember),
      unregistered right (List.mem_eraseDups.mp rightMember)]
    exact ⟨rfl, less⟩
  · intro left leftMember right rightMember
    left
    rw [unregistered right (List.mem_eraseDups.mp rightMember)]
    exact List.idxOf_lt_length_of_mem
      (List.mem_of_mem_filter (List.mem_eraseDups.mp leftMember))

/-- The answer lists the candidates that have a record, up to the limit. -/
theorem search_ids (engine : Engine) (request : SearchRequest) :
    (engine.search request).results.map Prod.fst =
      ((candidates (some engine.memIndex) (Reader.ofDB engine.db) request).eraseDups.filter
        fun id => id.logKey ∈ engine.db).take request.effectiveLimit := by
  rw [Engine.search, searchTerm_results, List.map_take, found_ids_ofDB]

/-- What comes before a candidate is a candidate. -/
theorem mem_candidates_of_ahead
    {engine : Engine}
    {ledger : Ledger}
    {request : SearchRequest}
    {other id : LogRecordID}
    (represents : Represents unicode ∅ engine ledger)
    (nulFree : (0x00 : UInt8) ∉ request.term)
    (candidate : id ∈ candidates (some engine.memIndex) (Reader.ofDB engine.db) request)
    (matched : other ∈ engine.matching request)
    (ahead : engine.Ahead request.term other id) :
    other ∈ candidates (some engine.memIndex) (Reader.ofDB engine.db) request := by
  rw [Engine.matching, matchingIDs, List.mem_eraseDups, memMatches_ids, List.mem_append,
    List.mem_filter, decide_eq_true_eq] at matched
  rw [candidates, memMatches_ids, List.mem_append, List.mem_filter, decide_eq_true_eq]
    at candidate ⊢
  by_cases posted : other ∈ engine.registered request.term
  · left
    exact ⟨posted, matched.elim And.right fun indexed => (mem_indexedIDs.mp indexed).1⟩
  · -- Neither record is registered, so both are in the key range of the term.
    right
    have last := List.idxOf_eq_length_iff.mpr posted
    have bound := (engine.registered request.term).idxOf_le_length (a := id)
    obtain ⟨same, less⟩ := ahead.resolve_left (by omega)
    have unposted : id ∉ engine.registered request.term :=
      List.idxOf_eq_length_iff.mp (by omega)
    have indexed := matched.resolve_left fun found => posted found.1
    have scanned := candidate.resolve_left fun found => unposted found.1
    change id ∈ scanIDs request (engine.db.scan _) at scanned
    change other ∈ scanIDs request (engine.db.scan _)
    rw [represents.db] at indexed scanned ⊢
    obtain ⟨covers, key, present, selected, decoded⟩ := mem_indexedIDs.mp indexed
    have source := (mem_scannedIDs_of_nulFree nulFree).mp
      (List.mem_filterMap.mpr ⟨key, (OrderedStore.mem_scan _ _ _).mpr ⟨present, selected⟩,
        decoded⟩)
    obtain ⟨_, _, reachable⟩ := (mem_scanIDs_storeOf nulFree).mp scanned
    refine (mem_scanIDs_storeOf nulFree).mpr ⟨covers, source, ?_⟩
    apply reachable.imp_left
    intro nonnegative
    by_contra negative
    have below := toUInt64_lt_of_sign nonnegative (Int64.not_le.mp negative)
    rw [LogRecordID.indexKey, LogRecordID.indexKey, compare_encodeIndexKey,
      Nat.compare_eq_gt.mpr below] at less
    exact Ordering.noConfusion less

/-- Before a candidate, the records offered and the candidates are the same. -/
theorem length_ahead
    {engine : Engine}
    {ledger : Ledger}
    {request : SearchRequest}
    {id : LogRecordID}
    (represents : Represents unicode ∅ engine ledger)
    (nulFree : (0x00 : UInt8) ∉ request.term)
    (candidate : id ∈ candidates (some engine.memIndex) (Reader.ofDB engine.db) request) :
    (((candidates (some engine.memIndex) (Reader.ofDB engine.db) request).eraseDups.filter
        fun other => other.logKey ∈ engine.db).filter
          fun other => engine.Ahead request.term other id).length =
      ((engine.retrievable request).filter fun other =>
        engine.Ahead request.term other id).length := by
  apply List.Perm.length_eq
  refine (List.perm_ext_iff_of_nodup ?_ ?_).mpr ?_
  · exact ((FirstOccurrence.nodup_eraseDups _).filter _).filter _
  · exact ((FirstOccurrence.nodup_eraseDups _).filter _).filter _
  · intro other
    simp only [Engine.retrievable, List.mem_filter, decide_eq_true_eq, List.mem_eraseDups]
    refine and_congr_left fun ahead => and_congr_left fun _ => ⟨?_, fun matched => ?_⟩
    · exact fun member => candidates_subset _ _ _ member
    · exact mem_candidates_of_ahead represents nulFree candidate matched ahead

/-- The record of a match is stored and indexed under the term. -/
theorem Engine.Matches.indexed
    {engine : Engine}
    {ledger : Ledger}
    {request : SearchRequest}
    {id : LogRecordID}
    (represents : Represents unicode ∅ engine ledger)
    (matched : engine.Matches unicode request id) :
    (0x00 : UInt8) ∉ request.term ∧ id.logKey ∈ engine.db ∧
      ∃ arrival ∈ ledger.stored,
        request.term ∈ arrival.tokens unicode ∧ recordID arrival = id := by
  obtain ⟨covers, data, record, token⟩ := matched
  refine ⟨zero_notMem_of_mem_tokenize token,
    (OrderedStore.mem_iff_getElem? _ _).mpr ⟨data, record⟩, ?_⟩
  rw [represents.db] at record
  obtain ⟨arrival, stored, same, rfl⟩ := exists_item_of_record record
  exact ⟨arrival, stored, token, same⟩

/-- A matching record is returned exactly when a tier gets to it and fewer
records than the limit come before it. -/
theorem match_returned_iff
    {engine : Engine}
    {ledger : Ledger}
    {request : SearchRequest}
    {id : LogRecordID}
    (represents : Represents unicode ∅ engine ledger)
    (matched : engine.Matches unicode request id) :
    id ∈ (engine.search request).results.map Prod.fst ↔
      (id ∈ engine.registered request.term ∨ ScanReaches engine.db request id.ts) ∧
        ((engine.retrievable request).filter fun other =>
          engine.Ahead request.term other id).length < request.effectiveLimit := by
  obtain ⟨nulFree, present, source⟩ := matched.indexed represents
  have candidateIff : id ∈ candidates (some engine.memIndex) (Reader.ofDB engine.db) request ↔
      id ∈ engine.registered request.term ∨ ScanReaches engine.db request id.ts := by
    rw [scanReaches_iff represents, candidates, memMatches_ids, List.mem_append,
      List.mem_filter, decide_eq_true_eq, and_iff_left matched.1]
    refine or_congr Iff.rfl ?_
    change id ∈ scanIDs request (engine.db.scan _) ↔ _
    rw [represents.db, mem_scanIDs_storeOf nulFree]
    exact ⟨fun scanned => scanned.2.2, fun reachable => ⟨matched.1, source, reachable⟩⟩
  rw [search_ids, ← candidateIff]
  by_cases candidate : id ∈ candidates (some engine.memIndex) (Reader.ofDB engine.db) request
  · rw [and_iff_right candidate, ← length_ahead represents nulFree candidate]
    refine FirstOccurrence.mem_take_iff_of_pairwise
      ((candidates_sorted represents nulFree).filter _) Engine.Ahead.asymm ?_
    rw [List.mem_filter, List.mem_eraseDups]
    exact ⟨candidate, decide_eq_true present⟩
  · refine iff_of_false (fun returned => candidate ?_) fun both => candidate both.1
    exact List.mem_eraseDups.mp (List.mem_of_mem_filter (List.mem_of_mem_take returned))

/-! ## The newest record -/

/-- In every reachable state, the newest matching record is among the results
exactly when a tier gets to it and fewer retrievable records than the limit
come before it: those registered earlier, or for an unregistered record all
registered ones and those of smaller keys. -/
theorem newest_returned_iff
    (unicode : UnicodeTables)
    (events : List LoopEvent)
    (engine : Engine)
    (reached : Engine.Reaches unicode events engine)
    (request : SearchRequest)
    (id : LogRecordID)
    (newest : engine.Newest unicode request id) :
    id ∈ (engine.search request).results.map Prod.fst ↔
      (id ∈ engine.registered request.term ∨ ScanReaches engine.db request id.ts) ∧
        ((engine.retrievable request).filter fun other =>
          engine.Ahead request.term other id).length < request.effectiveLimit :=
  match_returned_iff (represents_ofEvents reached) newest.1

/-- A matching record is that of a received item. -/
theorem Engine.Matches.received
    {events : List LoopEvent}
    {engine : Engine}
    {request : SearchRequest}
    {id : LogRecordID}
    (reached : Engine.Reaches unicode events engine)
    (matched : engine.Matches unicode request id) :
    ∃ arrival ∈ received events, recordID arrival = id := by
  obtain ⟨_, _, arrival, stored, _, same⟩ := matched.indexed (represents_ofEvents reached)
  refine ⟨arrival, ?_, same⟩
  rw [← Ledger.received_ofEvents unicode]
  exact (Ledger.ofEvents unicode events).stored_subset stored

/-- A later item with the same token. -/
def laterHelloItem : Arrival where
  now := 8
  packet := .ofString "<34>hello"

/-- Two items with one token, written in one batch. -/
def twoHelloRun : List LoopEvent :=
  iteration helloItem ++ iteration laterHelloItem ++ [.tick true]

/-- The second of the two items is the newest match. -/
theorem newest_twoHelloRun
    {engine : Engine}
    {request : SearchRequest}
    (reached : Engine.Reaches asciiTables twoHelloRun engine)
    (term : request.term = (searchFor "hello").term)
    (covers : request.Covers laterHelloItem.now)
    (stored : engine.db[(recordID laterHelloItem).logKey]? = some laterHelloItem.message) :
    engine.Newest asciiTables request (recordID laterHelloItem) := by
  refine ⟨⟨covers, _, stored, ?_⟩, fun other matched => ?_⟩
  · rw [term]
    decide +kernel
  · obtain ⟨arrival, member, rfl⟩ := matched.received reached
    have items : received twoHelloRun = [helloItem, laterHelloItem] := rfl
    rw [items, List.mem_cons, List.mem_singleton] at member
    rcases member with rfl | rfl
    · decide
    · exact Int64.le_refl _

theorem newest_returned_iff_twoHelloRun :
    ∃ engine, Engine.Reaches asciiTables twoHelloRun engine ∧
      (recordID laterHelloItem ∈
          (engine.search (searchFor "hello")).results.map Prod.fst ↔
        (recordID laterHelloItem ∈ engine.registered (searchFor "hello").term ∨
            ScanReaches engine.db (searchFor "hello") (recordID laterHelloItem).ts) ∧
          ((engine.retrievable (searchFor "hello")).filter fun other =>
            engine.Ahead (searchFor "hello").term other
              (recordID laterHelloItem)).length <
            (searchFor "hello").effectiveLimit) := by
  obtain ⟨engine, reached, stored⟩ := (Option.any_eq_true _ _).mp
    (by decide +kernel : (Transition.run (Engine.step asciiTables) (Engine.start ∅)
      twoHelloRun).any (fun engine =>
        engine.db[(recordID laterHelloItem).logKey]? = some laterHelloItem.message) = true)
  exact ⟨engine, reached, newest_returned_iff asciiTables twoHelloRun engine reached
    (searchFor "hello") (recordID laterHelloItem)
    (newest_twoHelloRun reached rfl (by decide +kernel) (of_decide_eq_true stored))⟩

/-- A limit of one shows the oldest match and hides the newest. -/
theorem newest_hidden_by_limit :
    ¬ ∀ events engine, Engine.Reaches asciiTables events engine →
      engine.point = .select → engine.batch = [] →
      ∀ request : SearchRequest, 1 ≤ request.limit →
      ∀ id, engine.Newest asciiTables request id →
        id ∈ (engine.search request).results.map Prod.fst := by
  intro claim
  obtain ⟨engine, reached, facts⟩ := (Option.any_eq_true _ _).mp
    (by decide +kernel : (Transition.run (Engine.step asciiTables) (Engine.start ∅)
      twoHelloRun).any (fun engine =>
        decide ((engine.point = .select ∧ engine.batch = []) ∧
          engine.db[(recordID laterHelloItem).logKey]? = some laterHelloItem.message ∧
          recordID laterHelloItem ∉ (engine.search
            { searchFor "hello" with limit := 1 }).results.map Prod.fst)) = true)
  obtain ⟨⟨idle, flushed⟩, stored, hidden⟩ := of_decide_eq_true facts
  exact hidden (claim _ engine reached idle flushed _ (by decide) _
    (newest_twoHelloRun reached rfl (by decide +kernel) stored))

end Server
end Chronolog
