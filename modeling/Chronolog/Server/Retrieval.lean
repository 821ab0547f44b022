import Chronolog.Server.Answers

/-!
# What can be retrieved

Three questions about a search on a running engine: whether a stored line is
found by its words, whether a registered line is found before it is stored, and
whether everything found contains the term.
-/

namespace Chronolog
namespace Server

open Pipeline Search Storage

/-- The answer of the engine to a request. -/
def Engine.search (engine : Engine) (request : SearchRequest) : SearchResult :=
  searchTerm (some engine.memIndex) (Reader.ofDB engine.db) request

/-- The identities a request matches in the tiers of the engine. -/
def Engine.matching (engine : Engine) (request : SearchRequest) :
    List LogRecordID :=
  matchingIDs engine.memIndex engine.db request

variable {unicode : UnicodeTables}

/-- The candidates are the postings in the window and what the scan reaches. -/
theorem mem_candidates
    {engine : Engine}
    {request : SearchRequest}
    {id : LogRecordID} :
    id ∈ candidates (some engine.memIndex) (Reader.ofDB engine.db) request ↔
      (request.Covers id.ts ∧
        ∃ entry ∈ engine.memIndex.postings request.term, entry.id = id) ∨
      id ∈ scanIDs request
        (engine.db.scan (hasPrefix (indexPrefix request.term))) := by
  rw [candidates, List.mem_append, List.mem_map]
  refine or_congr ?_ Iff.rfl
  simp only [memMatches, MemoryIndex.mem_query]
  constructor
  · rintro ⟨entry, ⟨posted, covers⟩, rfl⟩
    exact ⟨covers, entry, posted, rfl⟩
  · rintro ⟨covers, entry, posted, rfl⟩
    exact ⟨entry, ⟨posted, covers⟩, rfl⟩

/-- With room for all matches the answer holds the records of the candidates. -/
theorem mem_search
    {engine : Engine}
    {request : SearchRequest}
    (room : (engine.matching request).length < request.effectiveLimit)
    {id : LogRecordID}
    {data : Bytes} :
    (id, data) ∈ (engine.search request).results ↔
      id ∈ candidates (some engine.memIndex) (Reader.ofDB engine.db) request ∧
        engine.db[id.logKey]? = some data := by
  rw [Engine.search, searchTerm_results_of_room room, mem_found, ofDB_get_eq_ok]

/-- Whatever the limit, the answer holds records of candidates only. -/
theorem candidate_of_mem_search
    {engine : Engine}
    {request : SearchRequest}
    {id : LogRecordID}
    {data : Bytes}
    (result : (id, data) ∈ (engine.search request).results) :
    id ∈ candidates (some engine.memIndex) (Reader.ofDB engine.db) request ∧
      engine.db[id.logKey]? = some data := by
  rw [Engine.search, searchTerm_results] at result
  rw [← ofDB_get_eq_ok]
  exact mem_found.mp (List.mem_of_mem_take result)

/-! ## Registered items -/

/-- In every reachable state, a search for a token of an item the running
process registered finds the item's message exactly when the database holds it
under the item's record key. -/
theorem registered_found_iff_stored
    (unicode : UnicodeTables)
    (events : List LoopEvent)
    (engine : Engine)
    (reached : Engine.Reaches unicode events engine)
    (arrival : Arrival)
    (registered : arrival ∈ (Ledger.ofEvents unicode events).live)
    (request : SearchRequest)
    (token : request.term ∈ arrival.tokens unicode)
    (covers : request.Covers arrival.now)
    (room : (engine.matching request).length < request.effectiveLimit) :
    (recordID arrival, arrival.message) ∈ (engine.search request).results ↔
      engine.db[(recordID arrival).logKey]? = some arrival.message := by
  have posted :=
    (represents_ofEvents reached).exists_posting_of_live registered token
  rw [mem_search room, mem_candidates]
  exact and_iff_right (Or.inl ⟨covers, posted⟩)

theorem registered_found_iff_stored_hello :
    ∃ engine, Engine.Reaches asciiTables (iteration helloItem ++ [.tick true])
        engine ∧
      ((recordID helloItem, helloItem.message) ∈
          (engine.search (searchFor "hello")).results ↔
        engine.db[(recordID helloItem).logKey]? = some helloItem.message) := by
  obtain ⟨engine, reached, room⟩ := (Option.any_eq_true _ _).mp
    (by decide +kernel : (Transition.run (Engine.step asciiTables)
      (Engine.start ∅) (iteration helloItem ++ [.tick true])).any (fun engine =>
        (engine.matching (searchFor "hello")).length < 10) = true)
  exact ⟨engine, reached, registered_found_iff_stored asciiTables _ engine reached
    helloItem (by decide +kernel) (searchFor "hello") (by decide +kernel)
    (by decide +kernel) (of_decide_eq_true room)⟩

/-- Between its registration and the next flush an item is not found. -/
theorem registered_item_not_found :
    ¬ ∀ events engine, Engine.Reaches asciiTables events engine →
      ∀ arrival ∈ (Ledger.ofEvents asciiTables events).live, ∀ request,
        request.term ∈ arrival.tokens asciiTables → request.Covers arrival.now →
        (engine.matching request).length < request.effectiveLimit →
        (recordID arrival, arrival.message) ∈ (engine.search request).results := by
  intro claim
  obtain ⟨engine, reached, facts⟩ := (Option.any_eq_true _ _).mp
    (by decide +kernel : (Transition.run (Engine.step asciiTables)
      (Engine.start ∅) (iteration helloItem)).any (fun engine =>
        decide ((engine.matching (searchFor "hello")).length < 10 ∧
          (engine.search (searchFor "hello")).results = [])) = true)
  obtain ⟨room, nothing⟩ := of_decide_eq_true facts
  have result := claim (iteration helloItem) engine reached helloItem
    (by decide +kernel) (searchFor "hello") (by decide +kernel)
    (by decide +kernel) room
  rw [nothing] at result
  simp at result

/-! ## Words of stored items -/

/-- Whether a scan gets as far as a timestamp: negative timestamps are stored
after all others, so one past the window hides them. -/
def ScanReaches (db : DB) (request : SearchRequest) (ts : Int64) : Prop :=
  0 ≤ ts ∨ ∀ other streamID, encodeIndexKey request.term other streamID ∈ db →
    0 ≤ other → other ≤ request.endNano

theorem scanReaches_iff
    {engine : Engine}
    {ledger : Ledger}
    (represents : Represents unicode ∅ engine ledger)
    (request : SearchRequest)
    (ts : Int64) :
    ScanReaches engine.db request ts ↔
      (0 ≤ ts ∨ ∀ other ∈ ledger.stored, request.term ∈ other.tokens unicode →
        0 ≤ other.now → other.now ≤ request.endNano) := by
  rw [ScanReaches, represents.db]
  refine or_congr Iff.rfl ⟨fun bound other stored token nonnegative => ?_,
    fun bound other streamID present nonnegative => ?_⟩
  · refine bound other.now other.streamID ?_ nonnegative
    change (recordID other).indexKey request.term ∈ _
    exact indexKey_mem_storeOf.mpr ⟨other, stored, rfl, token⟩
  · change LogRecordID.indexKey ⟨streamID, other⟩ request.term ∈ _ at present
    obtain ⟨arrival, stored, same, token⟩ := indexKey_mem_storeOf.mp present
    have now : arrival.now = other := congrArg LogRecordID.ts same
    rw [← now] at nonnegative ⊢
    exact bound arrival stored token nonnegative

/-- In every reachable state over items of distinct record keys, a search for a
word of a stored line finds the line exactly when the word is in lower case
already and one of the tiers gets to it: a posting, or the scan. -/
theorem word_found_iff_lower
    (unicode : UnicodeTables)
    (events : List LoopEvent)
    (engine : Engine)
    (reached : Engine.Reaches unicode events engine)
    (distinct : ((received events).map recordID).Nodup)
    (arrival : Arrival)
    (ingested : arrival ∈ received events)
    (written : (recordID arrival).logKey ∈ engine.db)
    (request : SearchRequest)
    (isWord : IsWord unicode arrival.message request.term)
    (low : 2 ≤ request.term.length)
    (high : request.term.length ≤ 64)
    (covers : request.Covers arrival.now)
    (room : (engine.matching request).length < request.effectiveLimit) :
    (recordID arrival, arrival.message) ∈ (engine.search request).results ↔
      toLower unicode request.term = request.term ∧
        (ScanReaches engine.db request arrival.now ∨
          ∃ entry ∈ engine.memIndex.postings request.term,
            entry.id = recordID arrival) := by
  have represents := represents_ofEvents reached
  have accounted := (Ledger.ofEvents unicode events).stored_subset
  rw [Ledger.received_ofEvents] at accounted
  have nulFree := zero_notMem_of_isWord isWord
  have tokenIff : request.term ∈ arrival.tokens unicode ↔
      toLower unicode request.term = request.term :=
    mem_tokenize_of_isWord isWord low high
  rw [scanReaches_iff represents]
  generalize Ledger.ofEvents unicode events = ledger at *
  rw [represents.db, logKey_mem_storeOf] at written
  obtain ⟨other, stored, same⟩ := written
  obtain rfl := List.inj_on_of_nodup_map distinct (accounted stored) ingested same
  have record : engine.db[(recordID other).logKey]? = some other.message := by
    rw [represents.db]
    apply storeOf_logKey stored
    intro second secondStored sameID
    rw [List.inj_on_of_nodup_map distinct (accounted secondStored) ingested sameID]
  rw [mem_search room, and_iff_left record, mem_candidates, represents.db,
    mem_scanIDs_storeOf nulFree]
  constructor
  · rintro (⟨_, entry, posted, sameID⟩ | ⟨_, ⟨first, _, token, _⟩, reachable⟩)
    · obtain ⟨first, _, token, _⟩ := represents.exists_item_of_posting posted
      exact ⟨toLower_of_mem_tokenize token, Or.inr ⟨entry, posted, sameID⟩⟩
    · exact ⟨toLower_of_mem_tokenize token, Or.inl reachable⟩
  · rintro ⟨lowered, reachable | posted⟩
    · exact Or.inr ⟨covers, ⟨other, stored, tokenIff.mpr lowered, rfl⟩, reachable⟩
    · exact Or.inl ⟨covers, posted⟩

/-- An item whose single word is capitalised. -/
def capitalItem : Arrival where
  now := 7
  packet := .ofString "<34>Disk"

theorem word_found_iff_lower_hello :
    ∃ engine, Engine.Reaches asciiTables (iteration helloItem ++ [.tick true])
        engine ∧
      ((recordID helloItem, helloItem.message) ∈
          (engine.search (searchFor "hello")).results ↔
        toLower asciiTables (searchFor "hello").term = (searchFor "hello").term ∧
          (ScanReaches engine.db (searchFor "hello") helloItem.now ∨
            ∃ entry ∈ engine.memIndex.postings (searchFor "hello").term,
              entry.id = recordID helloItem)) := by
  obtain ⟨engine, reached, facts⟩ := (Option.any_eq_true _ _).mp
    (by decide +kernel : (Transition.run (Engine.step asciiTables)
      (Engine.start ∅) (iteration helloItem ++ [.tick true])).any (fun engine =>
        decide ((recordID helloItem).logKey ∈ engine.db ∧
          (engine.matching (searchFor "hello")).length < 10)) = true)
  obtain ⟨written, room⟩ := of_decide_eq_true facts
  have isWord : IsWord asciiTables helloItem.message (searchFor "hello").term :=
    ⟨[], Utf8.runes helloItem.message, [], by simp, by decide +kernel,
      by decide +kernel, by simp, by simp, by decide +kernel⟩
  exact ⟨engine, reached, word_found_iff_lower asciiTables _ engine reached
    (by decide +kernel) helloItem (by decide +kernel) written
    (searchFor "hello") isWord (by decide +kernel) (by decide +kernel)
    (by decide +kernel) room⟩

/-- A capitalised word is not found as it was written. -/
theorem capitalised_word_not_found :
    ¬ ∀ events engine, Engine.Reaches asciiTables events engine →
      ((received events).map recordID).Nodup →
      ∀ arrival ∈ received events, (recordID arrival).logKey ∈ engine.db →
      ∀ request : SearchRequest,
        IsWord asciiTables arrival.message request.term →
        2 ≤ request.term.length → request.term.length ≤ 64 →
        request.Covers arrival.now →
        (engine.matching request).length < request.effectiveLimit →
        (recordID arrival, arrival.message) ∈ (engine.search request).results := by
  intro claim
  obtain ⟨engine, reached, facts⟩ := (Option.any_eq_true _ _).mp
    (by decide +kernel : (Transition.run (Engine.step asciiTables)
      (Engine.start ∅) (iteration capitalItem ++ [.tick true])).any
        (fun engine => decide ((recordID capitalItem).logKey ∈ engine.db ∧
          (engine.matching (searchFor "Disk")).length < 10 ∧
          (engine.search (searchFor "Disk")).results = [])) = true)
  obtain ⟨written, room, nothing⟩ := of_decide_eq_true facts
  have isWord : IsWord asciiTables capitalItem.message (searchFor "Disk").term :=
    ⟨[], Utf8.runes capitalItem.message, [], by simp, by decide +kernel,
      by decide +kernel, by simp, by simp, by decide +kernel⟩
  have result := claim _ engine reached (by decide +kernel) capitalItem
    (by decide +kernel) written (searchFor "Disk") isWord (by decide +kernel)
    (by decide +kernel) (by decide +kernel) room
  rw [nothing] at result
  simp at result

/-! ## False positives -/

/-- Every returned message contains the term, and its timestamp is in the
window. -/
def NoFalsePositives (unicode : UnicodeTables) (engine : Engine)
    (request : SearchRequest) : Prop :=
  ∀ id data, (id, data) ∈ (engine.search request).results →
    request.term ∈ tokenize unicode data ∧ request.Covers id.ts

/-- A prefix that reaches into the timestamps hides nothing: all timestamps it
selects have one sign, so none past the window comes before one in it. -/
theorem mem_scanIDs_of_nul
    {items : List Arrival}
    {request : SearchRequest}
    {id : LogRecordID}
    (nul : (0x00 : UInt8) ∈ request.term)
    (selected : id ∈ ((storeOf unicode ∅ items).scan
      (hasPrefix (indexPrefix request.term))).filterMap keyID)
    (covers : request.Covers id.ts) :
    id ∈ scanIDs request ((storeOf unicode ∅ items).scan
      (hasPrefix (indexPrefix request.term))) := by
  obtain ⟨head, fixed⟩ := exists_head_of_hasPrefix nul
  have sign : ∀ other ∈ ((storeOf unicode ∅ items).scan
      (hasPrefix (indexPrefix request.term))).filterMap keyID,
      other.ts < 0 ↔ 128 ≤ head.toNat := by
    intro other member
    obtain ⟨_, _, token, tokenMember, _, prefixed⟩ := mem_scannedIDs.mp member
    exact lt_zero_iff_head
      (fixed token _ _ (zero_notMem_of_mem_tokenize tokenMember) prefixed)
  have sorted := scannedIDs_sorted unicode items request.term
  have idSign := sign id selected
  obtain ⟨before, after, split⟩ := List.append_of_mem selected
  refine mem_scanIDs.mpr ⟨covers, before, after, split, fun earlier member => ?_⟩
  have earlierSign := sign earlier (by rw [split]; simp [member])
  rw [split] at sorted
  have order := (List.pairwise_append.mp sorted).2.2 _ member _ List.mem_cons_self
  refine Int64.le_trans (le_of_toUInt64_le ?_ order) covers.2
  exact fun negative => earlierSign.mpr (idSign.mp negative)

/-- A candidate with a record makes the answer non-empty. -/
theorem exists_result_of_candidate
    {engine : Engine}
    {request : SearchRequest}
    {id : LogRecordID}
    (candidate :
      id ∈ candidates (some engine.memIndex) (Reader.ofDB engine.db) request)
    (stored : id.logKey ∈ engine.db) :
    ∃ result, result ∈ (engine.search request).results := by
  obtain ⟨data, record⟩ := (OrderedStore.mem_iff_getElem? _ _).mp stored
  have hit : (id, data) ∈ found (Reader.ofDB engine.db)
      (candidates (some engine.memIndex) (Reader.ofDB engine.db) request) :=
    mem_found.mpr ⟨candidate, ofDB_get_eq_ok.mpr record⟩
  rw [Engine.search, searchTerm_results]
  apply List.exists_mem_of_ne_nil
  rw [ne_eq, List.take_eq_nil_iff, not_or]
  exact ⟨Nat.ne_of_gt request.effectiveLimit_pos, List.ne_nil_of_mem hit⟩

/-- With a NUL in the term, every key the scan prefix selects inside the window
makes the answer hold an item the term is no token of. -/
theorem selected_outside_of_noFalsePositives
    {engine : Engine}
    {ledger : Ledger}
    {request : SearchRequest}
    (represents : Represents unicode ∅ engine ledger)
    (noFalsePositives : NoFalsePositives unicode engine request)
    (nul : (0x00 : UInt8) ∈ request.term) :
    ∀ key ∈ engine.db, hasPrefix (indexPrefix request.term) key = true →
      ∀ id, keyID key = some id → ¬ request.Covers id.ts := by
  intro key present selected id decoded covers
  rw [represents.db] at present
  have scanned : id ∈ ((storeOf unicode ∅ ledger.stored).scan
      (hasPrefix (indexPrefix request.term))).filterMap keyID :=
    List.mem_filterMap.mpr
      ⟨key, (OrderedStore.mem_scan _ _ _).mpr ⟨present, selected⟩, decoded⟩
  obtain ⟨arrival, stored, _, _, same, _⟩ := mem_scannedIDs.mp scanned
  have candidate : id ∈ candidates (some engine.memIndex)
      (Reader.ofDB engine.db) request := by
    rw [mem_candidates, represents.db]
    exact Or.inr (mem_scanIDs_of_nul nul scanned covers)
  have record : id.logKey ∈ engine.db := by
    rw [represents.db]
    exact logKey_mem_storeOf.mpr ⟨arrival, stored, same⟩
  obtain ⟨⟨other, data⟩, result⟩ := exists_result_of_candidate candidate record
  exact zero_notMem_of_mem_tokenize (noFalsePositives other data result).1 nul

/-- When the term is free of NUL bytes or the prefix selects nothing inside the
window, every identity the scan yields is a stored item's with the term among
its tokens. -/
theorem token_of_mem_scanIDs
    {items : List Arrival}
    {request : SearchRequest}
    {id : LogRecordID}
    (harmless : (0x00 : UInt8) ∉ request.term ∨
      ∀ key ∈ storeOf unicode ∅ items,
        hasPrefix (indexPrefix request.term) key = true →
          ∀ id, keyID key = some id → ¬ request.Covers id.ts)
    (scanned : id ∈ scanIDs request ((storeOf unicode ∅ items).scan
      (hasPrefix (indexPrefix request.term)))) :
    request.Covers id.ts ∧ ∃ arrival ∈ items,
      request.term ∈ arrival.tokens unicode ∧ recordID arrival = id := by
  obtain ⟨covers, before, after, split, _⟩ := mem_scanIDs.mp scanned
  have selected : id ∈ ((storeOf unicode ∅ items).scan
      (hasPrefix (indexPrefix request.term))).filterMap keyID := by
    rw [split]
    simp
  rcases harmless with nulFree | outside
  · exact ⟨covers, (mem_scannedIDs_of_nulFree nulFree).mp selected⟩
  · obtain ⟨key, keyScanned, decoded⟩ := List.mem_filterMap.mp selected
    obtain ⟨present, prefixed⟩ := (OrderedStore.mem_scan _ _ _).mp keyScanned
    exact absurd covers (outside key present prefixed _ decoded)

/-- In every reachable state over items of distinct record keys, a search has
no false positives exactly when its term is free of NUL bytes or its scan
prefix selects no key with a timestamp in the window. -/
theorem noFalsePositives_iff
    (unicode : UnicodeTables)
    (events : List LoopEvent)
    (engine : Engine)
    (reached : Engine.Reaches unicode events engine)
    (distinct : ((received events).map recordID).Nodup)
    (request : SearchRequest) :
    NoFalsePositives unicode engine request ↔
      ((0x00 : UInt8) ∉ request.term ∨
        ∀ key ∈ engine.db, hasPrefix (indexPrefix request.term) key = true →
          ∀ id, keyID key = some id → ¬ request.Covers id.ts) := by
  have represents := represents_ofEvents reached
  have accounted := (Ledger.ofEvents unicode events).stored_subset
  have registered := (Ledger.ofEvents unicode events).registered_subset
  rw [Ledger.received_ofEvents] at accounted registered
  generalize Ledger.ofEvents unicode events = ledger at *
  constructor
  · intro noFalsePositives
    by_cases nul : (0x00 : UInt8) ∈ request.term
    · exact Or.inr
        (selected_outside_of_noFalsePositives represents noFalsePositives nul)
    · exact Or.inl nul
  · intro harmless id data result
    obtain ⟨candidate, record⟩ := candidate_of_mem_search result
    rw [represents.db] at record harmless
    obtain ⟨owner, ownerStored, rfl, rfl⟩ := exists_item_of_record record
    rw [mem_candidates, represents.db] at candidate
    rcases candidate with ⟨covers, entry, posted, same⟩ | scanned
    · obtain ⟨arrival, member, token, sameEntry⟩ :=
        represents.exists_item_of_posting posted
      obtain rfl := List.inj_on_of_nodup_map distinct (registered member)
        (accounted ownerStored) (sameEntry.trans same)
      exact ⟨token, covers⟩
    · obtain ⟨covers, arrival, stored, token, same⟩ :=
        token_of_mem_scanIDs harmless scanned
      obtain rfl := List.inj_on_of_nodup_map distinct (accounted stored)
        (accounted ownerStored) same
      exact ⟨token, covers⟩

theorem noFalsePositives_iff_hello :
    ∃ engine, Engine.Reaches asciiTables (iteration helloItem ++ [.tick true])
        engine ∧
      (NoFalsePositives asciiTables engine (searchFor "hello") ↔
        ((0x00 : UInt8) ∉ (searchFor "hello").term ∨
          ∀ key ∈ engine.db,
            hasPrefix (indexPrefix (searchFor "hello").term) key = true →
              ∀ id, keyID key = some id → ¬ (searchFor "hello").Covers id.ts)) := by
  obtain ⟨engine, reached⟩ := Option.isSome_iff_exists.mp
    (by decide +kernel : (Transition.run (Engine.step asciiTables)
      (Engine.start ∅) (iteration helloItem ++ [.tick true])).isSome = true)
  exact ⟨engine, reached, noFalsePositives_iff asciiTables _ engine reached
    (by decide +kernel) (searchFor "hello")⟩

/-- An item whose clock reading consists of eight equal bytes. -/
def evenItem : Arrival where
  now := 0x1818181818181818
  packet := .ofString "<34>ab"

/-- A search string with a NUL runs into the timestamp of another term's key. -/
theorem nul_term_false_positive :
    ¬ ∀ events engine, Engine.Reaches asciiTables events engine →
      ((received events).map recordID).Nodup →
      ∀ request, NoFalsePositives asciiTables engine request := by
  intro claim
  obtain ⟨engine, reached, facts⟩ := (Option.any_eq_true _ _).mp
    (by decide +kernel : (Transition.run (Engine.step asciiTables)
      (Engine.start ∅) (iteration evenItem ++ [.tick true])).any
        (fun engine => decide ((recordID evenItem, evenItem.message) ∈
          (engine.search (searchFor
            "ab\x00\x18\x18\x18\x18\x18\x18\x18\x18")).results)) = true)
  have contains := (claim _ engine reached (by decide +kernel) _ _ _
    (of_decide_eq_true facts)).1
  exact absurd contains (by decide +kernel)

end Server
end Chronolog
