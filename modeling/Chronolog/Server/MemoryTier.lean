import Chronolog.Server.SearchOrder
import Chronolog.Server.WriteFailures

/-!
# The two tiers of a search

The engine's search consults the memory index before the persistent one, and
the command line searches the same database without it.  When everything
received is stored, the two answers list records of one set; they are the same
answer exactly when the order of registration starts like the key order.
-/

namespace Chronolog
namespace Server

open Pipeline Search Storage

variable {unicode : UnicodeTables}

namespace Engine

/-- The answer over the same database without a memory index. -/
def searchPersistent (engine : Engine) (request : SearchRequest) : SearchResult :=
  searchTerm none (Reader.ofDB engine.db) request

/-- The registered records in the window, in the order of registration. -/
def inRegistrationOrder (engine : Engine) (request : SearchRequest) :
    List LogRecordID :=
  ((engine.registered request.term).filter fun id => request.Covers id.ts).eraseDups

/-- The indexed records in the window, in key order up to the first one past
it. -/
def inKeyOrder (engine : Engine) (request : SearchRequest) : List LogRecordID :=
  ((((engine.db.scan (hasPrefix (indexPrefix request.term))).filterMap keyID).takeWhile
    fun id => id.ts < request.startNano || id.ts ≤ request.endNano).filter
      fun id => request.Covers id.ts).eraseDups

end Engine

theorem Engine.inKeyOrder_eq (engine : Engine) (request : SearchRequest) :
    engine.inKeyOrder request =
      (scanIDs request
        (engine.db.scan (hasPrefix (indexPrefix request.term)))).eraseDups := by
  rw [inKeyOrder, ← scanIDs_eq]

/-- What the process registered is stored or waits in the batch. -/
def Ledger.LiveKept (ledger : Ledger) : Prop :=
  ledger.live ⊆ ledger.stored ++ ledger.pending

theorem Ledger.LiveKept.flush
    {ledger : Ledger}
    {written : Bool}
    (kept : ledger.LiveKept)
    (harmless : written = true ∨ ledger.pending = []) : (ledger.flush written).LiveKept := by
  unfold LiveKept at kept ⊢
  rcases harmless with rfl | nothing
  · simpa [Ledger.flush] using kept
  · cases written <;> simpa [Ledger.flush, nothing] using kept

theorem Ledger.LiveKept.endItem
    {ledger : Ledger}
    (kept : ledger.LiveKept) : ledger.endItem.LiveKept := by
  intro arrival member
  rw [Ledger.endItem, List.mem_append] at member
  rw [Ledger.endItem, ← List.append_assoc, List.mem_append]
  exact member.imp_left fun live => kept live

/-- A step that does not fail to write keeps what is registered. -/
theorem Ledger.LiveKept.step
    {base : DB}
    {engine next : Engine}
    {ledger : Ledger}
    {event : LoopEvent}
    (kept : ledger.LiveKept)
    (represents : Represents unicode base engine ledger)
    (stepped : engine.step unicode event = some next)
    (succeeds : engine.writeOutcome event ≠ some false) :
    (ledger.step unicode event).LiveKept := by
  have harmless : engine.point = .select → ∀ written,
      (engine.batchSize ≠ 0 → written ≠ false) → written = true ∨ ledger.pending = [] := by
    intro point written notFailed
    by_cases empty : engine.batchSize = 0
    · exact Or.inr (represents.pending_eq_nil (by simp [point]) empty)
    · exact Or.inl (eq_true_of_ne_false (notFailed empty))
  cases event with
  | receive arrival => exact kept
  | register => exact kept
  | endItem written =>
      obtain ⟨point, _⟩ := Engine.step_endItem stepped
      rw [Ledger.step, represents.endItem_size point]
      split
      next large =>
        refine kept.endItem.flush (Or.inl (eq_true_of_ne_false ?_))
        rintro rfl
        have positive : engine.batchSize ≠ 0 := by
          unfold maxBatchSize at large
          omega
        exact succeeds (if_pos ⟨large, positive⟩)
      next => exact kept.endItem
  | tick written =>
      obtain ⟨point, _⟩ := Engine.step_tick stepped
      refine kept.flush (harmless point written fun nonempty failed => succeeds ?_)
      rw [Engine.writeOutcome, if_pos nonempty, failed]
  | signal written =>
      obtain ⟨point, _⟩ := Engine.step_signal stepped
      refine kept.flush (harmless point written fun nonempty failed => succeeds ?_)
      rw [Engine.writeOutcome, if_pos nonempty, failed]
  | restart => exact List.nil_subset _

/-- When every write succeeds, what is registered is stored or pending. -/
theorem liveKept_of_writesSucceed
    {events : List LoopEvent}
    {engine : Engine}
    (reached : Engine.Reaches unicode events engine)
    (succeed : WritesSucceed unicode (Engine.start ∅) events) :
    (Ledger.ofEvents unicode events).LiveKept := by
  refine Transition.run_history_meeting
    (fun history _ => (Ledger.ofEvents unicode history).LiveKept) (List.nil_subset _) ?_
    reached succeed
  intro history state event next before kept succeeds stepped
  rw [Ledger.ofEvents_concat]
  exact kept.step (represents_ofEvents before) stepped succeeds

/-- With nothing lost and nothing pending, every candidate has a record. -/
theorem candidate_stored
    {engine : Engine}
    {ledger : Ledger}
    {request : SearchRequest}
    {id : LogRecordID}
    (represents : Represents unicode ∅ engine ledger)
    (kept : ledger.LiveKept)
    (idle : engine.point = .select)
    (flushed : engine.batch = [])
    (candidate : id ∈ candidates (some engine.memIndex) (Reader.ofDB engine.db) request) :
    id.logKey ∈ engine.db := by
  have current := (represents.idle_batch (by simp [idle])).1
  have nothing : ledger.pending = [] :=
    represents.pending_eq_nil (by simp [idle]) (by rw [represents.size, flushed]; rfl)
  rw [represents.db, logKey_mem_storeOf]
  rcases mem_candidates.mp candidate with ⟨_, entry, posted, same⟩ | scanned
  · obtain ⟨arrival, live, _, sameEntry⟩ := represents.exists_item_of_posting posted
    rw [current, Option.toList_none, List.append_nil] at live
    have stored := kept live
    rw [nothing, List.append_nil] at stored
    exact ⟨arrival, stored, sameEntry.trans same⟩
  · rw [represents.db] at scanned
    obtain ⟨arrival, stored, _, _, same, _⟩ :=
      mem_scannedIDs.mp ((scanIDs_sublist _ _).subset scanned)
    exact ⟨arrival, stored, same⟩

/-- Over a database that has all candidates, the answer is determined by the
order of the candidates. -/
theorem found_of_stored
    {db : DB}
    {ids : List LogRecordID}
    (stored : ∀ id ∈ ids, id.logKey ∈ db) :
    found (Reader.ofDB db) ids =
      ids.eraseDups.map fun id => (id, db.getD id.logKey []) := by
  rw [found, ← List.filterMap_eq_map]
  apply List.filterMap_congr
  intro id member
  obtain ⟨data, record⟩ :=
    (OrderedStore.mem_iff_getElem? _ _).mp (stored id (List.mem_eraseDups.mp member))
  rw [lookup_eq_some.mpr ⟨rfl, ofDB_get_eq_ok.mpr record⟩, Function.comp_apply,
    Std.TreeMap.getD_eq_getD_getElem?, record]
  rfl

/-- The candidates, each once: first the registered ones, then the rest of the
key range. -/
theorem candidates_eraseDups (engine : Engine) (request : SearchRequest) :
    (candidates (some engine.memIndex) (Reader.ofDB engine.db) request).eraseDups =
      engine.inRegistrationOrder request ++
        (engine.inKeyOrder request).removeAll (engine.inRegistrationOrder request) := by
  rw [candidates, memMatches_ids, List.eraseDups_append, ← Engine.inRegistrationOrder,
    List.removeAll, FirstOccurrence.eraseDups_filter, engine.inKeyOrder_eq, List.removeAll]
  congr 1
  apply List.filter_congr
  intro id _
  simp [Engine.inRegistrationOrder, List.mem_eraseDups]

/-- In every state reached without a failed write and with nothing pending, the
memory index leaves the answer unchanged exactly when the registered records in
the window, cut at the limit, are in the order of registration the first
records of the key range. -/
theorem memory_tier_agrees_iff
    (unicode : UnicodeTables)
    (events : List LoopEvent)
    (engine : Engine)
    (reached : Engine.Reaches unicode events engine)
    (succeed : WritesSucceed unicode (Engine.start ∅) events)
    (idle : engine.point = .select)
    (flushed : engine.batch = [])
    (request : SearchRequest) :
    engine.search request = engine.searchPersistent request ↔
      (engine.inRegistrationOrder request).take request.effectiveLimit <+:
        engine.inKeyOrder request := by
  have represents := represents_ofEvents reached
  have kept := liveKept_of_writesSucceed reached succeed
  generalize Ledger.ofEvents unicode events = ledger at *
  have stored : ∀ id ∈ candidates (some engine.memIndex) (Reader.ofDB engine.db) request,
      id.logKey ∈ engine.db := fun id candidate =>
    candidate_stored represents kept idle flushed candidate
  have scannedStored : ∀ id ∈ candidates none (Reader.ofDB engine.db) request,
      id.logKey ∈ engine.db := fun id scanned =>
    stored id (List.mem_append_right _ scanned)
  have withMemory : (engine.search request).results =
      ((engine.inRegistrationOrder request ++ (engine.inKeyOrder request).removeAll
        (engine.inRegistrationOrder request)).take request.effectiveLimit).map
          fun id => (id, engine.db.getD id.logKey []) := by
    rw [Engine.search, searchTerm_results, found_of_stored stored, List.map_take,
      candidates_eraseDups]
  have without : (engine.searchPersistent request).results =
      ((engine.inKeyOrder request).take request.effectiveLimit).map
        fun id => (id, engine.db.getD id.logKey []) := by
    rw [Engine.searchPersistent, searchTerm_results, found_of_stored scannedStored,
      List.map_take, engine.inKeyOrder_eq]
    rfl
  have identified : Function.Injective fun id : LogRecordID =>
      (id, engine.db.getD id.logKey []) := fun _ _ same => (Prod.mk.inj same).1
  have nodup : (engine.inKeyOrder request).Nodup := FirstOccurrence.nodup_eraseDups _
  rw [← FirstOccurrence.take_append_removeAll_iff nodup,
    ← (List.map_injective_iff.mpr identified).eq_iff, ← withMemory, ← without]
  constructor
  · intro same
    rw [same]
  · intro same
    calc engine.search request
        = ⟨(engine.search request).results, (engine.search request).err⟩ := rfl
      _ = ⟨(engine.searchPersistent request).results, none⟩ := by
        rw [same, Engine.search, searchTerm_err_ofDB]
      _ = engine.searchPersistent request := by
        rw [Engine.searchPersistent, ← searchTerm_err_ofDB none engine.db request]

/-- Two items on their way to the database, whichever comes first. -/
theorem writesSucceed_iterations (first second : Arrival) :
    WritesSucceed asciiTables (Engine.start ∅)
      (iteration first ++ iteration second ++ [.tick true]) := by
  intro moment event performed
  have member := Transition.mem_of_performs performed
  simp only [iteration, List.mem_append, List.mem_cons, List.not_mem_nil, or_false] at member
  rcases member with ((rfl | rfl | rfl) | rfl | rfl | rfl) | rfl <;>
    simp [Engine.writeOutcome]

theorem memory_tier_agrees_iff_twoHelloRun :
    ∃ engine, Engine.Reaches asciiTables twoHelloRun engine ∧
      (engine.search (searchFor "hello") = engine.searchPersistent (searchFor "hello") ↔
        (engine.inRegistrationOrder (searchFor "hello")).take
            (searchFor "hello").effectiveLimit <+:
          engine.inKeyOrder (searchFor "hello")) := by
  obtain ⟨engine, reached, facts⟩ := (Option.any_eq_true _ _).mp
    (by decide +kernel : (Transition.run (Engine.step asciiTables) (Engine.start ∅)
      twoHelloRun).any (fun engine =>
        decide (engine.point = .select ∧ engine.batch = [])) = true)
  obtain ⟨idle, flushed⟩ := of_decide_eq_true facts
  exact ⟨engine, reached, memory_tier_agrees_iff asciiTables twoHelloRun engine reached
    (writesSucceed_iterations _ _) idle flushed (searchFor "hello")⟩

/-- Workers that finish out of order turn the answer around. -/
theorem memory_tier_reorders :
    ¬ ∀ events engine, Engine.Reaches asciiTables events engine →
      WritesSucceed asciiTables (Engine.start ∅) events →
      engine.point = .select → engine.batch = [] →
      ∀ request, engine.search request = engine.searchPersistent request := by
  intro claim
  obtain ⟨engine, reached, facts⟩ := (Option.any_eq_true _ _).mp
    (by decide +kernel : (Transition.run (Engine.step asciiTables) (Engine.start ∅)
      (iteration laterHelloItem ++ iteration helloItem ++ [.tick true])).any (fun engine =>
        decide ((engine.point = .select ∧ engine.batch = []) ∧
          (engine.search (searchFor "hello")).results ≠
            (engine.searchPersistent (searchFor "hello")).results)) = true)
  obtain ⟨⟨idle, flushed⟩, different⟩ := of_decide_eq_true facts
  exact different (congrArg SearchResult.results (claim _ engine reached
    (writesSucceed_iterations _ _) idle flushed (searchFor "hello")))

end Server
end Chronolog
