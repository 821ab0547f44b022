import Chronolog.Search.Call
import Chronolog.Server.Answers

/-!
# A search beside the flush loop

One search call interleaved with the steps of the main loop.  The call reads
the memory index at one moment, point-reads at later moments, and opens its
iterator on a snapshot at a later one still.  The main result describes its
answer: the matching records of the snapshot, less the ones whose point read
came before the record was written, since those count as seen.
-/

namespace Chronolog
namespace Server

open Pipeline Search Storage

/-- The engine with one search call in progress. -/
structure System where
  engine : Engine
  call : SearchCall

/-- A step of the main loop, or of the call. -/
inductive SystemEvent
  | loop (event : LoopEvent)
  | search

/-- The loop's share of a schedule. -/
def loopEvents (events : List SystemEvent) : List LoopEvent :=
  events.filterMap fun event =>
    match event with
    | .loop event => some event
    | .search => none

namespace System

/-- The moment a call starts. -/
def start (engine : Engine) : System where
  engine := engine
  call := SearchCall.start

variable (unicode : UnicodeTables) (request : SearchRequest)

/-- One step.  A restart would end the call together with the process. -/
def step (system : System) : SystemEvent → Option System
  | .loop .restart => none
  | .loop event =>
      (system.engine.step unicode event).map fun engine => { system with engine }
  | .search =>
      (system.call.step request (some system.engine.memIndex)
        (Reader.ofDB system.engine.db)).map fun call => { system with call }

end System

section Statement

variable (unicode : UnicodeTables) (request : SearchRequest)

/-- An identity indexed under the term of the request, in its window. -/
def Matches (db : DB) (id : LogRecordID) : Prop :=
  request.Covers id.ts ∧ encodeIndexKey request.term id.ts id.streamID ∈ db

instance (db : DB) (id : LogRecordID) : Decidable (Matches request db id) :=
  inferInstanceAs (Decidable (_ ∧ _))

/-- The call opens its iterator on the database of this moment. -/
def Opened (engine : Engine) (events : List SystemEvent) (moment : System) : Prop :=
  Transition.Performs (System.step unicode request) (System.start engine) events
      moment .search ∧
    moment.call.point = .openIterator

/-- The call point-reads a record before it is written.  The identity counts as
seen from then on. -/
def ReadEarly (engine : Engine) (events : List SystemEvent) (id : LogRecordID) :
    Prop :=
  ∃ moment entry rest,
    Transition.Performs (System.step unicode request) (System.start engine) events
        moment .search ∧
      moment.call.point = .pointReads (entry :: rest) ∧
      entry.id = id ∧
      id ∉ moment.call.state.seen ∧
      id.logKey ∉ moment.engine.db

end Statement

variable {unicode : UnicodeTables} {request : SearchRequest}

/-! ## The engine's own run -/

theorem loopEvents_append (first second : List SystemEvent) :
    loopEvents (first ++ second) = loopEvents first ++ loopEvents second :=
  List.filterMap_append

@[simp] theorem loopEvents_search : loopEvents [.search] = [] := rfl

/-- What a step of the loop beside a call can be. -/
theorem System.step_loop
    {system next : System}
    {event : LoopEvent}
    (stepped : system.step unicode request (.loop event) = some next) :
    ∃ engine, system.engine.step unicode event = some engine ∧
      next = { system with engine } := by
  cases event with
  | restart => simp [System.step] at stepped
  | _ =>
      obtain ⟨engine, engineStepped, rfl⟩ := Option.map_eq_some_iff.mp stepped
      exact ⟨engine, engineStepped, rfl⟩

/-- What a step of the call can be. -/
theorem System.step_search
    {system next : System}
    (stepped : system.step unicode request .search = some next) :
    ∃ call, system.call.step request (some system.engine.memIndex)
        (Reader.ofDB system.engine.db) = some call ∧
      next = { system with call } := by
  obtain ⟨call, callStepped, rfl⟩ := Option.map_eq_some_iff.mp stepped
  exact ⟨call, callStepped, rfl⟩

/-- The engine of a moment was reached by the loop's share of the schedule. -/
theorem engine_reached
    {before : List LoopEvent}
    {engine : Engine}
    (reached : Engine.Reaches unicode before engine)
    {events : List SystemEvent}
    {moment : System}
    (ran : Transition.run (System.step unicode request) (System.start engine) events =
      some moment) :
    Engine.Reaches unicode (before ++ loopEvents events) moment.engine := by
  refine Transition.run_history (fun history (moment : System) =>
    Engine.Reaches unicode (before ++ loopEvents history) moment.engine) ?_ ?_ ran
  · rw [loopEvents, List.filterMap_nil, List.append_nil]
    exact reached
  · intro history system event next _ current stepped
    rw [loopEvents_append, ← List.append_assoc]
    cases event with
    | loop event =>
        obtain ⟨advanced, engineStepped, rfl⟩ := System.step_loop stepped
        exact Transition.run_concat_eq_some.mpr ⟨_, current, engineStepped⟩
    | search =>
        obtain ⟨call, _, rfl⟩ := System.step_search stepped
        rw [loopEvents_search, List.append_nil]
        exact current

/-! ## Items and matches -/

/-- Stored items stay stored. -/
theorem Ledger.stored_step (ledger : Ledger) (event : LoopEvent) :
    ledger.stored <+: (ledger.step unicode event).stored := by
  have flushed : ∀ (ledger : Ledger) (written : Bool),
      ledger.stored <+: (ledger.flush written).stored := by
    intro ledger written
    cases written with
    | true => exact List.prefix_append _ _
    | false => exact List.prefix_rfl
  cases event with
  | receive arrival => exact List.prefix_rfl
  | register => exact List.prefix_rfl
  | endItem written =>
      rw [Ledger.step]
      split
      · exact flushed ledger.endItem written
      · exact List.prefix_rfl
  | tick written => exact flushed ledger written
  | signal written => exact flushed ledger written
  | restart => exact List.prefix_rfl

/-- The items stored after some events of the loop. -/
def storedAfter (unicode : UnicodeTables) (events : List LoopEvent) : List Arrival :=
  (Ledger.ofEvents unicode events).stored

theorem storedAfter_grows (first second : List LoopEvent) :
    storedAfter unicode first <+: storedAfter unicode (first ++ second) := by
  induction second using List.reverseRecOn with
  | nil => rw [List.append_nil]
  | append_singleton second event inductionHypothesis =>
      rw [← List.append_assoc, storedAfter, storedAfter, Ledger.ofEvents_concat]
      exact inductionHypothesis.trans (Ledger.stored_step _ _)

theorem storedAfter_subset_received
    (unicode : UnicodeTables)
    (events : List LoopEvent) :
    storedAfter unicode events ⊆ received events := by
  rw [← Ledger.received_ofEvents unicode]
  exact Ledger.stored_subset _

/-- An item that contains the term, with a timestamp in the window. -/
def Hit (unicode : UnicodeTables) (request : SearchRequest) (arrival : Arrival) :
    Prop :=
  request.term ∈ arrival.tokens unicode ∧ request.Covers arrival.now

instance (arrival : Arrival) : Decidable (Hit unicode request arrival) :=
  inferInstanceAs (Decidable (_ ∧ _))

/-- The matches of a database are the identities of its stored hits. -/
theorem matches_storeOf {items : List Arrival} {id : LogRecordID} :
    Matches request (storeOf unicode ∅ items) id ↔
      ∃ arrival ∈ items, Hit unicode request arrival ∧ recordID arrival = id := by
  have indexed : encodeIndexKey request.term id.ts id.streamID ∈
      storeOf unicode ∅ items ↔
        ∃ arrival ∈ items, recordID arrival = id ∧
          request.term ∈ arrival.tokens unicode :=
    indexKey_mem_storeOf
  rw [Matches, indexed]
  constructor
  · rintro ⟨covers, arrival, member, rfl, token⟩
    exact ⟨arrival, member, ⟨token, covers⟩, rfl⟩
  · rintro ⟨arrival, member, ⟨token, covers⟩, rfl⟩
    exact ⟨covers, arrival, member, rfl, token⟩

/-- No other item has the record key of a hit. -/
def HitsAlone (unicode : UnicodeTables) (request : SearchRequest)
    (items : List Arrival) : Prop :=
  ∀ hit ∈ items, Hit unicode request hit →
    ∀ other ∈ items, recordID other = recordID hit → other = hit

instance (items : List Arrival) : Decidable (HitsAlone unicode request items) :=
  inferInstanceAs (Decidable (∀ hit ∈ items, _ → ∀ other ∈ items, _ → _))

theorem HitsAlone.of_nodup
    {items : List Arrival}
    (distinct : (items.map recordID).Nodup) : HitsAlone unicode request items :=
  fun _ member _ _ otherMember same =>
    List.inj_on_of_nodup_map distinct otherMember member same

/-- The identities of the hits among some items. -/
def hitIDs (unicode : UnicodeTables) (request : SearchRequest)
    (items : List Arrival) : Finset LogRecordID :=
  ((items.filter (Hit unicode request ·)).map recordID).toFinset

theorem mem_hitIDs {items : List Arrival} {id : LogRecordID} :
    id ∈ hitIDs unicode request items ↔
      ∃ arrival ∈ items, Hit unicode request arrival ∧ recordID arrival = id := by
  simp [hitIDs, and_assoc]

theorem hitIDs_mono {items larger : List Arrival} (included : items ⊆ larger) :
    hitIDs unicode request items ⊆ hitIDs unicode request larger := by
  intro id member
  obtain ⟨arrival, present, hit, same⟩ := mem_hitIDs.mp member
  exact mem_hitIDs.mpr ⟨arrival, included present, hit, same⟩

/-! ## Lookups -/

/-- The state of a call says what happened so far: the results are records of
stored hits, and every other identity seen was looked up too early. -/
structure Faithful (unicode : UnicodeTables) (request : SearchRequest)
    (stored : List Arrival) (early : LogRecordID → Prop) (state : SearchState) :
    Prop where
  records : ∀ id data, (id, data) ∈ state.results →
    ∃ arrival ∈ stored, Hit unicode request arrival ∧ recordID arrival = id ∧
      data = arrival.message
  nodup : (state.results.map Prod.fst).Nodup
  result_seen : ∀ id data, (id, data) ∈ state.results → id ∈ state.seen
  seen_cases : ∀ id ∈ state.seen, early id ∨ ∃ data, (id, data) ∈ state.results
  early_seen : ∀ id, early id →
    id ∈ state.seen ∧ ∀ data, (id, data) ∉ state.results

namespace Faithful

variable {stored : List Arrival} {early : LogRecordID → Prop} {state : SearchState}

theorem start (stored : List Arrival) :
    Faithful unicode request stored (fun _ => False) SearchState.start where
  records _ _ member := absurd member List.not_mem_nil
  nodup := List.nodup_nil
  result_seen _ _ member := absurd member List.not_mem_nil
  seen_cases _ member := absurd member List.not_mem_nil
  early_seen _ impossible := impossible.elim

/-- More stored items and an equivalent notion of earliness change nothing. -/
theorem mono
    {larger : List Arrival}
    {same : LogRecordID → Prop}
    (faithful : Faithful unicode request stored early state)
    (grows : stored ⊆ larger)
    (equivalent : ∀ id, same id ↔ early id) :
    Faithful unicode request larger same state where
  records id data member := by
    obtain ⟨arrival, present, rest⟩ := faithful.records id data member
    exact ⟨arrival, grows present, rest⟩
  nodup := faithful.nodup
  result_seen := faithful.result_seen
  seen_cases id member := by
    rw [equivalent]
    exact faithful.seen_cases id member
  early_seen id isEarly := faithful.early_seen id ((equivalent id).mp isEarly)

/-- There are at most as many results as stored hits. -/
theorem length_le (faithful : Faithful unicode request stored early state) :
    state.results.length ≤ (hitIDs unicode request stored).card := by
  have included : (state.results.map Prod.fst).toFinset ⊆
      hitIDs unicode request stored := by
    intro id member
    obtain ⟨⟨_, data⟩, present, rfl⟩ := List.mem_map.mp (List.mem_toFinset.mp member)
    obtain ⟨arrival, arrivalStored, hit, same, _⟩ := faithful.records _ data present
    exact mem_hitIDs.mpr ⟨arrival, arrivalStored, hit, same⟩
  calc
    state.results.length = (state.results.map Prod.fst).toFinset.card := by
      rw [List.toFinset_card_of_nodup faithful.nodup, List.length_map]
    _ ≤ (hitIDs unicode request stored).card := Finset.card_le_card included

theorem lookup_ofDB (db : DB) (id : LogRecordID) :
    lookup (Reader.ofDB db) id = db[id.logKey]?.map fun data => (id, data) := by
  unfold lookup Reader.ofDB
  cases read : db[id.logKey]? with
  | none => simp [read]
  | some data => simp [read]

/-- A lookup that finds nothing makes its identity an early one. -/
theorem miss
    {id : LogRecordID}
    (faithful : Faithful unicode request stored early state)
    (unseen : id ∉ state.seen) :
    Faithful unicode request stored (fun other => early other ∨ other = id)
      { state with seen := id :: state.seen } where
  records := faithful.records
  nodup := faithful.nodup
  result_seen other data member :=
    List.mem_cons_of_mem _ (faithful.result_seen other data member)
  seen_cases other member := by
    rcases List.mem_cons.mp member with rfl | before
    · exact Or.inl (Or.inr rfl)
    · exact (faithful.seen_cases other before).imp_left Or.inl
  early_seen other isEarly := by
    rcases isEarly with before | rfl
    · obtain ⟨otherSeen, noResult⟩ := faithful.early_seen other before
      exact ⟨List.mem_cons_of_mem _ otherSeen, noResult⟩
    · exact ⟨List.mem_cons_self, fun data member =>
        unseen (faithful.result_seen other data member)⟩

/-- A lookup that finds the record of a stored hit adds it to the results. -/
theorem found
    {arrival : Arrival}
    (faithful : Faithful unicode request stored early state)
    (present : arrival ∈ stored)
    (hit : Hit unicode request arrival)
    (unseen : recordID arrival ∉ state.seen) :
    Faithful unicode request stored early
      { state with
        seen := recordID arrival :: state.seen
        results := state.results ++ [(recordID arrival, arrival.message)] } where
  records other data result := by
    rcases List.mem_append.mp result with before | last
    · exact faithful.records other data before
    · obtain ⟨rfl, rfl⟩ := Prod.mk.inj (List.mem_singleton.mp last)
      exact ⟨arrival, present, hit, rfl, rfl⟩
  nodup := by
    rw [List.map_append, List.map_singleton]
    refine List.nodup_append.mpr ⟨faithful.nodup, List.nodup_singleton _, ?_⟩
    intro other before last member same
    obtain ⟨⟨first, data⟩, result, rfl⟩ := List.mem_map.mp before
    have firstID : first = recordID arrival := same.trans (List.mem_singleton.mp member)
    rw [firstID] at result
    exact unseen (faithful.result_seen _ data result)
  result_seen other data result := by
    rcases List.mem_append.mp result with before | last
    · exact List.mem_cons_of_mem _ (faithful.result_seen other data before)
    · obtain ⟨rfl, _⟩ := Prod.mk.inj (List.mem_singleton.mp last)
      exact List.mem_cons_self
  seen_cases other member := by
    rcases List.mem_cons.mp member with rfl | before
    · exact Or.inr ⟨_, List.mem_append_right _ List.mem_cons_self⟩
    · refine (faithful.seen_cases other before).imp_right ?_
      rintro ⟨data, result⟩
      exact ⟨data, List.mem_append_left _ result⟩
  early_seen other isEarly := by
    obtain ⟨otherSeen, noResult⟩ := faithful.early_seen other isEarly
    refine ⟨List.mem_cons_of_mem _ otherSeen, fun data result => ?_⟩
    rcases List.mem_append.mp result with before | last
    · exact noResult data before
    · obtain ⟨rfl, _⟩ := Prod.mk.inj (List.mem_singleton.mp last)
      exact unseen otherSeen

/-- A lookup of a hit keeps the state faithful.  It is early when the record is
unseen and not stored yet. -/
theorem fetch
    {all : List Arrival}
    {id : LogRecordID}
    (faithful : Faithful unicode request stored early state)
    (alone : HitsAlone unicode request all)
    (accounted : stored ⊆ all)
    (expected : ∃ arrival ∈ all, Hit unicode request arrival ∧
      recordID arrival = id) :
    Faithful unicode request stored
      (fun other => early other ∨ other = id ∧ id ∉ state.seen ∧
        id.logKey ∉ storeOf unicode ∅ stored)
      (fetchLog (Reader.ofDB (storeOf unicode ∅ stored)) id state).1 := by
  by_cases seen : id ∈ state.seen
  · rw [fetchLog_seen seen]
    exact faithful.mono (List.Subset.refl _) (by simp [seen])
  rw [fetchLog_unseen seen, lookup_ofDB]
  cases read : (storeOf unicode ∅ stored)[id.logKey]? with
  | none =>
      have absent : id.logKey ∉ storeOf unicode ∅ stored := by
        rw [OrderedStore.mem_iff_getElem?, read]
        simp
      simp only [Option.map_none, Option.toList_none, List.append_nil]
      exact (faithful.miss seen).mono (List.Subset.refl _) (by simp [seen, absent])
  | some data =>
      have present : id.logKey ∈ storeOf unicode ∅ stored := by
        rw [OrderedStore.mem_iff_getElem?]
        exact ⟨data, read⟩
      obtain ⟨owner, ownerStored, sameID, rfl⟩ := exists_item_of_record read
      obtain ⟨arrival, member, hit, rfl⟩ := expected
      obtain rfl := alone arrival member hit owner (accounted ownerStored) sameID
      simp only [Option.map_some, Option.toList_some]
      exact (faithful.found ownerStored hit seen).mono (List.Subset.refl _)
        (by simp [present])

end Faithful

/-! ## Histories of the call -/

section History

variable {before : List LoopEvent} {engine : Engine}

theorem db_eq_storeOf
    (reached : Engine.Reaches unicode before engine)
    {history : List SystemEvent}
    {moment : System}
    (ran : Transition.run (System.step unicode request) (System.start engine) history =
      some moment) :
    moment.engine.db =
      storeOf unicode ∅ (storedAfter unicode (before ++ loopEvents history)) :=
  (represents_ofEvents (engine_reached reached ran)).db

theorem stored_grows
    (unicode : UnicodeTables)
    (before : List LoopEvent)
    (first second : List SystemEvent) :
    storedAfter unicode (before ++ loopEvents first) <+:
      storedAfter unicode (before ++ loopEvents (first ++ second)) := by
  rw [loopEvents_append, ← List.append_assoc]
  exact storedAfter_grows _ _

theorem received_grows (first second : List SystemEvent) :
    received (before ++ loopEvents first) <+:
      received (before ++ loopEvents (first ++ second)) := by
  rw [loopEvents_append, ← List.append_assoc, received_append _ (loopEvents second)]
  exact List.prefix_append _ _

/-- A step of the loop is not a read of the call. -/
theorem readEarly_loop
    {history : List SystemEvent}
    {event : LoopEvent}
    {id : LogRecordID} :
    ReadEarly unicode request engine (history ++ [.loop event]) id ↔
      ReadEarly unicode request engine history id := by
  constructor
  · rintro ⟨moment, entry, rest, performed, facts⟩
    rcases Transition.performs_of_concat performed with earlier | ⟨same, _⟩
    · exact ⟨moment, entry, rest, earlier, facts⟩
    · exact SystemEvent.noConfusion same
  · rintro ⟨moment, entry, rest, performed, facts⟩
    exact ⟨moment, entry, rest, Transition.performs_append performed, facts⟩

theorem opened_loop
    {history : List SystemEvent}
    {event : LoopEvent}
    {moment : System} :
    Opened unicode request engine (history ++ [.loop event]) moment ↔
      Opened unicode request engine history moment := by
  constructor
  · rintro ⟨performed, point⟩
    rcases Transition.performs_of_concat performed with earlier | ⟨same, _⟩
    · exact ⟨earlier, point⟩
    · exact SystemEvent.noConfusion same
  · rintro ⟨performed, point⟩
    exact ⟨Transition.performs_append performed, point⟩

/-- A step of the call is an early read when it is a point read that finds
nothing. -/
theorem readEarly_search
    {history : List SystemEvent}
    {system : System}
    (current : Transition.run (System.step unicode request) (System.start engine)
      history = some system)
    {id : LogRecordID} :
    ReadEarly unicode request engine (history ++ [.search]) id ↔
      ReadEarly unicode request engine history id ∨
        ∃ entry rest, system.call.point = .pointReads (entry :: rest) ∧
          entry.id = id ∧ id ∉ system.call.state.seen ∧
          id.logKey ∉ system.engine.db := by
  constructor
  · rintro ⟨moment, entry, rest, performed, facts⟩
    rcases Transition.performs_of_concat performed with earlier | ⟨_, reached⟩
    · exact Or.inl ⟨moment, entry, rest, earlier, facts⟩
    · obtain rfl : system = moment := Option.some.inj (current.symm.trans reached)
      exact Or.inr ⟨entry, rest, facts⟩
  · rintro (⟨moment, entry, rest, performed, facts⟩ | ⟨entry, rest, facts⟩)
    · exact ⟨moment, entry, rest, Transition.performs_append performed, facts⟩
    · exact ⟨system, entry, rest, Transition.performs_concat current, facts⟩

theorem opened_search
    {history : List SystemEvent}
    {system : System}
    (current : Transition.run (System.step unicode request) (System.start engine)
      history = some system)
    {moment : System} :
    Opened unicode request engine (history ++ [.search]) moment ↔
      Opened unicode request engine history moment ∨
        moment = system ∧ system.call.point = .openIterator := by
  constructor
  · rintro ⟨performed, point⟩
    rcases Transition.performs_of_concat performed with earlier | ⟨_, reached⟩
    · exact Or.inl ⟨earlier, point⟩
    · obtain rfl : system = moment := Option.some.inj (current.symm.trans reached)
      exact Or.inr ⟨rfl, point⟩
  · rintro (⟨performed, point⟩ | ⟨rfl, point⟩)
    · exact ⟨Transition.performs_append performed, point⟩
    · exact ⟨Transition.performs_concat current, point⟩

/-- The database of the snapshot holds the items stored before the call, and
items that are still stored. -/
theorem opened_db
    (reached : Engine.Reaches unicode before engine)
    {history : List SystemEvent}
    {moment : System}
    (opened : Opened unicode request engine history moment) :
    ∃ snapshot, moment.engine.db = storeOf unicode ∅ snapshot ∧
      storedAfter unicode before ⊆ snapshot ∧
      snapshot ⊆ storedAfter unicode (before ++ loopEvents history) := by
  obtain ⟨⟨first, rest, rfl, ran⟩, _⟩ := opened
  exact ⟨_, db_eq_storeOf reached ran, (storedAfter_grows before _).subset,
    (stored_grows unicode before first _).subset⟩

end History

end Server
end Chronolog
