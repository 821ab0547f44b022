import Chronolog.Server.CallInvariant

/-!
# Consistency of concurrent searches

What a search returns while the flush loop runs.  Everything indexed before the
call is found and nothing is returned that is not indexed by its end.  The
answer is that of a single moment only if the records read too early were all
written after the records returned.
-/

namespace Chronolog
namespace Server

open Pipeline Search Storage

variable {unicode : UnicodeTables} {request : SearchRequest}
variable {before : List LoopEvent} {engine : Engine}

/-! ## The answer of a call -/

/-- Every stored hit has an index entry of its own. -/
theorem card_hitIDs_le
    {items : List Arrival}
    (nulFree : (0x00 : UInt8) ∉ request.term) :
    (hitIDs unicode request items).card ≤
      (indexedIDs (storeOf unicode ∅ items) request).length := by
  have included : hitIDs unicode request items ⊆
      (indexedIDs (storeOf unicode ∅ items) request).toFinset := by
    intro id member
    obtain ⟨arrival, stored, ⟨token, covers⟩, rfl⟩ := mem_hitIDs.mp member
    exact List.mem_toFinset.mpr (mem_indexedIDs.mpr ⟨covers, _,
      indexKey_mem_storeOf.mpr ⟨arrival, stored, rfl, token⟩,
      (hasPrefix_indexPrefix _ _ nulFree nulFree).mpr rfl,
      keyID_indexKey _ nulFree⟩)
  exact (Finset.card_le_card included).trans (List.toFinset_card_le _)

/-- A schedule has room when the limit exceeds the number of matching index
entries. -/
theorem admissible_of_room
    (reached : Engine.Reaches unicode before engine)
    {events : List SystemEvent}
    {final : System}
    (ran : Transition.run (System.step unicode request) (System.start engine) events =
      some final)
    (alone : HitsAlone unicode request (received (before ++ loopEvents events)))
    (unblocked : HitsReached unicode request (received (before ++ loopEvents events)))
    (nulFree : (0x00 : UInt8) ∉ request.term)
    (room : (indexedIDs final.engine.db request).length < request.effectiveLimit) :
    Admissible unicode request (before ++ loopEvents events) where
  alone := alone
  reached := unblocked
  room := by
    rw [db_eq_storeOf reached ran] at room
    exact Nat.lt_of_le_of_lt (card_hitIDs_le nulFree) room

/-- A record read back under the key of a hit belongs to the hit. -/
theorem record_of_item
    {all items : List Arrival}
    (alone : HitsAlone unicode request all)
    (accounted : items ⊆ all)
    {arrival : Arrival}
    (member : arrival ∈ items)
    (hit : Hit unicode request arrival)
    {data : Bytes} :
    (storeOf unicode ∅ items)[(recordID arrival).logKey]? = some data ↔
      data = arrival.message := by
  have single := alone arrival (accounted member) hit
  constructor
  · intro read
    obtain ⟨other, present, same, rfl⟩ := exists_item_of_record read
    rw [single other (accounted present) same]
  · rintro rfl
    apply storeOf_logKey member
    intro other present same
    rw [single other (accounted present) same]

/-- The matching records of a database are the messages of its stored hits. -/
theorem matching_record_iff
    {all items : List Arrival}
    (alone : HitsAlone unicode request all)
    (accounted : items ⊆ all)
    {id : LogRecordID}
    {data : Bytes} :
    (Matches request (storeOf unicode ∅ items) id ∧
        (storeOf unicode ∅ items)[id.logKey]? = some data) ↔
      ∃ arrival ∈ items, Hit unicode request arrival ∧ recordID arrival = id ∧
        data = arrival.message := by
  rw [matches_storeOf]
  constructor
  · rintro ⟨⟨arrival, member, hit, rfl⟩, record⟩
    rw [record_of_item alone accounted member hit] at record
    exact ⟨arrival, member, hit, rfl, record⟩
  · rintro ⟨arrival, member, hit, rfl, message⟩
    exact ⟨⟨arrival, member, hit, rfl⟩,
      (record_of_item alone accounted member hit).mpr message⟩

/-- The answer: the matching records of the snapshot that were not read too
early. -/
theorem mem_results_iff
    (reached : Engine.Reaches unicode before engine)
    {events : List SystemEvent}
    {final snapshot : System}
    (admissible : Admissible unicode request (before ++ loopEvents events))
    (invariant : CallInvariant unicode request before engine events final)
    {err : Option ReadError}
    (returned : final.call.point = .returned err)
    (opened : Opened unicode request engine events snapshot)
    {id : LogRecordID}
    {data : Bytes} :
    (id, data) ∈ final.call.state.results ↔
      Matches request snapshot.engine.db id ∧
        snapshot.engine.db[id.logKey]? = some data ∧
        ¬ ReadEarly unicode request engine events id := by
  have point := invariant.point
  rw [returned] at point
  have worked := point.2 snapshot opened
  obtain ⟨items, snapshotDB, _, included⟩ := opened_db reached opened
  have accounted := List.Subset.trans included
    (storedAfter_subset_received unicode _)
  constructor
  · intro result
    have matching := worked.within id data result
    refine ⟨matching, ?_, fun early => ?_⟩
    · rw [snapshotDB, matches_storeOf] at matching
      obtain ⟨arrival, inSnapshot, hit, rfl⟩ := matching
      obtain ⟨owner, stored, _, same, rfl⟩ :=
        invariant.faithful.records _ data result
      obtain rfl := admissible.alone arrival (accounted inSnapshot) hit owner
        (storedAfter_subset_received unicode _ stored) same
      rw [snapshotDB, record_of_item admissible.alone accounted inSnapshot hit]
    · exact (invariant.faithful.early_seen id early).2 data result
  · rintro ⟨matching, record, notEarly⟩
    have seen := (worked.covered id matching).resolve_right List.not_mem_nil
    obtain ⟨found, result⟩ :=
      (invariant.faithful.seen_cases id seen).resolve_left notEarly
    obtain ⟨owner, stored, _, rfl, rfl⟩ := invariant.faithful.records id found result
    rw [snapshotDB, matches_storeOf] at matching
    obtain ⟨arrival, inSnapshot, hit, same⟩ := matching
    obtain rfl := admissible.alone arrival (accounted inSnapshot) hit owner
      (storedAfter_subset_received unicode _ stored) same.symm
    rw [snapshotDB, record_of_item admissible.alone accounted inSnapshot hit] at record
    rwa [record]

/-- What was stored when the call began is never read too early. -/
theorem not_readEarly_of_stored
    (reached : Engine.Reaches unicode before engine)
    {events : List SystemEvent}
    {id : LogRecordID}
    (stored : id.logKey ∈ engine.db) :
    ¬ ReadEarly unicode request engine events id := by
  rintro ⟨moment, entry, rest, ⟨first, after, rfl, ran⟩, _, _, _, absent⟩
  apply absent
  rw [db_eq_storeOf reached ran, logKey_mem_storeOf]
  rw [(represents_ofEvents reached).db, logKey_mem_storeOf] at stored
  obtain ⟨arrival, member, same⟩ := stored
  exact ⟨arrival, (storedAfter_grows before _).subset member, same⟩

/-! ## Exactness -/

/-- For every reachable engine, every term without NUL bytes, every window and
every limit above the number of matching index entries, and for every schedule
of one call beside the flush loop: what is indexed when the call begins is
returned, what is returned is indexed when the call ends, and no record is
returned twice. -/
theorem search_exact
    (unicode : UnicodeTables)
    (before : List LoopEvent)
    (engine : Engine)
    (reached : Engine.Reaches unicode before engine)
    (request : SearchRequest)
    (nulFree : (0x00 : UInt8) ∉ request.term)
    (events : List SystemEvent)
    (final : System)
    (ran : Transition.run (System.step unicode request) (System.start engine) events =
      some final)
    (err : Option ReadError)
    (returned : final.call.point = .returned err)
    (distinct : ((received (before ++ loopEvents events)).map recordID).Nodup)
    (nonnegative : ∀ arrival ∈ received (before ++ loopEvents events),
      0 ≤ arrival.now)
    (room : (indexedIDs final.engine.db request).length < request.effectiveLimit) :
    (∀ id, Matches request engine.db id →
        ∃ data, (id, data) ∈ final.call.state.results ∧
          engine.db[id.logKey]? = some data) ∧
      (∀ id data, (id, data) ∈ final.call.state.results →
        Matches request final.engine.db id ∧
          final.engine.db[id.logKey]? = some data) ∧
      (final.call.state.results.map Prod.fst).Nodup := by
  have alone : HitsAlone unicode request (received (before ++ loopEvents events)) :=
    HitsAlone.of_nodup distinct
  have admissible := admissible_of_room reached ran alone
    (fun hit member _ => Or.inl (nonnegative hit member)) nulFree room
  have invariant := callInvariant reached nulFree ran admissible
  have accounted :=
    storedAfter_subset_received unicode (before ++ loopEvents events)
  have finalDB := db_eq_storeOf reached ran
  refine ⟨fun id matching => ?_, fun id data result => ?_, invariant.faithful.nodup⟩
  · have point := invariant.point
    rw [returned] at point
    obtain ⟨snapshot, opened⟩ := point.1
    obtain ⟨items, snapshotDB, kept, included⟩ := opened_db reached opened
    have startDB : engine.db = storeOf unicode ∅ (storedAfter unicode before) :=
      (represents_ofEvents reached).db
    rw [startDB, matches_storeOf] at matching
    obtain ⟨arrival, stored, hit, rfl⟩ := matching
    have present : (recordID arrival).logKey ∈ engine.db := by
      rw [startDB, logKey_mem_storeOf]
      exact ⟨arrival, stored, rfl⟩
    have itemsAccounted := List.Subset.trans included accounted
    refine ⟨arrival.message, ?_, ?_⟩
    · rw [mem_results_iff reached admissible invariant returned opened, snapshotDB,
        matches_storeOf, record_of_item alone itemsAccounted (kept stored) hit]
      exact ⟨⟨arrival, kept stored, hit, rfl⟩, rfl,
        not_readEarly_of_stored reached present⟩
    · rw [startDB, record_of_item alone
        (List.Subset.trans kept itemsAccounted) stored hit]
  · obtain ⟨arrival, stored, hit, rfl, rfl⟩ :=
      invariant.faithful.records id data result
    rw [finalDB, matches_storeOf, record_of_item alone accounted stored hit]
    exact ⟨⟨arrival, stored, hit, rfl⟩, rfl⟩

/-- A second item with the same token. -/
def laterItem : Arrival where
  now := 8
  packet := .ofString "<34>hello"

/-- Two items are registered and wait for the next flush. -/
def registeredItems : List LoopEvent := iteration helloItem ++ iteration laterItem

/-- A search for their token whose first point read precedes the flush of both
and whose second follows it. -/
def splitSchedule : List SystemEvent :=
  [.search, .search, .loop (.tick true), .search, .search, .search, .search,
    .search, .search]

/-- Whenever the second item is stored, the first one is stored too. -/
def WrittenTogether (moment : System) : Prop :=
  (recordID laterItem).logKey ∈ moment.engine.db →
    Matches (searchFor "hello") moment.engine.db (recordID helloItem) ∧
      moment.engine.db[(recordID helloItem).logKey]? = some helloItem.message

instance (moment : System) : Decidable (WrittenTogether moment) :=
  inferInstanceAs (Decidable (_ → _))

theorem exists_splitSchedule_run :
    ∃ engine final,
      Engine.Reaches asciiTables registeredItems engine ∧
      Transition.run (System.step asciiTables (searchFor "hello"))
        (System.start engine) splitSchedule = some final ∧
      final.call.point = .returned none ∧
      (indexedIDs final.engine.db (searchFor "hello")).length < 10 ∧
      final.call.state.results = [(recordID laterItem, laterItem.message)] ∧
      ∀ steps < 10, ((Transition.run (System.step asciiTables (searchFor "hello"))
        (System.start engine) (splitSchedule.take steps)).all
          fun moment => WrittenTogether moment) = true := by
  obtain ⟨engine, reached, rest⟩ := (Option.any_eq_true _ _).mp
    (by decide +kernel : (Transition.run (Engine.step asciiTables)
      (Engine.start ∅) registeredItems).any (fun engine =>
        (Transition.run (System.step asciiTables (searchFor "hello"))
          (System.start engine) splitSchedule).any (fun final =>
            decide (final.call.point = .returned none ∧
              (indexedIDs final.engine.db (searchFor "hello")).length < 10 ∧
              final.call.state.results =
                [(recordID laterItem, laterItem.message)] ∧
              ∀ steps < 10,
                ((Transition.run (System.step asciiTables (searchFor "hello"))
                  (System.start engine) (splitSchedule.take steps)).all
                    fun moment => WrittenTogether moment) = true))) = true)
  obtain ⟨final, ran, facts⟩ := (Option.any_eq_true _ _).mp rest
  exact ⟨engine, final, reached, ran, of_decide_eq_true facts⟩

theorem search_exact_splitSchedule :
    ∃ engine final, Engine.Reaches asciiTables registeredItems engine ∧
      Transition.run (System.step asciiTables (searchFor "hello"))
        (System.start engine) splitSchedule = some final ∧
      (∀ id, Matches (searchFor "hello") engine.db id →
        ∃ data, (id, data) ∈ final.call.state.results ∧
          engine.db[id.logKey]? = some data) ∧
      (∀ id data, (id, data) ∈ final.call.state.results →
        Matches (searchFor "hello") final.engine.db id ∧
          final.engine.db[id.logKey]? = some data) ∧
      (final.call.state.results.map Prod.fst).Nodup := by
  obtain ⟨engine, final, reached, ran, returned, room, _⟩ := exists_splitSchedule_run
  exact ⟨engine, final, reached, ran, search_exact asciiTables registeredItems
    engine reached (searchFor "hello") (by decide +kernel) splitSchedule final ran
    none returned (by decide +kernel) (by decide +kernel) room⟩

/-! ## One moment -/

section Definitions

variable (unicode : UnicodeTables) (request : SearchRequest)

/-- The results are the matching records of one database the call saw pass. -/
def ReflectsOneMoment (engine : Engine) (events : List SystemEvent)
    (results : List (LogRecordID × Bytes)) : Prop :=
  ∃ moment,
    Transition.Passes (System.step unicode request) (System.start engine) events
        moment ∧
      ∀ id data, (id, data) ∈ results ↔
        Matches request moment.engine.db id ∧
          moment.engine.db[id.logKey]? = some data

/-- Every matching record that was read too early was written after every other
matching record of the snapshot. -/
def EarlyReadsLast (engine : Engine) (events : List SystemEvent) : Prop :=
  ∀ snapshot late kept, Opened unicode request engine events snapshot →
    Matches request snapshot.engine.db late →
    ReadEarly unicode request engine events late →
    Matches request snapshot.engine.db kept →
    ¬ ReadEarly unicode request engine events kept →
    ∃ moment,
      Transition.Passes (System.step unicode request) (System.start engine) events
          moment ∧
        kept.logKey ∈ moment.engine.db ∧ late.logKey ∉ moment.engine.db

end Definitions

/-- A moment whose records are the answer separates the early reads from the
records returned. -/
theorem earlyReadsLast_of_reflects
    (reached : Engine.Reaches unicode before engine)
    {events : List SystemEvent}
    {final : System}
    (admissible : Admissible unicode request (before ++ loopEvents events))
    (invariant : CallInvariant unicode request before engine events final)
    {err : Option ReadError}
    (returned : final.call.point = .returned err)
    (reflects : ReflectsOneMoment unicode request engine events
      final.call.state.results) :
    EarlyReadsLast unicode request engine events := by
  intro snapshot late kept opened lateMatches early keptMatches notEarly
  obtain ⟨moment, passes, same⟩ := reflects
  obtain ⟨items, snapshotDB, _, included⟩ := opened_db reached opened
  have accounted := List.Subset.trans included
    (storedAfter_subset_received unicode _)
  obtain ⟨lateItem, lateStored, lateHit, rfl⟩ :=
    matches_storeOf.mp (snapshotDB ▸ lateMatches)
  obtain ⟨keptItem, keptStored, keptHit, rfl⟩ :=
    matches_storeOf.mp (snapshotDB ▸ keptMatches)
  have keptRecord : snapshot.engine.db[(recordID keptItem).logKey]? =
      some keptItem.message := by
    rw [snapshotDB, record_of_item admissible.alone accounted keptStored keptHit]
  have result := (mem_results_iff reached admissible invariant returned opened).mpr
    ⟨keptMatches, keptRecord, notEarly⟩
  refine ⟨moment, passes, ?_, fun present => ?_⟩
  · rw [OrderedStore.mem_iff_getElem?]
    exact ⟨_, ((same _ _).mp result).2⟩
  · obtain ⟨first, rest, rfl, ran⟩ := passes
    have momentDB := db_eq_storeOf reached ran
    rw [momentDB, logKey_mem_storeOf] at present
    obtain ⟨other, otherStored, sameID⟩ := present
    have momentAccounted := List.Subset.trans
      (stored_grows unicode before first rest).subset
      (storedAfter_subset_received unicode _)
    obtain rfl := admissible.alone lateItem (accounted lateStored) lateHit other
      (momentAccounted otherStored) sameID
    have lateResult := (same (recordID other) other.message).mpr (by
      rw [momentDB, matching_record_iff admissible.alone momentAccounted]
      exact ⟨other, otherStored, lateHit, rfl, rfl⟩)
    exact ((mem_results_iff reached admissible invariant returned opened).mp
      lateResult).2.2 early

/-- Of two prefixes of one schedule, one is a prefix of the other. -/
theorem prefix_total
    {first second rest other : List SystemEvent}
    (same : first ++ rest = second ++ other) :
    first <+: second ∨ second <+: first := by
  have secondPrefix : second <+: first ++ rest := by
    rw [same]
    exact List.prefix_append _ _
  exact List.prefix_or_prefix_of_prefix (List.prefix_append first rest) secondPrefix

theorem stored_subset_of_isPrefix
    {first second : List SystemEvent}
    (isPrefix : first <+: second) :
    storedAfter unicode (before ++ loopEvents first) ⊆
      storedAfter unicode (before ++ loopEvents second) := by
  obtain ⟨rest, rfl⟩ := isPrefix
  exact (stored_grows unicode before first rest).subset

/-- A moment up to the snapshot is the moment of the answer when the stored hits
it has are those that were not read too early. -/
theorem reflects_at
    (reached : Engine.Reaches unicode before engine)
    {toSnapshot fromSnapshot first : List SystemEvent}
    {final snapshot moment : System}
    (admissible : Admissible unicode request
      (before ++ loopEvents (toSnapshot ++ .search :: fromSnapshot)))
    (invariant : CallInvariant unicode request before engine
      (toSnapshot ++ .search :: fromSnapshot) final)
    {err : Option ReadError}
    (returned : final.call.point = .returned err)
    (opened : Opened unicode request engine (toSnapshot ++ .search :: fromSnapshot)
      snapshot)
    (snapshotRan : Transition.run (System.step unicode request)
      (System.start engine) toSnapshot = some snapshot)
    (earlier : first <+: toSnapshot)
    (momentRan : Transition.run (System.step unicode request)
      (System.start engine) first = some moment)
    (keeps : ∀ arrival ∈ storedAfter unicode (before ++ loopEvents toSnapshot),
      Hit unicode request arrival →
        (arrival ∈ storedAfter unicode (before ++ loopEvents first) ↔
          ¬ ReadEarly unicode request engine
            (toSnapshot ++ .search :: fromSnapshot) (recordID arrival))) :
    ReflectsOneMoment unicode request engine
      (toSnapshot ++ .search :: fromSnapshot) final.call.state.results := by
  have snapshotDB := db_eq_storeOf reached snapshotRan
  have momentDB := db_eq_storeOf reached momentRan
  have accounted := List.Subset.trans
    (stored_grows unicode before toSnapshot
      (.search :: fromSnapshot)).subset
    (storedAfter_subset_received unicode _)
  have contained : storedAfter unicode (before ++ loopEvents first) ⊆
      storedAfter unicode (before ++ loopEvents toSnapshot) :=
    stored_subset_of_isPrefix earlier
  refine ⟨moment, ?_, fun id data => ?_⟩
  · obtain ⟨middle, rfl⟩ := earlier
    exact ⟨first, middle ++ .search :: fromSnapshot, by simp, momentRan⟩
  rw [mem_results_iff reached admissible invariant returned opened, ← and_assoc,
    snapshotDB, momentDB, matching_record_iff admissible.alone accounted,
    matching_record_iff admissible.alone (List.Subset.trans contained accounted)]
  constructor
  · rintro ⟨⟨arrival, stored, hit, rfl, message⟩, notEarly⟩
    exact ⟨arrival, (keeps arrival stored hit).mpr notEarly, hit, rfl, message⟩
  · rintro ⟨arrival, stored, hit, rfl, message⟩
    have inSnapshot := contained stored
    exact ⟨⟨arrival, inSnapshot, hit, rfl, message⟩,
      (keeps arrival inSnapshot hit).mp stored⟩

/-- A history after which no hit of the snapshot that was read too early has been
written yet. -/
def Unwritten
    (unicode : UnicodeTables)
    (request : SearchRequest)
    (before : List LoopEvent)
    (engine : Engine)
    (events toSnapshot history : List SystemEvent) : Prop :=
  ∀ arrival ∈ storedAfter unicode (before ++ loopEvents toSnapshot),
    Hit unicode request arrival →
    ReadEarly unicode request engine events (recordID arrival) →
    arrival ∉ storedAfter unicode (before ++ loopEvents history)

theorem unwritten_nil
    (reached : Engine.Reaches unicode before engine)
    (events toSnapshot : List SystemEvent) :
    Unwritten unicode request before engine events toSnapshot [] := by
  intro arrival _ _ early stored
  refine not_readEarly_of_stored reached ?_ early
  rw [(represents_ofEvents reached).db, logKey_mem_storeOf]
  refine ⟨arrival, ?_, rfl⟩
  rwa [loopEvents, List.filterMap_nil, List.append_nil] at stored

/-- The early reads of a snapshot, if it has any, are first written before it. -/
theorem exists_first_write
    (reached : Engine.Reaches unicode before engine)
    {toSnapshot fromSnapshot : List SystemEvent}
    (written : ¬ Unwritten unicode request before engine
      (toSnapshot ++ fromSnapshot) toSnapshot (toSnapshot ++ fromSnapshot)) :
    ∃ first event rest late,
      toSnapshot ++ fromSnapshot = first ++ event :: rest ∧
      first <+: toSnapshot ∧
      Unwritten unicode request before engine (toSnapshot ++ fromSnapshot) toSnapshot
        first ∧
      late ∈ storedAfter unicode (before ++ loopEvents toSnapshot) ∧
      Hit unicode request late ∧
      ReadEarly unicode request engine (toSnapshot ++ fromSnapshot) (recordID late) ∧
      late ∈ storedAfter unicode (before ++ loopEvents (first ++ [event])) := by
  obtain ⟨first, event, rest, split, unwritten, broken⟩ :=
    Transition.exists_crossing (unwritten_nil reached _ toSnapshot) written
  simp only [Unwritten, not_forall, not_not] at broken
  obtain ⟨late, lateStored, lateHit, lateEarly, lateWritten⟩ := broken
  refine ⟨first, event, rest, late, split, ?_, unwritten, lateStored, lateHit,
    lateEarly, lateWritten⟩
  refine (prefix_total split.symm).resolve_right fun longer => ?_
  exact unwritten late lateStored lateHit lateEarly
    (stored_subset_of_isPrefix longer lateStored)

/-- A moment that has one hit of the snapshot but not another, later one puts the
first hit before the event that writes the other. -/
theorem stored_before_first_write
    (reached : Engine.Reaches unicode before engine)
    {toSnapshot fromSnapshot first rest : List SystemEvent}
    {event : SystemEvent}
    (alone : HitsAlone unicode request
      (received (before ++ loopEvents (toSnapshot ++ fromSnapshot))))
    (split : toSnapshot ++ fromSnapshot = first ++ event :: rest)
    (earlier : first <+: toSnapshot)
    {arrival late : Arrival}
    (stored : arrival ∈ storedAfter unicode (before ++ loopEvents toSnapshot))
    (hit : Hit unicode request arrival)
    (lateWritten : late ∈ storedAfter unicode (before ++ loopEvents (first ++ [event])))
    {between : System}
    (passes : Transition.Passes (System.step unicode request) (System.start engine)
      (toSnapshot ++ fromSnapshot) between)
    (kept : (recordID arrival).logKey ∈ between.engine.db)
    (lateAbsent : (recordID late).logKey ∉ between.engine.db) :
    arrival ∈ storedAfter unicode (before ++ loopEvents first) := by
  obtain ⟨toBetween, fromBetween, splitBetween, betweenRan⟩ := passes
  rw [db_eq_storeOf reached betweenRan, logKey_mem_storeOf] at kept lateAbsent
  obtain ⟨owner, ownerStored, same⟩ := kept
  have notBeyond : ¬ first ++ [event] <+: toBetween := fun longer =>
    lateAbsent ⟨late, stored_subset_of_isPrefix longer lateWritten, rfl⟩
  have upToFirst : toBetween <+: first := by
    have joined : first ++ [event] ++ rest = toBetween ++ fromBetween := by
      rw [← splitBetween, split, List.append_assoc, List.singleton_append]
    have shorter := (prefix_total joined).resolve_left notBeyond
    rcases List.prefix_concat_iff.mp shorter with rfl | within
    · exact absurd List.prefix_rfl notBeyond
    · exact within
  have ownerFirst := stored_subset_of_isPrefix upToFirst ownerStored
  have accounted : storedAfter unicode (before ++ loopEvents toSnapshot) ⊆
      received (before ++ loopEvents (toSnapshot ++ fromSnapshot)) :=
    List.Subset.trans (stored_grows unicode before toSnapshot fromSnapshot).subset
      (storedAfter_subset_received unicode _)
  obtain rfl := alone arrival (accounted stored) hit owner
    (accounted (stored_subset_of_isPrefix earlier ownerFirst)) same
  exact ownerFirst

/-- When the early reads were written last, the moment before the first of them
was written is the moment of the answer. -/
theorem reflects_of_earlyReadsLast
    (reached : Engine.Reaches unicode before engine)
    {events : List SystemEvent}
    {final : System}
    (ran : Transition.run (System.step unicode request) (System.start engine) events =
      some final)
    (admissible : Admissible unicode request (before ++ loopEvents events))
    (invariant : CallInvariant unicode request before engine events final)
    {err : Option ReadError}
    (returned : final.call.point = .returned err)
    (last : EarlyReadsLast unicode request engine events) :
    ReflectsOneMoment unicode request engine events final.call.state.results := by
  have point := invariant.point
  rw [returned] at point
  obtain ⟨snapshot, opened⟩ := point.1
  have position := opened
  obtain ⟨⟨toSnapshot, fromSnapshot, rfl, snapshotRan⟩, _⟩ := position
  have matching : ∀ item ∈ storedAfter unicode (before ++ loopEvents toSnapshot),
      Hit unicode request item → Matches request snapshot.engine.db (recordID item) := by
    intro item itemStored itemHit
    rw [db_eq_storeOf reached snapshotRan, matches_storeOf]
    exact ⟨item, itemStored, itemHit, rfl⟩
  by_cases never : Unwritten unicode request before engine
    (toSnapshot ++ .search :: fromSnapshot) toSnapshot
    (toSnapshot ++ .search :: fromSnapshot)
  · -- No record of the snapshot was read too early: its own moment will do.
    refine reflects_at reached admissible invariant returned opened snapshotRan
      List.prefix_rfl snapshotRan fun arrival stored hit => ?_
    exact iff_of_true stored fun early => never arrival stored hit early
      ((stored_grows unicode before toSnapshot _).subset stored)
  · obtain ⟨first, event, rest, late, split, earlier, unwritten, lateStored, lateHit,
      lateEarly, lateWritten⟩ := exists_first_write reached never
    obtain ⟨moment, momentRan, _⟩ :=
      Transition.run_append_eq_some.mp (split ▸ ran)
    refine reflects_at reached admissible invariant returned opened snapshotRan
      earlier momentRan fun arrival stored hit => ⟨?_, fun notEarly => ?_⟩
    · exact fun written early => unwritten arrival stored hit early written
    · obtain ⟨between, passes, kept, lateAbsent⟩ := last snapshot (recordID late)
        (recordID arrival) opened (matching late lateStored lateHit) lateEarly
        (matching arrival stored hit) notEarly
      exact stored_before_first_write reached admissible.alone split earlier stored hit
        lateWritten passes kept lateAbsent

/-- For every reachable engine, every term without NUL bytes, every window and
every limit above the number of matching index entries, and for every schedule
of one call beside the flush loop in which hits keep their record keys and are
reached by a scan: the answer is that of a single moment of the call exactly when
the matching records that were read too early were written after the other
matching records of the snapshot. -/
theorem reflectsOneMoment_iff
    (unicode : UnicodeTables)
    (before : List LoopEvent)
    (engine : Engine)
    (reached : Engine.Reaches unicode before engine)
    (request : SearchRequest)
    (nulFree : (0x00 : UInt8) ∉ request.term)
    (events : List SystemEvent)
    (final : System)
    (ran : Transition.run (System.step unicode request) (System.start engine) events =
      some final)
    (err : Option ReadError)
    (returned : final.call.point = .returned err)
    (alone : HitsAlone unicode request (received (before ++ loopEvents events)))
    (unblocked : HitsReached unicode request (received (before ++ loopEvents events)))
    (room : (indexedIDs final.engine.db request).length < request.effectiveLimit) :
    ReflectsOneMoment unicode request engine events final.call.state.results ↔
      EarlyReadsLast unicode request engine events := by
  have admissible := admissible_of_room reached ran alone unblocked nulFree room
  have invariant := callInvariant reached nulFree ran admissible
  exact ⟨earlyReadsLast_of_reflects reached admissible invariant returned,
    reflects_of_earlyReadsLast reached ran admissible invariant returned⟩

theorem reflectsOneMoment_iff_splitSchedule :
    ∃ engine final, Engine.Reaches asciiTables registeredItems engine ∧
      Transition.run (System.step asciiTables (searchFor "hello"))
        (System.start engine) splitSchedule = some final ∧
      (ReflectsOneMoment asciiTables (searchFor "hello") engine splitSchedule
          final.call.state.results ↔
        EarlyReadsLast asciiTables (searchFor "hello") engine splitSchedule) := by
  obtain ⟨engine, final, reached, ran, returned, room, _⟩ := exists_splitSchedule_run
  exact ⟨engine, final, reached, ran, reflectsOneMoment_iff asciiTables
    registeredItems engine reached (searchFor "hello") (by decide +kernel)
    splitSchedule final ran none returned (by decide +kernel) (by decide +kernel)
    room⟩

/-- The two items of `splitSchedule` are written at once, but only the second is
returned. -/
theorem split_batch_returned :
    ¬ ∀ before engine request events final err,
      Engine.Reaches asciiTables before engine →
      (0x00 : UInt8) ∉ request.term →
      Transition.run (System.step asciiTables request) (System.start engine) events =
        some final →
      final.call.point = .returned err →
      ((received (before ++ loopEvents events)).map recordID).Nodup →
      (∀ arrival ∈ received (before ++ loopEvents events), 0 ≤ arrival.now) →
      (indexedIDs final.engine.db request).length < request.effectiveLimit →
      ReflectsOneMoment asciiTables request engine events
        final.call.state.results := by
  intro claim
  obtain ⟨engine, final, reached, ran, returned, room, results, together⟩ :=
    exists_splitSchedule_run
  obtain ⟨moment, ⟨first, rest, split, momentRan⟩, same⟩ :=
    claim registeredItems engine (searchFor "hello") splitSchedule final none
      reached (by decide +kernel) ran returned (by decide +kernel)
      (by decide +kernel) room
  have returnedLater : (recordID laterItem, laterItem.message) ∈
      final.call.state.results := by
    rw [results]
    exact List.mem_cons_self
  have laterStored : (recordID laterItem).logKey ∈ moment.engine.db := by
    rw [OrderedStore.mem_iff_getElem?]
    exact ⟨_, ((same _ _).mp returnedLater).2⟩
  have steps : first.length < 10 := by
    have lengths := congrArg List.length split
    simp only [splitSchedule, List.length_cons, List.length_nil,
      List.length_append] at lengths
    omega
  have current := together first.length steps
  rw [split, List.take_left, momentRan, Option.all_some, decide_eq_true_eq] at current
  have returnedBoth := (same _ _).mpr (current laterStored)
  rw [results] at returnedBoth
  exact absurd returnedBoth (by decide +kernel)

end Server
end Chronolog
