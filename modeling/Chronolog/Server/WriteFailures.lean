import Chronolog.Server.Durability

/-!
# Failed batch writes

`flush` resets the batch whether or not the write succeeded, while the memory
index keeps the postings of the dropped items.  A run loses nothing exactly
when every write that fails had nothing new in its batch, and every write that
succeeds leaves no two messages to one record key.
-/

namespace Chronolog
namespace Server

open Pipeline Search Storage

section Statement

variable (unicode : UnicodeTables)

/-- Every put of an item can be read back. -/
def Stored (db : DB) (arrival : Arrival) : Prop :=
  ∀ key value, (key, value) ∈ puts unicode arrival → db[key]? = some value

instance (db : DB) (arrival : Arrival) : Decidable (Stored unicode db arrival) :=
  decidable_of_iff (∀ put ∈ puts unicode arrival, db[put.1]? = some put.2)
    ⟨fun stored key value put => stored (key, value) put,
      fun stored put member => stored put.1 put.2 member⟩

/-- The record of an item is in the batch, and each of its index keys is there
or is about to be put. -/
def Pending (engine : Engine) (arrival : Arrival) : Prop :=
  ((recordID arrival).logKey, arrival.message) ∈ engine.batch ∧
    ∀ term ∈ arrival.tokens unicode,
      ((recordID arrival).indexKey term, []) ∈ engine.batch ∨
        (recordID arrival).indexKey term ∈ engine.point.remaining

/-- Every received item is stored or pending, and every posting refers to a
record that is stored or pending. -/
structure NothingLost (events : List LoopEvent) (engine : Engine) : Prop where
  items : ∀ arrival ∈ received events,
    Stored unicode engine.db arrival ∨ Pending unicode engine arrival
  postings : ∀ term, ∀ entry ∈ engine.memIndex.postings term,
    entry.id.logKey ∈ engine.db ∨ entry.id.logKey ∈ engine.batch.map Prod.fst

/-- No batch write that a run performs fails. -/
def WritesSucceed (start : Engine) (events : List LoopEvent) : Prop :=
  ∀ moment event,
    Transition.Performs (Engine.step unicode) start events moment event →
      moment.writeOutcome event ≠ some false

/-- Items of one record key carry one message. -/
def Agree (items : List Arrival) : Prop :=
  ∀ first ∈ items, ∀ second ∈ items, recordID first = recordID second →
    first.message = second.message

/-- A write that loses nothing: it succeeds, and the items received so far agree,
or it fails, and all its puts are in the database already. -/
def Preserves (history : List LoopEvent) (moment : Engine) (written : Bool) : Prop :=
  if written then Agree (received history)
  else ∀ put ∈ moment.batch, moment.db[put.1]? = some put.2

/-- Every batch write that a run performs loses nothing. -/
def WritesPreserve (start : Engine) (events : List LoopEvent) : Prop :=
  ∀ before event after moment written, events = before ++ event :: after →
    Transition.run (Engine.step unicode) start before = some moment →
    moment.writeOutcome event = some written → Preserves before moment written

end Statement

variable {unicode : UnicodeTables} {base : DB}

theorem WritesSucceed.concat
    {start state : Engine}
    {before : List LoopEvent}
    {event : LoopEvent}
    (succeed : WritesSucceed unicode start before)
    (reached : Transition.run (Engine.step unicode) start before = some state)
    (succeeds : state.writeOutcome event ≠ some false) :
    WritesSucceed unicode start (before ++ [event]) := by
  intro moment other performed
  rcases Transition.performs_of_concat performed with earlier | ⟨rfl, current⟩
  · exact succeed moment other earlier
  · obtain rfl : state = moment := Option.some.inj (reached.symm.trans current)
    exact succeeds

/-! ## Without failures everything is stored or waits -/

/-- A step without a write stores nothing, and what it receives waits. -/
theorem Represents.noWrite_step
    {engine next : Engine}
    {ledger : Ledger}
    {event : LoopEvent}
    (represents : Represents unicode base engine ledger)
    (stepped : engine.step unicode event = some next)
    (noRestart : event ≠ .restart)
    (outcome : engine.writeOutcome event = none) :
    (ledger.step unicode event).stored = ledger.stored ∧
      (ledger.step unicode event).pending ++
          (ledger.step unicode event).current.toList =
        ledger.pending ++ ledger.current.toList ++ received [event] := by
  cases event with
  | receive arrival =>
      obtain ⟨point, _⟩ := Engine.step_receive stepped
      have current := (represents.idle_batch (by simp [point])).1
      simp [Ledger.step, Ledger.receive, current, received]
  | register => exact ⟨rfl, (List.append_nil _).symm⟩
  | endItem written =>
      obtain ⟨point, _⟩ := Engine.step_endItem stepped
      have small : ¬ maxBatchSize ≤ engine.batchSize := by
        intro large
        have positive : engine.batchSize ≠ 0 := by
          unfold maxBatchSize at large
          omega
        simp [Engine.writeOutcome, large, positive] at outcome
      rw [Ledger.step, represents.endItem_size point, if_neg small]
      simp [Ledger.endItem, received]
  | tick written =>
      obtain ⟨point, _⟩ := Engine.step_tick stepped
      have empty : engine.batchSize = 0 := by
        simpa [Engine.writeOutcome] using outcome
      have noPending := represents.pending_eq_nil (by simp [point]) empty
      simp [Ledger.step, Ledger.flush, noPending, received]
  | signal written =>
      obtain ⟨point, _⟩ := Engine.step_signal stepped
      have empty : engine.batchSize = 0 := by
        simpa [Engine.writeOutcome] using outcome
      have noPending := represents.pending_eq_nil (by simp [point]) empty
      simp [Ledger.step, Ledger.flush, noPending, received]
  | restart => exact absurd rfl noRestart

/-- Every received item is stored, waits in the batch, or is in hand. -/
def Ledger.Complete (ledger : Ledger) : Prop :=
  ledger.received = ledger.stored ++ (ledger.pending ++ ledger.current.toList)

theorem Ledger.Complete.step
    {engine next : Engine}
    {ledger : Ledger}
    {event : LoopEvent}
    (complete : ledger.Complete)
    (represents : Represents unicode base engine ledger)
    (stepped : engine.step unicode event = some next)
    (noRestart : event ≠ .restart)
    (succeeds : engine.writeOutcome event ≠ some false) :
    (ledger.step unicode event).Complete := by
  unfold Complete at complete ⊢
  cases outcome : engine.writeOutcome event with
  | some written =>
      obtain ⟨_, stored, pending, current⟩ := represents.write_step stepped outcome
      have success : written = true := by
        cases written with
        | true => rfl
        | false => exact absurd outcome succeeds
      rw [stored, pending, current, if_pos success, Ledger.received_step,
        Engine.received_of_writeOutcome outcome, complete]
      simp
  | none =>
      obtain ⟨stored, waiting⟩ := represents.noWrite_step stepped noRestart outcome
      rw [Ledger.received_step, complete, stored, waiting, List.append_assoc]

/-- Without restarts and failed writes the ledger is complete. -/
theorem complete_ofEvents
    {events : List LoopEvent}
    {engine : Engine}
    (reached : Transition.run (Engine.step unicode) (Engine.start base) events =
      some engine)
    (noRestart : LoopEvent.restart ∉ events)
    (succeed : WritesSucceed unicode (Engine.start base) events) :
    (Ledger.ofEvents unicode events).Complete := by
  have meets : ∀ moment event,
      Transition.Performs (Engine.step unicode) (Engine.start base) events moment event →
        event ≠ .restart ∧ moment.writeOutcome event ≠ some false := by
    intro moment event performed
    refine ⟨?_, succeed moment event performed⟩
    rintro rfl
    exact noRestart (Transition.mem_of_performs performed)
  refine Transition.run_history_meeting
    (fun history _ => (Ledger.ofEvents unicode history).Complete) rfl ?_ reached meets
  rintro history state event next before complete ⟨continues, succeeds⟩ stepped
  rw [Ledger.ofEvents_concat]
  exact complete.step (represents_ofEvents before) stepped continues succeeds

/-! ## What stored and waiting items look like -/

/-- Two puts of one key by items that agree carry one value. -/
theorem puts_value_unique
    {items : List Arrival}
    (agree : Agree items)
    {first second : Arrival}
    (firstMember : first ∈ items)
    (secondMember : second ∈ items)
    {key value other : Bytes}
    (firstPut : (key, value) ∈ puts unicode first)
    (secondPut : (key, other) ∈ puts unicode second) :
    other = value := by
  rcases mem_puts.mp firstPut with ⟨rfl, rfl⟩ | ⟨⟨term, _, rfl⟩, rfl⟩
  · obtain ⟨same, rfl⟩ := logKey_mem_puts.mp secondPut
    exact agree second secondMember first firstMember same
  · exact (indexKey_mem_puts.mp secondPut).2.2

/-- Writing items that agree stores them and keeps what is stored. -/
theorem stored_write
    {db : DB}
    {items waiting : List Arrival}
    (agree : Agree items)
    (included : waiting ⊆ items)
    {arrival : Arrival}
    (member : arrival ∈ items)
    (kept : Stored unicode db arrival ∨ arrival ∈ waiting) :
    Stored unicode (OrderedStore.write db (waiting.flatMap (puts unicode))) arrival := by
  intro key value put
  by_cases written : key ∈ (waiting.flatMap (puts unicode)).map Prod.fst
  · apply OrderedStore.getElem?_write_of_mem _ _ _ _ written
    intro other otherPut
    obtain ⟨second, secondWaits, secondPut⟩ := List.mem_flatMap.mp otherPut
    exact puts_value_unique agree member (included secondWaits) put secondPut
  · rw [OrderedStore.getElem?_write_of_notMem _ _ _ written]
    refine kept.elim (fun stored => stored key value put) fun waits => ?_
    exact absurd (List.mem_map.mpr
      ⟨(key, value), List.mem_flatMap.mpr ⟨arrival, waits, put⟩, rfl⟩) written

/-- The items that wait are pending in the engine. -/
theorem Represents.pending_of_waiting
    {engine : Engine}
    {ledger : Ledger}
    (represents : Represents unicode base engine ledger)
    {arrival : Arrival}
    (waiting : arrival ∈ ledger.pending ++ ledger.current.toList) :
    Pending unicode engine arrival := by
  obtain ⟨handled, agrees, batch, _⟩ := represents.inHand
  rcases List.mem_append.mp waiting with pending | inHand
  · have whole : ∀ key value, (key, value) ∈ puts unicode arrival →
        (key, value) ∈ engine.batch := by
      intro key value put
      rw [batch]
      exact List.mem_append_left _
        (List.mem_flatMap.mpr ⟨arrival, pending, put⟩)
    refine ⟨whole _ _ (logKey_mem_puts.mpr ⟨rfl, rfl⟩), fun term token => ?_⟩
    exact Or.inl (whole _ _ (indexKey_mem_puts.mpr ⟨rfl, token, rfl⟩))
  · have current : ledger.current = some arrival := by
      simpa using inHand
    cases point : engine.point with
    | registering remaining =>
        rw [point] at agrees
        obtain ⟨other, sameCurrent, termKeys⟩ := agrees
        obtain rfl : arrival = other :=
          Option.some.inj (current.symm.trans sameCurrent)
        rw [current, partialPuts, item_logKey] at batch
        constructor
        · rw [batch]
          exact List.mem_append_right _ List.mem_cons_self
        · intro term token
          have key : (recordID arrival).indexKey term ∈ handled ++ remaining := by
            rw [← termKeys]
            exact mem_termKeys.mpr ⟨term, token, rfl⟩
          refine (List.mem_append.mp key).imp ?_ ?_
          · intro done
            rw [batch]
            refine List.mem_append_right _ (List.mem_cons_of_mem _ ?_)
            exact List.mem_map.mpr ⟨_, done, rfl⟩
          · intro waits
            rwa [point]
    | select =>
        rw [point] at agrees
        exact absurd (current.symm.trans agrees.1) (by simp)
    | stopped =>
        rw [point] at agrees
        exact absurd (current.symm.trans agrees.1) (by simp)

/-- Every received item is stored, or waits. -/
def Kept
    (unicode : UnicodeTables)
    (events : List LoopEvent)
    (engine : Engine)
    (ledger : Ledger) : Prop :=
  ∀ arrival ∈ received events, Stored unicode engine.db arrival ∨
    arrival ∈ ledger.pending ++ ledger.current.toList

theorem nothingLost_of_kept
    {events : List LoopEvent}
    {engine : Engine}
    (represents :
      Represents unicode base engine (Ledger.ofEvents unicode events))
    (kept : Kept unicode events engine (Ledger.ofEvents unicode events)) :
    NothingLost unicode events engine := by
  have items : ∀ arrival ∈ received events,
      Stored unicode engine.db arrival ∨ Pending unicode engine arrival :=
    fun arrival member => (kept arrival member).imp_right represents.pending_of_waiting
  refine ⟨items, fun term entry posted => ?_⟩
  obtain ⟨arrival, registered, _, same⟩ := represents.exists_item_of_posting posted
  have member := Ledger.registered_subset _ registered
  rw [Ledger.received_ofEvents] at member
  rw [← same]
  refine (items arrival member).imp ?_ ?_
  · intro stored
    rw [OrderedStore.mem_iff_getElem?]
    exact ⟨_, stored _ _ (logKey_mem_puts.mpr ⟨rfl, rfl⟩)⟩
  · intro pending
    exact List.mem_map.mpr ⟨_, pending.1, rfl⟩

/-! ## What a write keeps and what it loses -/

section Step

variable {history : List LoopEvent} {state next : Engine} {event : LoopEvent}

theorem waiting_subset_received (events : List LoopEvent) :
    (Ledger.ofEvents unicode events).pending ++
        (Ledger.ofEvents unicode events).current.toList ⊆ received events := by
  have sublist := (Ledger.ofEvents unicode events).accounted
  rw [Ledger.received_ofEvents, List.append_assoc] at sublist
  exact ((List.sublist_append_right _ _).trans sublist).subset

/-- The database after a successful write. -/
theorem db_of_write
    (before : Transition.run (Engine.step unicode) (Engine.start base) history =
      some state)
    (stepped : state.step unicode event = some next)
    {written : Bool}
    (outcome : state.writeOutcome event = some written) :
    next.db = if written then state.db.write state.batch else state.db := by
  have represents := represents_ofEvents before
  obtain ⟨batch, stored, _⟩ := represents.write_step stepped outcome
  rw [(represents.step stepped).db, stored, represents.db, batch]
  cases written with
  | true =>
      rw [if_pos rfl, if_pos rfl, storeOf, storeOf, ← OrderedStore.write_append,
        ← List.flatMap_append]
  | false => rfl

/-- A step whose write, if any, preserves keeps every received item. -/
theorem Kept.step
    (before : Transition.run (Engine.step unicode) (Engine.start base) history =
      some state)
    (kept : Kept unicode history state (Ledger.ofEvents unicode history))
    (stepped : state.step unicode event = some next)
    (noRestart : event ≠ .restart)
    (preserves : ∀ written, state.writeOutcome event = some written →
      Preserves history state written) :
    Kept unicode (history ++ [event]) next
      (Ledger.ofEvents unicode (history ++ [event])) := by
  have represents := represents_ofEvents before
  intro arrival member
  rw [received_append] at member
  rw [Ledger.ofEvents_concat]
  cases outcome : state.writeOutcome event with
  | none =>
      obtain ⟨stored, waiting⟩ := represents.noWrite_step stepped noRestart outcome
      have sameDB : next.db = state.db := by
        rw [(represents.step stepped).db, stored, represents.db]
      rw [waiting, sameDB]
      rcases List.mem_append.mp member with earlier | new
      · exact (kept arrival earlier).imp_right (List.mem_append_left _)
      · exact Or.inr (List.mem_append_right _ new)
  | some written =>
      rw [Engine.received_of_writeOutcome outcome, List.append_nil] at member
      have batch := (represents.write_step stepped outcome).1
      have waits := kept arrival member
      left
      rw [db_of_write before stepped outcome]
      cases written with
      | true =>
          rw [if_pos rfl, batch]
          exact stored_write (preserves true outcome) (waiting_subset_received history)
            member waits
      | false =>
          refine waits.elim (fun stored => stored) fun waiting key value put => ?_
          refine preserves false outcome (key, value) ?_
          rw [batch]
          exact List.mem_flatMap.mpr ⟨arrival, waiting, put⟩

/-- After a write that loses nothing, every item received so far is stored. -/
theorem stored_of_nothingLost
    (before : Transition.run (Engine.step unicode) (Engine.start base) history =
      some state)
    (stepped : state.step unicode event = some next)
    {written : Bool}
    (outcome : state.writeOutcome event = some written)
    (nothingLost : NothingLost unicode (history ++ [event]) next)
    {arrival : Arrival}
    (member : arrival ∈ received history) : Stored unicode next.db arrival := by
  have represents := represents_ofEvents before
  obtain ⟨_, _, pending, current⟩ := represents.write_step stepped outcome
  obtain ⟨handled, _, nextBatch, _⟩ := (represents.step stepped).inHand
  have emptyBatch : next.batch = [] := by
    rw [nextBatch, current, Ledger.pendingPuts, pending]
    rfl
  have kept : arrival ∈ received (history ++ [event]) := by
    rw [received_append]
    exact List.mem_append_left _ member
  refine (nothingLost.items arrival kept).resolve_right fun isPending => ?_
  have impossible := isPending.1
  rw [emptyBatch] at impossible
  exact List.not_mem_nil impossible

/-- A write that loses nothing preserves. -/
theorem preserves_of_nothingLost
    (before : Transition.run (Engine.step unicode) (Engine.start base) history =
      some state)
    (stepped : state.step unicode event = some next)
    {written : Bool}
    (outcome : state.writeOutcome event = some written)
    (nothingLost : NothingLost unicode (history ++ [event]) next) :
    Preserves history state written := by
  have stored : ∀ arrival ∈ received history, Stored unicode next.db arrival :=
    fun _ => stored_of_nothingLost before stepped outcome nothingLost
  cases written with
  | true =>
      intro first firstMember second secondMember same
      have firstRecord := stored first firstMember _ _ (logKey_mem_puts.mpr ⟨rfl, rfl⟩)
      have secondRecord := stored second secondMember _ _
        (logKey_mem_puts.mpr ⟨same.symm, rfl⟩)
      exact Option.some.inj (firstRecord.symm.trans secondRecord)
  | false =>
      intro put member
      rw [((represents_ofEvents before).write_step stepped outcome).1] at member
      obtain ⟨arrival, waiting, put⟩ := List.mem_flatMap.mp member
      have record := stored arrival (waiting_subset_received history waiting) _ _ put
      rwa [db_of_write before stepped outcome] at record

end Step

/-- A process loses nothing in any state of its run exactly when every write it
performs preserves. -/
theorem nothingLost_iff_writesPreserve
    (unicode : UnicodeTables)
    (base : DB)
    (events : List LoopEvent)
    (engine : Engine)
    (reached : Transition.run (Engine.step unicode) (Engine.start base) events =
      some engine)
    (noRestart : LoopEvent.restart ∉ events) :
    (∀ before after moment, events = before ++ after →
        Transition.run (Engine.step unicode) (Engine.start base) before =
          some moment →
        NothingLost unicode before moment) ↔
      WritesPreserve unicode (Engine.start base) events := by
  constructor
  · rintro everywhere before event after moment written rfl current outcome
    obtain ⟨next, stepped⟩ := Transition.exists_step_of_performs reached current
    exact preserves_of_nothingLost current stepped outcome
      (everywhere (before ++ [event]) after next (by simp)
        (Transition.run_concat_eq_some.mpr ⟨moment, current, stepped⟩))
  · rintro preserve before after moment rfl current
    refine nothingLost_of_kept (represents_ofEvents current) ?_
    rw [List.mem_append, not_or] at noRestart
    refine Transition.run_history (fun history state =>
      (∃ rest, before = history ++ rest) →
        Kept unicode history state (Ledger.ofEvents unicode history))
      (fun _ _ member => absurd member List.not_mem_nil) ?_ current ⟨[], by simp⟩
    rintro history state event next reachedState kept stepped ⟨rest, rfl⟩
    refine (kept ⟨event :: rest, by simp⟩).step reachedState stepped ?_ ?_
    · rintro rfl
      exact noRestart.1 (by simp)
    · intro written outcome
      exact preserve history event (rest ++ after) state written (by simp)
        reachedState outcome

/-- One iteration and the next tick's write. -/
def oneItemRun (written : Bool) : List LoopEvent :=
  iteration helloItem ++ [.tick written]

theorem nothingLost_iff_writesPreserve_oneItemRun :
    (∀ before after moment, oneItemRun true = before ++ after →
        Transition.run (Engine.step asciiTables) (Engine.start ∅) before =
          some moment →
        NothingLost asciiTables before moment) ↔
      WritesPreserve asciiTables (Engine.start ∅) (oneItemRun true) := by
  obtain ⟨engine, reached⟩ := Option.isSome_iff_exists.mp
    (by decide +kernel : (Transition.run (Engine.step asciiTables)
      (Engine.start ∅) (oneItemRun true)).isSome = true)
  exact nothingLost_iff_writesPreserve asciiTables ∅ (oneItemRun true) engine
    reached (by simp [oneItemRun, iteration])

/-- The item of a failed write is in no database and in no batch. -/
theorem failed_write_loses_item :
    ¬ ∀ events engine, Engine.Reaches asciiTables events engine →
      LoopEvent.restart ∉ events → ((received events).map recordID).Nodup →
        NothingLost asciiTables events engine := by
  intro claim
  obtain ⟨engine, reached⟩ := Option.isSome_iff_exists.mp
    (by decide +kernel : (Transition.run (Engine.step asciiTables)
      (Engine.start ∅) (oneItemRun false)).isSome = true)
  have final : (Transition.run (Engine.step asciiTables) (Engine.start ∅)
      (oneItemRun false)).map (fun engine =>
        (engine.db[(recordID helloItem).logKey]?, engine.batch)) =
          some (none, []) := by
    decide +kernel
  rw [reached, Option.map_some, Option.some.injEq, Prod.mk.injEq] at final
  have nothingLost := claim (oneItemRun false) engine reached
    (by simp [oneItemRun, iteration]) (by decide +kernel)
  rcases nothingLost.items helloItem (by simp [oneItemRun, iteration, received]) with
    readable | isPending
  · have present := readable _ _ (logKey_mem_puts.mpr ⟨rfl, rfl⟩)
    exact absurd (final.1.symm.trans present) (by simp)
  · have impossible := isPending.1
    rw [final.2] at impossible
    exact absurd impossible (by simp)

end Server
end Chronolog
