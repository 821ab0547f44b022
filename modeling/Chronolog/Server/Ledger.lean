import Chronolog.Server.FlushLoop

/-!
# The ledger of items

An abstract account of the flush loop: which items were received, which are
stored, which wait in the pending batch, and which are registered in the memory
index of the running process.  The engine's database, batch and memory index
are shown to be functions of the ledger at every point of every run.
-/

namespace Chronolog
namespace Server

open Pipeline Search Storage

/-- The puts of one item, the raw record first. -/
def puts (unicode : UnicodeTables) (arrival : Arrival) : List (Bytes × Bytes) :=
  ((arrival.item unicode).logKey, (arrival.item unicode).logValue) ::
    (arrival.item unicode).termKeys.map fun idxKey => (idxKey, [])

/-- Where every received item stands.  An item is in at most one of the stored
list, the pending batch and the loop's hands; what left all three was lost. -/
structure Ledger where
  received : List Arrival
  stored : List Arrival
  pending : List Arrival
  current : Option Arrival
  live : List Arrival
  accounted : (stored ++ pending ++ current.toList).Sublist received
  registered : (live ++ current.toList).Sublist received

namespace Ledger

/-- Nothing received yet. -/
def start : Ledger where
  received := []
  stored := []
  pending := []
  current := none
  live := []
  accounted := .slnil
  registered := .slnil

/-- The pending items are stored, or lost when the write fails. -/
def flush (ledger : Ledger) (written : Bool) : Ledger where
  received := ledger.received
  stored := if written then ledger.stored ++ ledger.pending else ledger.stored
  pending := []
  current := ledger.current
  live := ledger.live
  accounted := by
    refine List.Sublist.trans ?_ ledger.accounted
    split
    · simp
    · rw [List.append_nil]
      exact (List.sublist_append_left _ _).append (List.Sublist.refl _)
  registered := ledger.registered

/-- The item in hand joins the pending batch. -/
def endItem (ledger : Ledger) : Ledger where
  received := ledger.received
  stored := ledger.stored
  pending := ledger.pending ++ ledger.current.toList
  current := none
  live := ledger.live ++ ledger.current.toList
  accounted := by simpa using ledger.accounted
  registered := by simpa using ledger.registered

/-- A new item is taken in hand. -/
def receive (ledger : Ledger) (arrival : Arrival) : Ledger where
  received := ledger.received ++ [arrival]
  stored := ledger.stored
  pending := ledger.pending
  current := some arrival
  live := ledger.live
  accounted :=
    ((List.sublist_append_left _ _).trans ledger.accounted).append
      (List.Sublist.refl _)
  registered :=
    ((List.sublist_append_left _ _).trans ledger.registered).append
      (List.Sublist.refl _)

/-- The process is replaced: only the stored items remain. -/
def restart (ledger : Ledger) : Ledger where
  received := ledger.received
  stored := ledger.stored
  pending := []
  current := none
  live := []
  accounted := by
    simpa using (List.sublist_append_left _ _).trans
      ((List.sublist_append_left _ _).trans ledger.accounted)
  registered := by simp

theorem stored_subset (ledger : Ledger) : ledger.stored ⊆ ledger.received :=
  ((List.sublist_append_left _ _).trans
    ((List.sublist_append_left _ _).trans ledger.accounted)).subset

theorem registered_subset (ledger : Ledger) :
    ledger.live ++ ledger.current.toList ⊆ ledger.received :=
  ledger.registered.subset

variable (unicode : UnicodeTables)

/-- The puts of the pending items. -/
def pendingPuts (ledger : Ledger) : List (Bytes × Bytes) :=
  ledger.pending.flatMap (puts unicode)

/-- One step of the account. -/
def step (ledger : Ledger) : LoopEvent → Ledger
  | .receive arrival => ledger.receive arrival
  | .register => ledger
  | .endItem written =>
      if maxBatchSize ≤ (ledger.endItem.pendingPuts unicode).length then
        ledger.endItem.flush written
      else ledger.endItem
  | .tick written | .signal written => ledger.flush written
  | .restart => ledger.restart

/-- The account of a run. -/
def ofEvents (events : List LoopEvent) : Ledger :=
  events.foldl (step unicode) start

theorem ofEvents_concat (events : List LoopEvent) (event : LoopEvent) :
    ofEvents unicode (events ++ [event]) =
      (ofEvents unicode events).step unicode event := by
  rw [ofEvents, List.foldl_append]
  rfl

theorem received_step (ledger : Ledger) (event : LoopEvent) :
    (ledger.step unicode event).received =
      ledger.received ++ Server.received [event] := by
  cases event with
  | receive arrival => rfl
  | register => exact (List.append_nil _).symm
  | endItem written =>
      rw [step]
      split <;> exact (List.append_nil _).symm
  | tick written => exact (List.append_nil _).symm
  | signal written => exact (List.append_nil _).symm
  | restart => exact (List.append_nil _).symm

theorem received_ofEvents (events : List LoopEvent) :
    (ofEvents unicode events).received = Server.received events := by
  induction events using List.reverseRecOn with
  | nil => rfl
  | append_singleton events event inductionHypothesis =>
      rw [ofEvents_concat, received_step, inductionHypothesis, received_append]

end Ledger

/-! ## The engine realizes the ledger -/

/-- The part of the item in hand that is already in the batch. -/
def partialPuts (unicode : UnicodeTables) (current : Option Arrival)
    (handled : List Bytes) : List (Bytes × Bytes) :=
  match current with
  | some arrival =>
      ((arrival.item unicode).logKey, (arrival.item unicode).logValue) ::
        handled.map fun idxKey => (idxKey, [])
  | none => []

/-- The database after the puts of the given items, in order. -/
def storeOf (unicode : UnicodeTables) (base : DB) (items : List Arrival) : DB :=
  base.write (items.flatMap (puts unicode))

/-- The memory index after registering index keys in order. -/
def registerAll (idxKeys : List Bytes) : MemoryIndex :=
  idxKeys.foldl registerKey MemoryIndex.empty

/-- The term keys of the registered items. -/
def liveKeys (unicode : UnicodeTables) (ledger : Ledger) : List Bytes :=
  ledger.live.flatMap fun arrival => (arrival.item unicode).termKeys

/-- The control point agrees with the item in hand and its handled keys. -/
def PointAgrees (unicode : UnicodeTables) (current : Option Arrival)
    (handled : List Bytes) : LoopPoint → Prop
  | .registering remaining =>
      ∃ arrival, current = some arrival ∧
        (arrival.item unicode).termKeys = handled ++ remaining
  | _ => current = none ∧ handled = []

/-- The engine's state is what the ledger says it should be. -/
structure Represents
    (unicode : UnicodeTables) (base : DB) (engine : Engine) (ledger : Ledger) :
    Prop where
  db : engine.db = storeOf unicode base ledger.stored
  size : engine.batchSize = engine.batch.length
  inHand : ∃ handled,
    PointAgrees unicode ledger.current handled engine.point ∧
    engine.batch =
      ledger.pendingPuts unicode ++ partialPuts unicode ledger.current handled ∧
    engine.memIndex = registerAll (liveKeys unicode ledger ++ handled)

namespace Represents

variable {unicode : UnicodeTables} {base : DB}

/-- Between two items the batch holds exactly the pending items. -/
theorem of_idle
    {engine : Engine}
    {ledger : Ledger}
    (db : engine.db = storeOf unicode base ledger.stored)
    (size : engine.batchSize = engine.batch.length)
    (idle : ∀ remaining, engine.point ≠ .registering remaining)
    (current : ledger.current = none)
    (batch : engine.batch = ledger.pendingPuts unicode)
    (memIndex : engine.memIndex = registerAll (liveKeys unicode ledger)) :
    Represents unicode base engine ledger where
  db := db
  size := size
  inHand := by
    refine ⟨[], ?_, ?_, ?_⟩
    · cases point : engine.point with
      | registering remaining => exact absurd point (idle remaining)
      | select => exact ⟨current, rfl⟩
      | stopped => exact ⟨current, rfl⟩
    · rw [batch, current]
      simp [partialPuts]
    · rw [memIndex, List.append_nil]

theorem idle_batch
    {engine : Engine}
    {ledger : Ledger}
    (represents : Represents unicode base engine ledger)
    (idle : ∀ remaining, engine.point ≠ .registering remaining) :
    ledger.current = none ∧ engine.batch = ledger.pendingPuts unicode ∧
      engine.memIndex = registerAll (liveKeys unicode ledger) := by
  obtain ⟨handled, agrees, batch, memIndex⟩ := represents.inHand
  have empty : ledger.current = none ∧ handled = [] := by
    cases point : engine.point with
    | registering remaining => exact absurd point (idle remaining)
    | select => rwa [point] at agrees
    | stopped => rwa [point] at agrees
  refine ⟨empty.1, ?_, ?_⟩
  · rw [batch, empty.1]
    simp [partialPuts]
  · rw [memIndex, empty.2, List.append_nil]

theorem pending_eq_nil
    {engine : Engine}
    {ledger : Ledger}
    (represents : Represents unicode base engine ledger)
    (idle : ∀ remaining, engine.point ≠ .registering remaining)
    (empty : engine.batchSize = 0) :
    ledger.pending = [] := by
  obtain ⟨_, batch, _⟩ := represents.idle_batch idle
  have length := represents.size
  rw [empty, batch] at length
  cases pending : ledger.pending with
  | nil => rfl
  | cons arrival rest => simp [Ledger.pendingPuts, pending, puts] at length

/-- Flushing moves the pending items to the database, or loses them. -/
theorem flush
    {engine : Engine}
    {ledger : Ledger}
    (represents : Represents unicode base engine ledger)
    (idle : ∀ remaining, engine.point ≠ .registering remaining)
    (written : Bool) :
    Represents unicode base (engine.flush written) (ledger.flush written) := by
  obtain ⟨current, batch, memIndex⟩ := represents.idle_batch idle
  by_cases empty : engine.batchSize = 0
  · have noPending := represents.pending_eq_nil idle empty
    have flushed : engine.flush written = engine := if_pos empty
    rw [flushed]
    refine of_idle ?_ represents.size idle current ?_ memIndex
    · rw [represents.db]
      cases written <;> simp [Ledger.flush, noPending]
    · rw [batch]
      simp [Ledger.flush, Ledger.pendingPuts, noPending]
  · have flushed : engine.flush written =
        { engine with
          db := if written then engine.db.write engine.batch else engine.db
          batch := []
          batchSize := 0 } := if_neg empty
    rw [flushed]
    refine of_idle ?_ rfl idle current rfl memIndex
    dsimp only [Ledger.flush]
    cases written with
    | true =>
        rw [if_pos rfl, if_pos rfl, represents.db, batch, storeOf, storeOf,
          Ledger.pendingPuts, ← OrderedStore.write_append,
          ← List.flatMap_append]
    | false => exact represents.db

/-- Only the point of a stopped or idle engine distinguishes the two. -/
theorem set_point
    {engine : Engine}
    {ledger : Ledger}
    (represents : Represents unicode base engine ledger)
    (idle : ∀ remaining, engine.point ≠ .registering remaining)
    (point : LoopPoint)
    (stillIdle : ∀ remaining, point ≠ .registering remaining) :
    Represents unicode base { engine with point := point } ledger := by
  obtain ⟨current, batch, memIndex⟩ := represents.idle_batch idle
  exact of_idle represents.db represents.size stillIdle current batch memIndex

/-- A new process knows nothing but the stored items. -/
theorem restart
    {engine : Engine}
    {ledger : Ledger}
    (represents : Represents unicode base engine ledger) :
    Represents unicode base (Engine.start engine.db) ledger.restart := by
  refine of_idle represents.db rfl ?_ rfl rfl rfl
  intro remaining
  simp [Engine.start]

/-- The item in hand is finished: its puts are all in the batch. -/
theorem endItem
    {engine : Engine}
    {ledger : Ledger}
    (represents : Represents unicode base engine ledger)
    (point : engine.point = .registering []) :
    Represents unicode base { engine with point := .select } ledger.endItem := by
  obtain ⟨handled, agrees, batch, memIndex⟩ := represents.inHand
  rw [point] at agrees
  obtain ⟨arrival, current, termKeys⟩ := agrees
  rw [List.append_nil] at termKeys
  refine of_idle represents.db represents.size ?_ rfl ?_ ?_
  · intro remaining equal
    exact LoopPoint.noConfusion equal
  · change engine.batch = _
    rw [batch]
    simp [Ledger.pendingPuts, Ledger.endItem, current, partialPuts, puts, termKeys]
  · change engine.memIndex = _
    rw [memIndex]
    simp [liveKeys, Ledger.endItem, current, termKeys]

/-- Receiving an item puts its raw record and takes the item in hand. -/
theorem receive
    {engine : Engine}
    {ledger : Ledger}
    (represents : Represents unicode base engine ledger)
    (point : engine.point = .select)
    (arrival : Arrival) :
    Represents unicode base
      { engine with
        batch := engine.batch ++
          [((arrival.item unicode).logKey, (arrival.item unicode).logValue)]
        batchSize := engine.batchSize + 1
        point := .registering (arrival.item unicode).termKeys }
      (ledger.receive arrival) := by
  obtain ⟨_, batch, memIndex⟩ := represents.idle_batch (by simp [point])
  refine ⟨represents.db, ?_, [], ⟨arrival, rfl, rfl⟩, ?_, ?_⟩
  · simp [represents.size]
  · simp only [batch]
    rfl
  · simp only [memIndex, List.append_nil]
    rfl

/-- Registering an index key moves it from the remaining to the handled. -/
theorem register
    {engine : Engine}
    {ledger : Ledger}
    {idxKey : Bytes}
    {remaining : List Bytes}
    (represents : Represents unicode base engine ledger)
    (point : engine.point = .registering (idxKey :: remaining)) :
    Represents unicode base
      { engine with
        batch := engine.batch ++ [(idxKey, [])]
        batchSize := engine.batchSize + 1
        memIndex := registerKey engine.memIndex idxKey
        point := .registering remaining }
      ledger := by
  obtain ⟨handled, agrees, batch, memIndex⟩ := represents.inHand
  rw [point] at agrees
  obtain ⟨arrival, current, termKeys⟩ := agrees
  refine ⟨represents.db, ?_, handled ++ [idxKey], ?_, ?_, ?_⟩
  · simp [represents.size]
  · exact ⟨arrival, current, by simpa using termKeys⟩
  · simp [batch, current, partialPuts]
  · simp [memIndex, registerAll]

/-- The size the loop compares is that of the puts of the finished items. -/
theorem endItem_size
    {engine : Engine}
    {ledger : Ledger}
    (represents : Represents unicode base engine ledger)
    (point : engine.point = .registering []) :
    (ledger.endItem.pendingPuts unicode).length = engine.batchSize := by
  rw [← ((represents.endItem point).idle_batch (by simp)).2.1]
  exact represents.size.symm

/-- Every step of the engine is the ledger's step. -/
theorem step
    {engine next : Engine}
    {ledger : Ledger}
    {event : LoopEvent}
    (represents : Represents unicode base engine ledger)
    (stepped : engine.step unicode event = some next) :
    Represents unicode base next (ledger.step unicode event) := by
  cases event with
  | receive arrival =>
      obtain ⟨point, rfl⟩ := Engine.step_receive stepped
      exact represents.receive point arrival
  | register =>
      obtain ⟨idxKey, remaining, point, rfl⟩ := Engine.step_register stepped
      exact represents.register point
  | endItem written =>
      obtain ⟨point, rfl⟩ := Engine.step_endItem stepped
      have finished := represents.endItem point
      rw [Ledger.step, represents.endItem_size point]
      by_cases large : maxBatchSize ≤ engine.batchSize
      · rw [if_pos large, if_pos large]
        have flushed := finished.flush (by simp) written
        convert flushed.set_point (by simp) .select (by simp) using 1
        unfold Engine.flush
        split <;> rfl
      · rw [if_neg large, if_neg large]
        exact finished
  | tick written =>
      obtain ⟨point, rfl⟩ := Engine.step_tick stepped
      exact represents.flush (by simp [point]) written
  | signal written =>
      obtain ⟨point, rfl⟩ := Engine.step_signal stepped
      exact (represents.flush (by simp [point]) written).set_point
        (by simp [point]) .stopped (by simp)
  | restart =>
      obtain rfl := Option.some.inj stepped
      exact represents.restart

end Represents

theorem represents_start {unicode : UnicodeTables} (base : DB) :
    Represents unicode base (Engine.start base) Ledger.start :=
  Represents.of_idle rfl rfl (by simp [Engine.start]) rfl rfl rfl

/-- The engine a run ends in is the one its ledger describes. -/
theorem represents_ofEvents
    {unicode : UnicodeTables}
    {base : DB}
    {events : List LoopEvent}
    {engine : Engine}
    (reached : Transition.run (Engine.step unicode) (Engine.start base) events =
      some engine) :
    Represents unicode base engine (Ledger.ofEvents unicode events) :=
  Transition.run_simulates
    (fun _ _ _ _ represents stepped => represents.step stepped)
    (represents_start base) reached

end Server
end Chronolog
