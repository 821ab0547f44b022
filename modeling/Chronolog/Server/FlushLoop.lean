import Chronolog.Foundation.Transition
import Chronolog.Pipeline.WorkerPool
import Chronolog.Search.Query

/-!
# The flush loop of the server

The main loop takes items off the pipeline's output, appends their puts to the
pending batch, registers their terms in the memory index one by one, and hands
the batch to the database when it is large enough or when the ticker fires.  A
batch write succeeds as a whole or fails as a whole.  A crash or a restart can
happen between any two steps and keeps only the database.
-/

namespace Chronolog
namespace Server

open Pipeline Search Storage

/-- Where the main loop stands. -/
inductive LoopPoint
  | select
  | registering (remaining : List Bytes)
  | stopped
  deriving DecidableEq

/-- The index keys the loop still has to put for the item in hand. -/
def LoopPoint.remaining : LoopPoint → List Bytes
  | .registering remaining => remaining
  | _ => []

/-- State of the engine process: the database, the memory index, the pending
batch with its counter, and the control point of the main loop. -/
structure Engine where
  db : DB
  memIndex : MemoryIndex
  batch : List (Bytes × Bytes)
  batchSize : Nat
  point : LoopPoint

/-- Number of puts from which a batch is flushed without waiting. -/
def maxBatchSize : Nat := 2500

/-- What can happen next.  `written` is the outcome of the batch write, where
one takes place. -/
inductive LoopEvent
  | receive (arrival : Arrival)
  | register
  | endItem (written : Bool)
  | tick (written : Bool)
  | signal (written : Bool)
  | restart

/-- The items received in the course of some events. -/
def received (events : List LoopEvent) : List Arrival :=
  events.filterMap fun event =>
    match event with
    | .receive arrival => some arrival
    | _ => none

theorem received_append (before after : List LoopEvent) :
    received (before ++ after) = received before ++ received after :=
  List.filterMap_append

/-- The identity under which an item's record is stored. -/
def recordID (arrival : Arrival) : LogRecordID where
  streamID := arrival.streamID
  ts := arrival.now

/-- An item with a single token. -/
def helloItem : Arrival where
  now := 7
  packet := .ofString "<34>hello"

/-- The loop's iteration over an item with a single token. -/
def iteration (arrival : Arrival) : List LoopEvent :=
  [.receive arrival, .register, .endItem true]

/-- Registration of one index key in the memory index. -/
def registerKey (memIndex : MemoryIndex) (idxKey : Bytes) : MemoryIndex :=
  match decodeIndexKey idxKey with
  | some (term, ts, streamID) =>
      memIndex.add term
        { timestampNano := ts, streamID, offset := 0, length := 0 }
  | none => memIndex

namespace Engine

/-- The process just after it opened a database. -/
def start (db : DB) : Engine where
  db := db
  memIndex := MemoryIndex.empty
  batch := []
  batchSize := 0
  point := .select

/-- `flush`: write the pending batch, if any, and reset it in either case. -/
def flush (engine : Engine) (written : Bool) : Engine :=
  if engine.batchSize = 0 then engine
  else
    { engine with
      db := if written then engine.db.write engine.batch else engine.db
      batch := []
      batchSize := 0 }

variable (unicode : UnicodeTables)

/-- One step of the main loop, of the signal handler, or a restart. -/
def step (engine : Engine) : LoopEvent → Option Engine
  | .receive arrival =>
      if engine.point = .select then
        let item := arrival.item unicode
        some { engine with
          batch := engine.batch ++ [(item.logKey, item.logValue)]
          batchSize := engine.batchSize + 1
          point := .registering item.termKeys }
      else none
  | .register =>
      match engine.point with
      | .registering (idxKey :: remaining) =>
          some { engine with
            batch := engine.batch ++ [(idxKey, [])]
            batchSize := engine.batchSize + 1
            memIndex := registerKey engine.memIndex idxKey
            point := .registering remaining }
      | _ => none
  | .endItem written =>
      match engine.point with
      | .registering [] =>
          let engine :=
            if maxBatchSize ≤ engine.batchSize then engine.flush written
            else engine
          some { engine with point := .select }
      | _ => none
  | .tick written =>
      if engine.point = .select then some (engine.flush written) else none
  | .signal written =>
      if engine.point = .select then
        some { engine.flush written with point := .stopped }
      else none
  | .restart => some (start engine.db)

/-- The outcome of the batch write a step performs, if it performs one. -/
def writeOutcome (engine : Engine) : LoopEvent → Option Bool
  | .endItem written =>
      if maxBatchSize ≤ engine.batchSize ∧ engine.batchSize ≠ 0 then some written
      else none
  | .tick written | .signal written =>
      if engine.batchSize ≠ 0 then some written else none
  | _ => none

/-- The engine a run from an empty database ends in. -/
def Reaches (events : List LoopEvent) (engine : Engine) : Prop :=
  Transition.run (step unicode) (start ∅) events = some engine

/-! What each event does, and when it can happen. -/

variable {unicode}

theorem step_receive
    {engine next : Engine}
    {arrival : Arrival}
    (stepped : engine.step unicode (.receive arrival) = some next) :
    engine.point = .select ∧
      { engine with
        batch := engine.batch ++
          [((arrival.item unicode).logKey, (arrival.item unicode).logValue)]
        batchSize := engine.batchSize + 1
        point := .registering (arrival.item unicode).termKeys } = next := by
  obtain ⟨point, same⟩ := Option.ite_none_right_eq_some.mp stepped
  exact ⟨point, Option.some.inj same⟩

theorem step_register
    {engine next : Engine}
    (stepped : engine.step unicode .register = some next) :
    ∃ idxKey remaining, engine.point = .registering (idxKey :: remaining) ∧
      { engine with
        batch := engine.batch ++ [(idxKey, [])]
        batchSize := engine.batchSize + 1
        memIndex := registerKey engine.memIndex idxKey
        point := .registering remaining } = next := by
  rw [step] at stepped
  split at stepped
  next idxKey remaining point =>
    exact ⟨idxKey, remaining, point, Option.some.inj stepped⟩
  next => exact absurd stepped.symm (Option.some_ne_none next)

theorem step_endItem
    {engine next : Engine}
    {written : Bool}
    (stepped : engine.step unicode (.endItem written) = some next) :
    engine.point = .registering [] ∧
      { (if maxBatchSize ≤ engine.batchSize then engine.flush written else engine) with
        point := .select } = next := by
  rw [step] at stepped
  split at stepped
  next point => exact ⟨point, Option.some.inj stepped⟩
  next => exact absurd stepped.symm (Option.some_ne_none next)

theorem step_tick
    {engine next : Engine}
    {written : Bool}
    (stepped : engine.step unicode (.tick written) = some next) :
    engine.point = .select ∧ engine.flush written = next := by
  obtain ⟨point, same⟩ := Option.ite_none_right_eq_some.mp stepped
  exact ⟨point, Option.some.inj same⟩

theorem step_signal
    {engine next : Engine}
    {written : Bool}
    (stepped : engine.step unicode (.signal written) = some next) :
    engine.point = .select ∧
      { engine.flush written with point := .stopped } = next := by
  obtain ⟨point, same⟩ := Option.ite_none_right_eq_some.mp stepped
  exact ⟨point, Option.some.inj same⟩

@[simp] theorem flush_point (engine : Engine) (written : Bool) :
    (engine.flush written).point = engine.point := by
  unfold flush
  split <;> rfl

theorem received_of_writeOutcome
    {engine : Engine}
    {event : LoopEvent}
    {written : Bool}
    (outcome : engine.writeOutcome event = some written) :
    received [event] = [] := by
  cases event with
  | receive arrival => simp [writeOutcome] at outcome
  | _ => rfl

@[simp] theorem flush_batchSize (engine : Engine) (written : Bool) :
    (engine.flush written).batchSize = 0 := by
  unfold flush
  split
  next empty => exact empty
  next => rfl

end Engine
end Server
end Chronolog
