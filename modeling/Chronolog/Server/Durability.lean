import Chronolog.Server.Contents

/-!
# What survives failures and crashes

Batches consist of whole items, so a database that only ever receives whole
batches keeps records and index keys together, whatever fails and wherever the
process dies.  The pending batch itself is not protected: a failed write drops
it, and this is the only way in which the loop loses an item.
-/

namespace Chronolog
namespace Server

open Pipeline Search Storage

variable (unicode : UnicodeTables)

/-- Every index key has its record, and every record is the message of a
received line all of whose tokens are indexed. -/
structure Consistent (events : List LoopEvent) (db : DB) : Prop where
  indexed : ∀ term ts streamID,
    encodeIndexKey term ts streamID ∈ db → encodeLogKey streamID ts ∈ db
  recorded : ∀ streamID ts data,
    db[encodeLogKey streamID ts]? = some data →
      (∃ arrival ∈ received events, arrival.streamID = streamID ∧
        arrival.now = ts ∧ arrival.message = data) ∧
      ∀ token ∈ tokenize unicode data, encodeIndexKey token ts streamID ∈ db

/-- The batches a run hands to `WriteBatch`, whatever becomes of them. -/
def batches : Engine → List LoopEvent → List (List (Bytes × Bytes))
  | _, [] => []
  | engine, event :: events =>
      match engine.step unicode event with
      | none => []
      | some next =>
          match engine.writeOutcome event with
          | some _ => engine.batch :: batches next events
          | none => batches next events

/-- Every batch is a list of whole items, and no item occurs in two of them. -/
def WholeItems (events : List LoopEvent)
    (written : List (List (Bytes × Bytes))) : Prop :=
  ∃ groups : List (List Arrival),
    written = groups.map (fun group => group.flatMap (puts unicode)) ∧
      groups.flatten.Sublist (received events)

variable {unicode}

/-! ## Consistency of the database -/

/-- A represented database is consistent. -/
theorem Represents.consistent
    {events : List LoopEvent}
    {engine : Engine}
    (represents :
      Represents unicode ∅ engine (Ledger.ofEvents unicode events)) :
    Consistent unicode events engine.db where
  indexed term ts streamID present := by
    rw [represents.db] at present ⊢
    change LogRecordID.indexKey ⟨streamID, ts⟩ term ∈ _ at present
    change LogRecordID.logKey ⟨streamID, ts⟩ ∈ _
    obtain ⟨arrival, stored, same, _⟩ := indexKey_mem_storeOf.mp present
    exact logKey_mem_storeOf.mpr ⟨arrival, stored, same⟩
  recorded streamID ts data present := by
    rw [represents.db] at present ⊢
    change (storeOf _ _ _)[LogRecordID.logKey ⟨streamID, ts⟩]? = _ at present
    obtain ⟨arrival, stored, same, rfl⟩ := exists_item_of_record present
    constructor
    · have member := (Ledger.ofEvents unicode events).stored_subset stored
      rw [Ledger.received_ofEvents] at member
      exact ⟨arrival, member, congrArg LogRecordID.streamID same,
        congrArg LogRecordID.ts same, rfl⟩
    · intro token tokenMember
      change LogRecordID.indexKey ⟨streamID, ts⟩ token ∈ _
      exact indexKey_mem_storeOf.mpr ⟨arrival, stored, same, tokenMember⟩

/-! ## Batches -/

/-- What waits to be written after a step waited before or just arrived. -/
theorem Ledger.waiting_step (ledger : Ledger) (event : LoopEvent) :
    ((ledger.step unicode event).pending ++
        (ledger.step unicode event).current.toList).Sublist
      (ledger.pending ++ ledger.current.toList ++ Server.received [event]) := by
  cases event with
  | receive arrival =>
      exact (List.sublist_append_left _ _).append (List.Sublist.refl [arrival])
  | register => exact List.sublist_append_left _ _
  | endItem written =>
      rw [Ledger.step]
      split
      · exact List.nil_sublist _
      · simp [Ledger.endItem]
  | tick written => simp [Ledger.step, Ledger.flush]
  | signal written => simp [Ledger.step, Ledger.flush]
  | restart => exact List.nil_sublist _

/-- A write takes everything that waits, and only whole items do. -/
theorem Represents.write_step
    {base : DB}
    {engine next : Engine}
    {ledger : Ledger}
    {event : LoopEvent}
    {written : Bool}
    (represents : Represents unicode base engine ledger)
    (stepped : engine.step unicode event = some next)
    (outcome : engine.writeOutcome event = some written) :
    engine.batch =
        (ledger.pending ++ ledger.current.toList).flatMap (puts unicode) ∧
      (ledger.step unicode event).stored =
        (if written then ledger.stored ++ (ledger.pending ++ ledger.current.toList)
          else ledger.stored) ∧
      (ledger.step unicode event).pending = [] ∧
      (ledger.step unicode event).current = none := by
  cases event with
  | receive arrival => simp [Engine.writeOutcome] at outcome
  | register => simp [Engine.writeOutcome] at outcome
  | endItem flag =>
      obtain ⟨point, _⟩ := Engine.step_endItem stepped
      obtain ⟨large, same⟩ := Option.ite_none_right_eq_some.mp outcome
      obtain rfl := Option.some.inj same
      rw [Ledger.step, represents.endItem_size point, if_pos large.1]
      exact ⟨((represents.endItem point).idle_batch (by simp)).2.1, rfl, rfl, rfl⟩
  | tick flag =>
      obtain ⟨point, _⟩ := Engine.step_tick stepped
      obtain ⟨current, batch, _⟩ := represents.idle_batch (by simp [point])
      obtain ⟨_, same⟩ := Option.ite_none_right_eq_some.mp outcome
      obtain rfl := Option.some.inj same
      simp [Ledger.step, Ledger.flush, current, batch, Ledger.pendingPuts]
  | signal flag =>
      obtain ⟨point, _⟩ := Engine.step_signal stepped
      obtain ⟨current, batch, _⟩ := represents.idle_batch (by simp [point])
      obtain ⟨_, same⟩ := Option.ite_none_right_eq_some.mp outcome
      obtain rfl := Option.some.inj same
      simp [Ledger.step, Ledger.flush, current, batch, Ledger.pendingPuts]
  | restart => simp [Engine.writeOutcome] at outcome

/-- From any represented state, the batches of the rest of the run are whole
items that wait already or are still to come. -/
theorem Represents.batches_whole
    {base : DB}
    {engine : Engine}
    {ledger : Ledger}
    (represents : Represents unicode base engine ledger)
    (events : List LoopEvent) :
    ∃ groups : List (List Arrival),
      batches unicode engine events =
          groups.map (fun group => group.flatMap (puts unicode)) ∧
        groups.flatten.Sublist
          (ledger.pending ++ ledger.current.toList ++ received events) := by
  induction events generalizing engine ledger with
  | nil => exact ⟨[], rfl, List.nil_sublist _⟩
  | cons event events inductionHypothesis =>
      have split : received (event :: events) =
          received [event] ++ received events :=
        received_append [event] events
      rw [split, ← List.append_assoc]
      cases stepped : engine.step unicode event with
      | none =>
          refine ⟨[], ?_, List.nil_sublist _⟩
          rw [batches, stepped]
          rfl
      | some next =>
          obtain ⟨groups, equal, sublist⟩ :=
            inductionHypothesis (represents.step stepped)
          cases outcome : engine.writeOutcome event with
          | none =>
              refine ⟨groups, ?_, sublist.trans ?_⟩
              · rw [batches, stepped]
                simp only [outcome, equal]
              · exact (ledger.waiting_step event).append (List.Sublist.refl _)
          | some written =>
              obtain ⟨batch, _, pending, current⟩ :=
                represents.write_step stepped outcome
              refine ⟨(ledger.pending ++ ledger.current.toList) :: groups, ?_, ?_⟩
              · rw [batches, stepped]
                simp only [outcome, equal, batch, List.map_cons]
              · rw [pending, current] at sublist
                rw [List.flatten_cons]
                exact (List.sublist_append_left _ _).append sublist

/-- After a step that ends an iteration the counter is below the threshold. -/
theorem batchSize_lt_of_step
    {engine next : Engine}
    {event : LoopEvent}
    (stepped : engine.step unicode event = some next)
    (idle : ∀ remaining, next.point ≠ .registering remaining) :
    next.batchSize < maxBatchSize := by
  have positive : 0 < maxBatchSize := by decide
  cases event with
  | receive arrival =>
      obtain ⟨_, rfl⟩ := Engine.step_receive stepped
      exact absurd rfl (idle _)
  | register =>
      obtain ⟨_, _, _, rfl⟩ := Engine.step_register stepped
      exact absurd rfl (idle _)
  | endItem written =>
      obtain ⟨_, rfl⟩ := Engine.step_endItem stepped
      by_cases large : maxBatchSize ≤ engine.batchSize
      · simpa [if_pos large] using positive
      · simpa [if_neg large] using large
  | tick written =>
      obtain ⟨_, rfl⟩ := Engine.step_tick stepped
      simpa using positive
  | signal written =>
      obtain ⟨_, rfl⟩ := Engine.step_signal stepped
      simpa using positive
  | restart =>
      obtain rfl := Option.some.inj stepped
      exact positive

/-- Between two iterations of the loop fewer puts are pending than the
threshold. -/
theorem batch_length_lt
    {base : DB}
    {events : List LoopEvent}
    {engine : Engine}
    (reached : Transition.run (Engine.step unicode) (Engine.start base) events =
      some engine)
    (idle : ∀ remaining, engine.point ≠ .registering remaining) :
    engine.batch.length < maxBatchSize := by
  rw [← (represents_ofEvents reached).size]
  revert idle
  refine Transition.run_history (fun _ (engine : Engine) =>
    (∀ remaining, engine.point ≠ .registering remaining) →
      engine.batchSize < maxBatchSize) ?_ ?_ reached
  · intro _
    change 0 < 2500
    decide
  · intro _ _ _ _ _ _ stepped idle
    exact batchSize_lt_of_step stepped idle

/-- In every state a run can be in, whatever failed or crashed before, the
database is consistent, the batches handed to it were whole items, and between
two iterations fewer than `maxBatchSize` puts are pending. -/
theorem store_consistent
    (unicode : UnicodeTables)
    (events : List LoopEvent)
    (engine : Engine)
    (reached : Engine.Reaches unicode events engine) :
    Consistent unicode events engine.db ∧
      WholeItems unicode events (batches unicode (Engine.start ∅) events) ∧
      ((∀ remaining, engine.point ≠ .registering remaining) →
        engine.batch.length < maxBatchSize) :=
  ⟨(represents_ofEvents reached).consistent,
    (represents_start ∅).batches_whole events,
    batch_length_lt reached⟩

/-- One write fails, the next succeeds, and the process dies while an index key
is still to be put. -/
def crashRun : List LoopEvent :=
  iteration helloItem ++ [.tick false] ++ iteration helloItem ++
    [.tick true, .receive helloItem, .restart]

theorem store_consistent_crashRun :
    ∃ engine, Engine.Reaches asciiTables crashRun engine ∧
      Consistent asciiTables crashRun engine.db ∧
      WholeItems asciiTables crashRun
        (batches asciiTables (Engine.start ∅) crashRun) ∧
      ((∀ remaining, engine.point ≠ .registering remaining) →
        engine.batch.length < maxBatchSize) := by
  obtain ⟨engine, reached⟩ := Option.isSome_iff_exists.mp
    (by decide +kernel : (Transition.run (Engine.step asciiTables)
      (Engine.start ∅) crashRun).isSome = true)
  exact ⟨engine, reached, store_consistent asciiTables crashRun engine reached⟩

end Server
end Chronolog
