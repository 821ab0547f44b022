import Chronolog.Server.WriteFailures

/-!
# From packets to records

The pipeline and the main loop together.  Workers race, so the loop sees the
items in an order of its own, and every worker reads the clock for itself.
Whatever the schedule, the store ends up with one record per packet exactly
when no two packets were given the same stream ID and clock reading.
-/

namespace Chronolog
namespace Server

open Ingestion Pipeline Search Storage

/-- The ingesting process: the pipeline and the main loop behind it. -/
structure Intake (workers : Nat) where
  pool : WorkerPool workers
  engine : Engine

namespace Intake

variable {workers : Nat}

/-- A step of the pipeline or of the main loop. -/
inductive Event (workers : Nat)
  | worker (event : WorkerPool.Event workers)
  | loop (event : LoopEvent)

/-- A fresh pipeline in front of a process that just opened its database. -/
def start (workers : Nat) (base : DB) : Intake workers where
  pool := WorkerPool.start workers
  engine := Engine.start base

variable (unicode : UnicodeTables)

/-- One step.  The loop receives what the pipeline delivers and nothing else,
and the process is not restarted. -/
def step (intake : Intake workers) : Event workers → Option (Intake workers)
  | .worker event =>
      (intake.pool.step event).bind fun pool =>
        match intake.pool.delivery event with
        | none => some { intake with pool }
        | some arrival =>
            (intake.engine.step unicode (.receive arrival)).map fun engine =>
              { pool, engine }
  | .loop (.receive _) => none
  | .loop .restart => none
  | .loop event =>
      (intake.engine.step unicode event).map fun engine => { intake with engine }

/-- The packets submitted in the course of some events, in order. -/
def submitted (events : List (Event workers)) : List PacketBuffer :=
  events.flatMap fun event =>
    match event with
    | .worker event => event.submitted
    | .loop _ => []

/-- No batch write that a run performs fails. -/
def WritesSucceed (base : DB) (events : List (Event workers)) : Prop :=
  ∀ moment event,
    Transition.Performs (step unicode) (start workers base) events moment
        (.loop event) →
      moment.engine.writeOutcome event ≠ some false

/-- Each message can be read back under the key its worker built, and there
are as many such records as packets. -/
structure OneRecordPerPacket (db : DB) (taken : List Arrival) : Prop where
  readable : ∀ arrival ∈ taken,
    db[(recordID arrival).logKey]? = some arrival.message
  count :
    (db.scan fun key =>
      key ∈ taken.map fun arrival => (recordID arrival).logKey).length =
        taken.length

end Intake

/-! ## The loop's own run -/

namespace Intake

variable {workers : Nat} {unicode : UnicodeTables} {base : DB}

/-- What a history of the whole process tells about the loop's own run. -/
structure Traced (unicode : UnicodeTables) (base : DB)
    (history : List (Event workers)) (intake : Intake workers)
    (loops : List LoopEvent) : Prop where
  reached : Transition.run (Engine.step unicode) (Engine.start base) loops =
    some intake.engine
  noRestart : LoopEvent.restart ∉ loops
  succeed : WritesSucceed unicode base history →
    Server.WritesSucceed unicode (Engine.start base) loops
  conserved : (intake.pool.taken : Multiset Arrival) =
    intake.pool.inFlight + intake.pool.outQueue + (received loops : Multiset Arrival)
  submission : intake.pool.taken.map Arrival.packet ++ intake.pool.rawQueue =
    submitted history

theorem WritesSucceed.of_append
    {before after : List (Event workers)}
    (succeed : WritesSucceed unicode base (before ++ after)) :
    WritesSucceed unicode base before := fun moment event performed =>
  succeed moment event (Transition.performs_append performed)

theorem submitted_concat (history : List (Event workers)) (event : Event workers) :
    submitted (history ++ [event]) =
      submitted history ++
        match event with
        | .worker event => event.submitted
        | .loop _ => [] := by
  rw [submitted, List.flatMap_append, List.flatMap_singleton]
  rfl

/-- What a step of the main loop in the whole process can be. -/
theorem step_loop
    {intake next : Intake workers}
    {event : LoopEvent}
    (stepped : intake.step unicode (.loop event) = some next) :
    event ≠ .restart ∧ received [event] = [] ∧
      ∃ engine, intake.engine.step unicode event = some engine ∧
        next = { intake with engine } := by
  cases event with
  | receive arrival => simp [step] at stepped
  | restart => simp [step] at stepped
  | register =>
      obtain ⟨engine, engineStepped, rfl⟩ := Option.map_eq_some_iff.mp stepped
      exact ⟨by simp, rfl, engine, engineStepped, rfl⟩
  | endItem written =>
      obtain ⟨engine, engineStepped, rfl⟩ := Option.map_eq_some_iff.mp stepped
      exact ⟨by simp, rfl, engine, engineStepped, rfl⟩
  | tick written =>
      obtain ⟨engine, engineStepped, rfl⟩ := Option.map_eq_some_iff.mp stepped
      exact ⟨by simp, rfl, engine, engineStepped, rfl⟩
  | signal written =>
      obtain ⟨engine, engineStepped, rfl⟩ := Option.map_eq_some_iff.mp stepped
      exact ⟨by simp, rfl, engine, engineStepped, rfl⟩

/-- A step of the main loop extends the loop's run. -/
theorem Traced.loop
    {history : List (Event workers)}
    {intake : Intake workers}
    {loops : List LoopEvent}
    {event : LoopEvent}
    {engine : Engine}
    (traced : Traced unicode base history intake loops)
    (current : Transition.run (step unicode) (start workers base) history =
      some intake)
    (noRestart : event ≠ .restart)
    (nothingReceived : received [event] = [])
    (stepped : intake.engine.step unicode event = some engine) :
    Traced unicode base (history ++ [.loop event]) { intake with engine }
      (loops ++ [event]) where
  reached := Transition.run_concat_eq_some.mpr ⟨_, traced.reached, stepped⟩
  noRestart := by
    rw [List.mem_append, not_or, List.mem_singleton]
    exact ⟨traced.noRestart, fun same => noRestart same.symm⟩
  succeed succeed :=
    (traced.succeed succeed.of_append).concat traced.reached
      (succeed intake event (Transition.performs_concat current))
  conserved := by
    rw [received_append, nothingReceived, List.append_nil]
    exact traced.conserved
  submission := by
    rw [submitted_concat, List.append_nil]
    exact traced.submission

/-- A step of the pipeline extends the loop's run by what it delivers. -/
theorem Traced.worker
    {history : List (Event workers)}
    {intake next : Intake workers}
    {loops : List LoopEvent}
    {event : WorkerPool.Event workers}
    (traced : Traced unicode base history intake loops)
    (stepped : intake.step unicode (.worker event) = some next) :
    ∃ extended, Traced unicode base (history ++ [.worker event]) next extended := by
  rw [step, Option.bind_eq_some_iff] at stepped
  obtain ⟨pool, poolStepped, rest⟩ := stepped
  have conserved := WorkerPool.step_conserves traced.conserved poolStepped
  have submission := WorkerPool.step_submitted traced.submission poolStepped
  rw [← submitted_concat history (.worker event)] at submission
  cases delivery : intake.pool.delivery event with
  | none =>
      rw [delivery] at rest conserved
      obtain rfl := Option.some.inj rest
      refine ⟨loops, traced.reached, traced.noRestart, ?_, ?_, submission⟩
      · exact fun succeed => traced.succeed succeed.of_append
      · simpa using conserved
  | some arrival =>
      rw [delivery] at rest conserved
      obtain ⟨engine, engineStepped, rfl⟩ := Option.map_eq_some_iff.mp rest
      refine ⟨loops ++ [.receive arrival], ?_, ?_, ?_, ?_, submission⟩
      · exact Transition.run_concat_eq_some.mpr ⟨_, traced.reached, engineStepped⟩
      · simpa using traced.noRestart
      · exact fun succeed => (traced.succeed succeed.of_append).concat
          traced.reached (by simp [Engine.writeOutcome])
      · rw [received_append, ← Multiset.coe_add]
        exact conserved

/-- Every run of the whole process is traced. -/
theorem exists_traced
    {events : List (Event workers)}
    {intake : Intake workers}
    (reached : Transition.run (step unicode) (start workers base) events =
      some intake) :
    ∃ loops, Traced unicode base events intake loops := by
  refine Transition.run_history
    (fun history intake => ∃ loops, Traced unicode base history intake loops)
    ?_ ?_ reached
  · refine ⟨[], rfl, List.not_mem_nil, ?_, ?_, rfl⟩
    · exact fun _ _ _ performed => absurd performed Transition.not_performs_nil
    · simp [start, WorkerPool.start, WorkerPool.inFlight, received]
  · rintro history intake event next current ⟨loops, traced⟩ stepped
    cases event with
    | worker event => exact traced.worker stepped
    | loop event =>
        obtain ⟨noRestart, nothingReceived, engine, engineStepped, rfl⟩ :=
          step_loop stepped
        exact ⟨loops ++ [event],
          traced.loop current noRestart nothingReceived engineStepped⟩

/-! ## Records and packets -/

/-- A list with as many elements as its deduplication has no duplicates. -/
theorem nodup_of_length_dedup
    {α : Type*} [DecidableEq α]
    {list : List α}
    (length : list.dedup.length = list.length) : list.Nodup := by
  have same : list.dedup = list :=
    (List.dedup_sublist list).eq_of_length length
  rw [← same]
  exact List.nodup_dedup list

/-- Once every item is stored, there is one record per packet exactly when the
identities are distinct. -/
theorem oneRecordPerPacket_storeOf
    {stored taken : List Arrival}
    (same : stored.Perm taken) :
    OneRecordPerPacket (storeOf unicode base stored) taken ↔
      (taken.map recordID).Nodup := by
  have keys : taken.map (fun arrival => (recordID arrival).logKey) =
      (taken.map recordID).map LogRecordID.logKey := by
    rw [List.map_map]
    rfl
  have scanned : ((storeOf unicode base stored).scan fun key =>
      key ∈ taken.map fun arrival => (recordID arrival).logKey).Perm
        (taken.map fun arrival => (recordID arrival).logKey).dedup := by
    apply (List.perm_ext_iff_of_nodup (OrderedStore.scan_nodup _ _)
      (List.nodup_dedup _)).mpr
    intro key
    rw [OrderedStore.mem_scan, decide_eq_true_eq, List.mem_dedup, and_iff_right_iff_imp]
    intro member
    obtain ⟨arrival, present, rfl⟩ := List.mem_map.mp member
    exact mem_storeOf.mpr (Or.inr ⟨arrival, same.mem_iff.mpr present, _,
      logKey_mem_puts.mpr ⟨rfl, rfl⟩⟩)
  constructor
  · intro records
    have count := records.count
    have nodup : (taken.map fun arrival => (recordID arrival).logKey).Nodup := by
      apply nodup_of_length_dedup
      rw [← scanned.length_eq, count, List.length_map]
    rw [keys] at nodup
    exact nodup.of_map
  · intro distinct
    constructor
    · intro arrival member
      apply storeOf_logKey (same.mem_iff.mpr member)
      intro other otherStored sameID
      rw [List.inj_on_of_nodup_map distinct (same.mem_iff.mp otherStored)
        member sameID]
    · have nodup : (taken.map fun arrival => (recordID arrival).logKey).Nodup := by
        rw [keys]
        exact distinct.map fun _ _ equal => LogRecordID.logKey_inj.mp equal
      rw [scanned.length_eq, nodup.dedup, List.length_map]

/-- An empty batch means that nothing waits. -/
theorem waiting_eq_nil
    {engine : Engine}
    {ledger : Ledger}
    (represents : Represents unicode base engine ledger)
    (flushed : engine.batch = []) :
    ledger.pending ++ ledger.current.toList = [] := by
  apply List.eq_nil_iff_forall_not_mem.mpr
  intro arrival waiting
  have pending := (represents.pending_of_waiting waiting).1
  rw [flushed] at pending
  simp at pending

/-- When nothing waits after writes that all succeeded, the database holds what was
received. -/
theorem db_of_flushed
    {loops : List LoopEvent}
    {engine : Engine}
    (reached : Transition.run (Engine.step unicode) (Engine.start base) loops =
      some engine)
    (noRestart : LoopEvent.restart ∉ loops)
    (succeed : Server.WritesSucceed unicode (Engine.start base) loops)
    (flushed : engine.batch = []) :
    engine.db = storeOf unicode base (received loops) := by
  have represents := represents_ofEvents reached
  have complete := complete_ofEvents reached noRestart succeed
  unfold Ledger.Complete at complete
  rw [waiting_eq_nil represents flushed, List.append_nil,
    Ledger.received_ofEvents] at complete
  rw [represents.db, ← complete]

/-- In every run of any number of workers in which all batch writes succeed,
once the pipeline is drained and the batch is flushed, the packets were taken
in the order of their submission, and the store holds one record per packet
exactly when no two packets share stream ID and clock reading. -/
theorem oneRecordPerPacket_iff_distinct
    (unicode : UnicodeTables)
    (workers : Nat)
    (base : DB)
    (events : List (Event workers))
    (intake : Intake workers)
    (reached : Transition.run (step unicode) (start workers base) events =
      some intake)
    (succeed : WritesSucceed unicode base events)
    (drained : intake.pool.Drained)
    (flushed : intake.engine.batch = []) :
    intake.pool.taken.map Arrival.packet = submitted events ∧
      (OneRecordPerPacket intake.engine.db intake.pool.taken ↔
        (intake.pool.taken.map recordID).Nodup) := by
  obtain ⟨loops, traced⟩ := exists_traced reached
  have delivered := WorkerPool.delivered_of_drained drained traced.conserved
  constructor
  · have submission := traced.submission
    rwa [drained.1, List.append_nil] at submission
  · rw [db_of_flushed traced.reached traced.noRestart (traced.succeed succeed) flushed]
    exact oneRecordPerPacket_storeOf delivered

/-- Two packets of one facility go through two workers.  The last argument is
the clock reading of the second worker. -/
def twoPacketRun (secondReading : Int64) : List (Event 2) :=
  [.worker (.submit (.ofString "<34>alpha")),
    .worker (.submit (.ofString "<34>omega")),
    .worker (.take 0 7), .worker (.take 1 secondReading),
    .worker (.emit 0), .worker (.emit 1),
    .worker .deliver, .loop .register, .loop (.endItem true),
    .worker .deliver, .loop .register, .loop (.endItem true),
    .loop (.tick true)]

theorem writesSucceed_twoPacketRun (secondReading : Int64) :
    WritesSucceed asciiTables ∅ (twoPacketRun secondReading) := by
  intro moment event performed
  have member := Transition.mem_of_performs performed
  have flags : event = .register ∨ event = .endItem true ∨ event = .tick true := by
    simpa [twoPacketRun, or_comm, or_left_comm] using member
  rcases flags with rfl | rfl | rfl <;> simp [Engine.writeOutcome]

theorem oneRecordPerPacket_iff_distinct_twoPacketRun :
    ∃ intake, Transition.run (step asciiTables) (start 2 ∅) (twoPacketRun 8) =
        some intake ∧
      intake.pool.taken.map Arrival.packet = submitted (twoPacketRun 8) ∧
      (OneRecordPerPacket intake.engine.db intake.pool.taken ↔
        (intake.pool.taken.map recordID).Nodup) := by
  obtain ⟨intake, reached, facts⟩ := (Option.any_eq_true _ _).mp
    (by decide +kernel : (Transition.run (step asciiTables) (start 2 ∅)
      (twoPacketRun 8)).any (fun intake =>
        decide (intake.pool.Drained ∧ intake.engine.batch = [])) = true)
  obtain ⟨drained, flushed⟩ := of_decide_eq_true facts
  exact ⟨intake, reached, oneRecordPerPacket_iff_distinct asciiTables 2 ∅
    (twoPacketRun 8) intake reached (writesSucceed_twoPacketRun 8) drained
    flushed⟩

/-- Two equal clock readings leave one record for two packets. -/
theorem equal_readings_overwrite :
    ¬ ∀ workers base events intake,
      Transition.run (step asciiTables) (start workers base) events =
        some intake →
      WritesSucceed asciiTables base events → intake.pool.Drained →
      intake.engine.batch = [] →
      OneRecordPerPacket intake.engine.db intake.pool.taken := by
  intro claim
  obtain ⟨intake, reached, facts⟩ := (Option.any_eq_true _ _).mp
    (by decide +kernel : (Transition.run (step asciiTables) (start 2 ∅)
      (twoPacketRun 7)).any (fun intake =>
        decide ((intake.pool.Drained ∧ intake.engine.batch = []) ∧
          ∃ arrival ∈ intake.pool.taken,
            intake.engine.db[(recordID arrival).logKey]? ≠
              some arrival.message)) = true)
  obtain ⟨⟨drained, flushed⟩, arrival, member, overwritten⟩ :=
    of_decide_eq_true facts
  exact overwritten ((claim 2 ∅ (twoPacketRun 7) intake reached
    (writesSucceed_twoPacketRun 7) drained flushed).readable arrival member)

end Intake
end Server
end Chronolog
