import Chronolog.Server.ClosedQueues
import Chronolog.Server.Intake

/-!
# What a shutdown keeps

The signal branch flushes the pending batch and leaves the loop.  The workers
finish what is in the raw queue, but nobody receives from the output queue any
more, so a packet the loop had not received by then is lost.  A run keeps every
accepted packet exactly when the loop had received them all, apart from
coincidences between equal records.
-/

namespace Chronolog
namespace Server

open Ingestion Pipeline Search Storage Channels

namespace Process

variable {workers : Nat}

section Statement

variable (unicode : UnicodeTables)

/-- Every packet that had been put on the raw queue when the signal branch ran
is in the database, under the clock reading of its worker. -/
def KeepsAccepted (process : Process workers) : Prop :=
  ∀ job ∈ process.accepted, ∃ done ∈ process.pipe.stamped,
    done.job = job ∧ Stored unicode process.engine.db (arrival done)

/-- The loop received every packet accepted before the signal, or one with the
same record, unless the record was there from the start; and it received no
other message for that record. -/
def Covered (base : DB) (process : Process workers) : Prop :=
  ∀ done ∈ process.pipe.stamped, done.job ∈ process.accepted →
    (∀ other ∈ process.pipe.delivered,
      recordID (arrival other) = recordID (arrival done) →
        (arrival other).message = (arrival done).message) ∧
      ((∃ other ∈ process.pipe.delivered,
          recordID (arrival other) = recordID (arrival done)) ∨
        Stored unicode base (arrival done))

end Statement

variable {unicode : UnicodeTables} {base : DB} {process next : Process workers}

/-! ## The loop's own run -/

/-- What a history of the process tells about the loop's own run. -/
structure Traced (unicode : UnicodeTables) (base : DB)
    (history : List (ProcessEvent workers)) (process : Process workers)
    (loops : List LoopEvent) : Prop where
  reached : Transition.run (Engine.step unicode) (Engine.start base) loops =
    some process.engine
  noRestart : LoopEvent.restart ∉ loops
  succeed : WritesSucceed unicode base history →
    Server.WritesSucceed unicode (Engine.start base) loops
  received : received loops = process.pipe.delivered.map arrival

theorem WritesSucceed.of_append
    {before after : List (ProcessEvent workers)}
    (succeed : WritesSucceed unicode base (before ++ after)) :
    WritesSucceed unicode base before where
  left moment event performed :=
    succeed.1 moment event (Transition.performs_append performed)
  right moment written performed :=
    succeed.2 moment written (Transition.performs_append performed)

/-- A step of the loop extends the loop's run. -/
theorem Traced.extend
    {history : List (ProcessEvent workers)}
    {loops : List LoopEvent}
    {event : ProcessEvent workers}
    {loopEvent : LoopEvent}
    (traced : Traced unicode base history process loops)
    (noRestart : loopEvent ≠ .restart)
    (stepped : process.engine.step unicode loopEvent = some next.engine)
    (succeeds : WritesSucceed unicode base (history ++ [event]) →
      process.engine.writeOutcome loopEvent ≠ some false)
    (delivered : next.pipe.delivered.map arrival =
      process.pipe.delivered.map arrival ++ Server.received [loopEvent]) :
    Traced unicode base (history ++ [event]) next (loops ++ [loopEvent]) where
  reached := Transition.run_concat_eq_some.mpr ⟨_, traced.reached, stepped⟩
  noRestart := by
    rw [List.mem_append, not_or, List.mem_singleton]
    exact ⟨traced.noRestart, fun same => noRestart same.symm⟩
  succeed succeed :=
    (traced.succeed succeed.of_append).concat traced.reached (succeeds succeed)
  received := by
    rw [received_append, traced.received, delivered]

/-- A step of anything else leaves the loop's run as it is. -/
theorem Traced.keep
    {history : List (ProcessEvent workers)}
    {loops : List LoopEvent}
    {event : ProcessEvent workers}
    (traced : Traced unicode base history process loops)
    (engine : next.engine = process.engine)
    (delivered : next.pipe.delivered = process.pipe.delivered) :
    Traced unicode base (history ++ [event]) next loops where
  reached := by
    rw [engine]
    exact traced.reached
  noRestart := traced.noRestart
  succeed succeed := traced.succeed succeed.of_append
  received := by
    rw [delivered]
    exact traced.received

/-- A step of the process is a step of the loop or none. -/
theorem Traced.step
    {history : List (ProcessEvent workers)}
    {loops : List LoopEvent}
    {event : ProcessEvent workers}
    (traced : Traced unicode base history process loops)
    (current : Transition.run (Process.step unicode) (start workers base) history =
      some process)
    (stepped : process.step unicode event = some next) :
    ∃ extended, Traced unicode base (history ++ [event]) next extended := by
  obtain ⟨_, advanced⟩ := step_eq_some.mp stepped
  cases event with
  | readDatagram =>
      obtain ⟨_, _, rfl⟩ := advance_readDatagram advanced
      exact ⟨loops, traced.keep rfl rfl⟩
  | sendDatagram =>
      obtain ⟨_, _, rfl⟩ := advance_sendDatagram advanced
      exact ⟨loops, traced.keep rfl rfl⟩
  | request =>
      obtain rfl := advance_request advanced
      exact ⟨loops, traced.keep rfl rfl⟩
  | sendLine =>
      obtain ⟨_, _, _, rfl⟩ := advance_sendLine advanced
      exact ⟨loops, traced.keep rfl rfl⟩
  | forward =>
      obtain ⟨_, _, _, _, rfl⟩ := advance_forward advanced
      exact ⟨loops, traced.keep rfl rfl⟩
  | submit =>
      obtain ⟨_, _, _, moved, rfl⟩ := advance_submit advanced
      exact ⟨loops, traced.keep rfl (Farm.delivered_step moved rfl)⟩
  | worker event =>
      obtain ⟨_, moved, rfl⟩ := advance_worker advanced
      exact ⟨loops, traced.keep rfl (Farm.delivered_step moved event.delivers_farm)⟩
  | receive =>
      obtain ⟨done, rest, pipe, engine, queue, moved, engineStepped, rfl⟩ :=
        advance_receive advanced
      refine ⟨loops ++ [.receive (arrival done)],
        traced.extend (by simp) engineStepped (by simp [Engine.writeOutcome]) ?_⟩
      obtain ⟨first, output, popped, rfl⟩ := Farm.deliverJob_eq_some.mp moved
      have front := (Channel.pop_eq_some.mp popped).1
      rw [queue] at front
      obtain ⟨rfl, _⟩ := List.cons.inj front
      rw [List.map_append]
      rfl
  | loop event =>
      obtain ⟨noRestart, nothing, engine, engineStepped, rfl⟩ := advance_loop advanced
      refine ⟨loops ++ [event], traced.extend noRestart engineStepped
        (fun succeed => succeed.1 process event (Transition.performs_concat current)) ?_⟩
      rw [nothing, List.append_nil]
  | signal written =>
      obtain ⟨engine, engineStepped, rfl⟩ := advance_signal advanced
      refine ⟨loops ++ [.signal written], traced.extend (by simp) engineStepped
        (fun succeed => succeed.2 process written (Transition.performs_concat current)) ?_⟩
      rw [show Server.received [.signal written] = [] from rfl, List.append_nil]
  | close =>
      obtain ⟨_, _, _, ⟨_, _, _, moved, rfl⟩ | ⟨_, _, moved, rfl⟩ | ⟨_, rfl⟩⟩ :=
        advance_close advanced
      · exact ⟨loops, traced.keep rfl (Farm.delivered_step moved rfl)⟩
      · exact ⟨loops, traced.keep rfl (Farm.delivered_step moved rfl)⟩
      · exact ⟨loops, traced.keep rfl rfl⟩

theorem exists_traced
    {events : List (ProcessEvent workers)}
    (reached : Transition.run (Process.step unicode) (start workers base) events =
      some process) :
    ∃ loops, Traced unicode base events process loops := by
  refine Transition.run_history
    (fun history process => ∃ loops, Traced unicode base history process loops)
    ?_ ?_ reached
  · refine ⟨[], rfl, List.not_mem_nil, ?_, rfl⟩
    exact fun _ _ _ performed => absurd performed Transition.not_performs_nil
  · rintro history process event next current ⟨loops, traced⟩ stepped
    exact traced.step current stepped

/-! ## While the deferred calls run -/

/-- After the signal the loop stands still with an empty batch, it has received
accepted packets only, and the output queue is closed behind `pipe.Close`. -/
structure Leaving (process : Process workers) (remaining : List Closer) : Prop where
  stopped : process.engine.point = .stopped
  flushed : process.engine.batch = []
  included : process.accepted ⊆ process.pipe.submitted
  delivered : ∀ done ∈ process.pipe.delivered, done.job ∈ process.accepted
  closed : .pipe ∉ remaining → process.pipe.output.closed = true

/-- A stopped loop takes no step. -/
theorem eq_restart_of_stopped
    {engine after : Engine}
    {event : LoopEvent}
    (stopped : engine.point = .stopped)
    (stepped : engine.step unicode event = some after) :
    event = .restart := by
  cases event with
  | receive => exact absurd (Engine.step_receive stepped).1 (by simp [stopped])
  | register =>
      obtain ⟨_, _, point, _⟩ := Engine.step_register stepped
      exact absurd point (by simp [stopped])
  | endItem => exact absurd (Engine.step_endItem stepped).1 (by simp [stopped])
  | tick => exact absurd (Engine.step_tick stepped).1 (by simp [stopped])
  | signal => exact absurd (Engine.step_signal stepped).1 (by simp [stopped])
  | restart => rfl

/-- The pipeline works on without the loop. -/
theorem Leaving.of_pipe
    {remaining : List Closer}
    {farmEvent : Farm.Event workers Line Int64}
    {pipe : Farm workers Line Int64}
    (leaving : process.Leaving remaining)
    (moved : process.pipe.step farmEvent = some pipe)
    (delivered : pipe.delivered = process.pipe.delivered) :
    ({ process with pipe } : Process workers).Leaving remaining where
  stopped := leaving.stopped
  flushed := leaving.flushed
  included := List.Subset.trans leaving.included (Farm.submitted_step moved)
  delivered := by
    rw [delivered]
    exact leaving.delivered
  closed passed := Farm.output_closed_step moved (leaving.closed passed)

/-- The signal branch flushes and leaves the loop. -/
theorem leaving_of_signal
    {history : List (ProcessEvent workers)}
    {written : Bool}
    (current : Transition.run (Process.step unicode) (start workers base) history =
      some process)
    (advanced : process.advance unicode (.signal written) = some next) :
    next.Leaving deferred.reverse := by
  obtain ⟨engine, stepped, rfl⟩ := advance_signal advanced
  obtain ⟨loops, traced⟩ := exists_traced current
  have accounted := accounted_of_run current
  have represents := represents_ofEvents traced.reached
  obtain ⟨_, rfl⟩ := Engine.step_signal stepped
  exact {
    stopped := rfl
    flushed := by
      change (process.engine.flush written).batch = []
      rw [Engine.flush]
      split
      next empty =>
        rw [represents.size] at empty
        exact List.length_eq_zero_iff.mp empty
      next => rfl
    included := List.Subset.refl _
    delivered := by
      intro done member
      change done.job ∈ process.pipe.submitted
      rw [accounted.queued, List.mem_append, accounted.mem_taken]
      exact Or.inl (Or.inr ⟨done, accounted.delivered_subset member, rfl⟩)
    closed := fun passed => absurd (by decide) passed }

theorem Leaving.step
    {history : List (ProcessEvent workers)}
    {event : ProcessEvent workers}
    (leaving : ∀ remaining, process.closers = some remaining → process.Leaving remaining)
    (current : Transition.run (Process.step unicode) (start workers base) history =
      some process)
    (stepped : process.step unicode event = some next) :
    ∀ remaining, next.closers = some remaining → next.Leaving remaining := by
  obtain ⟨_, advanced⟩ := step_eq_some.mp stepped
  cases event with
  | readDatagram =>
      obtain ⟨_, _, rfl⟩ := advance_readDatagram advanced
      exact fun remaining closers => { leaving remaining closers with }
  | sendDatagram =>
      obtain ⟨_, _, rfl⟩ := advance_sendDatagram advanced
      exact fun remaining closers => { leaving remaining closers with }
  | request =>
      obtain rfl := advance_request advanced
      exact fun remaining closers => { leaving remaining closers with }
  | sendLine =>
      obtain ⟨_, _, _, rfl⟩ := advance_sendLine advanced
      exact fun remaining closers => { leaving remaining closers with }
  | forward =>
      obtain ⟨_, _, _, _, rfl⟩ := advance_forward advanced
      exact fun remaining closers => { leaving remaining closers with }
  | submit =>
      obtain ⟨_, _, _, moved, rfl⟩ := advance_submit advanced
      exact fun remaining closers => { (leaving remaining closers).of_pipe moved
        (Farm.delivered_step moved rfl) with }
  | worker event =>
      obtain ⟨_, moved, rfl⟩ := advance_worker advanced
      exact fun remaining closers => (leaving remaining closers).of_pipe moved
        (Farm.delivered_step moved event.delivers_farm)
  | receive =>
      obtain ⟨_, _, _, _, _, _, engineStepped, rfl⟩ := advance_receive advanced
      intro remaining closers
      exact nomatch eq_restart_of_stopped (leaving remaining closers).stopped engineStepped
  | loop event =>
      obtain ⟨noRestart, _, _, engineStepped, rfl⟩ := advance_loop advanced
      intro remaining closers
      exact absurd (eq_restart_of_stopped (leaving remaining closers).stopped engineStepped)
        noRestart
  | signal written =>
      intro remaining closers
      have entered := leaving_of_signal current advanced
      obtain ⟨_, _, rfl⟩ := advance_signal advanced
      obtain rfl := Option.some.inj closers
      exact entered
  | close =>
      obtain ⟨closer, rest, before,
        ⟨_, _, _, moved, rfl⟩ | ⟨_, _, moved, rfl⟩ | ⟨other, rfl⟩⟩ :=
          advance_close advanced
      · exact fun remaining closers => (leaving remaining closers).of_pipe moved
          (Farm.delivered_step moved rfl)
      · intro remaining closers
        have moving := (leaving _ before).of_pipe moved
          (Farm.delivered_step moved rfl)
        obtain ⟨_, _, rfl⟩ := Farm.step_closeOutput moved
        exact { moving with closed := fun _ => rfl }
      · intro remaining closers
        obtain rfl := Option.some.inj closers
        exact { leaving _ before with
          closed := fun passed => (leaving _ before).closed (by
            rw [List.mem_cons, not_or]
            exact ⟨other.symm, passed⟩) }

theorem leaving_of_run
    {events : List (ProcessEvent workers)}
    {remaining : List Closer}
    (reached : Transition.run (Process.step unicode) (start workers base) events =
      some process)
    (closers : process.closers = some remaining) :
    process.Leaving remaining := by
  refine Transition.run_history (fun _ process => ∀ remaining,
    process.closers = some remaining → process.Leaving remaining) nofun ?_ reached
    remaining closers
  intro history process event next current leaving stepped
  exact Leaving.step leaving current stepped

/-! ## Items that agree -/

/-- A key belongs to one record. -/
theorem recordID_of_put
    {first second : Arrival}
    {key value other : Bytes}
    (firstPut : (key, value) ∈ puts unicode first)
    (secondPut : (key, other) ∈ puts unicode second) :
    recordID second = recordID first := by
  rcases mem_puts.mp firstPut with ⟨rfl, _⟩ | ⟨⟨term, _, rfl⟩, _⟩
  · exact (logKey_mem_puts.mp secondPut).1
  · exact (indexKey_mem_puts.mp secondPut).1

/-- An item is stored behind others that agree with it exactly when one of them
has its record, or it was stored before. -/
theorem stored_storeOf
    {items : List Arrival}
    {item : Arrival}
    (agree : ∀ other ∈ items, recordID other = recordID item →
      other.message = item.message) :
    Stored unicode (storeOf unicode base items) item ↔
      (∃ other ∈ items, recordID other = recordID item) ∨ Stored unicode base item := by
  have untouched : (∀ other ∈ items, recordID other ≠ recordID item) →
      (Stored unicode (storeOf unicode base items) item ↔ Stored unicode base item) := by
    intro apart
    apply forall_congr'
    intro key
    apply forall_congr'
    intro value
    apply imp_congr_right
    intro put
    have unwritten : key ∉ (items.flatMap (puts unicode)).map Prod.fst := by
      rintro written
      obtain ⟨⟨_, other⟩, member, rfl⟩ := List.mem_map.mp written
      obtain ⟨second, present, secondPut⟩ := List.mem_flatMap.mp member
      exact apart second present (recordID_of_put put secondPut)
    rw [storeOf, OrderedStore.getElem?_write_of_notMem _ _ _ unwritten]
  by_cases covered : ∃ other ∈ items, recordID other = recordID item
  · refine iff_of_true ?_ (Or.inl covered)
    obtain ⟨other, present, same⟩ := covered
    have message := agree other present same
    intro key value put
    have twin : (key, value) ∈ puts unicode other := by
      rcases mem_puts.mp put with ⟨rfl, rfl⟩ | ⟨⟨term, token, rfl⟩, rfl⟩
      · exact logKey_mem_puts.mpr ⟨same, message.symm⟩
      · refine indexKey_mem_puts.mpr ⟨same, ?_, rfl⟩
        rwa [Arrival.tokens, message]
    apply OrderedStore.getElem?_write_of_mem
    · exact List.mem_map.mpr ⟨(key, value), List.mem_flatMap.mpr ⟨other, present, twin⟩, rfl⟩
    · intro written otherPut
      obtain ⟨second, secondPresent, secondPut⟩ := List.mem_flatMap.mp otherPut
      have secondSame := recordID_of_put put secondPut
      have pairAgree : Agree [item, second] := by
        have equal := agree second secondPresent secondSame
        intro one oneMember two twoMember _
        simp only [List.mem_cons, List.not_mem_nil, or_false] at oneMember twoMember
        rcases oneMember with rfl | rfl <;> rcases twoMember with rfl | rfl <;>
          simp [equal]
      exact puts_value_unique pairAgree (by simp) (by simp) put secondPut
  · rw [or_iff_right covered]
    exact untouched fun other present same => covered ⟨other, present, same⟩

/-! ## What is in the database at the end -/

/-- When `main` returns, the database holds what the loop received. -/
theorem db_of_returned
    {events : List (ProcessEvent workers)}
    (reached : Transition.run (Process.step unicode) (start workers base) events =
      some process)
    (succeed : WritesSucceed unicode base events)
    (leaving : process.Leaving []) :
    process.engine.db =
      storeOf unicode base (process.pipe.delivered.map arrival) := by
  obtain ⟨loops, traced⟩ := exists_traced reached
  rw [Intake.db_of_flushed traced.reached traced.noRestart (traced.succeed succeed)
    leaving.flushed, traced.received]

/-- In every run in which `main` returns and all batch writes succeed, every
packet accepted before the signal is in the database exactly when the loop had
received them all, or records equal to theirs, and no other message for one of
these records. -/
theorem keepsAccepted_iff_covered
    (unicode : UnicodeTables)
    (workers : Nat)
    (positive : 0 < workers)
    (base : DB)
    (events : List (ProcessEvent workers))
    (process : Process workers)
    (reached : Transition.run (Process.step unicode) (start workers base) events =
      some process)
    (returned : process.returned = true)
    (succeed : WritesSucceed unicode base events) :
    process.KeepsAccepted unicode ↔ process.Covered unicode base := by
  have closers : process.closers = some [] := by
    unfold Process.returned at returned
    split at returned
    next closers => exact closers
    next => exact nomatch returned
  have leaving := leaving_of_run reached closers
  have accounted := accounted_of_run reached
  have closed := leaving.closed List.not_mem_nil
  have stampedJobs := accounted.stamped_perm_submitted positive closed
  have single : (process.pipe.stamped.map Stamped.job).Nodup :=
    stampedJobs.nodup_iff.mpr accounted.nodup_submitted
  rw [KeepsAccepted, Covered, db_of_returned reached succeed leaving]
  constructor
  · intro keeps
    have stored : ∀ done ∈ process.pipe.stamped, done.job ∈ process.accepted →
        Stored unicode (storeOf unicode base (process.pipe.delivered.map arrival))
          (arrival done) := by
      intro done member accepted
      obtain ⟨other, otherMember, same, kept⟩ := keeps done.job accepted
      rwa [← List.inj_on_of_nodup_map single otherMember member same]
    intro done member accepted
    have agree : ∀ other ∈ process.pipe.delivered,
        recordID (arrival other) = recordID (arrival done) →
          (arrival other).message = (arrival done).message := by
      intro other otherMember same
      have doneRecord := stored done member accepted _ _ (logKey_mem_puts.mpr ⟨rfl, rfl⟩)
      have otherRecord := stored other (accounted.delivered_subset otherMember)
        (leaving.delivered other otherMember) _ _ (logKey_mem_puts.mpr ⟨rfl, rfl⟩)
      rw [same, doneRecord] at otherRecord
      exact (Option.some.inj otherRecord).symm
    refine ⟨agree, ?_⟩
    have kept := stored done member accepted
    rw [stored_storeOf (by simpa using agree)] at kept
    simpa using kept
  · intro covered job accepted
    obtain ⟨done, member, rfl⟩ := List.mem_map.mp
      (stampedJobs.mem_iff.mpr (leaving.included accepted))
    obtain ⟨agree, present⟩ := covered done member accepted
    refine ⟨done, member, rfl, (stored_storeOf (by simpa using agree)).mpr ?_⟩
    simpa using present

/-- With clock readings that tell all records apart, what is kept is what the
loop had received: a packet that was still in the raw queue, with a worker or
on the output queue when the signal branch ran is lost. -/
theorem keepsAccepted_iff_received
    {events : List (ProcessEvent workers)}
    (positive : 0 < workers)
    (reached : Transition.run (Process.step unicode) (start workers base) events =
      some process)
    (returned : process.returned = true)
    (succeed : WritesSucceed unicode base events)
    (distinct : (process.pipe.stamped.map fun done => recordID (arrival done)).Nodup)
    (fresh : ∀ done ∈ process.pipe.stamped, ¬ Stored unicode base (arrival done)) :
    process.KeepsAccepted unicode ↔
      ∀ done ∈ process.pipe.stamped, done.job ∈ process.accepted →
        done ∈ process.pipe.delivered := by
  have accounted := accounted_of_run reached
  have same : ∀ other ∈ process.pipe.delivered, ∀ done ∈ process.pipe.stamped,
      recordID (arrival other) = recordID (arrival done) → other = done :=
    fun other delivered done member equal => List.inj_on_of_nodup_map distinct
      (accounted.delivered_subset delivered) member equal
  rw [keepsAccepted_iff_covered unicode workers positive base events process reached
    returned succeed]
  constructor
  · intro covered done member accepted
    obtain ⟨other, delivered, equal⟩ | stored := (covered done member accepted).2
    · exact same other delivered done member equal ▸ delivered
    · exact absurd stored (fresh done member)
  · intro received done member accepted
    refine ⟨?_, Or.inl ⟨done, received done member accepted, rfl⟩⟩
    intro other delivered equal
    rw [same other delivered done member equal]

/-- No write of a run fails in which every write is told to succeed. -/
theorem writesSucceed_of_told
    {events : List (ProcessEvent workers)}
    (told : ∀ event ∈ events, event ≠ .signal false ∧
      ∀ loopEvent, event = .loop loopEvent →
        loopEvent ≠ .endItem false ∧ loopEvent ≠ .tick false ∧ loopEvent ≠ .signal false) :
    WritesSucceed unicode base events := by
  constructor
  · intro moment event performed
    obtain ⟨_, clean⟩ := told _ (Transition.mem_of_performs performed)
    obtain ⟨endItem, tick, signal⟩ := clean event rfl
    cases event <;> grind [Engine.writeOutcome]
  · intro moment written performed
    have clean := (told _ (Transition.mem_of_performs performed)).1
    grind [Engine.writeOutcome]

/-- The datagram reaches the batch before the signal. -/
def drainedShutdown : List (ProcessEvent 1) :=
  let worker : Fin 1 := ⟨0, Nat.zero_lt_one⟩
  [.readDatagram freshBuffer "<34>hello".toUTF8.toList, .sendDatagram, .forward .udp,
    .submit .udp, .worker (.take worker), .worker (.parse worker 7),
    .worker (.emit worker), .receive, .loop .register, .loop (.endItem true), .signal true,
    .close, .close, .close, .worker (.exit worker), .close, .close, .close, .close]

theorem keepsAccepted_iff_covered_drainedShutdown :
    ∃ process, Transition.run (step asciiTables) (start 1 ∅) drainedShutdown =
        some process ∧
      process.accepted.length = 1 ∧ process.KeepsAccepted asciiTables := by
  obtain ⟨process, reached, facts⟩ := (Option.any_eq_true _ _).mp
    (by decide +kernel : (Transition.run (step asciiTables) (start 1 ∅)
      drainedShutdown).any (fun process => process.returned &&
        decide (process.accepted.length = 1 ∧ ∀ done ∈ process.pipe.stamped,
          (∀ other ∈ process.pipe.delivered,
            (arrival other).message = (arrival done).message) ∧
          ∃ other ∈ process.pipe.delivered,
            recordID (arrival other) = recordID (arrival done))) = true)
  obtain ⟨returned, facts⟩ := Bool.and_eq_true_iff.mp facts
  obtain ⟨accepted, received⟩ := of_decide_eq_true facts
  have succeed : WritesSucceed asciiTables ∅ drainedShutdown :=
    writesSucceed_of_told (by simp [drainedShutdown])
  refine ⟨process, reached, accepted, (keepsAccepted_iff_covered asciiTables 1
    Nat.one_pos ∅ drainedShutdown process reached returned succeed).mpr ?_⟩
  intro done member _
  obtain ⟨agree, present⟩ := received done member
  exact ⟨fun other otherMember _ => agree other otherMember, Or.inl present⟩

/-- A packet on the raw queue is parsed after the signal, put on the output
queue, and never received. -/
theorem shutdown_loses_packet :
    ¬ ∀ workers base events (process : Process workers), 0 < workers →
      Transition.run (step asciiTables) (start workers base) events = some process →
      process.returned = true → WritesSucceed asciiTables base events →
      process.KeepsAccepted asciiTables := by
  intro claim
  obtain ⟨process, reached, facts⟩ := (Option.any_eq_true _ _).mp
    (by decide +kernel : (Transition.run (step asciiTables) (start 1 ∅)
      quietShutdown).any (fun process => process.returned &&
        decide (process.accepted ≠ [] ∧ ∀ done ∈ process.pipe.stamped,
          process.engine.db[(recordID (arrival done)).logKey]? = none)) = true)
  obtain ⟨returned, facts⟩ := Bool.and_eq_true_iff.mp facts
  obtain ⟨accepted, missing⟩ := of_decide_eq_true facts
  have succeed : WritesSucceed asciiTables ∅ quietShutdown :=
    writesSucceed_of_told (by simp [quietShutdown])
  obtain ⟨job, member⟩ := List.exists_mem_of_ne_nil _ accepted
  obtain ⟨done, stamped, _, stored⟩ :=
    claim 1 ∅ quietShutdown process Nat.one_pos reached returned succeed job member
  have present := stored _ _ (logKey_mem_puts.mpr ⟨rfl, rfl⟩)
  rw [missing done stamped] at present
  exact nomatch present

end Process
end Server
end Chronolog
