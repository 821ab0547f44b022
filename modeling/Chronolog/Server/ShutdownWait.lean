import Chronolog.Server.Progress
import Chronolog.Server.ShutdownLoss

/-!
# Whether a shutdown ends

`pipe.Close` waits for the workers, who still put the items they have left on
the output queue.  Nobody receives from it any more, so the queue has to hold
them all: with more packets left than it has places, `main` never returns.
-/

namespace Chronolog
namespace Server

open Ingestion Pipeline Search Storage Channels

namespace Process

variable {workers : Nat}

/-- `main` waits in `pipe.Close` for the workers, with some deferred calls left
behind it. -/
structure Awaits (process : Process workers) (remaining : List Closer) : Prop where
  closers : process.closers = some (.pipe :: remaining)
  closed : process.pipe.input.closed = true
  fine : process.pipe.panicked = false

/-- Some continuation of the run lets `main` return. -/
def CanReturn (unicode : UnicodeTables) (process : Process workers) : Prop :=
  ∃ events final, Transition.run (step unicode) process events = some final ∧
    final.returned = true

variable {unicode : UnicodeTables} {base : DB} {process next : Process workers}

/-! ## What holds in every run -/

/-- The queues of the pipeline stay within their sizes. -/
theorem fits_of_run
    {events : List (ProcessEvent workers)}
    (reached : Transition.run (step unicode) (start workers base) events = some process) :
    process.pipe.Fits queueSize queueSize := by
  refine Transition.run_history
    (fun _ process => process.pipe.Fits queueSize queueSize) .start ?_ reached
  intro history process event next _ fits stepped
  rcases pipe_step stepped with same | ⟨farmEvent, moved, drives⟩
  · rw [same]
    exact fits
  · refine fits.step ?_ moved
    cases farmEvent with
    | handOver | handOut =>
        cases event with
        | worker event => cases event <;> simp [Drives, WorkerEvent.farm] at drives
        | _ => exact drives.elim
    | _ => rfl

/-- The deferred calls run in their order. -/
theorem closers_suffix_of_run
    {events : List (ProcessEvent workers)}
    {remaining : List Closer}
    (reached : Transition.run (step unicode) (start workers base) events = some process)
    (closers : process.closers = some remaining) :
    remaining <:+ deferred.reverse := by
  refine Transition.run_history (fun _ process => ∀ remaining,
    process.closers = some remaining → remaining <:+ deferred.reverse)
    (fun _ closers => absurd closers.symm (Option.some_ne_none _)) ?_ reached
    remaining closers
  intro history process event next _ inductionHypothesis stepped remaining closers
  obtain ⟨_, advanced⟩ := step_eq_some.mp stepped
  cases event with
  | signal written =>
      obtain ⟨_, _, rfl⟩ := advance_signal advanced
      obtain rfl := Option.some.inj closers
      exact List.suffix_rfl
  | close =>
      obtain ⟨closer, rest, before, ⟨_, _, _, _, rfl⟩ | ⟨_, _, _, rfl⟩ | ⟨_, rfl⟩⟩ :=
        advance_close advanced
      · exact inductionHypothesis remaining closers
      · obtain rfl := Option.some.inj closers
        exact (List.suffix_cons closer rest).trans (inductionHypothesis _ before)
      · obtain rfl := Option.some.inj closers
        exact (List.suffix_cons closer rest).trans (inductionHypothesis _ before)
  | readDatagram =>
      obtain ⟨_, _, rfl⟩ := advance_readDatagram advanced
      exact inductionHypothesis remaining closers
  | sendDatagram =>
      obtain ⟨_, _, rfl⟩ := advance_sendDatagram advanced
      exact inductionHypothesis remaining closers
  | request =>
      obtain rfl := advance_request advanced
      exact inductionHypothesis remaining closers
  | sendLine =>
      obtain ⟨_, _, _, rfl⟩ := advance_sendLine advanced
      exact inductionHypothesis remaining closers
  | forward =>
      obtain ⟨_, _, _, _, rfl⟩ := advance_forward advanced
      exact inductionHypothesis remaining closers
  | submit =>
      obtain ⟨_, _, _, _, rfl⟩ := advance_submit advanced
      exact inductionHypothesis remaining closers
  | worker =>
      obtain ⟨_, _, rfl⟩ := advance_worker advanced
      exact inductionHypothesis remaining closers
  | receive =>
      obtain ⟨_, _, _, _, _, _, _, rfl⟩ := advance_receive advanced
      exact inductionHypothesis remaining closers
  | loop =>
      obtain ⟨_, _, _, _, rfl⟩ := advance_loop advanced
      exact inductionHypothesis remaining closers

/-! ## While `main` waits -/

/-- A waiting `main` with a load left to its workers, or one whose process has
panicked. -/
structure Waiting (load : Nat) (remaining : List Closer) (process : Process workers) :
    Prop where
  closers : process.closers = some (.pipe :: remaining)
  stopped : process.engine.point = .stopped
  closing : process.pipe.panicked = false →
    process.pipe.Closing queueSize queueSize load

variable {load : Nat} {remaining : List Closer}

theorem Waiting.not_returned (waiting : process.Waiting load remaining) :
    process.returned = false := by
  rw [returned, waiting.closers]

/-- No step but the end of the wait changes who waits for what. -/
theorem Waiting.step
    {event : ProcessEvent workers}
    (positive : 0 < workers)
    (waiting : process.Waiting load remaining)
    (stepped : process.step unicode event = some next) :
    next.Waiting load remaining ∨ load ≤ queueSize := by
  obtain ⟨active, advanced⟩ := step_eq_some.mp stepped
  have closing := waiting.closing (Bool.or_eq_false_iff.mp active).1
  cases event with
  | readDatagram =>
      obtain ⟨_, _, rfl⟩ := advance_readDatagram advanced
      exact Or.inl { waiting with }
  | sendDatagram =>
      obtain ⟨_, _, rfl⟩ := advance_sendDatagram advanced
      exact Or.inl { waiting with }
  | request =>
      obtain rfl := advance_request advanced
      exact Or.inl { waiting with }
  | sendLine =>
      obtain ⟨_, _, _, rfl⟩ := advance_sendLine advanced
      exact Or.inl { waiting with }
  | forward =>
      obtain ⟨_, _, _, _, rfl⟩ := advance_forward advanced
      exact Or.inl { waiting with }
  | submit ingress =>
      -- the raw queue is closed, so that the forwarder panics
      obtain ⟨_, pipe, _, moved, rfl⟩ := advance_submit advanced
      rcases Farm.step_submit moved with ⟨_, rfl⟩ | ⟨opened, _⟩
      · exact Or.inl { waiting with closing := fun fine => absurd fine.symm Bool.false_ne_true }
      · rw [closing.closed] at opened
        exact absurd opened.symm Bool.false_ne_true
  | worker event =>
      obtain ⟨pipe, moved, rfl⟩ := advance_worker advanced
      exact Or.inl { waiting with
        closing := fun _ => (closing.step (by cases event <;> rfl) moved).1 }
  | receive =>
      obtain ⟨_, _, _, _, _, _, engineStepped, rfl⟩ := advance_receive advanced
      have select := (Engine.step_receive engineStepped).1
      rw [waiting.stopped] at select
      exact absurd select (by simp)
  | loop event =>
      obtain ⟨noRestart, _, _, engineStepped, rfl⟩ := advance_loop advanced
      exact absurd (eq_restart_of_stopped waiting.stopped engineStepped) noRestart
  | signal written =>
      obtain ⟨_, engineStepped, rfl⟩ := advance_signal advanced
      have select := (Engine.step_signal engineStepped).1
      rw [waiting.stopped] at select
      exact absurd select (by simp)
  | close =>
      right
      obtain ⟨closer, rest, before, ⟨_, opened, _⟩ | ⟨_, pipe, moved, _⟩ | ⟨other, _⟩⟩ :=
        advance_close advanced
      · rw [closing.closed] at opened
        exact absurd opened.symm Bool.false_ne_true
      · obtain ⟨_, exited, _⟩ := Farm.step_closeOutput moved
        exact (closing.exits_iff_load_le positive).mp
          ⟨[], process.pipe, fun _ member => absurd member List.not_mem_nil, rfl, exited⟩
      · rw [waiting.closers] at before
        obtain ⟨rfl, _⟩ := List.cons.inj (Option.some.inj before)
        exact absurd rfl other

/-- If `main` gets past the wait, the output queue had room for the load. -/
theorem Waiting.load_le_of_returned
    {events : List (ProcessEvent workers)}
    {final : Process workers}
    (positive : 0 < workers)
    (waiting : process.Waiting load remaining)
    (reached : Transition.run (Process.step unicode) process events = some final)
    (returned : final.returned = true) : load ≤ queueSize := by
  have kept : final.Waiting load remaining ∨ load ≤ queueSize := by
    refine Transition.run_history
      (fun _ state => state.Waiting load remaining ∨ load ≤ queueSize)
      (Or.inl waiting) ?_ reached
    rintro history state event next _ (waiting | enough) stepped
    · exact waiting.step positive stepped
    · exact Or.inr enough
  rcases kept with waiting | enough
  · rw [waiting.not_returned] at returned
    exact absurd returned Bool.false_ne_true
  · exact enough

/-! ## The wait ends -/

/-- What the workers do by themselves, the process can do. -/
theorem Waiting.exists_run_of_farm
    {farmEvents : List (Farm.Event workers Line Int64)}
    {pipe : Farm workers Line Int64}
    (waiting : process.Waiting load remaining)
    (fine : process.pipe.panicked = false)
    (byWorkers : ∀ farmEvent ∈ farmEvents, farmEvent.byWorker = true)
    (moved : Transition.run Farm.step process.pipe farmEvents = some pipe) :
    ∃ events, Transition.run (Process.step unicode) process events =
        some { process with pipe } ∧
      pipe.panicked = false ∧ pipe.Closing queueSize queueSize load := by
  induction farmEvents generalizing process with
  | nil =>
      obtain rfl := Option.some.inj moved
      exact ⟨[], rfl, fine, waiting.closing fine⟩
  | cons farmEvent farmEvents inductionHypothesis =>
      obtain ⟨middle, first, rest⟩ := Option.bind_eq_some_iff.mp moved
      have byWorker := byWorkers farmEvent List.mem_cons_self
      have closing := waiting.closing fine
      have stays : middle.panicked = false := by
        rcases Farm.panicked_step first with same | ⟨content, rfl, _⟩ |
          ⟨worker, done, _, stamped, closed⟩
        · rw [same, fine]
        · exact absurd byWorker Bool.false_ne_true
        · rw [closing.accounted.output_open stamped] at closed
          exact absurd closed Bool.false_ne_true
      obtain ⟨event, rfl⟩ := exists_workerEvent byWorker
      have stepped : process.step unicode (.worker event) =
          some { process with pipe := middle } := by
        rw [step_eq_some, halted, fine, waiting.not_returned, advance, first]
        exact ⟨rfl, rfl⟩
      have after : ({ process with pipe := middle } : Process workers).Waiting load
          remaining := { waiting with closing := fun _ => (closing.step byWorker first).1 }
      obtain ⟨events, reached, kept⟩ := inductionHypothesis after stays
        (fun other member => byWorkers other (List.mem_cons_of_mem _ member)) rest
      refine ⟨.worker event :: events, ?_, kept⟩
      rw [Transition.run_cons, stepped]
      exact reached

/-- The deferred calls behind `pipe.Close` run one after the other. -/
theorem exists_run_to_return
    (fine : process.pipe.panicked = false)
    (closers : process.closers = some remaining)
    (behind : .pipe ∉ remaining) : process.CanReturn unicode := by
  induction remaining generalizing process with
  | nil =>
      refine ⟨[], process, rfl, ?_⟩
      rw [returned, closers]
  | cons closer remaining inductionHypothesis =>
      rw [List.mem_cons, not_or] at behind
      have stepped : process.step unicode .close =
          some { process with closers := some remaining } := by
        rw [step_eq_some, halted, fine, returned, closers]
        refine ⟨rfl, ?_⟩
        rw [advance, closers]
        cases closer with
        | pipe => exact absurd rfl behind.1
        | _ => rfl
      have rest : ({ process with closers := some remaining } : Process workers).CanReturn
          unicode := inductionHypothesis fine rfl behind.2
      obtain ⟨events, final, reached, ends⟩ := rest
      refine ⟨.close :: events, final, ?_, ends⟩
      rw [Transition.run_cons, stepped]
      exact reached

/-- Whether `main`, waiting for its workers, can still return depends on one
thing: the packets on the raw queue, with the workers and on the output queue
have to fit into the output queue.  With more of them the engine hangs. -/
theorem canReturn_iff_load_le
    (unicode : UnicodeTables)
    (workers : Nat)
    (positive : 0 < workers)
    (base : DB)
    (history : List (ProcessEvent workers))
    (process : Process workers)
    (remaining : List Closer)
    (reached : Transition.run (Process.step unicode) (start workers base) history =
      some process)
    (awaits : process.Awaits remaining) :
    process.CanReturn unicode ↔ process.pipe.load ≤ queueSize := by
  have waiting : process.Waiting process.pipe.load remaining := {
    closers := awaits.closers
    stopped := (leaving_of_run reached awaits.closers).stopped
    closing := fun _ => {
      accounted := accounted_of_run reached
      fits := fits_of_run reached
      closed := awaits.closed
      load_eq := rfl } }
  constructor
  · rintro ⟨events, final, continued, returned⟩
    exact waiting.load_le_of_returned positive continued returned
  · intro enough
    obtain ⟨farmEvents, pipe, byWorkers, moved, exited⟩ :=
      ((waiting.closing awaits.fine).exits_iff_load_le positive).mpr enough
    obtain ⟨events, continued, fine, closing⟩ :
        ∃ events, Transition.run (Process.step unicode) process events =
            some { process with pipe } ∧
          pipe.panicked = false ∧ pipe.Closing queueSize queueSize process.pipe.load :=
      waiting.exists_run_of_farm awaits.fine byWorkers moved
    have ended : pipe.step .closeOutput = some { pipe with output := pipe.output.close } :=
      if_pos ⟨closing.closed, fun worker => Point.isExited_eq_true.mpr (exited worker)⟩
    have closed : ({ process with pipe } : Process workers).step unicode .close =
        some { process with
          pipe := { pipe with output := pipe.output.close }
          closers := some remaining } := by
      refine step_eq_some.mpr ⟨?_, ?_⟩
      · rw [halted, fine, returned, awaits.closers]
        rfl
      · rw [advance, awaits.closers]
        dsimp only
        rw [closing.closed, if_neg (by simp), ended]
        rfl
    have behind : Closer.pipe ∉ remaining := by
      have distinct := (closers_suffix_of_run reached awaits.closers).sublist.nodup
        (by decide : deferred.reverse.Nodup)
      exact (List.nodup_cons.mp distinct).1
    have last : ({ process with
        pipe := { pipe with output := pipe.output.close }
        closers := some remaining } : Process workers).CanReturn unicode :=
      exists_run_to_return fine rfl behind
    obtain ⟨more, final, finished, ends⟩ := last
    refine ⟨events ++ .close :: more, final, ?_, ends⟩
    rw [Transition.run_append, continued, Option.bind_some, Transition.run_cons, closed]
    exact finished

theorem canReturn_iff_load_le_quietShutdown :
    ∃ process, Transition.run (step asciiTables) (start 1 ∅) (quietShutdown.take 8) =
        some process ∧
      process.pipe.load = 1 ∧ process.CanReturn asciiTables := by
  obtain ⟨process, reached, facts⟩ := (Option.any_eq_true _ _).mp
    (by decide +kernel : (Transition.run (step asciiTables) (start 1 ∅)
      (quietShutdown.take 8)).any (fun process => decide
        (process.closers = some [.pipe, .udpListener, .grpcServer, .db] ∧
          process.pipe.input.closed = true ∧ process.pipe.panicked = false ∧
          process.pipe.load = 1)) = true)
  obtain ⟨closers, closed, fine, load⟩ := of_decide_eq_true facts
  refine ⟨process, reached, load, ?_⟩
  apply (canReturn_iff_load_le asciiTables 1 Nat.one_pos ∅ (quietShutdown.take 8) process
    [.udpListener, .grpcServer, .db] reached ⟨closers, closed, fine⟩).mpr
  rw [load]
  decide

end Process
end Server
end Chronolog
