import Chronolog.Server.Process

/-!
# Sends on closed queues

`pipe.Close` closes the raw queue while nothing has stopped the forwarders, and
neither the listeners' channels nor the forwarders are ever told to end.  A
forwarder that has a packet in hand then, or takes one afterwards, sends it on
the closed queue.  Nothing else can panic: the output queue is closed behind
the last worker.
-/

namespace Chronolog
namespace Server

open Ingestion Pipeline Search Storage Channels

namespace Process

variable {workers : Nat}

/-- Whether `pipe.Close` is about to close the raw queue. -/
def closesRawQueue (process : Process workers) : Bool :=
  match process.closers with
  | some (.pipe :: _) => !process.pipe.input.closed
  | _ => false

theorem closesRawQueue_eq_true {process : Process workers} :
    process.closesRawQueue = true ↔
      (∃ remaining, process.closers = some (.pipe :: remaining)) ∧
        process.pipe.input.closed = false := by
  unfold closesRawQueue
  split
  next remaining closers => simp [closers]
  next other =>
    constructor
    · exact nofun
    · rintro ⟨⟨remaining, closers⟩, _⟩
      exact absurd closers (other remaining)

/-- The raw queue is closed while both forwarders are empty-handed, and no
forwarder takes a packet once it is closed. -/
def Orderly (process : Process workers) : ProcessEvent workers → Prop
  | .close => process.closesRawQueue = true → ∀ ingress, process.forwarder ingress = none
  | .forward _ => process.pipe.input.closed = false
  | _ => True

instance (process : Process workers) (event : ProcessEvent workers) :
    Decidable (process.Orderly event) :=
  match event with
  | .close => inferInstanceAs (Decidable
      (process.closesRawQueue = true → ∀ ingress, process.forwarder ingress = none))
  | .forward _ => inferInstanceAs (Decidable (process.pipe.input.closed = false))
  | .readDatagram _ _ | .sendDatagram | .request _ _ _ | .sendLine _ | .submit _
  | .worker _ | .receive | .loop _ | .signal _ => inferInstanceAs (Decidable True)

/-- A step that sends on a queue of the pipeline after it was closed. -/
def SendsOnClosed (process : Process workers) : ProcessEvent workers → Prop
  | .submit _ => process.pipe.input.closed = true
  | .worker (.emit _) => process.pipe.output.closed = true
  | _ => False

/-- Nobody holds a packet for a closed raw queue. -/
def Quiet (process : Process workers) : Prop :=
  process.pipe.input.closed = true → ∀ ingress, process.forwarder ingress = none

/-- Every step a run performs is orderly. -/
def AllOrderly
    (unicode : UnicodeTables) (base : DB) (events : List (ProcessEvent workers)) : Prop :=
  ∀ moment event,
    Transition.Performs (step unicode) (start workers base) events moment event →
      moment.Orderly event

variable {unicode : UnicodeTables} {base : DB} {process next : Process workers}

theorem AllOrderly.of_append
    {before after : List (ProcessEvent workers)}
    (orderly : AllOrderly unicode base (before ++ after)) :
    AllOrderly unicode base before := fun moment event performed =>
  orderly moment event (Transition.performs_append performed)

/-- Orderly steps keep the forwarders away from a closed raw queue. -/
theorem Quiet.step
    {event : ProcessEvent workers}
    (quiet : process.Quiet)
    (orderly : process.Orderly event)
    (stepped : process.step unicode event = some next) :
    next.Quiet := by
  obtain ⟨_, advanced⟩ := step_eq_some.mp stepped
  cases event with
  | readDatagram =>
      obtain ⟨_, _, rfl⟩ := advance_readDatagram advanced
      exact quiet
  | sendDatagram =>
      obtain ⟨_, _, rfl⟩ := advance_sendDatagram advanced
      exact quiet
  | request =>
      obtain rfl := advance_request advanced
      exact quiet
  | sendLine =>
      obtain ⟨_, _, _, rfl⟩ := advance_sendLine advanced
      exact quiet
  | forward ingress =>
      obtain ⟨_, _, _, _, rfl⟩ := advance_forward advanced
      intro closed
      exact absurd closed (by simp [show process.pipe.input.closed = false from orderly])
  | submit ingress =>
      obtain ⟨line, pipe, held, moved, rfl⟩ := advance_submit advanced
      intro closed
      rw [Farm.input_closed_step moved (by simp)] at closed
      exact absurd (quiet closed ingress) (by simp [held])
  | worker event =>
      obtain ⟨pipe, moved, rfl⟩ := advance_worker advanced
      intro closed
      rw [Farm.input_closed_step moved event.farm_ne_close] at closed
      exact quiet closed
  | receive =>
      obtain ⟨_, _, _, _, _, moved, _, rfl⟩ := advance_receive advanced
      intro closed
      rw [Farm.input_closed_step moved (by simp)] at closed
      exact quiet closed
  | loop =>
      obtain ⟨_, _, _, _, rfl⟩ := advance_loop advanced
      exact quiet
  | signal =>
      obtain ⟨_, _, rfl⟩ := advance_signal advanced
      exact quiet
  | close =>
      obtain ⟨closer, remaining, closers,
        ⟨rfl, opened, pipe, moved, rfl⟩ | ⟨_, pipe, moved, rfl⟩ | ⟨_, rfl⟩⟩ :=
          advance_close advanced
      · intro _
        exact orderly (by simp [closesRawQueue, closers, opened])
      · intro closed
        rw [Farm.input_closed_step moved (by simp)] at closed
        exact quiet closed
      · exact quiet

/-- A quiet process does not panic. -/
theorem panicked_of_quiet
    {event : ProcessEvent workers}
    (accounted : process.pipe.Accounted)
    (quiet : process.Quiet)
    (stepped : process.step unicode event = some next) :
    next.pipe.panicked = false := by
  have fine : process.pipe.panicked = false := by
    have running := (step_eq_some.mp stepped).1
    exact (Bool.or_eq_false_iff.mp running).1
  rcases pipe_step stepped with same | ⟨farmEvent, moved, drives⟩
  · rw [same, fine]
  · rcases Farm.panicked_step moved with same | ⟨line, rfl, closed⟩ |
      ⟨worker, done, _, stamped, closed⟩
    · rw [same, fine]
    · obtain ⟨ingress, held⟩ := drives.submit
      exact absurd (quiet closed ingress) (by simp [held])
    · exact absurd closed (by simp [accounted.output_open stamped])

/-- A quiet process does not send on a closed queue. -/
theorem not_sendsOnClosed
    {event : ProcessEvent workers}
    (accounted : process.pipe.Accounted)
    (quiet : process.Quiet)
    (stepped : process.step unicode event = some next) :
    ¬ process.SendsOnClosed event := by
  obtain ⟨_, advanced⟩ := step_eq_some.mp stepped
  cases event with
  | submit ingress =>
      intro closed
      obtain ⟨line, _, held, _, _⟩ := advance_submit advanced
      exact absurd (quiet closed ingress) (by simp [held])
  | worker event =>
      cases event with
      | emit worker =>
          intro closed
          obtain ⟨pipe, moved, _⟩ := advance_worker advanced
          rcases Farm.step_emit moved with ⟨_, ⟨done, stamped⟩, _⟩ | ⟨opened, _⟩
          · exact Bool.false_ne_true
              ((accounted.output_open stamped).symm.trans closed)
          · exact Bool.false_ne_true (opened.symm.trans closed)
      | take | parse | exit => exact id
  | _ => exact id

/-- A forwarder with a packet for a closed raw queue panics when it runs. -/
theorem submit_panics
    {ingress : Ingress}
    {line : Line}
    (running : process.halted = false)
    (held : process.forwarder ingress = some line)
    (closed : process.pipe.input.closed = true) :
    ∃ after, process.step unicode (.submit ingress) = some after ∧
      after.pipe.panicked = true := by
  have moved : process.pipe.step (.submit line) =
      some { process.pipe with panicked := true } := if_pos closed
  refine ⟨{ process with
    pipe := { process.pipe with panicked := true }
    forwarder := Function.update process.forwarder ingress none }, ?_, rfl⟩
  rw [step_eq_some, advance, held]
  simp only [moved]
  exact ⟨running, rfl⟩

/-- After a step out of order a forwarder can panic at once. -/
theorem panics_of_disorderly
    {event : ProcessEvent workers}
    (stepped : process.step unicode event = some next)
    (disorderly : ¬ process.Orderly event) :
    ∃ ingress after, next.step unicode (.submit ingress) = some after ∧
      after.pipe.panicked = true := by
  obtain ⟨running, advanced⟩ := step_eq_some.mp stepped
  cases event with
  | forward ingress =>
      obtain ⟨line, channel, _, _, rfl⟩ := advance_forward advanced
      have closed : process.pipe.input.closed = true := by
        simpa [Orderly] using disorderly
      exact ⟨ingress, submit_panics running (Function.update_self _ _ _) closed⟩
  | close =>
      obtain ⟨closing, held⟩ := Classical.not_imp.mp disorderly
      obtain ⟨ingress, held⟩ := not_forall.mp held
      obtain ⟨line, held⟩ := Option.ne_none_iff_exists'.mp held
      obtain ⟨⟨rest, atPipe⟩, opened⟩ := closesRawQueue_eq_true.mp closing
      obtain ⟨closer, remaining, closers,
        ⟨_, _, pipe, moved, rfl⟩ | ⟨_, pipe, moved, _⟩ | ⟨other, _⟩⟩ :=
          advance_close advanced
      · obtain ⟨_, rfl⟩ := Farm.step_close moved
        refine ⟨ingress, submit_panics ?_ held rfl⟩
        rw [halted, Bool.or_eq_false_iff] at running ⊢
        refine ⟨running.1, ?_⟩
        simp only [returned, atPipe]
      · have closed := (Farm.step_closeOutput moved).1
        rw [opened] at closed
        exact nomatch closed
      · rw [atPipe] at closers
        obtain ⟨rfl, _⟩ := List.cons.inj (Option.some.inj closers)
        exact absurd rfl other
  | _ => exact absurd trivial disorderly

/-- An orderly run keeps the forwarders away from a closed raw queue, and does
not panic. -/
theorem quiet_of_run
    {events : List (ProcessEvent workers)}
    (reached : Transition.run (step unicode) (start workers base) events = some process)
    (orderly : AllOrderly unicode base events) :
    process.Quiet ∧ process.pipe.panicked = false := by
  refine Transition.run_history_meeting
    (fun _ moment => moment.Quiet ∧ moment.pipe.panicked = false)
    ⟨(fun closed => nomatch closed), rfl⟩ ?_ reached orderly
  rintro history state event next current ⟨quiet, _⟩ orderly stepped
  exact ⟨quiet.step orderly stepped,
    panicked_of_quiet (accounted_of_run current) quiet stepped⟩

/-- In every run whose steps are all orderly, nothing is ever sent on the raw
queue or the output queue after it was closed.  Any other step lets a forwarder
panic on the next one. -/
theorem no_send_on_closed
    (unicode : UnicodeTables)
    (workers : Nat)
    (base : DB)
    (events : List (ProcessEvent workers))
    (process : Process workers)
    (reached : Transition.run (step unicode) (start workers base) events = some process) :
    (AllOrderly unicode base events →
      process.pipe.panicked = false ∧
        ∀ moment event,
          Transition.Performs (step unicode) (start workers base) events moment event →
            ¬ moment.SendsOnClosed event) ∧
      ∀ event next, process.step unicode event = some next → ¬ process.Orderly event →
        ∃ ingress after, next.step unicode (.submit ingress) = some after ∧
          after.pipe.panicked = true := by
  refine ⟨fun orderly => ?_, fun event next => panics_of_disorderly⟩
  refine ⟨(quiet_of_run reached orderly).2, ?_⟩
  rintro moment event ⟨before, after, rfl, current⟩
  obtain ⟨next, stepped⟩ := Transition.exists_step_of_performs reached current
  have quiet := (quiet_of_run current (AllOrderly.of_append orderly)).1
  exact not_sendsOnClosed (accounted_of_run current) quiet stepped

/-- One datagram goes through, and the process shuts down after it. -/
def quietShutdown : List (ProcessEvent 1) :=
  let worker : Fin 1 := ⟨0, Nat.zero_lt_one⟩
  [.readDatagram freshBuffer "<34>hello".toUTF8.toList, .sendDatagram, .forward .udp,
    .submit .udp, .signal true, .close, .close, .close,
    .worker (.take worker), .worker (.parse worker 7), .worker (.emit worker),
    .worker (.exit worker), .close, .close, .close, .close]

theorem no_send_on_closed_quietShutdown :
    ∃ process, Transition.run (step asciiTables) (start 1 ∅) quietShutdown =
        some process ∧
      process.returned = true ∧ process.pipe.panicked = false := by
  obtain ⟨process, guarded, returned⟩ := (Option.any_eq_true _ _).mp
    (by decide +kernel : (Transition.run (Transition.guarded (step asciiTables)
      fun moment event => decide (moment.Orderly event)) (start 1 ∅) quietShutdown).any
        (fun process => process.returned) = true)
  obtain ⟨reached, accepted⟩ := Transition.run_guarded guarded
  have orderly : AllOrderly asciiTables ∅ quietShutdown := fun moment event performed =>
    of_decide_eq_true (accepted moment event performed)
  exact ⟨process, reached, returned,
    ((no_send_on_closed asciiTables 1 ∅ quietShutdown process reached).1 orderly).1⟩

/-- The forwarder has taken the datagram when the raw queue is closed. -/
def panickingShutdown : List (ProcessEvent 1) :=
  [.readDatagram freshBuffer "<34>hello".toUTF8.toList, .sendDatagram, .forward .udp,
    .signal true, .close, .close, .close, .submit .udp]

theorem shutdown_sends_on_closed :
    ¬ ∀ workers base events (process : Process workers),
      Transition.run (step asciiTables) (start workers base) events = some process →
      ∀ moment event,
        Transition.Performs (step asciiTables) (start workers base) events moment event →
          ¬ moment.SendsOnClosed event := by
  intro claim
  obtain ⟨process, reached, _⟩ := (Option.any_eq_true _ _).mp
    (by decide +kernel : (Transition.run (step asciiTables) (start 1 ∅)
      panickingShutdown).any (fun process => process.pipe.panicked) = true)
  obtain ⟨moment, current, closed⟩ := (Option.any_eq_true _ _).mp
    (by decide +kernel : (Transition.run (step asciiTables) (start 1 ∅)
      panickingShutdown.dropLast).any (fun moment => moment.pipe.input.closed) = true)
  exact claim 1 ∅ panickingShutdown process reached moment (.submit .udp)
    ⟨panickingShutdown.dropLast, [], rfl, current⟩ closed

end Process
end Server
end Chronolog
