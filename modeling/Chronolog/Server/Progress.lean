import Chronolog.Foundation.Draining
import Chronolog.Server.Process

/-!
# Progress of a running engine

Until the signal arrives no schedule blocks a packet for good: the steps the
process takes by itself come to an end, and they end with the main loop having
received every packet that a listener had read.  The queues never hold more
than their sizes.
-/

namespace Chronolog
namespace Server

open Ingestion Pipeline Search Storage Channels

/-! ## The keys of a line -/

section Keys

theorem parsePri_snd (res other : ParsedLog) (data : Bytes) :
    (parsePri res data).2 = (parsePri other data).2 := by
  unfold parsePri
  split
  · split
    · split <;> rfl
    · rfl
  · rfl

theorem splitHostname_message (res other : ParsedLog) (data : Bytes) :
    (splitHostname res data).message = (splitHostname other data).message := by
  unfold splitHostname
  split <;> rfl

/-- The clock does not enter the message. -/
theorem message_parse (now later : Int64) (data : Bytes) :
    (parseSyslogRFC3164 now data).message = (parseSyslogRFC3164 later data).message := by
  unfold parseSyslogRFC3164
  split
  next => rfl
  next =>
    dsimp only
    rw [parsePri_snd (defaultLog now) (defaultLog later) data]
    exact splitHostname_message _ _ _

/-- The number of term keys a line is going to have. -/
def keyCount (unicode : UnicodeTables) (line : Line) : Nat :=
  (Arrival.tokens unicode { now := 0, packet := line.packet }).length

theorem length_termKeys (unicode : UnicodeTables) (done : Stamped Line Int64) :
    ((arrival done).item unicode).termKeys.length = keyCount unicode done.job.content := by
  rw [Arrival.item_termKeys, List.length_map, keyCount, Arrival.tokens, Arrival.tokens,
    Arrival.message, Arrival.message, Arrival.parsed, Arrival.parsed,
    message_parse _ 0]
  rfl

end Keys

/-- The steps the loop has before it for the item in hand. -/
def LoopPoint.work : LoopPoint → Nat
  | .registering remaining => remaining.length + 1
  | _ => 0

/-- The steps that need nothing from outside the process. -/
def ProcessEvent.isInternal {workers : Nat} : ProcessEvent workers → Bool
  | .sendDatagram | .sendLine _ | .forward _ | .submit _ | .worker _ | .receive => true
  | .loop .register | .loop (.endItem _) => true
  | _ => false

namespace Process

variable {workers : Nat}

/-- The packets on their way to the pipeline. -/
def upstream (process : Process workers) : Multiset Line :=
  (process.reader.toList : Multiset Line) + (process.handlers.flatten : Multiset Line) +
    ∑ ingress, (process.channel ingress).contents +
    ∑ ingress, inHandOf (process.forwarder ingress)

/-- The packets that were put on the raw queue. -/
def submittedLines (process : Process workers) : Multiset Line :=
  (process.pipe.submitted.map Job.content : List Line)

/-- The packets the main loop received. -/
def receivedLines (process : Process workers) : Multiset Line :=
  (process.pipe.delivered.map fun done => done.job.content : List Line)

section Work

variable (unicode : UnicodeTables)

/-- The steps a list of packets has before it, when each has `stages` more to go
than one on the output queue. -/
def linesWork (stages : Nat) (lines : List Line) : Nat :=
  (lines.map fun line => keyCount unicode line + stages).sum

@[simp] theorem linesWork_append (stages : Nat) (first second : List Line) :
    linesWork unicode stages (first ++ second) =
      linesWork unicode stages first + linesWork unicode stages second := by
  simp [linesWork]

@[simp] theorem linesWork_cons (stages : Nat) (line : Line) (lines : List Line) :
    linesWork unicode stages (line :: lines) =
      keyCount unicode line + stages + linesWork unicode stages lines := by
  simp [linesWork]

@[simp] theorem linesWork_nil (stages : Nat) : linesWork unicode stages [] = 0 := rfl

/-- The steps the process has before it. -/
def work (process : Process workers) : Nat :=
  linesWork unicode 9 process.reader.toList +
    linesWork unicode 9 process.handlers.flatten +
    ∑ ingress, linesWork unicode 8 (process.channel ingress).queue +
    ∑ ingress, linesWork unicode 7 (process.forwarder ingress).toList +
    process.pipe.work (fun line => keyCount unicode line + 2) +
    process.engine.point.work

end Work

/-! ## A running process -/

/-- The process before the signal: nothing is closed, and no queue holds more
than its size. -/
structure Running (process : Process workers) : Prop where
  accounted : process.pipe.Accounted
  fits : process.pipe.Fits queueSize queueSize
  channels : ∀ ingress, (process.channel ingress).Fits (ingressSize ingress)
  opened : process.pipe.input.closed = false
  fine : process.pipe.panicked = false
  looping : process.engine.point ≠ .stopped
  staying : process.closers = none

variable {unicode : UnicodeTables} {base : DB} {process next : Process workers}

theorem Running.not_halted (running : process.Running) : process.halted = false := by
  rw [halted, running.fine, returned, running.staying]
  rfl

/-- Only the signal stops the loop. -/
theorem point_ne_stopped_of_step
    {engine after : Engine}
    {event : LoopEvent}
    (looping : engine.point ≠ .stopped)
    (noSignal : ∀ written, event ≠ .signal written)
    (stepped : engine.step unicode event = some after) :
    after.point ≠ .stopped := by
  cases event with
  | receive arrival =>
      obtain ⟨_, rfl⟩ := Engine.step_receive stepped
      simp
  | register =>
      obtain ⟨_, _, _, rfl⟩ := Engine.step_register stepped
      simp
  | endItem written =>
      obtain ⟨_, rfl⟩ := Engine.step_endItem stepped
      simp
  | tick written =>
      obtain ⟨_, rfl⟩ := Engine.step_tick stepped
      rwa [Engine.flush_point]
  | signal written => exact absurd rfl (noSignal written)
  | restart =>
      obtain rfl := Option.some.inj stepped
      simp [Engine.start]

/-- A send keeps a channel within its size. -/
theorem fits_update_push
    {ingress : Ingress}
    {line : Line}
    (channels : ∀ ingress, (process.channel ingress).Fits (ingressSize ingress))
    (room : (process.channel ingress).hasRoom = true)
    (other : Ingress) :
    (Function.update process.channel ingress
      ((process.channel ingress).push line) other).Fits (ingressSize other) := by
  by_cases same : other = ingress
  · subst same
    rw [Function.update_self]
    exact (channels other).push room line
  · rw [Function.update_of_ne same]
    exact channels other

/-- Every step but the signal leaves a running process running. -/
theorem Running.step
    {event : ProcessEvent workers}
    (running : process.Running)
    (noSignal : ∀ written, event ≠ .signal written)
    (stepped : process.step unicode event = some next) :
    next.Running := by
  obtain ⟨_, advanced⟩ := step_eq_some.mp stepped
  cases event with
  | readDatagram =>
      obtain ⟨_, _, rfl⟩ := advance_readDatagram advanced
      exact { running with }
  | sendDatagram =>
      rw [advance] at advanced
      split at advanced
      next line reader =>
        obtain ⟨sent, isSent, rfl⟩ := Option.map_eq_some_iff.mp advanced
        obtain ⟨room, rfl⟩ := send_eq_some.mp isSent
        exact { running with channels := fits_update_push running.channels room }
      next => exact absurd advanced.symm (Option.some_ne_none next)
  | request =>
      obtain rfl := advance_request advanced
      exact { running with }
  | sendLine =>
      rw [advance] at advanced
      split at advanced
      next line remaining handler =>
        obtain ⟨sent, isSent, rfl⟩ := Option.map_eq_some_iff.mp advanced
        obtain ⟨room, rfl⟩ := send_eq_some.mp isSent
        exact { running with channels := fits_update_push running.channels room }
      next => exact absurd advanced.symm (Option.some_ne_none next)
  | forward ingress =>
      obtain ⟨line, channel, _, popped, rfl⟩ := advance_forward advanced
      refine { running with channels := fun other => ?_ }
      by_cases same : other = ingress
      · subst same
        dsimp only
        rw [Function.update_self]
        exact (running.channels other).pop popped
      · dsimp only
        rw [Function.update_of_ne same]
        exact running.channels other
  | submit ingress =>
      obtain ⟨line, pipe, _, moved, rfl⟩ := advance_submit advanced
      rcases Farm.step_submit moved with ⟨closed, _⟩ | ⟨_, _, rfl⟩
      · rw [running.opened] at closed
        exact absurd closed Bool.false_ne_true
      · exact { running with
          accounted := running.accounted.step moved
          fits := running.fits.step rfl moved }
  | worker event =>
      obtain ⟨pipe, moved, rfl⟩ := advance_worker advanced
      have accounted := running.accounted
      exact { running with
        accounted := accounted.step moved
        fits := running.fits.step (by cases event <;> rfl) moved
        opened := by
          rw [Farm.input_closed_step moved event.farm_ne_close]
          exact running.opened
        fine := by
          rcases Farm.panicked_step moved with same | ⟨_, submits, _⟩ |
            ⟨worker, done, _, stamped, closed⟩
          · rw [same]
            exact running.fine
          · exact absurd (congrArg Farm.Event.submits submits) (by
              rw [event.submits_farm]
              exact Bool.false_ne_true)
          · rw [accounted.output_open stamped] at closed
            exact absurd closed Bool.false_ne_true }
  | receive =>
      obtain ⟨_, _, pipe, engine, _, moved, engineStepped, rfl⟩ := advance_receive advanced
      obtain ⟨_, _, _, rfl⟩ := Farm.deliverJob_eq_some.mp moved
      exact { running with
        accounted := running.accounted.step moved
        fits := running.fits.step rfl moved
        looping := point_ne_stopped_of_step running.looping (by simp) engineStepped }
  | loop event =>
      obtain ⟨_, _, engine, engineStepped, rfl⟩ := advance_loop advanced
      refine { running with
        looping := point_ne_stopped_of_step running.looping ?_ engineStepped }
      rintro written rfl
      exact absurd advanced.symm (Option.some_ne_none _)
  | signal written => exact absurd rfl (noSignal written)
  | close =>
      obtain ⟨_, _, closers, _⟩ := advance_close advanced
      rw [running.staying] at closers
      exact absurd closers.symm (Option.some_ne_none _)

/-- Once the signal branch has run there is no way back. -/
theorem staying_of_step
    {event : ProcessEvent workers}
    (staying : next.closers = none)
    (stepped : process.step unicode event = some next) :
    process.closers = none ∧ ∀ written, event ≠ .signal written := by
  obtain ⟨_, advanced⟩ := step_eq_some.mp stepped
  cases event with
  | signal written =>
      obtain ⟨_, _, rfl⟩ := advance_signal advanced
      exact absurd staying (Option.some_ne_none _)
  | close =>
      obtain ⟨_, _, _, ⟨_, _, _, _, rfl⟩ | ⟨_, _, _, rfl⟩ | ⟨_, rfl⟩⟩ :=
        advance_close advanced
      · exact ⟨staying, by simp⟩
      · exact absurd staying (Option.some_ne_none _)
      · exact absurd staying (Option.some_ne_none _)
  | readDatagram =>
      obtain ⟨_, _, rfl⟩ := advance_readDatagram advanced
      exact ⟨staying, by simp⟩
  | sendDatagram =>
      obtain ⟨_, _, rfl⟩ := advance_sendDatagram advanced
      exact ⟨staying, by simp⟩
  | request =>
      obtain rfl := advance_request advanced
      exact ⟨staying, by simp⟩
  | sendLine =>
      obtain ⟨_, _, _, rfl⟩ := advance_sendLine advanced
      exact ⟨staying, by simp⟩
  | forward =>
      obtain ⟨_, _, _, _, rfl⟩ := advance_forward advanced
      exact ⟨staying, by simp⟩
  | submit =>
      obtain ⟨_, _, _, _, rfl⟩ := advance_submit advanced
      exact ⟨staying, by simp⟩
  | worker =>
      obtain ⟨_, _, rfl⟩ := advance_worker advanced
      exact ⟨staying, by simp⟩
  | receive =>
      obtain ⟨_, _, _, _, _, _, _, rfl⟩ := advance_receive advanced
      exact ⟨staying, by simp⟩
  | loop =>
      obtain ⟨_, _, _, _, rfl⟩ := advance_loop advanced
      exact ⟨staying, by simp⟩

/-- Until the signal branch has run the process is running. -/
theorem running_of_run
    {events : List (ProcessEvent workers)}
    (reached : Transition.run (Process.step unicode) (start workers base) events =
      some process)
    (staying : process.closers = none) : process.Running := by
  refine Transition.run_history (fun _ process => process.closers = none → process.Running)
    (fun _ => ?_) ?_ reached staying
  · exact {
      accounted := .start queueSize queueSize
      fits := .start
      channels := fun ingress => .make Line (ingressSize ingress)
      opened := rfl
      fine := rfl
      looping := by simp [start, Engine.start]
      staying := rfl }
  · intro history process event next _ inductionHypothesis stepped staying
    obtain ⟨before, noSignal⟩ := staying_of_step staying stepped
    exact (inductionHypothesis before).step noSignal stepped

/-! ## Internal steps use up the work -/

/-- A handler's next line leaves its request. -/
theorem handlers_split
    {handlers : List (List Line)}
    {request : Nat}
    {line : Line}
    {remaining : List Line}
    (handler : handlers[request]? = some (line :: remaining)) :
    ∃ before after, handlers = before ++ (line :: remaining) :: after ∧
      handlers.set request remaining = before ++ remaining :: after := by
  obtain ⟨inside, same⟩ := List.getElem?_eq_some_iff.mp handler
  refine ⟨handlers.take request, handlers.drop (request + 1), ?_, ?_⟩
  · rw [← same, List.cons_getElem_drop_succ, List.take_append_drop]
  · exact List.set_eq_take_append_cons_drop.trans (if_pos inside)

/-- A packet on its way to the loop costs one step for each of its keys, one for
the end of its item, and one for its receipt. -/
theorem work_receive
    {engine after : Engine}
    {done : Stamped Line Int64}
    (stepped : engine.step unicode (.receive (arrival done)) = some after) :
    engine.point.work = 0 ∧
      after.point.work = keyCount unicode done.job.content + 1 := by
  obtain ⟨point, rfl⟩ := Engine.step_receive stepped
  refine ⟨by rw [point]; rfl, ?_⟩
  rw [LoopPoint.work, length_termKeys]

/-- Every internal step of a running process leaves less to do. -/
theorem Running.work_step
    {event : ProcessEvent workers}
    (running : process.Running)
    (internal : event.isInternal = true)
    (stepped : process.step unicode event = some next) :
    next.work unicode < process.work unicode := by
  obtain ⟨_, advanced⟩ := step_eq_some.mp stepped
  cases event with
  | readDatagram | request | signal | close => exact absurd internal Bool.false_ne_true
  | sendDatagram =>
      obtain ⟨line, reader, rfl⟩ := advance_sendDatagram advanced
      have moved := sum_update (fun channel : Channel Line => linesWork unicode 8 channel.queue)
        process.channel .udp ((process.channel .udp).push line)
      simp only [work, reader, Channel.push_queue, linesWork_append, linesWork_cons,
        linesWork_nil, Option.toList_some, Option.toList_none] at moved ⊢
      omega
  | sendLine request =>
      obtain ⟨line, remaining, handler, rfl⟩ := advance_sendLine advanced
      obtain ⟨before, after, split, emptied⟩ := handlers_split handler
      have moved := sum_update (fun channel : Channel Line => linesWork unicode 8 channel.queue)
        process.channel .http ((process.channel .http).push line)
      simp only [work, emptied, Channel.push_queue, linesWork_append, linesWork_cons,
        linesWork_nil] at moved ⊢
      rw [split]
      simp only [List.flatten_append, List.flatten_cons, linesWork_append, linesWork_cons]
      omega
  | forward ingress =>
      obtain ⟨line, channel, free, popped, rfl⟩ := advance_forward advanced
      obtain ⟨queue, _⟩ := Channel.pop_eq_some.mp popped
      have left := sum_update (fun channel : Channel Line => linesWork unicode 8 channel.queue)
        process.channel ingress channel
      have entered := sum_update
        (fun held : Option Line => linesWork unicode 7 held.toList)
        process.forwarder ingress (some line)
      simp only [work, free, queue, linesWork_cons, linesWork_nil, Option.toList_some,
        Option.toList_none] at left entered ⊢
      omega
  | submit ingress =>
      obtain ⟨line, pipe, held, moved, rfl⟩ := advance_submit advanced
      have left := sum_update
        (fun held : Option Line => linesWork unicode 7 held.toList)
        process.forwarder ingress none
      rcases Farm.step_submit moved with ⟨closed, _⟩ | ⟨_, _, rfl⟩
      · rw [running.opened] at closed
        exact absurd closed Bool.false_ne_true
      · simp only [work, Farm.work, Farm.put, held, Channel.push_queue, List.map_append,
          List.sum_append, List.map_singleton, List.sum_singleton, linesWork_cons,
          linesWork_nil, Option.toList_some, Option.toList_none] at left ⊢
        omega
  | worker event =>
      obtain ⟨pipe, moved, rfl⟩ := advance_worker advanced
      have less := Farm.work_step (fun line => keyCount unicode line + 2) running.accounted
        (by cases event <;> rfl) moved
      simp only [work]
      omega
  | receive =>
      obtain ⟨done, rest, pipe, engine, queue, moved, engineStepped, rfl⟩ :=
        advance_receive advanced
      obtain ⟨other, output, popped, rfl⟩ := Farm.deliverJob_eq_some.mp moved
      obtain ⟨front, _⟩ := Channel.pop_eq_some.mp popped
      obtain ⟨rfl, tail⟩ := List.cons.inj (queue.symm.trans front)
      obtain ⟨before, after⟩ := work_receive engineStepped
      simp only [work, Farm.work, front, before, after, List.map_cons, List.sum_cons]
      omega
  | loop event =>
      obtain ⟨_, _, engine, engineStepped, rfl⟩ := advance_loop advanced
      cases event with
      | receive | tick | signal | restart => exact absurd internal Bool.false_ne_true
      | register =>
          obtain ⟨_, _, point, rfl⟩ := Engine.step_register engineStepped
          simp only [work, point, LoopPoint.work, List.length_cons]
          omega
      | endItem =>
          obtain ⟨point, rfl⟩ := Engine.step_endItem engineStepped
          simp only [work, point, LoopPoint.work, List.length_nil]
          omega

theorem contents_push (channel : Channel Line) (line : Line) :
    (channel.push line).contents = channel.contents + {line} := by
  rw [Channel.contents, Channel.contents, Channel.push_queue, ← Multiset.coe_add,
    Multiset.coe_singleton]

theorem contents_pop
    {channel rest : Channel Line}
    {line : Line}
    (popped : channel.pop = some (line, rest)) :
    channel.contents = rest.contents + {line} := by
  rw [Channel.contents, Channel.contents, (Channel.pop_eq_some.mp popped).1,
    ← Multiset.cons_coe, ← Multiset.singleton_add, add_comm]

/-- Internal steps move packets and lose none. -/
theorem Running.lines_step
    {event : ProcessEvent workers}
    (running : process.Running)
    (internal : event.isInternal = true)
    (stepped : process.step unicode event = some next) :
    next.upstream + next.submittedLines = process.upstream + process.submittedLines := by
  obtain ⟨_, advanced⟩ := step_eq_some.mp stepped
  cases event with
  | readDatagram | request | signal | close => exact absurd internal Bool.false_ne_true
  | sendDatagram =>
      obtain ⟨line, reader, rfl⟩ := advance_sendDatagram advanced
      have moved : ∑ ingress, (Function.update process.channel .udp
            ((process.channel .udp).push line) ingress).contents =
          ∑ ingress, (process.channel ingress).contents + {line} :=
        sum_update_receive (contents_push _ line)
      simp only [upstream, submittedLines, moved, reader, Option.toList_some,
        Option.toList_none, Multiset.coe_singleton, Multiset.coe_nil]
      abel
  | sendLine request =>
      obtain ⟨line, remaining, handler, rfl⟩ := advance_sendLine advanced
      obtain ⟨before, after, split, emptied⟩ := handlers_split handler
      have moved : ∑ ingress, (Function.update process.channel .http
            ((process.channel .http).push line) ingress).contents =
          ∑ ingress, (process.channel ingress).contents + {line} :=
        sum_update_receive (contents_push _ line)
      simp only [upstream, submittedLines, moved, emptied]
      rw [split]
      simp only [List.flatten_append, List.flatten_cons, List.cons_append,
        ← Multiset.coe_add, ← Multiset.cons_coe, ← Multiset.singleton_add]
      abel
  | forward ingress =>
      obtain ⟨line, channel, free, popped, rfl⟩ := advance_forward advanced
      have left : ∑ other, (process.channel other).contents =
          ∑ other, (Function.update process.channel ingress channel other).contents +
            {line} :=
        sum_update_add (contents_pop popped)
      have entered : ∑ other, inHandOf (Function.update process.forwarder ingress
            (some line) other) =
          ∑ other, inHandOf (process.forwarder other) + {line} :=
        sum_update_receive (by rw [free]; rfl)
      simp only [upstream, submittedLines, left, entered]
      abel
  | submit ingress =>
      obtain ⟨line, pipe, held, moved, rfl⟩ := advance_submit advanced
      have left : ∑ other, inHandOf (process.forwarder other) =
          ∑ other, inHandOf (Function.update process.forwarder ingress none other) +
            {line} :=
        sum_update_add (by rw [held]; rfl)
      rcases Farm.step_submit moved with ⟨closed, _⟩ | ⟨_, _, rfl⟩
      · rw [running.opened] at closed
        exact absurd closed Bool.false_ne_true
      · simp only [upstream, submittedLines, left, Farm.put, List.map_append,
          List.map_singleton, ← Multiset.coe_add, Multiset.coe_singleton]
        abel
  | worker event =>
      obtain ⟨pipe, moved, rfl⟩ := advance_worker advanced
      have same := Farm.submitted_eq_step moved event.submits_farm
      simp only [upstream, submittedLines, same]
  | receive =>
      obtain ⟨_, _, _, _, _, moved, _, rfl⟩ := advance_receive advanced
      have same := Farm.submitted_eq_step moved rfl
      simp only [upstream, submittedLines, same]
  | loop event =>
      obtain ⟨_, _, _, _, rfl⟩ := advance_loop advanced
      rfl

/-! ## Where internal steps end -/

/-- Nothing is on its way, and the loop waits for the next item. -/
structure Drained (process : Process workers) : Prop where
  upstream : process.upstream = 0
  idle : process.pipe.Idle
  output : process.pipe.output.queue = []
  selecting : process.engine.point = .select

/-- A drained process has received what was put on the raw queue. -/
theorem Drained.receivedLines_eq
    (drained : process.Drained)
    (accounted : process.pipe.Accounted) :
    process.receivedLines = process.submittedLines := by
  have balance := accounted.load_add_delivered
  rw [drained.idle.load_eq, drained.output, List.length_nil, Nat.zero_add] at balance
  have inHand : process.pipe.inHand = 0 := by
    apply Finset.sum_eq_zero
    intro worker _
    rcases drained.idle.2 worker with point | point <;> rw [point] <;> rfl
  have unsent : process.pipe.unsent = 0 := by
    apply Finset.sum_eq_zero
    intro worker _
    rcases drained.idle.2 worker with point | point <;> rw [point] <;> rfl
  have held := accounted.held
  have emitted := accounted.emitted
  rw [inHand, zero_add] at held
  rw [unsent, drained.output, Multiset.coe_nil, zero_add, zero_add] at emitted
  have jobs : (process.pipe.submitted : Multiset (Job Line)) =
      (process.pipe.delivered.map Stamped.job : List (Job Line)) := by
    rw [accounted.queued, drained.idle.1, List.append_nil, held, ← Multiset.map_coe, emitted,
      Multiset.map_coe]
  have contents := congrArg (Multiset.map Job.content) jobs
  rw [Multiset.map_coe, Multiset.map_coe, List.map_map] at contents
  exact contents.symm

/-- What a worker does by itself is an event of the process. -/
theorem exists_workerEvent
    {farmEvent : Farm.Event workers Line Int64}
    (byWorker : farmEvent.byWorker = true) :
    ∃ event : WorkerEvent workers, event.farm = farmEvent := by
  cases farmEvent with
  | take worker => exact ⟨.take worker, rfl⟩
  | stamp worker now => exact ⟨.parse worker now, rfl⟩
  | emit worker => exact ⟨.emit worker, rfl⟩
  | exit worker => exact ⟨.exit worker, rfl⟩
  | submit | handOver | handOut | deliver | close | closeOutput =>
      exact absurd byWorker Bool.false_ne_true

/-- An internal event that is possible is a step. -/
theorem Running.moves
    (running : process.Running)
    (event : ProcessEvent workers)
    (internal : event.isInternal = true)
    (possible : (process.advance unicode event).isSome = true) :
    ∃ event next, event.isInternal = true ∧ process.step unicode event = some next := by
  obtain ⟨next, advanced⟩ := Option.isSome_iff_exists.mp possible
  exact ⟨event, next, internal, step_eq_some.mpr ⟨running.not_halted, advanced⟩⟩

/-- The loop goes on with the item in hand. -/
theorem Running.exists_loop_step
    (running : process.Running)
    (busy : process.engine.point ≠ .select) :
    ∃ event next, event.isInternal = true ∧ process.step unicode event = some next := by
  cases point : process.engine.point with
  | select => exact absurd point busy
  | stopped => exact absurd point running.looping
  | registering remaining =>
      cases remaining with
      | nil =>
          apply running.moves (.loop (.endItem true)) rfl
          rw [advance, Engine.step, point]
          · rfl
          all_goals
            intros
            contradiction
      | cons idxKey remaining =>
          apply running.moves (.loop .register) rfl
          rw [advance, Engine.step, point]
          · rfl
          all_goals
            intros
            contradiction

/-- Packets before the raw queue move on when the channels ahead are empty. -/
theorem Running.exists_upstream_step
    (running : process.Running)
    (empty : process.pipe.input.queue = [])
    (busy : process.upstream ≠ 0) :
    ∃ event next, event.isInternal = true ∧ process.step unicode event = some next := by
  by_cases handed : ∃ ingress line, process.forwarder ingress = some line
  · obtain ⟨ingress, line, held⟩ := handed
    have room : process.pipe.input.hasRoom = true :=
      running.fits.input.hasRoom (by rw [empty]; decide)
    apply running.moves (.submit ingress) rfl
    rw [advance, held]
    dsimp only
    rw [Farm.step, running.opened, if_neg Bool.false_ne_true, if_pos room]
    rfl
  have free : ∀ ingress, process.forwarder ingress = none := by
    intro ingress
    rw [Option.eq_none_iff_forall_ne_some]
    intro line held
    exact handed ⟨ingress, line, held⟩
  by_cases queued : ∃ ingress, (process.channel ingress).queue ≠ []
  · obtain ⟨ingress, waiting⟩ := queued
    obtain ⟨line, rest, queue⟩ := List.exists_cons_of_ne_nil waiting
    have popped : (process.channel ingress).pop =
        some (line, { process.channel ingress with queue := rest }) :=
      Channel.pop_eq_some.mpr ⟨queue, rfl⟩
    apply running.moves (.forward ingress) rfl
    rw [advance, free ingress, popped]
    rfl
  have drained : ∀ ingress, (process.channel ingress).queue = [] := by
    intro ingress
    by_contra waiting
    exact queued ⟨ingress, waiting⟩
  have room : ∀ ingress, (process.channel ingress).hasRoom = true := by
    intro ingress
    apply (running.channels ingress).hasRoom
    rw [drained ingress]
    cases ingress <;> decide
  cases reader : process.reader with
  | some line =>
      apply running.moves .sendDatagram rfl
      rw [advance, reader]
      dsimp only
      rw [send, if_pos (room .udp)]
      rfl
  | none =>
      have pending : process.handlers.flatten ≠ [] := by
        intro none
        apply busy
        simp [upstream, reader, none, Channel.contents, inHandOf, drained, free]
      obtain ⟨line, member⟩ := List.exists_mem_of_ne_nil _ pending
      obtain ⟨lines, handler, here⟩ := List.mem_flatten.mp member
      obtain ⟨request, found⟩ := List.mem_iff_getElem?.mp handler
      obtain ⟨first, rest, rfl⟩ := List.exists_cons_of_ne_nil (List.ne_nil_of_mem here)
      apply running.moves (.sendLine request) rfl
      rw [advance, found]
      dsimp only
      rw [send, if_pos (room .http)]
      rfl

/-- A process that is not drained takes an internal step. -/
theorem Running.exists_internal_step
    (running : process.Running)
    (positive : 0 < workers)
    (busy : ¬ process.Drained) :
    ∃ event next, event.isInternal = true ∧ process.step unicode event = some next := by
  by_cases selecting : process.engine.point = .select
  · cases output : process.pipe.output.queue with
    | cons done rest =>
        apply running.moves .receive rfl
        have delivered : process.pipe.step .deliver = some _ :=
          Farm.deliverJob_eq_some.mpr ⟨done, { process.pipe.output with queue := rest },
            Channel.pop_eq_some.mpr ⟨output, rfl⟩, rfl⟩
        rw [advance, output]
        dsimp only
        rw [delivered, Option.bind_some, Engine.step, if_pos selecting]
        rfl
    | nil =>
        by_cases idle : process.pipe.Idle
        · apply running.exists_upstream_step idle.1
          intro upstream
          exact busy ⟨upstream, idle, output, selecting⟩
        · have room : process.pipe.output.hasRoom = true :=
            running.fits.output.hasRoom (by rw [output]; decide)
          obtain ⟨farmEvent, pipe, byWorker, moved⟩ :=
            Farm.exists_step_of_not_idle running.accounted positive room idle
          obtain ⟨event, rfl⟩ := exists_workerEvent byWorker
          apply running.moves (.worker event) rfl
          rw [advance, moved]
          rfl
  · exact running.exists_loop_step selecting

/-- Until the signal, no schedule of the internal steps goes on forever, and one
that cannot be continued has brought every packet read so far to the loop. -/
theorem drains_before_signal
    (unicode : UnicodeTables)
    (workers : Nat)
    (positive : 0 < workers)
    (base : DB)
    (history : List (ProcessEvent workers))
    (process : Process workers)
    (reached : Transition.run (Process.step unicode) (start workers base) history =
      some process)
    (staying : process.closers = none) :
    (∀ events final, (∀ event ∈ events, event.isInternal = true) →
        Transition.run (Process.step unicode) process events = some final →
        events.length ≤ process.work unicode ∧
          ((∀ event, event.isInternal = true → final.step unicode event = none) →
            final.engine.point = .select ∧
              final.receivedLines = process.upstream + process.submittedLines)) ∧
      ∃ events final, (∀ event ∈ events, event.isInternal = true) ∧
        Transition.run (Process.step unicode) process events = some final ∧
        ∀ event, event.isInternal = true → final.step unicode event = none := by
  have decreases : ∀ (state : Process workers) event (next : Process workers),
      (state.Running ∧ state.upstream + state.submittedLines =
        process.upstream + process.submittedLines) →
      event.isInternal = true → state.step unicode event = some next →
      (next.Running ∧ next.upstream + next.submittedLines =
        process.upstream + process.submittedLines) ∧
        next.work unicode < state.work unicode := by
    rintro state event next ⟨running, lines⟩ internal stepped
    have noSignal : ∀ written, event ≠ .signal written := by
      rintro written rfl
      exact absurd internal Bool.false_ne_true
    exact ⟨⟨running.step noSignal stepped, (running.lines_step internal stepped).trans lines⟩,
      running.work_step internal stepped⟩
  have invariant := And.intro (running_of_run reached staying)
    (rfl : process.upstream + process.submittedLines = _)
  constructor
  · intro events final internal continued
    obtain ⟨⟨running, lines⟩, bound⟩ :=
      Transition.length_add_measure_le decreases invariant internal continued
    refine ⟨by omega, fun stuck => ?_⟩
    have drained : final.Drained := by
      by_contra busy
      obtain ⟨event, next, internal, stepped⟩ :
          ∃ event next, event.isInternal = true ∧ final.step unicode event = some next :=
        running.exists_internal_step positive busy
      rw [stuck event internal] at stepped
      exact absurd stepped.symm (Option.some_ne_none next)
    refine ⟨drained.selecting, ?_⟩
    rw [drained.receivedLines_eq running.accounted, ← lines, drained.upstream, zero_add]
  · obtain ⟨events, final, internal, continued, _, stuck⟩ :=
      Transition.exists_run_to_goal
        (fun state : Process workers => ∀ event, event.isInternal = true →
          state.step unicode event = none)
        (fun state _ moving => by
          simp only [not_forall] at moving
          obtain ⟨event, internal, stepped⟩ := moving
          obtain ⟨next, stepped⟩ := Option.ne_none_iff_exists'.mp stepped
          exact ⟨event, next, internal, stepped⟩)
        decreases invariant
    exact ⟨events, final, internal, continued, stuck⟩

/-- A datagram that the reader has put on its channel. -/
def waitingDatagram : List (ProcessEvent 1) :=
  [.readDatagram freshBuffer "<34>hello".toUTF8.toList, .sendDatagram]

theorem drains_before_signal_waitingDatagram :
    ∃ process final, Transition.run (step asciiTables) (start 1 ∅) waitingDatagram =
        some process ∧
      (∃ events, Transition.run (step asciiTables) process events = some final) ∧
      final.receivedLines = process.upstream + process.submittedLines := by
  obtain ⟨process, reached, staying⟩ := (Option.any_eq_true _ _).mp
    (by decide +kernel : (Transition.run (step asciiTables) (start 1 ∅)
      waitingDatagram).any (fun process => process.closers.isNone) = true)
  obtain ⟨every, events, final, internal, continued, stuck⟩ :=
    drains_before_signal asciiTables 1 Nat.one_pos ∅ waitingDatagram process reached
      (Option.isNone_iff_eq_none.mp staying)
  exact ⟨process, final, reached, ⟨events, continued⟩,
    ((every events final internal continued).2 stuck).2⟩

end Process
end Server
end Chronolog
