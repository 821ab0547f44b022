import Chronolog.Foundation.WorkerFarm
import Chronolog.Ingestion.Listeners
import Chronolog.Server.WriteFailures

/-!
# The engine process

The goroutines between the sockets and the database: the UDP reader and the
HTTP handlers with their channels, a forwarder behind each channel, the worker
pipeline, and `main` with its loop and its deferred calls.  Packets are passed
by value here.  A send on a closed channel panics, which ends the process, and
so does the return of `main`.
-/

namespace Chronolog
namespace Server

open Ingestion Pipeline Search Storage Channels

/-- Where a packet came from.  The lines of an HTTP request are counted from
zero, without the empty ones. -/
inductive Origin
  | datagram
  | line (request index : Nat)
  deriving DecidableEq

/-- A packet with its origin. -/
structure Line where
  origin : Origin
  packet : PacketBuffer
  deriving DecidableEq

/-- The two ways in: a channel and the goroutine that forwards from it. -/
inductive Ingress
  | udp
  | http
  deriving DecidableEq

instance : Fintype Ingress where
  elems := {.udp, .http}
  complete ingress := by cases ingress <;> simp

/-- What `main` defers. -/
inductive Closer
  | db
  | grpcServer
  | udpListener
  | pipe
  | httpListener
  | ticker
  deriving DecidableEq

/-- The deferred calls in the order of their registration. -/
def deferred : List Closer :=
  [.db, .grpcServer, .udpListener, .pipe, .httpListener, .ticker]

/-- What a worker does in its loop. -/
inductive WorkerEvent (workers : Nat)
  | take (worker : Fin workers)
  | parse (worker : Fin workers) (now : Int64)
  | emit (worker : Fin workers)
  | exit (worker : Fin workers)

/-- The worker as a member of a farm, whose stamps are clock readings. -/
def WorkerEvent.farm {workers : Nat} : WorkerEvent workers → Farm.Event workers Line Int64
  | .take worker => .take worker
  | .parse worker now => .stamp worker now
  | .emit worker => .emit worker
  | .exit worker => .exit worker

namespace WorkerEvent

variable {workers : Nat}

theorem submits_farm (event : WorkerEvent workers) : event.farm.submits = false := by
  cases event <;> rfl

theorem delivers_farm (event : WorkerEvent workers) : event.farm.delivers = false := by
  cases event <;> rfl

theorem farm_ne_close (event : WorkerEvent workers) : event.farm ≠ .close := by
  cases event <;> exact nofun

end WorkerEvent

/-- What can happen in the process. -/
inductive ProcessEvent (workers : Nat)
  | readDatagram (buf bytes : Bytes)
  | sendDatagram
  | request (isPost : Bool) (body : Bytes) (readError : Option ScanError)
  | sendLine (request : Nat)
  | forward (ingress : Ingress)
  | submit (ingress : Ingress)
  | worker (event : WorkerEvent workers)
  | receive
  | loop (event : LoopEvent)
  | signal (written : Bool)
  | close

/-- A parsed line as the arrival it is. -/
def arrival (done : Stamped Line Int64) : Arrival where
  now := done.stamp
  packet := done.job.content.packet

/-- State of the process.  `reader` is the packet the UDP reader is about to
send, `handlers` the lines each HTTP handler has still to send, and `closers`
the deferred calls still to run once the loop is left.  `accepted` is history:
what had been put on the raw queue when the signal branch ran. -/
structure Process (workers : Nat) where
  reader : Option Line
  handlers : List (List Line)
  channel : Ingress → Channel Line
  forwarder : Ingress → Option Line
  pipe : Farm workers Line Int64
  engine : Engine
  closers : Option (List Closer)
  accepted : List (Job Line)

namespace Process

variable {workers : Nat}

/-- Sizes of the two listeners' channels. -/
def ingressSize : Ingress → Nat
  | .udp => 20000
  | .http => 10000

/-- Size of the raw queue and of the output queue. -/
def queueSize : Nat := 20000

/-- The process when `main` enters its loop. -/
def start (workers : Nat) (base : DB) : Process workers where
  reader := none
  handlers := []
  channel ingress := Channel.make (ingressSize ingress)
  forwarder _ := none
  pipe := Farm.start workers Line Int64 queueSize queueSize
  engine := Engine.start base
  closers := none
  accepted := []

/-- Whether a deferred call has not been run. -/
def isOpen (process : Process workers) (closer : Closer) : Bool :=
  match process.closers with
  | none => true
  | some remaining => remaining.contains closer

/-- Whether `main` has returned. -/
def returned (process : Process workers) : Bool :=
  match process.closers with
  | some [] => true
  | _ => false

/-- Whether the process has ended. -/
def halted (process : Process workers) : Bool :=
  process.pipe.panicked || process.returned

/-- The lines a handler sends for a request. -/
def requestLines (request : Nat) (isPost : Bool) (body : Bytes)
    (readError : Option ScanError) : List Line :=
  (handleIngest isPost body readError).1.mapIdx fun index packet =>
    { origin := .line request index, packet }

/-- A listener sends a packet on its channel. -/
def send (process : Process workers) (ingress : Ingress) (line : Line) :
    Option (Process workers) :=
  if (process.channel ingress).hasRoom then
    some { process with
      channel := Function.update process.channel ingress
        ((process.channel ingress).push line) }
  else none

variable (unicode : UnicodeTables)

/-- One step of a process that has not ended. -/
def advance (process : Process workers) : ProcessEvent workers → Option (Process workers)
  | .readDatagram buf bytes =>
      -- the buffer is a recycled one, whatever it held
      if process.reader = none ∧ process.isOpen .udpListener = true ∧
          buf.length = bufferSize then
        some { process with
          reader := some { origin := .datagram, packet := fillBuffer buf bytes } }
      else none
  | .sendDatagram =>
      match process.reader with
      | some line => (process.send .udp line).map fun process =>
          { process with reader := none }
      | none => none
  | .request isPost body readError =>
      -- `body` and `readError` are what reading the request will yield
      if process.isOpen .httpListener then
        some { process with
          handlers := process.handlers ++
            [requestLines process.handlers.length isPost body readError] }
      else none
  | .sendLine request =>
      match process.handlers[request]? with
      | some (line :: remaining) => (process.send .http line).map fun process =>
          { process with handlers := process.handlers.set request remaining }
      | _ => none
  | .forward ingress =>
      match process.forwarder ingress, (process.channel ingress).pop with
      | none, some (line, channel) =>
          some { process with
            channel := Function.update process.channel ingress channel
            forwarder := Function.update process.forwarder ingress (some line) }
      | _, _ => none
  | .submit ingress =>
      match process.forwarder ingress with
      | some line => (process.pipe.step (.submit line)).map fun pipe =>
          { process with
            pipe
            forwarder := Function.update process.forwarder ingress none }
      | none => none
  | .worker event =>
      (process.pipe.step event.farm).map fun pipe => { process with pipe }
  | .receive =>
      match process.pipe.output.queue with
      | done :: _ =>
          (process.pipe.step .deliver).bind fun pipe =>
            (process.engine.step unicode (.receive (arrival done))).map fun engine =>
              { process with pipe, engine }
      | [] => none
  | .loop (.receive _) | .loop (.signal _) | .loop .restart => none
  | .loop event =>
      (process.engine.step unicode event).map fun engine => { process with engine }
  | .signal written =>
      (process.engine.step unicode (.signal written)).map fun engine =>
        { process with
          engine
          closers := some deferred.reverse
          accepted := process.pipe.submitted }
  | .close =>
      match process.closers with
      | some (.pipe :: remaining) =>
          if process.pipe.input.closed = false then
            (process.pipe.step .close).map fun pipe => { process with pipe }
          else
            (process.pipe.step .closeOutput).map fun pipe =>
              { process with pipe, closers := some remaining }
      | some (_ :: remaining) => some { process with closers := some remaining }
      | _ => none

/-- One step of the process. -/
def step (process : Process workers) (event : ProcessEvent workers) :
    Option (Process workers) :=
  if process.halted then none else process.advance unicode event

/-- No batch write that a run performs fails. -/
def WritesSucceed (base : DB) (events : List (ProcessEvent workers)) : Prop :=
  (∀ moment event,
    Transition.Performs (step unicode) (start workers base) events moment (.loop event) →
      moment.engine.writeOutcome event ≠ some false) ∧
    ∀ moment written,
      Transition.Performs (step unicode) (start workers base) events moment
          (.signal written) →
        moment.engine.writeOutcome (.signal written) ≠ some false

/-! ## What a step can be -/

section Steps

variable {unicode} {process next : Process workers}

theorem step_eq_some {event : ProcessEvent workers} :
    process.step unicode event = some next ↔
      process.halted = false ∧ process.advance unicode event = some next := by
  rw [step, Option.ite_none_left_eq_some, Bool.not_eq_true]

theorem send_eq_some {ingress : Ingress} {line : Line} :
    process.send ingress line = some next ↔
      (process.channel ingress).hasRoom = true ∧
        next = { process with
          channel := Function.update process.channel ingress
            ((process.channel ingress).push line) } := by
  rw [send, Option.ite_none_right_eq_some, Option.some.injEq, @eq_comm _ next]

theorem advance_readDatagram
    {buf bytes : Bytes}
    (advanced : process.advance unicode (.readDatagram buf bytes) = some next) :
    ∃ line, line.origin = .datagram ∧ next = { process with reader := some line } := by
  obtain ⟨_, same⟩ := Option.ite_none_right_eq_some.mp advanced
  exact ⟨_, rfl, (Option.some.inj same).symm⟩

theorem advance_sendDatagram
    (advanced : process.advance unicode .sendDatagram = some next) :
    ∃ line, process.reader = some line ∧
      next = { process with
        reader := none
        channel := Function.update process.channel .udp
          ((process.channel .udp).push line) } := by
  rw [advance] at advanced
  split at advanced
  next line reader =>
    obtain ⟨sent, isSent, rfl⟩ := Option.map_eq_some_iff.mp advanced
    obtain ⟨_, rfl⟩ := send_eq_some.mp isSent
    exact ⟨line, reader, rfl⟩
  next => exact absurd advanced.symm (Option.some_ne_none next)

theorem advance_request
    {isPost : Bool}
    {body : Bytes}
    {readError : Option ScanError}
    (advanced : process.advance unicode (.request isPost body readError) = some next) :
    next = { process with
      handlers := process.handlers ++
        [requestLines process.handlers.length isPost body readError] } :=
  (Option.some.inj (Option.ite_none_right_eq_some.mp advanced).2).symm

theorem advance_sendLine
    {request : Nat}
    (advanced : process.advance unicode (.sendLine request) = some next) :
    ∃ line remaining, process.handlers[request]? = some (line :: remaining) ∧
      next = { process with
        handlers := process.handlers.set request remaining
        channel := Function.update process.channel .http
          ((process.channel .http).push line) } := by
  rw [advance] at advanced
  split at advanced
  next line remaining handler =>
    obtain ⟨sent, isSent, rfl⟩ := Option.map_eq_some_iff.mp advanced
    obtain ⟨_, rfl⟩ := send_eq_some.mp isSent
    exact ⟨line, remaining, handler, rfl⟩
  next => exact absurd advanced.symm (Option.some_ne_none next)

theorem advance_forward
    {ingress : Ingress}
    (advanced : process.advance unicode (.forward ingress) = some next) :
    ∃ line channel, process.forwarder ingress = none ∧
      (process.channel ingress).pop = some (line, channel) ∧
      next = { process with
        channel := Function.update process.channel ingress channel
        forwarder := Function.update process.forwarder ingress (some line) } := by
  rw [advance] at advanced
  split at advanced
  next line channel free popped =>
    exact ⟨line, channel, free, popped, (Option.some.inj advanced).symm⟩
  next => exact absurd advanced.symm (Option.some_ne_none next)

theorem advance_submit
    {ingress : Ingress}
    (advanced : process.advance unicode (.submit ingress) = some next) :
    ∃ line pipe, process.forwarder ingress = some line ∧
      process.pipe.step (.submit line) = some pipe ∧
      next = { process with
        pipe
        forwarder := Function.update process.forwarder ingress none } := by
  rw [advance] at advanced
  split at advanced
  next line held =>
    obtain ⟨pipe, stepped, rfl⟩ := Option.map_eq_some_iff.mp advanced
    exact ⟨line, pipe, held, stepped, rfl⟩
  next => exact absurd advanced.symm (Option.some_ne_none next)

theorem advance_worker
    {event : WorkerEvent workers}
    (advanced : process.advance unicode (.worker event) = some next) :
    ∃ pipe, process.pipe.step event.farm = some pipe ∧ next = { process with pipe } := by
  obtain ⟨pipe, stepped, rfl⟩ := Option.map_eq_some_iff.mp advanced
  exact ⟨pipe, stepped, rfl⟩

theorem advance_receive
    (advanced : process.advance unicode .receive = some next) :
    ∃ done rest pipe engine, process.pipe.output.queue = done :: rest ∧
      process.pipe.step .deliver = some pipe ∧
      process.engine.step unicode (.receive (arrival done)) = some engine ∧
      next = { process with pipe, engine } := by
  rw [advance] at advanced
  split at advanced
  next done rest queue =>
    obtain ⟨pipe, delivered, mapped⟩ := Option.bind_eq_some_iff.mp advanced
    obtain ⟨engine, stepped, rfl⟩ := Option.map_eq_some_iff.mp mapped
    exact ⟨done, rest, pipe, engine, queue, delivered, stepped, rfl⟩
  next => exact absurd advanced.symm (Option.some_ne_none next)

theorem advance_loop
    {event : LoopEvent}
    (advanced : process.advance unicode (.loop event) = some next) :
    event ≠ .restart ∧ received [event] = [] ∧
      ∃ engine, process.engine.step unicode event = some engine ∧
        next = { process with engine } := by
  cases event with
  | receive | signal | restart => exact absurd advanced.symm (Option.some_ne_none next)
  | register | endItem | tick =>
      obtain ⟨engine, stepped, rfl⟩ := Option.map_eq_some_iff.mp advanced
      exact ⟨by simp, rfl, engine, stepped, rfl⟩

theorem advance_signal
    {written : Bool}
    (advanced : process.advance unicode (.signal written) = some next) :
    ∃ engine, process.engine.step unicode (.signal written) = some engine ∧
      next = { process with
        engine
        closers := some deferred.reverse
        accepted := process.pipe.submitted } := by
  obtain ⟨engine, stepped, rfl⟩ := Option.map_eq_some_iff.mp advanced
  exact ⟨engine, stepped, rfl⟩

theorem advance_close
    (advanced : process.advance unicode .close = some next) :
    ∃ closer remaining, process.closers = some (closer :: remaining) ∧
      ((closer = .pipe ∧ process.pipe.input.closed = false ∧
          ∃ pipe, process.pipe.step .close = some pipe ∧
            next = { process with pipe }) ∨
        (closer = .pipe ∧ ∃ pipe, process.pipe.step .closeOutput = some pipe ∧
            next = { process with pipe, closers := some remaining }) ∨
        (closer ≠ .pipe ∧ next = { process with closers := some remaining })) := by
  rw [advance] at advanced
  split at advanced
  next remaining closers =>
    refine ⟨.pipe, remaining, closers, ?_⟩
    split at advanced
    next opened =>
      obtain ⟨pipe, stepped, rfl⟩ := Option.map_eq_some_iff.mp advanced
      exact Or.inl ⟨rfl, opened, pipe, stepped, rfl⟩
    next =>
      obtain ⟨pipe, stepped, rfl⟩ := Option.map_eq_some_iff.mp advanced
      exact Or.inr (Or.inl ⟨rfl, pipe, stepped, rfl⟩)
  next closer remaining other closers =>
    refine ⟨closer, remaining, closers, Or.inr (Or.inr ⟨?_, ?_⟩)⟩
    · rintro rfl
      exact other rfl
    · exact (Option.some.inj advanced).symm
  next => exact absurd advanced.symm (Option.some_ne_none next)

/-- The step of the pipeline that an event of the process performs. -/
def Drives (process : Process workers) :
    ProcessEvent workers → Farm.Event workers Line Int64 → Prop
  | .submit ingress, .submit line => process.forwarder ingress = some line
  | .worker event, farmEvent => farmEvent = event.farm
  | .receive, .deliver | .close, .close | .close, .closeOutput => True
  | _, _ => False

/-- The pipeline stands still or takes a step of its own. -/
theorem pipe_step
    {event : ProcessEvent workers}
    (stepped : process.step unicode event = some next) :
    next.pipe = process.pipe ∨
      ∃ farmEvent, process.pipe.step farmEvent = some next.pipe ∧
        process.Drives event farmEvent := by
  obtain ⟨_, advanced⟩ := step_eq_some.mp stepped
  cases event with
  | readDatagram =>
      obtain ⟨_, _, rfl⟩ := advance_readDatagram advanced
      exact Or.inl rfl
  | sendDatagram =>
      obtain ⟨_, _, rfl⟩ := advance_sendDatagram advanced
      exact Or.inl rfl
  | request =>
      obtain rfl := advance_request advanced
      exact Or.inl rfl
  | sendLine =>
      obtain ⟨_, _, _, rfl⟩ := advance_sendLine advanced
      exact Or.inl rfl
  | forward =>
      obtain ⟨_, _, _, _, rfl⟩ := advance_forward advanced
      exact Or.inl rfl
  | submit ingress =>
      obtain ⟨line, _, held, moved, rfl⟩ := advance_submit advanced
      exact Or.inr ⟨_, moved, held⟩
  | worker event =>
      obtain ⟨_, moved, rfl⟩ := advance_worker advanced
      exact Or.inr ⟨_, moved, rfl⟩
  | receive =>
      obtain ⟨_, _, _, _, _, moved, _, rfl⟩ := advance_receive advanced
      exact Or.inr ⟨_, moved, trivial⟩
  | loop =>
      obtain ⟨_, _, _, _, rfl⟩ := advance_loop advanced
      exact Or.inl rfl
  | signal =>
      obtain ⟨_, _, rfl⟩ := advance_signal advanced
      exact Or.inl rfl
  | close =>
      obtain ⟨_, _, _, ⟨_, _, _, moved, rfl⟩ | ⟨_, _, moved, rfl⟩ | ⟨_, rfl⟩⟩ :=
        advance_close advanced
      · exact Or.inr ⟨_, moved, trivial⟩
      · exact Or.inr ⟨_, moved, trivial⟩
      · exact Or.inl rfl

/-- What the pipeline is given comes from a forwarder. -/
theorem Drives.submit
    {event : ProcessEvent workers}
    {line : Line}
    (drives : process.Drives event (.submit line)) :
    ∃ ingress, process.forwarder ingress = some line := by
  cases event with
  | submit ingress => exact ⟨ingress, drives⟩
  | worker event => cases event <;> simp [Drives, WorkerEvent.farm] at drives
  | _ => exact drives.elim

/-- A stamp is a parse. -/
theorem Drives.stamp
    {event : ProcessEvent workers}
    {worker : Fin workers}
    {now : Int64}
    (drives : process.Drives event (.stamp worker now)) :
    event = .worker (.parse worker now) := by
  cases event with
  | worker event =>
      cases event <;> simp [Drives, WorkerEvent.farm] at drives
      rw [drives.1, drives.2]
  | _ => exact drives.elim

end Steps

/-- In every run every packet on the raw queue is accounted for. -/
theorem accounted_of_run
    {unicode : UnicodeTables}
    {base : DB}
    {events : List (ProcessEvent workers)}
    {process : Process workers}
    (reached : Transition.run (step unicode) (start workers base) events = some process) :
    process.pipe.Accounted := by
  refine Transition.run_history (fun _ process => process.pipe.Accounted)
    (.start queueSize queueSize) ?_ reached
  intro history process event next _ accounted stepped
  rcases pipe_step stepped with same | ⟨farmEvent, moved, _⟩
  · rw [same]
    exact accounted
  · exact accounted.step moved

end Process
end Server
end Chronolog
