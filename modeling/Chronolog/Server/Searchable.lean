import Chronolog.Server.Progress
import Chronolog.Server.Retrieval
import Chronolog.Server.ShutdownLoss

/-!
# From the listeners to the answers

Whatever the schedule, once nothing of a running engine is on its way and the
batch is written, the packets the listeners read are what the main loop received,
none lost and none twice, and a search for any of its tokens finds each of them:
the listeners, the forwarders, the worker pool, the flush loop and the search in
one statement.  Only a packet with the same stream and clock reading but another
message takes the place of a record.
-/

namespace Chronolog
namespace Server

open Ingestion Pipeline Search Storage Channels

/-! ## The account of a process that was not restarted -/

section Live

variable {unicode : UnicodeTables} {base : DB}

/-- Every received item is registered or in hand. -/
def Ledger.Live (ledger : Ledger) : Prop :=
  ledger.received = ledger.live ++ ledger.current.toList

theorem Ledger.Live.step
    {engine next : Engine}
    {ledger : Ledger}
    {event : LoopEvent}
    (live : ledger.Live)
    (represents : Represents unicode base engine ledger)
    (noRestart : event ≠ .restart)
    (stepped : engine.step unicode event = some next) :
    (ledger.step unicode event).Live := by
  unfold Live at live ⊢
  cases event with
  | receive arrival =>
      obtain ⟨point, _⟩ := Engine.step_receive stepped
      have free := (represents.idle_batch (by simp [point])).1
      rw [free, Option.toList_none, List.append_nil] at live
      exact congrArg (· ++ [arrival]) live
  | register => exact live
  | endItem written =>
      have ended : ledger.endItem.received =
          ledger.endItem.live ++ ledger.endItem.current.toList := by
        rw [endItem, Option.toList_none, List.append_nil]
        exact live
      rw [Ledger.step]
      split
      · exact ended
      · exact ended
  | tick written => exact live
  | signal written => exact live
  | restart => exact absurd rfl noRestart

theorem live_ofEvents
    {events : List LoopEvent}
    {engine : Engine}
    (reached : Transition.run (Engine.step unicode) (Engine.start base) events =
      some engine)
    (noRestart : LoopEvent.restart ∉ events) : (Ledger.ofEvents unicode events).Live := by
  have meets : ∀ moment event,
      Transition.Performs (Engine.step unicode) (Engine.start base) events moment event →
        event ≠ .restart := by
    rintro moment event performed rfl
    exact noRestart (Transition.mem_of_performs performed)
  refine Transition.run_history_meeting
    (fun history _ => (Ledger.ofEvents unicode history).Live) rfl ?_ reached meets
  intro history state event next before live continues stepped
  rw [Ledger.ofEvents_concat]
  exact live.step (represents_ofEvents before) continues stepped

/-- A search for a token of a registered item finds the item where the database
holds its record. -/
theorem found_of_live
    {events : List LoopEvent}
    {engine : Engine}
    {item : Arrival}
    {request : SearchRequest}
    (reached : Transition.run (Engine.step unicode) (Engine.start base) events =
      some engine)
    (live : item ∈ (Ledger.ofEvents unicode events).live)
    (record : engine.db[(recordID item).logKey]? = some item.message)
    (token : request.term ∈ item.tokens unicode)
    (covers : request.Covers item.now)
    (room : (engine.matching request).length < request.effectiveLimit) :
    (recordID item, item.message) ∈ (engine.search request).results := by
  have posted := (represents_ofEvents reached).exists_posting_of_live live token
  rw [mem_search room, mem_candidates]
  exact ⟨Or.inl ⟨covers, posted⟩, record⟩

end Live

namespace Process

/-! ## What the listeners read -/

variable {workers : Nat}

/-- The packets of an event of a listener. -/
def packetsOf : ProcessEvent workers → List PacketBuffer
  | .readDatagram buf bytes => [fillBuffer buf bytes]
  | .request isPost body readError => (handleIngest isPost body readError).1
  | _ => []

/-- The packets the listeners read: the datagrams, and the lines of the requests. -/
def packetsRead (events : List (ProcessEvent workers)) : List PacketBuffer :=
  events.flatMap packetsOf

/-- The packets that are in the process or have been put on the raw queue. -/
def packets (process : Process workers) : Multiset PacketBuffer :=
  (process.upstream + process.submittedLines).map Line.packet

variable {unicode : UnicodeTables} {base : DB} {process next : Process workers}

theorem map_packet_requestLines
    (request : Nat)
    (isPost : Bool)
    (body : Bytes)
    (readError : Option ScanError) :
    (requestLines request isPost body readError).map Line.packet =
      (handleIngest isPost body readError).1 := by
  rw [requestLines, List.mapIdx_eq_zipIdx_map, List.map_map]
  exact List.zipIdx_map_fst 0 _

/-- Internal steps read nothing. -/
theorem packetsOf_of_isInternal
    {event : ProcessEvent workers}
    (internal : event.isInternal = true) : packetsOf event = [] := by
  cases event with
  | readDatagram | request => exact absurd internal Bool.false_ne_true
  | sendDatagram | sendLine | forward | submit | worker | receive | loop | signal | close => rfl

/-- Before the signal a step adds what a listener reads in it. -/
theorem Running.packets_step
    {event : ProcessEvent workers}
    (running : process.Running)
    (staying : next.closers = none)
    (stepped : process.step unicode event = some next) :
    next.packets = process.packets + (packetsOf event : Multiset PacketBuffer) := by
  by_cases internal : event.isInternal = true
  · rw [packetsOf_of_isInternal internal, Multiset.coe_nil, add_zero, packets, packets,
      running.lines_step internal stepped]
  obtain ⟨_, advanced⟩ := step_eq_some.mp stepped
  cases event with
  | sendDatagram | sendLine | forward | submit | worker | receive => exact absurd rfl internal
  | readDatagram buf bytes =>
      obtain ⟨ready, same⟩ := Option.ite_none_right_eq_some.mp advanced
      obtain rfl := Option.some.inj same
      simp only [packets, upstream, submittedLines, ready.1, packetsOf, Option.toList_some,
        Option.toList_none, Multiset.coe_nil, Multiset.coe_singleton, Multiset.map_add,
        Multiset.map_singleton, Multiset.map_zero]
      abel
  | request isPost body readError =>
      obtain rfl := advance_request advanced
      simp only [packets, upstream, submittedLines, List.flatten_append, List.flatten_singleton,
        ← Multiset.coe_add, Multiset.map_add, Multiset.map_coe, map_packet_requestLines,
        packetsOf]
      abel
  | loop event =>
      obtain ⟨_, _, _, _, rfl⟩ := advance_loop advanced
      exact (add_zero _).symm
  | signal written => exact absurd rfl ((staying_of_step staying stepped).2 written)
  | close =>
      obtain ⟨_, _, closers, _⟩ := advance_close advanced
      rw [running.staying] at closers
      exact absurd closers.symm (Option.some_ne_none _)

/-- Before the signal no packet is lost, and none is made up. -/
theorem packets_of_run
    {events : List (ProcessEvent workers)}
    (reached : Transition.run (Process.step unicode) (start workers base) events =
      some process)
    (staying : process.closers = none) :
    process.packets = (packetsRead events : Multiset PacketBuffer) := by
  refine Transition.run_history (fun history process => process.closers = none →
    process.packets = (packetsRead history : Multiset PacketBuffer)) (fun _ => ?_) ?_
    reached staying
  · simp [packets, upstream, submittedLines, start, packetsRead, Channel.make,
      Channel.contents, inHandOf, Farm.start]
  · intro history process event next current inductionHypothesis stepped staying
    have before := (staying_of_step staying stepped).1
    rw [(running_of_run current before).packets_step staying stepped,
      inductionHypothesis before, packetsRead, packetsRead, List.flatMap_append,
      List.flatMap_singleton, Multiset.coe_add]

/-! ## What a search finds -/

/-- No other message was received for the record of a packet. -/
def Unrivalled (process : Process workers) (done : Stamped Line Int64) : Prop :=
  ∀ other ∈ process.pipe.delivered, recordID (arrival other) = recordID (arrival done) →
    (arrival other).message = (arrival done).message

/-- Once everything is received and written, the database holds the record of a
packet that has no rival, and a search for any of its tokens finds it. -/
theorem found_of_delivered
    {events : List (ProcessEvent workers)}
    {done : Stamped Line Int64}
    {request : SearchRequest}
    (reached : Transition.run (Process.step unicode) (start workers base) events =
      some process)
    (succeed : WritesSucceed unicode base events)
    (selecting : process.engine.point = .select)
    (flushed : process.engine.batch = [])
    (received : done ∈ process.pipe.delivered)
    (unrivalled : process.Unrivalled done)
    (token : request.term ∈ (arrival done).tokens unicode)
    (covers : request.Covers (arrival done).now)
    (room : (process.engine.matching request).length < request.effectiveLimit) :
    (recordID (arrival done), (arrival done).message) ∈
      (process.engine.search request).results := by
  obtain ⟨loops, traced⟩ := exists_traced reached
  have live := live_ofEvents traced.reached traced.noRestart
  have free := ((represents_ofEvents traced.reached).idle_batch (by simp [selecting])).1
  rw [Ledger.Live, free, Option.toList_none, List.append_nil, Ledger.received_ofEvents,
    traced.received] at live
  have database := Intake.db_of_flushed traced.reached traced.noRestart
    (traced.succeed succeed) flushed
  rw [traced.received] at database
  have stored : Stored unicode process.engine.db (arrival done) := by
    rw [database]
    apply (stored_storeOf ?_).mpr
    · exact Or.inl ⟨arrival done, List.mem_map_of_mem received, rfl⟩
    · intro other present same
      obtain ⟨rival, member, rfl⟩ := List.mem_map.mp present
      exact unrivalled rival member same
  apply found_of_live traced.reached _ (stored _ _ (logKey_mem_puts.mpr ⟨rfl, rfl⟩)) token
    covers room
  rw [← live]
  exact List.mem_map_of_mem received

/-- In every run without a signal in which all batch writes succeed: once nothing
is on its way and the batch is written, the main loop has received exactly the
packets that the listeners read, and every one of them that no other packet
rivals is found by every search for one of its tokens. -/
theorem packets_read_are_found
    (unicode : UnicodeTables)
    (workers : Nat)
    (base : DB)
    (events : List (ProcessEvent workers))
    (process : Process workers)
    (reached : Transition.run (Process.step unicode) (start workers base) events =
      some process)
    (staying : process.closers = none)
    (succeed : WritesSucceed unicode base events)
    (drained : process.Drained)
    (flushed : process.engine.batch = []) :
    ((process.pipe.delivered.map fun done => (arrival done).packet : List PacketBuffer) :
        Multiset PacketBuffer) = (packetsRead events : Multiset PacketBuffer) ∧
      ∀ done ∈ process.pipe.delivered, process.Unrivalled done →
        ∀ request : SearchRequest, request.term ∈ (arrival done).tokens unicode →
          request.Covers (arrival done).now →
          (process.engine.matching request).length < request.effectiveLimit →
          (recordID (arrival done), (arrival done).message) ∈
            (process.engine.search request).results := by
  have running := running_of_run reached staying
  constructor
  · have received := drained.receivedLines_eq running.accounted
    have read := packets_of_run reached staying
    rw [packets, drained.upstream, zero_add, ← received, receivedLines, Multiset.map_coe,
      List.map_map] at read
    exact read
  · intro done member unrivalled request token covers room
    exact found_of_delivered reached succeed drained.selecting flushed member unrivalled
      token covers room

/-- A datagram goes all the way to the database. -/
def writtenDatagram : List (ProcessEvent 1) := drainedShutdown.take 10 ++ [.loop (.tick true)]

theorem packets_read_are_found_writtenDatagram :
    ∃ process, Transition.run (step asciiTables) (start 1 ∅) writtenDatagram = some process ∧
      ∃ done ∈ process.pipe.delivered,
        (recordID (arrival done), (arrival done).message) ∈
          (process.engine.search (searchFor "hello")).results := by
  obtain ⟨process, reached, facts⟩ := (Option.any_eq_true _ _).mp
    (by decide +kernel : (Transition.run (step asciiTables) (start 1 ∅)
      writtenDatagram).any (fun process => decide
        ((process.closers = none ∧ process.upstream = 0 ∧ process.pipe.input.queue = [] ∧
            (∀ worker, process.pipe.point worker = .waiting) ∧
            process.pipe.output.queue = []) ∧
          process.engine.point = .select ∧ process.engine.batch = [] ∧
          ∃ done ∈ process.pipe.delivered,
            (∀ other ∈ process.pipe.delivered,
              (arrival other).message = (arrival done).message) ∧
            (searchFor "hello").term ∈ (arrival done).tokens asciiTables ∧
            (searchFor "hello").Covers (arrival done).now ∧
            (process.engine.matching (searchFor "hello")).length <
              (searchFor "hello").effectiveLimit)) = true)
  obtain ⟨⟨staying, upstream, input, waiting, output⟩, selecting, flushed, done, member,
    same, token, covers, room⟩ := of_decide_eq_true facts
  have succeed : WritesSucceed asciiTables ∅ writtenDatagram :=
    writesSucceed_of_told (by simp [writtenDatagram, drainedShutdown])
  have drained : process.Drained :=
    ⟨upstream, ⟨input, fun worker => Or.inl (waiting worker)⟩, output, selecting⟩
  obtain ⟨_, found⟩ := packets_read_are_found asciiTables 1 ∅ writtenDatagram process reached
    staying succeed drained flushed
  exact ⟨process, reached, done, member, found done member
    (fun other received _ => same other received) _ token covers room⟩

end Process
end Server
end Chronolog
