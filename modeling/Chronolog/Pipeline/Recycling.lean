import Chronolog.Foundation.WorkerFarm
import Chronolog.Ingestion.Listeners
import Chronolog.Ingestion.Message
import Chronolog.Pipeline.WorkerPool

/-!
# Recycled buffers

The pipeline over shared memory.  Readers take buffers from a pool and fill
them, a packet on its way is a reference to its buffer, and a parsed message
still lies in that buffer until the worker has copied it.  A worker copies and
tokenizes the message, puts the buffer back into the pool, and only then sends
its item on.  Seen from the outside this is a worker farm over packets that are
passed by value.
-/

namespace Chronolog
namespace Pipeline

open Ingestion Storage Channels

/-- A packet whose bytes are in the shared memory. -/
structure Packet where
  buffer : Nat
  size : Nat
  deriving DecidableEq

/-- A submitted packet.  `job` is history: the number of the submission and
what the buffer held then. -/
structure Loan where
  packet : Packet
  job : Job PacketBuffer
  deriving DecidableEq

/-- A parsed line.  The message is not copied: it is the part of the buffer
from `start` to the packet's end. -/
structure ParsedView where
  facility : Int
  timestampNano : Int64
  start : Nat
  deriving DecidableEq

/-- Where a worker stands in its loop. -/
inductive WorkerPoint
  | waiting
  | received (loan : Loan)
  | parsed (loan : Loan) (view : ParsedView)
  | copied (loan : Loan) (view : ParsedView) (val : Bytes)
  | tokenized (loan : Loan) (item : IndexItem)
  | released (item : IndexItem)
  | exited
  deriving DecidableEq

namespace WorkerPoint

/-- The packet a worker has received and not released. -/
def loan : WorkerPoint → Multiset Loan
  | .received loan | .parsed loan _ | .copied loan _ _ | .tokenized loan _ => {loan}
  | .waiting | .released _ | .exited => 0

/-- Whether the worker has left its loop. -/
def isExited : WorkerPoint → Bool
  | .exited => true
  | _ => false

theorem isExited_eq_true {point : WorkerPoint} :
    point.isExited = true ↔ point = .exited := by
  cases point <;> simp [isExited]

end WorkerPoint

/-- The pipeline, the buffer pool and the readers.  `holding` are the buffers a
reader has taken and not filled, `filled` the packets on their way to a call of
`Submit`.  The fields from `submitted` to `delivered` are history. -/
structure Recycling (workers : Nat) where
  memory : Nat → Bytes
  allocated : Nat
  bufferPool : List Nat
  holding : List Nat
  filled : List Packet
  rawQueue : Channel Loan
  point : Fin workers → WorkerPoint
  outQueue : Channel IndexItem
  submitted : List Loan
  released : List Loan
  stamped : List (Stamped PacketBuffer Int64)
  delivered : List IndexItem
  panicked : Bool

namespace Recycling

variable {workers : Nat}

/-- What readers, producers, workers, the consumer and the closer do.  In
`handOver` and `handOut` a send meets a waiting receiver. -/
inductive Event (workers : Nat)
  | getPooled (buffer : Nat)
  | allocate
  | collect (buffer : Nat)
  | fill (buffer : Nat) (bytes : Bytes)
  | readError (buffer : Nat)
  | submit (packet : Packet)
  | handOver (packet : Packet) (worker : Fin workers)
  | take (worker : Fin workers)
  | parse (worker : Fin workers) (now : Int64)
  | copy (worker : Fin workers)
  | tokenize (worker : Fin workers)
  | release (worker : Fin workers)
  | emit (worker : Fin workers)
  | handOut (worker : Fin workers)
  | exit (worker : Fin workers)
  | deliver
  | close
  | closeOutput

/-- Whether the event is a send on the output queue. -/
def Event.sends : Event workers → Bool
  | .emit _ | .handOut _ => true
  | _ => false

/-- Whether the event is a buffered send on the raw queue. -/
def Event.submits : Event workers → Bool
  | .submit _ => true
  | _ => false

/-- `NewPipeline` and `Start`, with an empty pool. -/
def start (workers queueSize : Nat) : Recycling workers where
  memory _ := []
  allocated := 0
  bufferPool := []
  holding := []
  filled := []
  rawQueue := Channel.make queueSize
  point _ := .waiting
  outQueue := Channel.make queueSize
  submitted := []
  released := []
  stamped := []
  delivered := []
  panicked := false

/-- The bytes of a packet as they are now. -/
def read (state : Recycling workers) (packet : Packet) : PacketBuffer where
  data := state.memory packet.buffer
  size := packet.size

/-- What parsing a packet finds. -/
def viewOf (arrival : Arrival) : ParsedView where
  facility := arrival.parsed.facility
  timestampNano := arrival.parsed.timestampNano
  start := arrival.packet.filled.length - arrival.message.length

/-- `p.rawQueue <- pkt` -/
def put (state : Recycling workers) (packet : Packet) : Recycling workers :=
  let loan : Loan :=
    { packet, job := { number := state.submitted.length, content := state.read packet } }
  { state with
    filled := state.filled.erase packet
    rawQueue := state.rawQueue.push loan
    submitted := state.submitted ++ [loan] }

/-- A worker moves on. -/
def move (state : Recycling workers) (worker : Fin workers) (point : WorkerPoint) :
    Recycling workers :=
  { state with point := Function.update state.point worker point }

/-- `for pkt := range p.rawQueue` -/
def takePacket (state : Recycling workers) (worker : Fin workers) :
    Option (Recycling workers) :=
  match state.point worker, state.rawQueue.pop with
  | .waiting, some (loan, rawQueue) =>
      some { state with
        rawQueue
        point := Function.update state.point worker (.received loan) }
  | _, _ => none

/-- `p.outQueue <- IndexItem{…}` -/
def emitItem (state : Recycling workers) (worker : Fin workers) :
    Option (Recycling workers) :=
  match state.point worker with
  | .released item =>
      some { state with
        point := Function.update state.point worker .waiting
        outQueue := state.outQueue.push item }
  | _ => none

/-- The consumer receives an item. -/
def deliverItem (state : Recycling workers) : Option (Recycling workers) :=
  match state.outQueue.pop with
  | some (item, outQueue) =>
      some { state with outQueue, delivered := state.delivered ++ [item] }
  | none => none

variable (unicode : UnicodeTables)

/-- One step. -/
def step (state : Recycling workers) : Event workers → Option (Recycling workers)
  | .getPooled buffer =>
      if buffer ∈ state.bufferPool then
        some { state with
          bufferPool := state.bufferPool.erase buffer
          holding := state.holding ++ [buffer] }
      else none
  | .allocate =>
      -- the pool's `New`, and the `poolAlloc` of the HTTP listener
      some { state with
        memory := Function.update state.memory state.allocated freshBuffer
        allocated := state.allocated + 1
        holding := state.holding ++ [state.allocated] }
  | .collect buffer =>
      some { state with bufferPool := state.bufferPool.erase buffer }
  | .fill buffer bytes =>
      if buffer ∈ state.holding then
        let packet := fillBuffer (state.memory buffer) bytes
        some { state with
          memory := Function.update state.memory buffer packet.data
          holding := state.holding.erase buffer
          filled := state.filled ++ [{ buffer, size := packet.size }] }
      else none
  | .readError buffer =>
      -- the reader takes another buffer and forgets this one
      some { state with holding := state.holding.erase buffer }
  | .submit packet =>
      if packet ∈ state.filled then
        if state.rawQueue.closed then some { state with panicked := true }
        else if state.rawQueue.hasRoom then some (state.put packet)
        else none
      else none
  | .handOver packet worker =>
      if packet ∈ state.filled then
        if !state.rawQueue.closed && state.rawQueue.queue.isEmpty then
          (state.put packet).takePacket worker
        else none
      else none
  | .take worker => state.takePacket worker
  | .parse worker now =>
      match state.point worker with
      | .received loan =>
          let view := viewOf { now, packet := state.read loan.packet }
          some { state with
            point := Function.update state.point worker (.parsed loan view)
            stamped := state.stamped ++ [{ job := loan.job, stamp := now }] }
      | _ => none
  | .copy worker =>
      match state.point worker with
      | .parsed loan view =>
          some (state.move worker (.copied loan view
            (slice (state.memory loan.packet.buffer) view.start loan.packet.size)))
      | _ => none
  | .tokenize worker =>
      match state.point worker with
      | .copied loan view val =>
          let streamID := UInt64.ofInt view.facility
          let tokens := tokenize unicode
            (slice (state.memory loan.packet.buffer) view.start loan.packet.size)
          some (state.move worker (.tokenized loan
            { logKey := encodeLogKey streamID view.timestampNano
              logValue := val
              termKeys := tokens.map fun term =>
                encodeIndexKey term view.timestampNano streamID }))
      | _ => none
  | .release worker =>
      match state.point worker with
      | .tokenized loan item =>
          some { state with
            point := Function.update state.point worker (.released item)
            bufferPool := state.bufferPool ++ [loan.packet.buffer]
            released := state.released ++ [loan] }
      | _ => none
  | .emit worker =>
      match state.point worker with
      | .released _ =>
          if state.outQueue.closed then some { state with panicked := true }
          else if state.outQueue.hasRoom then state.emitItem worker
          else none
      | _ => none
  | .handOut worker =>
      if !state.outQueue.closed && state.outQueue.queue.isEmpty then
        (state.emitItem worker).bind deliverItem
      else none
  | .exit worker =>
      match state.point worker with
      | .waiting =>
          if state.rawQueue.ended then some (state.move worker .exited) else none
      | _ => none
  | .deliver => state.deliverItem
  | .close =>
      if state.rawQueue.closed then none
      else some { state with rawQueue := state.rawQueue.close }
  | .closeOutput =>
      -- `p.wg.Wait()` returns when every worker has exited
      if state.rawQueue.closed ∧ ∀ worker, (state.point worker).isExited = true then
        some { state with outQueue := state.outQueue.close }
      else none

/-- The packets submitted and not released. -/
def inFlight (state : Recycling workers) : Multiset Loan :=
  state.rawQueue.queue + ∑ worker, (state.point worker).loan

/-- The buffers in the pool, with a reader, or on the way to a submission. -/
def free (state : Recycling workers) : Multiset Nat :=
  state.bufferPool + state.holding + state.filled.map Packet.buffer

/-- The buffers that are in somebody's hands. -/
def owned (state : Recycling workers) : Multiset Nat :=
  state.free + state.inFlight.map fun loan => loan.packet.buffer

/-- Every buffer is in one pair of hands, a submitted packet keeps its bytes
until it is released, and every packet submitted is in flight or released. -/
structure Owned (state : Recycling workers) : Prop where
  distinct : state.owned.Nodup
  allocated : ∀ buffer ∈ state.owned, buffer < state.allocated
  intact : ∀ loan ∈ state.inFlight, state.read loan.packet = loan.job.content
  accounted : (state.submitted : Multiset Loan) = state.inFlight + state.released

/-- A stamped packet as the arrival it is. -/
def arrivalOf (done : Stamped PacketBuffer Int64) : Arrival where
  now := done.stamp
  packet := done.job.content

/-- The item a stamped packet becomes. -/
def itemOf (done : Stamped PacketBuffer Int64) : IndexItem :=
  (arrivalOf done).item unicode

/-- A worker holds what the worker of the farm holds, as far as it has got. -/
def PointMirrors : WorkerPoint → Point PacketBuffer Int64 → Prop
  | .waiting, .waiting => True
  | .received loan, .taken job => loan.job = job
  | .parsed loan view, .stamped done =>
      loan.job = done.job ∧ view = viewOf (arrivalOf done)
  | .copied loan view val, .stamped done =>
      loan.job = done.job ∧ view = viewOf (arrivalOf done) ∧
        val = (arrivalOf done).message
  | .tokenized loan item, .stamped done =>
      loan.job = done.job ∧ item = itemOf unicode done
  | .released item, .stamped done => item = itemOf unicode done
  | .exited, .exited => True
  | _, _ => False

/-- The pipeline as a farm over packets that are passed by value. -/
structure Mirrors (state : Recycling workers) (farm : Farm workers PacketBuffer Int64) :
    Prop where
  input : farm.input = state.rawQueue.map Loan.job
  point : ∀ worker, PointMirrors unicode (state.point worker) (farm.point worker)
  output : state.outQueue = farm.output.map (itemOf unicode)
  submitted : farm.submitted = state.submitted.map Loan.job
  stamped : farm.stamped = state.stamped
  delivered : state.delivered = farm.delivered.map (itemOf unicode)
  panicked : farm.panicked = state.panicked

/-! ## What a worker's step can be -/

section Steps

variable {unicode} {state next : Recycling workers} {worker : Fin workers}

theorem exists_of_takePacket (taken : state.takePacket worker = some next) :
    ∃ loan rawQueue, state.point worker = .waiting ∧
      state.rawQueue.pop = some (loan, rawQueue) ∧
      next = { state with
        rawQueue
        point := Function.update state.point worker (.received loan) } := by
  unfold takePacket at taken
  split at taken
  next loan rawQueue waiting popped =>
    exact ⟨loan, rawQueue, waiting, popped, (Option.some.inj taken).symm⟩
  next => exact absurd taken.symm (Option.some_ne_none next)

theorem exists_of_emitItem (emitted : state.emitItem worker = some next) :
    ∃ item, state.point worker = .released item ∧
      next = { state with
        point := Function.update state.point worker .waiting
        outQueue := state.outQueue.push item } := by
  unfold emitItem at emitted
  split at emitted
  next item released => exact ⟨item, released, (Option.some.inj emitted).symm⟩
  next => exact absurd emitted.symm (Option.some_ne_none next)

theorem exists_of_deliverItem (delivered : state.deliverItem = some next) :
    ∃ item outQueue, state.outQueue.pop = some (item, outQueue) ∧
      next = { state with outQueue, delivered := state.delivered ++ [item] } := by
  unfold deliverItem at delivered
  split at delivered
  next item outQueue popped =>
    exact ⟨item, outQueue, popped, (Option.some.inj delivered).symm⟩
  next => exact absurd delivered.symm (Option.some_ne_none next)

theorem step_parse
    {now : Int64}
    (stepped : state.step unicode (.parse worker now) = some next) :
    ∃ loan, state.point worker = .received loan ∧
      next = { state with
        point := Function.update state.point worker
          (.parsed loan (viewOf { now, packet := state.read loan.packet }))
        stamped := state.stamped ++ [{ job := loan.job, stamp := now }] } := by
  rw [step] at stepped
  split at stepped
  next loan received => exact ⟨loan, received, (Option.some.inj stepped).symm⟩
  next => exact absurd stepped.symm (Option.some_ne_none next)

theorem step_copy (stepped : state.step unicode (.copy worker) = some next) :
    ∃ loan view, state.point worker = .parsed loan view ∧
      next = state.move worker (.copied loan view
        (slice (state.memory loan.packet.buffer) view.start loan.packet.size)) := by
  rw [step] at stepped
  split at stepped
  next loan view parsed =>
    exact ⟨loan, view, parsed, (Option.some.inj stepped).symm⟩
  next => exact absurd stepped.symm (Option.some_ne_none next)

theorem step_tokenize (stepped : state.step unicode (.tokenize worker) = some next) :
    ∃ loan view val, state.point worker = .copied loan view val ∧
      next = state.move worker (.tokenized loan
        { logKey := encodeLogKey (UInt64.ofInt view.facility) view.timestampNano
          logValue := val
          termKeys := (tokenize unicode (slice (state.memory loan.packet.buffer)
              view.start loan.packet.size)).map fun term =>
            encodeIndexKey term view.timestampNano (UInt64.ofInt view.facility) }) := by
  rw [step] at stepped
  split at stepped
  next loan view val copied =>
    exact ⟨loan, view, val, copied, (Option.some.inj stepped).symm⟩
  next => exact absurd stepped.symm (Option.some_ne_none next)

theorem step_release (stepped : state.step unicode (.release worker) = some next) :
    ∃ loan item, state.point worker = .tokenized loan item ∧
      next = { state with
        point := Function.update state.point worker (.released item)
        bufferPool := state.bufferPool ++ [loan.packet.buffer]
        released := state.released ++ [loan] } := by
  rw [step] at stepped
  split at stepped
  next loan item tokenized =>
    exact ⟨loan, item, tokenized, (Option.some.inj stepped).symm⟩
  next => exact absurd stepped.symm (Option.some_ne_none next)

/-- A worker with an item panics on a closed queue, or sends it. -/
theorem step_emit (stepped : state.step unicode (.emit worker) = some next) :
    ∃ item, state.point worker = .released item ∧
      (state.outQueue.closed = true ∧ next = { state with panicked := true } ∨
        state.outQueue.closed = false ∧ state.outQueue.hasRoom = true ∧
          state.emitItem worker = some next) := by
  rw [step] at stepped
  split at stepped
  next item released =>
    refine ⟨item, released, ?_⟩
    split at stepped
    next isClosed => exact Or.inl ⟨isClosed, (Option.some.inj stepped).symm⟩
    next opened =>
      obtain ⟨room, emitted⟩ := Option.ite_none_right_eq_some.mp stepped
      exact Or.inr ⟨eq_false_of_ne_true opened, room, emitted⟩
  next => exact absurd stepped.symm (Option.some_ne_none next)

theorem step_exit (stepped : state.step unicode (.exit worker) = some next) :
    state.point worker = .waiting ∧ state.rawQueue.ended = true ∧
      next = state.move worker .exited := by
  rw [step] at stepped
  split at stepped
  next waiting =>
    obtain ⟨ended, same⟩ := Option.ite_none_right_eq_some.mp stepped
    exact ⟨waiting, ended, (Option.some.inj same).symm⟩
  next => exact absurd stepped.symm (Option.some_ne_none next)

end Steps

/-! ## Ownership of the buffers -/

section Ownership

variable {unicode} {state next : Recycling workers}

theorem inFlight_move
    {worker : Fin workers}
    {point : WorkerPoint}
    (same : point.loan = (state.point worker).loan) :
    (state.move worker point).inFlight = state.inFlight := by
  unfold inFlight
  have total : ∑ other, (Function.update state.point worker point other).loan =
      ∑ other, (state.point other).loan + 0 :=
    sum_update_receive (by rw [same, add_zero])
  rw [add_zero] at total
  exact congrArg _ total

/-- A packet in a worker's hands is in flight. -/
theorem mem_inFlight_of_loan_eq
    {worker : Fin workers}
    {loan : Loan}
    (held : (state.point worker).loan = {loan}) : loan ∈ state.inFlight := by
  have member : loan ∈ (state.point worker).loan := by
    rw [held]
    exact Multiset.mem_singleton_self loan
  exact Multiset.mem_add.mpr (Or.inr (mem_sum_of_mem member))

namespace Owned

theorem start (queueSize : Nat) : (Recycling.start workers queueSize).Owned where
  distinct := by
    simp [owned, free, inFlight, Recycling.start, WorkerPoint.loan, Channel.make]
  allocated := by
    simp [owned, free, inFlight, Recycling.start, WorkerPoint.loan, Channel.make]
  intact := by
    simp [inFlight, Recycling.start, WorkerPoint.loan, Channel.make]
  accounted := by
    simp [inFlight, Recycling.start, WorkerPoint.loan, Channel.make]

/-- Buffers change hands among those not in flight, or are forgotten. -/
theorem of_free
    (owned : state.Owned)
    (free : next.free ≤ state.free)
    (inFlight : next.inFlight = state.inFlight)
    (read : next.read = state.read)
    (allocated : next.allocated = state.allocated)
    (submitted : next.submitted = state.submitted)
    (released : next.released = state.released) :
    next.Owned := by
  have fewer : next.owned ≤ state.owned := by
    unfold Recycling.owned
    rw [inFlight]
    exact add_le_add_left free _
  exact {
    distinct := Multiset.nodup_of_le fewer owned.distinct
    allocated := fun buffer member =>
      allocated ▸ owned.allocated buffer (Multiset.mem_of_le fewer member)
    intact := by
      rw [inFlight, read]
      exact owned.intact
    accounted := by
      rw [submitted, inFlight, released]
      exact owned.accounted }

/-- A reader's buffer is not that of a packet in flight. -/
theorem ne_of_mem_holding
    {buffer : Nat}
    {loan : Loan}
    (owned : state.Owned)
    (held : buffer ∈ state.holding)
    (flying : loan ∈ state.inFlight) :
    loan.packet.buffer ≠ buffer := by
  have apart := (Multiset.nodup_add.mp owned.distinct).2.2
  intro same
  apply Multiset.disjoint_left.mp apart
  · exact Multiset.mem_add.mpr (Or.inl (Multiset.mem_add.mpr (Or.inr
      (Multiset.mem_coe.mpr held))))
  · exact Multiset.mem_map.mpr ⟨loan, flying, same⟩

theorem allocate
    (owned : state.Owned)
    (stepped : state.step unicode .allocate = some next) :
    next.Owned := by
  obtain rfl := Option.some.inj stepped
  have fresh : state.allocated ∉ state.owned := fun member =>
    Nat.lt_irrefl _ (owned.allocated _ member)
  have grown : Recycling.owned { state with
      memory := Function.update state.memory state.allocated freshBuffer
      allocated := state.allocated + 1
      holding := state.holding ++ [state.allocated] } =
        state.allocated ::ₘ state.owned := by
    simp only [Recycling.owned, Recycling.free, Recycling.inFlight, ← Multiset.coe_add,
      Multiset.coe_singleton, ← Multiset.singleton_add]
    abel
  exact {
    distinct := by
      rw [grown, Multiset.nodup_cons]
      exact ⟨fresh, owned.distinct⟩
    allocated := by
      intro buffer member
      rw [grown, Multiset.mem_cons] at member
      rcases member with rfl | member
      · exact Nat.lt_succ_self _
      · exact Nat.lt_succ_of_lt (owned.allocated buffer member)
    intact := by
      intro loan flying
      have other : loan.packet.buffer ≠ state.allocated := by
        intro same
        apply fresh
        rw [← same]
        exact Multiset.mem_add.mpr (Or.inr (Multiset.mem_map_of_mem _ flying))
      rw [← owned.intact loan flying]
      simp only [Recycling.read, Function.update_of_ne other]
    accounted := owned.accounted }

theorem fill
    {buffer : Nat}
    {bytes : Bytes}
    (owned : state.Owned)
    (stepped : state.step unicode (.fill buffer bytes) = some next) :
    next.Owned := by
  obtain ⟨held, same⟩ := Option.ite_none_right_eq_some.mp stepped
  obtain rfl := Option.some.inj same
  have hands : (state.holding : Multiset Nat) =
      ↑(state.holding.erase buffer) + {buffer} := by
    rw [← Multiset.coe_erase, add_comm, Multiset.singleton_add,
      Multiset.cons_erase (Multiset.mem_coe.mpr held)]
  have unchanged : Recycling.owned { state with
      memory := Function.update state.memory buffer (fillBuffer (state.memory buffer) bytes).data
      holding := state.holding.erase buffer
      filled := state.filled ++ [⟨buffer, (fillBuffer (state.memory buffer) bytes).size⟩] } =
        state.owned := by
    simp only [Recycling.owned, Recycling.free, Recycling.inFlight, hands,
      List.map_append, List.map_singleton, ← Multiset.coe_add, Multiset.coe_singleton]
    abel
  exact {
    distinct := unchanged ▸ owned.distinct
    allocated := unchanged ▸ owned.allocated
    intact := by
      intro loan flying
      rw [← owned.intact loan flying]
      simp only [Recycling.read,
        Function.update_of_ne (owned.ne_of_mem_holding held flying)]
    accounted := owned.accounted }

theorem put
    {packet : Packet}
    (owned : state.Owned)
    (member : packet ∈ state.filled) :
    (state.put packet).Owned := by
  have hands : (state.filled.map Packet.buffer : Multiset Nat) =
      (state.filled.erase packet).map Packet.buffer + {packet.buffer} := by
    rw [← Multiset.map_coe, ← Multiset.map_coe, ← Multiset.coe_erase,
      ← Multiset.cons_erase (Multiset.mem_coe.mpr member), Multiset.map_cons, add_comm,
      Multiset.singleton_add, Multiset.erase_cons_head]
  have flying : (state.put packet).inFlight = state.inFlight +
      {⟨packet, ⟨state.submitted.length, state.read packet⟩⟩} := by
    simp only [Recycling.inFlight, Recycling.put, Channel.push_queue,
      ← Multiset.coe_add, Multiset.coe_singleton]
    abel
  have unchanged : (state.put packet).owned = state.owned := by
    rw [Recycling.owned, Recycling.owned, flying, Multiset.map_add,
      Multiset.map_singleton]
    simp only [Recycling.free, hands, Recycling.put]
    abel
  exact {
    distinct := unchanged ▸ owned.distinct
    allocated := unchanged ▸ owned.allocated
    intact := by
      intro loan member
      rw [flying, Multiset.mem_add, Multiset.mem_singleton] at member
      rcases member with earlier | rfl
      · exact owned.intact loan earlier
      · rfl
    accounted := by
      rw [flying]
      simp only [Recycling.put, ← Multiset.coe_add, owned.accounted,
        Multiset.coe_singleton]
      abel }

theorem takePacket
    {worker : Fin workers}
    (owned : state.Owned)
    (taken : state.takePacket worker = some next) :
    next.Owned := by
  obtain ⟨loan, rawQueue, waiting, popped, rfl⟩ := exists_of_takePacket taken
  obtain ⟨queue, _⟩ := Channel.pop_eq_some.mp popped
  refine owned.of_free (le_refl _) ?_ rfl rfl rfl rfl
  have workers : ∑ other, (Function.update state.point worker (.received loan) other).loan =
      ∑ other, (state.point other).loan + {loan} :=
    sum_update_receive (by simp [waiting, WorkerPoint.loan])
  simp only [Recycling.inFlight, workers, queue, ← Multiset.cons_coe,
    ← Multiset.singleton_add]
  abel

theorem emitItem
    {worker : Fin workers}
    (owned : state.Owned)
    (emitted : state.emitItem worker = some next) :
    next.Owned := by
  obtain ⟨item, released, rfl⟩ := exists_of_emitItem emitted
  exact owned.of_free (le_refl _)
    (inFlight_move (by rw [released]; rfl)) rfl rfl rfl rfl

theorem deliverItem
    (owned : state.Owned)
    (delivered : state.deliverItem = some next) :
    next.Owned := by
  obtain ⟨item, outQueue, popped, rfl⟩ := exists_of_deliverItem delivered
  exact { owned with }

theorem release
    {worker : Fin workers}
    (owned : state.Owned)
    (stepped : state.step unicode (.release worker) = some next) :
    next.Owned := by
  obtain ⟨loan, item, tokenized, rfl⟩ := step_release stepped
  have workers : ∑ other, (state.point other).loan =
      ∑ other, (Function.update state.point worker (.released item) other).loan +
        {loan} :=
    sum_update_add (by simp [tokenized, WorkerPoint.loan])
  have flying : state.inFlight = Recycling.inFlight { state with
      point := Function.update state.point worker (.released item)
      bufferPool := state.bufferPool ++ [loan.packet.buffer]
      released := state.released ++ [loan] } + {loan} := by
    simp only [Recycling.inFlight, workers]
    abel
  have unchanged : Recycling.owned { state with
      point := Function.update state.point worker (.released item)
      bufferPool := state.bufferPool ++ [loan.packet.buffer]
      released := state.released ++ [loan] } = state.owned := by
    rw [Recycling.owned, Recycling.owned, flying, Multiset.map_add,
      Multiset.map_singleton]
    simp only [Recycling.free, ← Multiset.coe_add, Multiset.coe_singleton]
    abel
  exact {
    distinct := unchanged ▸ owned.distinct
    allocated := unchanged ▸ owned.allocated
    intact := fun other member =>
      owned.intact other (flying ▸ Multiset.mem_add.mpr (Or.inl member))
    accounted := by
      rw [← Multiset.coe_add, Multiset.coe_singleton]
      have balance := owned.accounted
      rw [flying] at balance
      rw [balance]
      abel }

/-- No step lets a buffer get into two pairs of hands. -/
theorem step
    {event : Event workers}
    (owned : state.Owned)
    (stepped : state.step unicode event = some next) :
    next.Owned := by
  cases event with
  | getPooled buffer =>
      obtain ⟨pooled, same⟩ := Option.ite_none_right_eq_some.mp stepped
      obtain rfl := Option.some.inj same
      refine owned.of_free (le_of_eq ?_) rfl rfl rfl rfl rfl
      have pool : (state.bufferPool : Multiset Nat) =
          {buffer} + ↑(state.bufferPool.erase buffer) := by
        rw [← Multiset.coe_erase, Multiset.singleton_add,
          Multiset.cons_erase (Multiset.mem_coe.mpr pooled)]
      simp only [free, pool, ← Multiset.coe_add, Multiset.coe_singleton]
      abel
  | allocate => exact owned.allocate stepped
  | collect buffer =>
      obtain rfl := Option.some.inj stepped
      refine owned.of_free ?_ rfl rfl rfl rfl rfl
      have fewer : (state.bufferPool.erase buffer : Multiset Nat) ≤ state.bufferPool :=
        Multiset.coe_le.mpr (List.erase_subperm _ _)
      exact add_le_add_left (add_le_add_left fewer _) _
  | fill buffer bytes => exact owned.fill stepped
  | readError buffer =>
      obtain rfl := Option.some.inj stepped
      refine owned.of_free ?_ rfl rfl rfl rfl rfl
      have fewer : (state.holding.erase buffer : Multiset Nat) ≤ state.holding :=
        Multiset.coe_le.mpr (List.erase_subperm _ _)
      exact add_le_add_left (add_le_add_right fewer _) _
  | submit packet =>
      obtain ⟨member, sent⟩ := Option.ite_none_right_eq_some.mp stepped
      split at sent
      next =>
        obtain rfl := Option.some.inj sent
        exact { owned with }
      next =>
        obtain ⟨_, same⟩ := Option.ite_none_right_eq_some.mp sent
        exact Option.some.inj same ▸ owned.put member
  | handOver packet worker =>
      obtain ⟨member, sent⟩ := Option.ite_none_right_eq_some.mp stepped
      obtain ⟨_, taken⟩ := Option.ite_none_right_eq_some.mp sent
      exact (owned.put member).takePacket taken
  | take worker => exact owned.takePacket stepped
  | parse worker now =>
      obtain ⟨loan, received, rfl⟩ := step_parse stepped
      exact owned.of_free (le_refl _)
        (inFlight_move (by rw [received]; rfl)) rfl rfl rfl rfl
  | copy worker =>
      obtain ⟨loan, view, parsed, rfl⟩ := step_copy stepped
      exact owned.of_free (le_refl _)
        (inFlight_move (by rw [parsed]; rfl)) rfl rfl rfl rfl
  | tokenize worker =>
      obtain ⟨loan, view, val, copied, rfl⟩ := step_tokenize stepped
      exact owned.of_free (le_refl _)
        (inFlight_move (by rw [copied]; rfl)) rfl rfl rfl rfl
  | release worker => exact owned.release stepped
  | emit worker =>
      obtain ⟨_, _, ⟨_, rfl⟩ | ⟨_, _, emitted⟩⟩ := step_emit stepped
      · exact { owned with }
      · exact owned.emitItem emitted
  | handOut worker =>
      obtain ⟨_, handed⟩ := Option.ite_none_right_eq_some.mp stepped
      obtain ⟨middle, emitted, delivered⟩ := Option.bind_eq_some_iff.mp handed
      exact (owned.emitItem emitted).deliverItem delivered
  | exit worker =>
      obtain ⟨waiting, _, rfl⟩ := step_exit stepped
      exact owned.of_free (le_refl _)
        (inFlight_move (by rw [waiting]; rfl)) rfl rfl rfl rfl
  | deliver => exact owned.deliverItem stepped
  | close =>
      obtain ⟨_, same⟩ := Option.ite_none_left_eq_some.mp stepped
      obtain rfl := Option.some.inj same
      exact { owned with }
  | closeOutput =>
      obtain ⟨_, same⟩ := Option.ite_none_right_eq_some.mp stepped
      obtain rfl := Option.some.inj same
      exact { owned with }

end Owned

end Ownership

/-! ## The pipeline is a worker farm -/

section Simulation

variable {unicode} {state next : Recycling workers}
  {farm : Farm workers PacketBuffer Int64}

/-- The message lies at the end of the packet. -/
theorem slice_viewOf (arrival : Arrival) :
    slice arrival.packet.data (viewOf arrival).start arrival.packet.size =
      arrival.message := by
  obtain ⟨dropped, whole, _⟩ := message_cut arrival.now arrival.packet.filled
  have filled : arrival.packet.filled = dropped ++ arrival.message := whole
  have taken : arrival.packet.data.take arrival.packet.size = arrival.packet.filled := by
    rw [PacketBuffer.filled, slice, List.drop_zero]
  rw [slice, taken, viewOf, filled, List.length_append, Nat.add_sub_cancel,
    List.drop_left]

theorem pointMirrors_waiting {point : Point PacketBuffer Int64} :
    PointMirrors unicode .waiting point ↔ point = .waiting := by
  cases point <;> simp [PointMirrors]

theorem pointMirrors_received {loan : Loan} {point : Point PacketBuffer Int64} :
    PointMirrors unicode (.received loan) point ↔ point = .taken loan.job := by
  cases point <;> simp [PointMirrors, eq_comm]

theorem pointMirrors_parsed
    {loan : Loan} {view : ParsedView} {point : Point PacketBuffer Int64} :
    PointMirrors unicode (.parsed loan view) point ↔
      ∃ done, point = .stamped done ∧ loan.job = done.job ∧
        view = viewOf (arrivalOf done) := by
  cases point <;> simp [PointMirrors]

theorem pointMirrors_copied
    {loan : Loan} {view : ParsedView} {val : Bytes} {point : Point PacketBuffer Int64} :
    PointMirrors unicode (.copied loan view val) point ↔
      ∃ done, point = .stamped done ∧ loan.job = done.job ∧
        view = viewOf (arrivalOf done) ∧ val = (arrivalOf done).message := by
  cases point <;> simp [PointMirrors]

theorem pointMirrors_tokenized
    {loan : Loan} {item : IndexItem} {point : Point PacketBuffer Int64} :
    PointMirrors unicode (.tokenized loan item) point ↔
      ∃ done, point = .stamped done ∧ loan.job = done.job ∧
        item = itemOf unicode done := by
  cases point <;> simp [PointMirrors]

theorem pointMirrors_released {item : IndexItem} {point : Point PacketBuffer Int64} :
    PointMirrors unicode (.released item) point ↔
      ∃ done, point = .stamped done ∧ item = itemOf unicode done := by
  cases point <;> simp [PointMirrors]

theorem pointMirrors_exited {point : Point PacketBuffer Int64} :
    PointMirrors unicode .exited point ↔ point = .exited := by
  cases point <;> simp [PointMirrors]

/-- What a worker reads from an intact packet is the message. -/
theorem slice_memory
    {loan : Loan}
    {done : Stamped PacketBuffer Int64}
    (intact : state.read loan.packet = loan.job.content)
    (same : loan.job = done.job) :
    slice (state.memory loan.packet.buffer) (viewOf (arrivalOf done)).start
        loan.packet.size = (arrivalOf done).message := by
  have packet : state.read loan.packet = (arrivalOf done).packet := by
    rw [intact, same]
    rfl
  have message := slice_viewOf (arrivalOf done)
  rwa [← packet] at message

/-- Both workers move. -/
theorem pointMirrors_update
    {points : Fin workers → WorkerPoint}
    {farmPoints : Fin workers → Point PacketBuffer Int64}
    {worker : Fin workers}
    {point : WorkerPoint}
    {farmPoint : Point PacketBuffer Int64}
    (mirrors : ∀ other, PointMirrors unicode (points other) (farmPoints other))
    (moved : PointMirrors unicode point farmPoint)
    (other : Fin workers) :
    PointMirrors unicode (Function.update points worker point other)
      (Function.update farmPoints worker farmPoint other) := by
  by_cases same : other = worker
  · subst same
    rwa [Function.update_self, Function.update_self]
  · rw [Function.update_of_ne same, Function.update_of_ne same]
    exact mirrors other

/-- A move of the pipeline's worker that the farm does not see. -/
theorem pointMirrors_move
    {points : Fin workers → WorkerPoint}
    {farmPoints : Fin workers → Point PacketBuffer Int64}
    {worker : Fin workers}
    {point : WorkerPoint}
    (mirrors : ∀ other, PointMirrors unicode (points other) (farmPoints other))
    (moved : PointMirrors unicode point (farmPoints worker))
    (other : Fin workers) :
    PointMirrors unicode (Function.update points worker point other)
      (farmPoints other) := by
  rw [← Function.update_eq_self worker farmPoints]
  exact pointMirrors_update mirrors moved other

namespace Mirrors

theorem start (queueSize : Nat) :
    Mirrors unicode (Recycling.start workers queueSize)
      (Farm.start workers PacketBuffer Int64 queueSize queueSize) where
  input := rfl
  point _ := trivial
  output := rfl
  submitted := rfl
  stamped := rfl
  delivered := rfl
  panicked := rfl

theorem put
    (mirrors : Mirrors unicode state farm)
    (packet : Packet) :
    Mirrors unicode (state.put packet) (farm.put (state.read packet)) := by
  have number : farm.submitted.length = state.submitted.length := by
    rw [mirrors.submitted, List.length_map]
  exact { mirrors with
    input := by
      rw [Recycling.put, Channel.map_push, Farm.put, mirrors.input, number]
    submitted := by
      rw [Recycling.put, List.map_append, Farm.put, mirrors.submitted,
        List.length_map]
      rfl }

theorem takePacket
    {worker : Fin workers}
    (mirrors : Mirrors unicode state farm)
    (taken : state.takePacket worker = some next) :
    ∃ farm', farm.takeJob worker = some farm' ∧ Mirrors unicode next farm' := by
  obtain ⟨loan, rawQueue, waiting, popped, rfl⟩ := exists_of_takePacket taken
  have farmWaiting := mirrors.point worker
  rw [waiting, pointMirrors_waiting] at farmWaiting
  have farmPopped := Channel.pop_map popped Loan.job
  rw [← mirrors.input] at farmPopped
  exact ⟨_, Farm.takeJob_eq_some.mpr ⟨_, _, farmWaiting, farmPopped, rfl⟩,
    { mirrors with
      input := rfl
      point := pointMirrors_update mirrors.point (pointMirrors_received.mpr rfl) }⟩

theorem emitItem
    {worker : Fin workers}
    (mirrors : Mirrors unicode state farm)
    (emitted : state.emitItem worker = some next) :
    ∃ farm', farm.emitJob worker = some farm' ∧ Mirrors unicode next farm' := by
  obtain ⟨item, released, rfl⟩ := exists_of_emitItem emitted
  have farmStamped := mirrors.point worker
  rw [released, pointMirrors_released] at farmStamped
  obtain ⟨done, farmStamped, rfl⟩ := farmStamped
  refine ⟨_, Farm.emitJob_eq_some.mpr ⟨done, farmStamped, rfl⟩, { mirrors with
    point := pointMirrors_update mirrors.point (pointMirrors_waiting.mpr rfl)
    output := ?_ }⟩
  rw [mirrors.output, Channel.map_push]

theorem deliverItem
    (mirrors : Mirrors unicode state farm)
    (delivered : state.deliverItem = some next) :
    ∃ farm', farm.deliverJob = some farm' ∧ Mirrors unicode next farm' := by
  obtain ⟨item, outQueue, popped, rfl⟩ := exists_of_deliverItem delivered
  rw [mirrors.output] at popped
  obtain ⟨done, output, farmPopped, rfl, rfl⟩ := Channel.exists_pop_of_map popped
  refine ⟨_, Farm.deliverJob_eq_some.mpr ⟨_, _, farmPopped, rfl⟩,
    { mirrors with
      output := rfl
      delivered := ?_ }⟩
  rw [mirrors.delivered, List.map_append]
  rfl

/-- A submission is one for the farm, with the bytes the buffer holds now. -/
theorem submit
    {packet : Packet}
    (mirrors : Mirrors unicode state farm)
    (stepped : state.step unicode (.submit packet) = some next) :
    ∃ farm', farm.step (.submit (state.read packet)) = some farm' ∧
      Mirrors unicode next farm' := by
  have closed : farm.input.closed = state.rawQueue.closed := by
    rw [mirrors.input, Channel.map_closed]
  obtain ⟨_, sent⟩ := Option.ite_none_right_eq_some.mp stepped
  split at sent
  next isClosed =>
    obtain rfl := Option.some.inj sent
    refine ⟨{ farm with panicked := true }, ?_, { mirrors with panicked := rfl }⟩
    rw [Farm.step, if_pos (closed.trans isClosed)]
  next opened =>
    obtain ⟨room, same⟩ := Option.ite_none_right_eq_some.mp sent
    obtain rfl := Option.some.inj same
    refine ⟨farm.put (state.read packet), ?_, mirrors.put packet⟩
    rw [Farm.step, if_neg (closed ▸ opened), mirrors.input, Channel.hasRoom_map,
      if_pos room]

theorem handOver
    {packet : Packet}
    {worker : Fin workers}
    (mirrors : Mirrors unicode state farm)
    (stepped : state.step unicode (.handOver packet worker) = some next) :
    ∃ farm', farm.step (.handOver (state.read packet) worker) = some farm' ∧
      Mirrors unicode next farm' := by
  obtain ⟨_, sent⟩ := Option.ite_none_right_eq_some.mp stepped
  obtain ⟨ready, taken⟩ := Option.ite_none_right_eq_some.mp sent
  obtain ⟨farm', farmTaken, after⟩ := (mirrors.put packet).takePacket taken
  refine ⟨farm', ?_, after⟩
  rw [Farm.step, mirrors.input, Channel.map_closed, Channel.map_queue,
    List.isEmpty_map, if_pos ready, farmTaken]

/-- The parser reads the bytes that were submitted. -/
theorem parse
    {worker : Fin workers}
    {now : Int64}
    (mirrors : Mirrors unicode state farm)
    (owned : state.Owned)
    (stepped : state.step unicode (.parse worker now) = some next) :
    ∃ farm', farm.step (.stamp worker now) = some farm' ∧
      Mirrors unicode next farm' := by
  obtain ⟨loan, received, rfl⟩ := step_parse stepped
  have farmTaken := mirrors.point worker
  rw [received, pointMirrors_received] at farmTaken
  have intact := owned.intact loan
    (mem_inFlight_of_loan_eq (congrArg WorkerPoint.loan received))
  refine ⟨_, Farm.step_stamp.mpr ⟨loan.job, farmTaken, rfl⟩, { mirrors with
    point := pointMirrors_update mirrors.point (pointMirrors_parsed.mpr ⟨_, rfl, rfl, ?_⟩)
    stamped := ?_ }⟩
  · rw [intact]
    rfl
  · rw [mirrors.stamped]

/-- The copy is the message of the submitted bytes. -/
theorem copy
    {worker : Fin workers}
    (mirrors : Mirrors unicode state farm)
    (owned : state.Owned)
    (stepped : state.step unicode (.copy worker) = some next) :
    Mirrors unicode next farm := by
  obtain ⟨loan, view, parsed, rfl⟩ := step_copy stepped
  have farmStamped := mirrors.point worker
  rw [parsed, pointMirrors_parsed] at farmStamped
  obtain ⟨done, farmStamped, same, rfl⟩ := farmStamped
  have intact := owned.intact loan
    (mem_inFlight_of_loan_eq (congrArg WorkerPoint.loan parsed))
  refine { mirrors with point := pointMirrors_move mirrors.point ?_ }
  rw [farmStamped, slice_memory intact same]
  exact ⟨same, rfl, rfl⟩

/-- The tokens are those of the submitted bytes: the buffer is not released
yet. -/
theorem tokenize
    {worker : Fin workers}
    (mirrors : Mirrors unicode state farm)
    (owned : state.Owned)
    (stepped : state.step unicode (.tokenize worker) = some next) :
    Mirrors unicode next farm := by
  obtain ⟨loan, view, val, copied, rfl⟩ := step_tokenize stepped
  have farmStamped := mirrors.point worker
  rw [copied, pointMirrors_copied] at farmStamped
  obtain ⟨done, farmStamped, same, rfl, rfl⟩ := farmStamped
  have intact := owned.intact loan
    (mem_inFlight_of_loan_eq (congrArg WorkerPoint.loan copied))
  refine { mirrors with point := pointMirrors_move mirrors.point ?_ }
  rw [farmStamped, slice_memory intact same]
  exact ⟨same, rfl⟩

theorem release
    {worker : Fin workers}
    (mirrors : Mirrors unicode state farm)
    (stepped : state.step unicode (.release worker) = some next) :
    Mirrors unicode next farm := by
  obtain ⟨loan, item, tokenized, rfl⟩ := step_release stepped
  have farmStamped := mirrors.point worker
  rw [tokenized, pointMirrors_tokenized] at farmStamped
  obtain ⟨done, farmStamped, _, rfl⟩ := farmStamped
  exact { mirrors with
    point := pointMirrors_move mirrors.point
      (pointMirrors_released.mpr ⟨done, farmStamped, rfl⟩) }

theorem emit
    {worker : Fin workers}
    (mirrors : Mirrors unicode state farm)
    (stepped : state.step unicode (.emit worker) = some next) :
    ∃ farm', farm.step (.emit worker) = some farm' ∧ Mirrors unicode next farm' := by
  have closed : farm.output.closed = state.outQueue.closed := by
    rw [mirrors.output, Channel.map_closed]
  obtain ⟨item, released, sent⟩ := step_emit stepped
  have farmStamped := mirrors.point worker
  rw [released, pointMirrors_released] at farmStamped
  obtain ⟨done, farmStamped, _⟩ := farmStamped
  rcases sent with ⟨isClosed, rfl⟩ | ⟨opened, room, emitted⟩
  · refine ⟨{ farm with panicked := true }, ?_, { mirrors with panicked := rfl }⟩
    rw [Farm.step, farmStamped]
    exact if_pos (closed.trans isClosed)
  · obtain ⟨farm', farmEmitted, after⟩ := mirrors.emitItem emitted
    refine ⟨farm', ?_, after⟩
    rw [mirrors.output, Channel.hasRoom_map] at room
    rw [Farm.step, farmStamped]
    simp only [closed, opened, room, farmEmitted]
    rfl

theorem handOut
    {worker : Fin workers}
    (mirrors : Mirrors unicode state farm)
    (stepped : state.step unicode (.handOut worker) = some next) :
    ∃ farm', farm.step (.handOut worker) = some farm' ∧ Mirrors unicode next farm' := by
  obtain ⟨ready, handed⟩ := Option.ite_none_right_eq_some.mp stepped
  obtain ⟨middle, emitted, delivered⟩ := Option.bind_eq_some_iff.mp handed
  obtain ⟨between, farmEmitted, mirrorsBetween⟩ := mirrors.emitItem emitted
  obtain ⟨farm', farmDelivered, after⟩ := mirrorsBetween.deliverItem delivered
  refine ⟨farm', ?_, after⟩
  rw [mirrors.output, Channel.map_closed, Channel.map_queue, List.isEmpty_map] at ready
  rw [Farm.step, if_pos ready, farmEmitted]
  exact farmDelivered

theorem exit
    {worker : Fin workers}
    (mirrors : Mirrors unicode state farm)
    (stepped : state.step unicode (.exit worker) = some next) :
    ∃ farm', farm.step (.exit worker) = some farm' ∧ Mirrors unicode next farm' := by
  obtain ⟨waiting, ended, rfl⟩ := step_exit stepped
  have farmWaiting := mirrors.point worker
  rw [waiting, pointMirrors_waiting] at farmWaiting
  have farmEnded : farm.input.ended = true := by
    rw [mirrors.input, Channel.ended_map, ended]
  exact ⟨_, Farm.step_exit.mpr ⟨farmWaiting, farmEnded, rfl⟩, { mirrors with
    point := pointMirrors_update mirrors.point (pointMirrors_exited.mpr rfl) }⟩

theorem close
    (mirrors : Mirrors unicode state farm)
    (stepped : state.step unicode .close = some next) :
    ∃ farm', farm.step .close = some farm' ∧ Mirrors unicode next farm' := by
  have closed : farm.input.closed = state.rawQueue.closed := by
    rw [mirrors.input, Channel.map_closed]
  obtain ⟨opened, same⟩ := Option.ite_none_left_eq_some.mp stepped
  obtain rfl := Option.some.inj same
  refine ⟨{ farm with input := farm.input.close }, ?_, { mirrors with input := ?_ }⟩
  · rw [Farm.step, if_neg (closed ▸ opened)]
  · rw [mirrors.input, Channel.map_close]

theorem closeOutput
    (mirrors : Mirrors unicode state farm)
    (stepped : state.step unicode .closeOutput = some next) :
    ∃ farm', farm.step .closeOutput = some farm' ∧ Mirrors unicode next farm' := by
  have closed : farm.input.closed = state.rawQueue.closed := by
    rw [mirrors.input, Channel.map_closed]
  obtain ⟨⟨isClosed, exited⟩, same⟩ := Option.ite_none_right_eq_some.mp stepped
  obtain rfl := Option.some.inj same
  refine ⟨{ farm with output := farm.output.close }, ?_, { mirrors with output := ?_ }⟩
  · rw [Farm.step, if_pos]
    refine ⟨closed.trans isClosed, fun worker => ?_⟩
    have farmExited := mirrors.point worker
    rw [WorkerPoint.isExited_eq_true.mp (exited worker), pointMirrors_exited] at farmExited
    rw [farmExited]
    rfl
  · rw [mirrors.output, Channel.map_close]

/-- Every step of the pipeline is a step of the farm, or is invisible to it. -/
theorem step
    {event : Event workers}
    (mirrors : Mirrors unicode state farm)
    (owned : state.Owned)
    (stepped : state.step unicode event = some next) :
    Mirrors unicode next farm ∨
      ∃ farmEvent farm', farm.step farmEvent = some farm' ∧
        Mirrors unicode next farm' := by
  cases event with
  | getPooled buffer =>
      obtain ⟨_, same⟩ := Option.ite_none_right_eq_some.mp stepped
      exact Or.inl (Option.some.inj same ▸ { mirrors with })
  | allocate => exact Or.inl (Option.some.inj stepped ▸ { mirrors with })
  | collect buffer => exact Or.inl (Option.some.inj stepped ▸ { mirrors with })
  | fill buffer bytes =>
      obtain ⟨_, same⟩ := Option.ite_none_right_eq_some.mp stepped
      exact Or.inl (Option.some.inj same ▸ { mirrors with })
  | readError buffer => exact Or.inl (Option.some.inj stepped ▸ { mirrors with })
  | submit packet => exact Or.inr ⟨_, mirrors.submit stepped⟩
  | handOver packet worker => exact Or.inr ⟨_, mirrors.handOver stepped⟩
  | take worker => exact Or.inr ⟨.take worker, mirrors.takePacket stepped⟩
  | parse worker now => exact Or.inr ⟨_, mirrors.parse owned stepped⟩
  | copy worker => exact Or.inl (mirrors.copy owned stepped)
  | tokenize worker => exact Or.inl (mirrors.tokenize owned stepped)
  | release worker => exact Or.inl (mirrors.release stepped)
  | emit worker => exact Or.inr ⟨_, mirrors.emit stepped⟩
  | handOut worker => exact Or.inr ⟨_, mirrors.handOut stepped⟩
  | exit worker => exact Or.inr ⟨_, mirrors.exit stepped⟩
  | deliver => exact Or.inr ⟨.deliver, mirrors.deliverItem stepped⟩
  | close => exact Or.inr ⟨_, mirrors.close stepped⟩
  | closeOutput => exact Or.inr ⟨_, mirrors.closeOutput stepped⟩

end Mirrors

end Simulation

/-! ## Every run -/

section Runs

variable {unicode} {queueSize : Nat} {state : Recycling workers}
  {events : List (Event workers)}

/-- In every run the buffers have one owner each and the pipeline is a farm in
which every job is accounted for. -/
theorem exists_farm
    (reached : Transition.run (step unicode) (start workers queueSize) events =
      some state) :
    state.Owned ∧ ∃ farm : Farm workers PacketBuffer Int64,
      farm.Accounted ∧ Mirrors unicode state farm := by
  have answers : ∀ (state : Recycling workers) (farm : Farm workers PacketBuffer Int64)
      (event : Event workers) (next : Recycling workers),
      state.Owned ∧ Mirrors unicode state farm →
      state.step unicode event = some next →
      (next.Owned ∧ Mirrors unicode next farm) ∨
        ∃ farmEvent farm', farm.step farmEvent = some farm' ∧
          next.Owned ∧ Mirrors unicode next farm' := by
    rintro state farm event next ⟨owned, mirrors⟩ stepped
    have owns := owned.step stepped
    rcases mirrors.step owned stepped with still | ⟨farmEvent, farm', farmStepped, after⟩
    · exact Or.inl ⟨owns, still⟩
    · exact Or.inr ⟨farmEvent, farm', farmStepped, owns, after⟩
  obtain ⟨farmEvents, farm, farmReached, owned, mirrors⟩ :=
    Transition.run_stutters (fun state farm => state.Owned ∧ Mirrors unicode state farm)
      answers ⟨.start queueSize, .start queueSize⟩ reached
  exact ⟨owned, farm, Farm.accounted_of_run farmReached, mirrors⟩

/-- A worker with an item to send finds the output queue open. -/
theorem outQueue_open
    {worker : Fin workers}
    {item : IndexItem}
    (reached : Transition.run (step unicode) (start workers queueSize) events =
      some state)
    (released : state.point worker = .released item) :
    state.outQueue.closed = false := by
  obtain ⟨_, farm, accounted, mirrors⟩ := exists_farm reached
  have stamped := mirrors.point worker
  rw [released, pointMirrors_released] at stamped
  obtain ⟨done, stamped, _⟩ := stamped
  have opened := accounted.output_open stamped
  rwa [mirrors.output, Channel.map_closed]

/-- Only a send on a closed queue panics. -/
theorem panicked_step
    {next : Recycling workers}
    {event : Event workers}
    (stepped : state.step unicode event = some next) :
    next.panicked = state.panicked ∨
      (∃ packet, event = .submit packet ∧ state.rawQueue.closed = true) ∨
      (∃ worker item, event = .emit worker ∧ state.point worker = .released item ∧
        state.outQueue.closed = true) := by
  cases event <;>
    grind [step, takePacket, emitItem, deliverItem, put, move]

end Runs

/-- Every call of `Submit` that gets through does so before `Close`. -/
def SubmitsBeforeClose
    (workers queueSize : Nat) (events : List (Event workers)) : Prop :=
  ∀ moment packet,
    Transition.Performs (step unicode) (start workers queueSize) events moment
        (.submit packet) →
      moment.rawQueue.closed = false

/-- What was delivered is what was submitted: every submitted packet was
stamped with one clock reading, the items are those of the stamped packets, and
every packet was released, each exactly once. -/
structure Faithful (state : Recycling workers) : Prop where
  stamped : (state.stamped.map Stamped.job).Perm (state.submitted.map Loan.job)
  delivered : state.delivered.Perm (state.stamped.map (itemOf unicode))
  released : state.released.Perm state.submitted
  once : (state.submitted.map fun loan => loan.job.number).Nodup

variable {unicode} {queueSize : Nat}

theorem faithful_of_drained
    {state : Recycling workers}
    {events : List (Event workers)}
    (positive : 0 < workers)
    (reached : Transition.run (step unicode) (start workers queueSize) events =
      some state)
    (closed : state.outQueue.closed = true)
    (drained : state.outQueue.queue = []) :
    Faithful unicode state := by
  obtain ⟨owned, farm, accounted, mirrors⟩ := exists_farm reached
  have farmClosed : farm.output.closed = true := by
    rwa [mirrors.output, Channel.map_closed] at closed
  have farmDrained : farm.output.queue = [] := by
    rwa [mirrors.output, Channel.map_queue, List.map_eq_nil_iff] at drained
  have exited := accounted.closed farmClosed
  have points : ∀ worker, state.point worker = .exited := by
    intro worker
    have mirrored := mirrors.point worker
    rw [exited worker] at mirrored
    cases point : state.point worker with
    | exited => rfl
    | waiting | received | parsed | copied | tokenized | released =>
        rw [point] at mirrored
        exact mirrored.elim
  have emptied : state.rawQueue.queue = [] := by
    have empty := (accounted.idle_of_closed positive farmClosed).1
    rwa [mirrors.input, Channel.map_queue, List.map_eq_nil_iff] at empty
  have landed : state.inFlight = 0 := by
    rw [inFlight, emptied, Multiset.coe_nil, zero_add]
    exact Finset.sum_eq_zero fun worker _ => by rw [points worker]; rfl
  exact {
    stamped := by
      rw [← mirrors.stamped, ← mirrors.submitted]
      exact accounted.stamped_perm_submitted positive farmClosed
    delivered := by
      rw [mirrors.delivered, ← mirrors.stamped]
      exact (accounted.delivered_perm_stamped positive farmClosed farmDrained).map _
    released := by
      have balance := owned.accounted
      rw [landed, zero_add] at balance
      exact (Multiset.coe_eq_coe.mp balance).symm
    once := by
      have numbers : (state.submitted.map Loan.job).map Job.number =
          List.range farm.submitted.length := by
        rw [← mirrors.submitted]
        exact accounted.numbered
      rw [List.map_map] at numbers
      exact numbers ▸ List.nodup_range }

/-- For any number of workers, any capacity and any schedule: once the output
queue is closed and drained, what was delivered is what was submitted, and
every submitted buffer was released exactly once.  No reader ever fills a
buffer whose packet is in flight, and nothing is sent on the output queue once
it is closed. -/
theorem recycling_faithful
    (unicode : UnicodeTables)
    (workers queueSize : Nat)
    (positive : 0 < workers)
    (events : List (Event workers))
    (state : Recycling workers)
    (reached : Transition.run (step unicode) (start workers queueSize) events =
      some state)
    (before : SubmitsBeforeClose unicode workers queueSize events) :
    (state.outQueue.closed = true → state.outQueue.queue = [] →
        Faithful unicode state) ∧
      (∀ moment buffer bytes,
        Transition.Performs (step unicode) (start workers queueSize) events moment
            (.fill buffer bytes) →
          ∀ loan ∈ moment.inFlight, loan.packet.buffer ≠ buffer) ∧
      (∀ moment event,
        Transition.Performs (step unicode) (start workers queueSize) events moment event →
          event.sends = true → moment.outQueue.closed = false) ∧
      state.panicked = false := by
  refine ⟨faithful_of_drained positive reached, ?_, ?_, ?_⟩
  · rintro moment buffer bytes ⟨first, rest, rfl, current⟩ loan flying
    obtain ⟨next, stepped⟩ := Transition.exists_step_of_performs reached current
    have held := (Option.ite_none_right_eq_some.mp stepped).1
    exact (exists_farm current).1.ne_of_mem_holding held flying
  · rintro moment event ⟨first, rest, rfl, current⟩ sends
    obtain ⟨next, stepped⟩ := Transition.exists_step_of_performs reached current
    cases event with
    | emit worker =>
        obtain ⟨item, released, _⟩ := step_emit stepped
        exact outQueue_open current released
    | handOut worker =>
        have ready := (Option.ite_none_right_eq_some.mp stepped).1
        rw [Bool.and_eq_true, Bool.not_eq_true'] at ready
        exact ready.1
    | _ => exact nomatch sends
  · have submits : ∀ moment event,
        Transition.Performs (step unicode) (start workers queueSize) events moment event →
          ∀ packet, event = .submit packet → moment.rawQueue.closed = false :=
      fun moment event performed packet same => before moment packet (same ▸ performed)
    refine Transition.run_history_meeting (fun _ state => state.panicked = false) rfl ?_
      reached submits
    intro history state event next current fine opened stepped
    rcases panicked_step stepped with same | ⟨packet, rfl, closed⟩ |
      ⟨worker, item, rfl, released, closed⟩
    · rw [same, fine]
    · rw [opened packet rfl] at closed
      exact nomatch closed
    · have opened := outQueue_open current released
      rw [closed] at opened
      exact nomatch opened

/-- Two packets go through one buffer: it is released, taken from the pool and
filled again while the first item is still on the output queue. -/
def recycledRun : List (Event 1) :=
  [.allocate, .fill 0 "<34>hello".toUTF8.toList, .submit ⟨0, 9⟩, .take 0, .parse 0 7,
    .copy 0, .tokenize 0, .release 0, .emit 0,
    .getPooled 0, .fill 0 "<34>bye".toUTF8.toList, .submit ⟨0, 7⟩, .take 0, .parse 0 8,
    .copy 0, .tokenize 0, .release 0, .deliver, .handOut 0, .close, .exit 0, .closeOutput]

theorem recycling_faithful_recycledRun :
    ∃ state, Transition.run (step asciiTables) (start 1 1) recycledRun = some state ∧
      state.delivered.length = 2 ∧ Faithful asciiTables state := by
  obtain ⟨state, guarded, facts⟩ := (Option.any_eq_true _ _).mp
    (by decide +kernel : (Transition.run (Transition.guarded (step asciiTables)
      fun moment event => !event.submits || !moment.rawQueue.closed) (start 1 1)
      recycledRun).any (fun state =>
        state.outQueue.closed && decide (state.outQueue.queue = [] ∧
          state.delivered.length = 2)) = true)
  obtain ⟨reached, accepted⟩ := Transition.run_guarded guarded
  obtain ⟨closed, facts⟩ := Bool.and_eq_true_iff.mp facts
  obtain ⟨drained, delivered⟩ := of_decide_eq_true facts
  have before : SubmitsBeforeClose asciiTables 1 1 recycledRun := by
    intro moment packet performed
    simpa [Event.submits] using accepted moment _ performed
  exact ⟨state, reached, delivered,
    (recycling_faithful asciiTables 1 1 Nat.one_pos recycledRun state reached before).1
      closed drained⟩

end Recycling
end Pipeline
end Chronolog
