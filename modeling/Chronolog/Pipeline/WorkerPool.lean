import Chronolog.Foundation.Channel
import Chronolog.Ingestion.Parser
import Chronolog.Pipeline.Tokenizer

/-!
# The worker pool

Workers take packets off a shared queue, parse and tokenize them, and put the
resulting index items on an output queue.  Everything an item contains is
determined by the packet and the clock reading its worker took, so the queues
carry that pair.
-/

namespace Chronolog
namespace Pipeline

open Ingestion Storage

/-- The pre-encoded keys of one line, ready to be committed. -/
structure IndexItem where
  logKey : Bytes
  logValue : Bytes
  termKeys : List Bytes
  deriving DecidableEq

/-- A packet with the clock reading of the worker that parsed it. -/
structure Arrival where
  now : Int64
  packet : PacketBuffer
  deriving DecidableEq

namespace Arrival

variable (unicode : UnicodeTables)

/-- The parse of the filled part of the buffer. -/
def parsed (arrival : Arrival) : ParsedLog :=
  parseSyslogRFC3164 arrival.now
    (slice arrival.packet.data 0 arrival.packet.size)

/-- `uint64(parsed.Facility)` -/
def streamID (arrival : Arrival) : UInt64 :=
  UInt64.ofInt arrival.parsed.facility

/-- The parsed message, copied out of the recycled buffer. -/
def message (arrival : Arrival) : Bytes := arrival.parsed.message

/-- The tokens of the message. -/
def tokens (arrival : Arrival) : List Bytes := tokenize unicode arrival.message

/-- The item one iteration of `workerLoop` emits. -/
def item (arrival : Arrival) : IndexItem where
  logKey := encodeLogKey arrival.streamID arrival.parsed.timestampNano
  logValue := arrival.message
  termKeys := (arrival.tokens unicode).map fun term =>
    encodeIndexKey term arrival.parsed.timestampNano arrival.streamID

theorem item_logKey (arrival : Arrival) :
    (arrival.item unicode).logKey =
      encodeLogKey arrival.streamID arrival.now := by
  simp [item, parsed]

theorem item_termKeys (arrival : Arrival) :
    (arrival.item unicode).termKeys =
      (arrival.tokens unicode).map fun term =>
        encodeIndexKey term arrival.now arrival.streamID := by
  simp [item, parsed]

end Arrival

/-- State of the pipeline.  The channel capacities only delay a send, so the
queues are unbounded; `taken` is a history variable. -/
structure WorkerPool (workers : Nat) where
  rawQueue : List PacketBuffer
  busy : Fin workers → Option Arrival
  outQueue : List Arrival
  taken : List Arrival

namespace WorkerPool

variable {workers : Nat}

/-- What producers, workers and the consumer do to the pipeline. -/
inductive Event (workers : Nat)
  | submit (packet : PacketBuffer)
  | take (worker : Fin workers) (now : Int64)
  | emit (worker : Fin workers)
  | deliver

/-- The pipeline after `Start`. -/
def start (workers : Nat) : WorkerPool workers where
  rawQueue := []
  busy _ := none
  outQueue := []
  taken := []

/-- One step of the pipeline: an idle worker takes the oldest packet and reads
the clock, a busy worker emits its item, the consumer takes the oldest item. -/
def step (pool : WorkerPool workers) : Event workers → Option (WorkerPool workers)
  | .submit packet =>
      some { pool with rawQueue := pool.rawQueue ++ [packet] }
  | .take worker now =>
      match pool.rawQueue, pool.busy worker with
      | packet :: rest, none =>
          let arrival : Arrival := { now, packet }
          some { pool with
            rawQueue := rest
            busy := Function.update pool.busy worker (some arrival)
            taken := pool.taken ++ [arrival] }
      | _, _ => none
  | .emit worker =>
      match pool.busy worker with
      | some arrival =>
          some { pool with
            busy := Function.update pool.busy worker none
            outQueue := pool.outQueue ++ [arrival] }
      | none => none
  | .deliver =>
      match pool.outQueue with
      | _ :: rest => some { pool with outQueue := rest }
      | [] => none

/-- The packets some worker is processing. -/
def inFlight (pool : WorkerPool workers) : Multiset Arrival :=
  ∑ worker, ((pool.busy worker).toList : Multiset Arrival)

/-- The item a step hands to the consumer. -/
def delivery (pool : WorkerPool workers) : Event workers → Option Arrival
  | .deliver => pool.outQueue.head?
  | _ => none

/-- Every packet taken is in a worker, in the output queue or delivered. -/
theorem step_conserves
    {pool next : WorkerPool workers}
    {event : Event workers}
    {delivered : Multiset Arrival}
    (conserved : (pool.taken : Multiset Arrival) =
      pool.inFlight + pool.outQueue + delivered)
    (stepped : pool.step event = some next) :
    (next.taken : Multiset Arrival) =
      next.inFlight + next.outQueue +
        (delivered + (pool.delivery event).toList) := by
  cases event with
  | submit packet =>
      obtain rfl := Option.some.inj stepped
      simpa [inFlight, delivery] using conserved
  | take worker now =>
      simp only [step] at stepped
      split at stepped
      next packet rest raw idle =>
        obtain rfl := Option.some.inj stepped
        have balance := Channels.sum_update
          (fun content : Option Arrival => (content.toList : Multiset Arrival))
          pool.busy worker (some ⟨now, packet⟩)
        simp only [idle, Option.toList_none, Option.toList_some,
          Multiset.coe_nil, add_zero] at balance
        simp only [inFlight, delivery, ← Multiset.coe_add, conserved, balance,
          Option.toList_none, Multiset.coe_nil, add_zero]
        abel
      next => simp at stepped
  | emit worker =>
      simp only [step] at stepped
      split at stepped
      next arrival processing =>
        obtain rfl := Option.some.inj stepped
        have balance := Channels.sum_update
          (fun content : Option Arrival => (content.toList : Multiset Arrival))
          pool.busy worker none
        simp only [processing, Option.toList_none, Option.toList_some,
          Multiset.coe_nil, add_zero] at balance
        simp only [inFlight, delivery, ← Multiset.coe_add, conserved,
          ← balance, Option.toList_none, Multiset.coe_nil, add_zero]
        abel
      next => simp at stepped
  | deliver =>
      simp only [step] at stepped
      split at stepped
      next arrival rest queue =>
        obtain rfl := Option.some.inj stepped
        simp only [inFlight, delivery, conserved, queue, List.head?_cons,
          Option.toList_some, ← Multiset.cons_coe, Multiset.coe_nil]
        rw [← Multiset.singleton_add, ← Multiset.singleton_add]
        abel
      next => simp at stepped

/-- A drained pipeline: no packet waits in it or is being processed. -/
def Drained (pool : WorkerPool workers) : Prop :=
  pool.rawQueue = [] ∧ (∀ worker, pool.busy worker = none) ∧ pool.outQueue = []

instance (pool : WorkerPool workers) : Decidable pool.Drained :=
  inferInstanceAs (Decidable (_ ∧ _ ∧ _))

/-- Once drained, everything taken was delivered. -/
theorem delivered_of_drained
    {pool : WorkerPool workers}
    {delivered : List Arrival}
    (drained : pool.Drained)
    (conserved : (pool.taken : Multiset Arrival) =
      pool.inFlight + pool.outQueue + delivered) :
    delivered.Perm pool.taken := by
  obtain ⟨_, idle, empty⟩ := drained
  have none : pool.inFlight = 0 :=
    Finset.sum_eq_zero fun worker _ => by rw [idle worker]; rfl
  rw [none, empty, Multiset.coe_nil, add_zero, zero_add] at conserved
  exact (Multiset.coe_eq_coe.mp conserved).symm

/-- The packet a submission adds. -/
def Event.submitted : Event workers → List PacketBuffer
  | .submit packet => [packet]
  | _ => []

/-- Packets leave the raw queue in the order of their submission. -/
theorem step_submitted
    {pool next : WorkerPool workers}
    {event : Event workers}
    {submitted : List PacketBuffer}
    (accounted : pool.taken.map Arrival.packet ++ pool.rawQueue = submitted)
    (stepped : pool.step event = some next) :
    next.taken.map Arrival.packet ++ next.rawQueue =
      submitted ++ event.submitted := by
  cases event with
  | submit packet =>
      obtain rfl := Option.some.inj stepped
      simp [Event.submitted, ← accounted]
  | take worker now =>
      simp only [step] at stepped
      split at stepped
      next packet rest raw idle =>
        obtain rfl := Option.some.inj stepped
        simp [Event.submitted, ← accounted, raw]
      next => simp at stepped
  | emit worker =>
      simp only [step] at stepped
      split at stepped
      next =>
        obtain rfl := Option.some.inj stepped
        simpa [Event.submitted] using accounted
      next => simp at stepped
  | deliver =>
      simp only [step] at stepped
      split at stepped
      next =>
        obtain rfl := Option.some.inj stepped
        simpa [Event.submitted] using accounted
      next => simp at stepped

end WorkerPool
end Pipeline
end Chronolog
