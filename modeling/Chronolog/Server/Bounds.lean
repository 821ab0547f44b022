import Chronolog.Ingestion.Message
import Chronolog.Server.ShutdownWait

/-!
# What the engine holds at most

A packet is as large as a buffer at most, which bounds the number of its tokens.
So the queues of the process and its pending batch are bounded, however fast
packets arrive and however long the run: only the memory index and the lines of
open requests grow.
-/

namespace Chronolog
namespace Pipeline

open Utf8

/-- Fields lie apart: each takes up its bytes and a separator, but for the last. -/
theorem sum_length_fieldsLoop_le
    (separator : Char → Bool)
    (list : List Rune)
    (nonempty : ∀ rune ∈ list, rune.bytes ≠ [])
    (span : Option Bytes) :
    ((fieldsLoop separator list span).map fun field => field.length + 1).sum ≤
      (list.flatMap Rune.bytes).length + (span.getD []).length + 1 := by
  induction list generalizing span with
  | nil => cases span <;> simp [fieldsLoop]
  | cons rune rest inductionHypothesis =>
      have positive : 0 < rune.bytes.length :=
        List.length_pos_iff.mpr (nonempty rune List.mem_cons_self)
      have later := inductionHypothesis fun other member =>
        nonempty other (List.mem_cons_of_mem rune member)
      rw [List.flatMap_cons, List.length_append]
      cases span with
      | none =>
          rw [fieldsLoop]
          split
          · have bound := later none
            simp only [Option.getD_none, List.length_nil] at bound ⊢
            omega
          · have bound := later (some rune.bytes)
            simp only [Option.getD_some, Option.getD_none, List.length_nil] at bound ⊢
            omega
      | some span =>
          rw [fieldsLoop]
          split
          · have bound := later none
            simp only [Option.getD_some, Option.getD_none, List.length_nil, List.map_cons,
              List.sum_cons] at bound ⊢
            omega
          · have bound := later (some (span ++ rune.bytes))
            simp only [Option.getD_some, List.length_append] at bound ⊢
            omega

/-- Every word that is kept has two bytes and lies apart from the next. -/
theorem length_tokenize_le (unicode : UnicodeTables) (payload : Bytes) :
    3 * (tokenize unicode payload).length ≤ payload.length + 1 := by
  have fields := sum_length_fieldsLoop_le (isSeparator unicode) (runes payload)
    (fun _ member => bytes_ne_nil_of_mem_runes member) none
  rw [flatMap_bytes_runes, Option.getD_none, List.length_nil, Nat.add_zero] at fields
  have counted : ∀ words : List Bytes, 3 * (terms unicode words).length ≤
      (words.map fun word => word.length + 1).sum := by
    intro words
    induction words with
    | nil => exact Nat.le_refl 0
    | cons word words inductionHypothesis =>
        rw [terms] at inductionHypothesis ⊢
        rw [List.map_cons, List.sum_cons, List.filter_cons]
        split
        next kept =>
          simp only [List.map_cons, List.length_cons]
          simp at kept
          omega
        next => omega
  have kept : tokenize unicode payload ⊆
      terms unicode (fieldsFunc payload (isSeparator unicode)) := by
    intro token member
    rwa [tokenize_eq_eraseDups, List.mem_eraseDups] at member
  have fewer := (List.subperm_of_subset (nodup_tokenize payload) kept).length_le
  exact (Nat.mul_le_mul_left 3 fewer).trans ((counted _).trans fields)

end Pipeline

namespace Server

open Ingestion Pipeline Search Storage Channels

/-- The most puts an item consists of: its record and its terms. -/
def maxPuts : Nat := 1 + (bufferSize + 1) / 3

/-- A packet that fills no more than a buffer. -/
def Small (packet : PacketBuffer) : Prop := packet.filled.length ≤ bufferSize

theorem length_termKeys_le
    (unicode : UnicodeTables)
    {arrival : Arrival}
    (small : Small arrival.packet) :
    1 + (arrival.item unicode).termKeys.length ≤ maxPuts := by
  rw [Arrival.item_termKeys, List.length_map]
  have tokens := length_tokenize_le unicode arrival.message
  obtain ⟨dropped, split, _⟩ := message_cut arrival.now arrival.packet.filled
  have length := congrArg List.length split
  rw [List.length_append] at length
  have message : arrival.message.length ≤ bufferSize := by
    rw [Small] at small
    change (parseSyslogRFC3164 arrival.now arrival.packet.filled).message.length ≤ bufferSize
    omega
  have three : 3 * (arrival.tokens unicode).length ≤ bufferSize + 1 := by
    rw [Arrival.tokens]
    omega
  rw [maxPuts]
  omega

theorem small_fillBuffer
    {buf : Bytes}
    (sized : buf.length = bufferSize)
    (bytes : Bytes) : Small (fillBuffer buf bytes) := by
  rw [Small, filled_fillBuffer, List.length_take, sized]
  exact Nat.min_le_left _ _

/-! ## The pending batch -/

/-- The batch between two items is below the flush size, and the item in hand
adds its own puts to it. -/
def BatchBounded (engine : Engine) : Prop :=
  match engine.point with
  | .select => engine.batchSize < maxBatchSize
  | .registering remaining =>
      engine.batchSize + remaining.length < maxBatchSize + maxPuts
  | .stopped => engine.batchSize = 0

variable {unicode : UnicodeTables}

theorem BatchBounded.step
    {engine next : Engine}
    {event : LoopEvent}
    (bounded : BatchBounded engine)
    (small : ∀ arrival, event = .receive arrival → Small arrival.packet)
    (stepped : engine.step unicode event = some next) : BatchBounded next := by
  cases event with
  | receive arrival =>
      obtain ⟨point, rfl⟩ := Engine.step_receive stepped
      have item := length_termKeys_le unicode (small arrival rfl)
      rw [BatchBounded, point] at bounded
      simp only [BatchBounded] at bounded ⊢
      omega
  | register =>
      obtain ⟨idxKey, remaining, point, rfl⟩ := Engine.step_register stepped
      rw [BatchBounded, point] at bounded
      simp only [BatchBounded, List.length_cons] at bounded ⊢
      omega
  | endItem written =>
      obtain ⟨_, rfl⟩ := Engine.step_endItem stepped
      rw [BatchBounded]
      dsimp only
      split
      · rw [Engine.flush_batchSize]
        decide
      · omega
  | tick written =>
      obtain ⟨point, rfl⟩ := Engine.step_tick stepped
      rw [BatchBounded, Engine.flush_point, point]
      dsimp only
      rw [Engine.flush_batchSize]
      decide
  | signal written =>
      obtain ⟨_, rfl⟩ := Engine.step_signal stepped
      exact Engine.flush_batchSize engine written
  | restart =>
      obtain rfl := Option.some.inj stepped
      exact (by decide : 0 < maxBatchSize)

theorem BatchBounded.batchSize_lt
    {engine : Engine}
    (bounded : BatchBounded engine) : engine.batchSize < maxBatchSize + maxPuts := by
  rw [BatchBounded] at bounded
  have positive : 0 < maxBatchSize := by decide
  split at bounded <;> omega

/-! ## The process -/

namespace Process

variable {workers : Nat}

/-- Every packet in the process fills no more than a buffer, and neither the
listeners' channels nor the batch outgrow their bounds. -/
structure Sized (process : Process workers) : Prop where
  reader : ∀ line, process.reader = some line → Small line.packet
  handlers : ∀ lines ∈ process.handlers, ∀ line ∈ lines, Small line.packet
  queues : ∀ ingress, ∀ line ∈ (process.channel ingress).queue, Small line.packet
  forwarders : ∀ ingress line, process.forwarder ingress = some line → Small line.packet
  submitted : ∀ job ∈ process.pipe.submitted, Small job.content.packet
  channels : ∀ ingress, (process.channel ingress).Fits (ingressSize ingress)
  batch : BatchBounded process.engine

variable {base : DB} {process next : Process workers}

/-- The lines of a request are copied into buffers. -/
theorem small_of_mem_requestLines
    {request : Nat}
    {isPost : Bool}
    {body : Bytes}
    {readError : Option ScanError}
    {line : Line}
    (member : line ∈ requestLines request isPost body readError) : Small line.packet := by
  obtain ⟨index, inside, rfl⟩ := List.mem_mapIdx.mp member
  have copied : ∀ packet ∈ (handleIngest isPost body readError).1, Small packet := by
    intro packet sent
    unfold handleIngest at sent
    split at sent
    next => exact absurd sent List.not_mem_nil
    next =>
      obtain ⟨bytes, _, rfl⟩ := List.mem_map.mp sent
      exact small_fillBuffer length_freshBuffer bytes
  exact copied _ (List.getElem_mem inside)

/-- A line that fits a buffer is put into a channel that has room. -/
theorem Sized.enqueue
    {ingress : Ingress}
    {line : Line}
    (sized : process.Sized)
    (small : Small line.packet)
    (room : (process.channel ingress).hasRoom = true) :
    Sized { process with
      channel := Function.update process.channel ingress
        ((process.channel ingress).push line) } := by
  refine { sized with
    queues := ?_
    channels := fits_update_push sized.channels room }
  refine (Function.forall_update_iff process.channel fun _ channel =>
    ∀ held ∈ channel.queue, Small held.packet).mpr ⟨?_, fun other _ => sized.queues other⟩
  intro held member
  rw [Channel.push_queue, List.mem_append, List.mem_singleton] at member
  rcases member with before | rfl
  · exact sized.queues ingress held before
  · exact small

/-- A forwarder takes the first line of its channel. -/
theorem Sized.forward
    {ingress : Ingress}
    {line : Line}
    {channel : Channel Line}
    (sized : process.Sized)
    (popped : (process.channel ingress).pop = some (line, channel)) :
    Sized { process with
      channel := Function.update process.channel ingress channel
      forwarder := Function.update process.forwarder ingress (some line) } := by
  obtain ⟨queue, _⟩ := Channel.pop_eq_some.mp popped
  have waiting := sized.queues ingress
  rw [queue] at waiting
  refine { sized with queues := ?_, forwarders := ?_, channels := ?_ }
  · exact (Function.forall_update_iff process.channel fun _ channel =>
      ∀ held ∈ channel.queue, Small held.packet).mpr
        ⟨fun held member => waiting held (List.mem_cons_of_mem line member),
          fun other _ => sized.queues other⟩
  · refine (Function.forall_update_iff process.forwarder fun _ forwarder =>
      ∀ taken, forwarder = some taken → Small taken.packet).mpr
        ⟨?_, fun other _ => sized.forwarders other⟩
    intro taken same
    obtain rfl := Option.some.inj same
    exact waiting line List.mem_cons_self
  · exact (Function.forall_update_iff process.channel fun other channel =>
      channel.Fits (ingressSize other)).mpr
        ⟨(sized.channels ingress).pop popped, fun other _ => sized.channels other⟩

/-- What waits on the output queue was submitted. -/
theorem mem_submitted_of_output
    {farm : Farm workers Line Int64}
    {done : Stamped Line Int64}
    (accounted : farm.Accounted)
    (waiting : done ∈ farm.output.queue) : done.job ∈ farm.submitted := by
  have stamped : done ∈ farm.stamped := by
    rw [← Multiset.mem_coe, accounted.emitted, Multiset.mem_add, Multiset.mem_add]
    exact Or.inl (Or.inr (Multiset.mem_coe.mpr waiting))
  rw [accounted.queued, List.mem_append, accounted.mem_taken]
  exact Or.inl (Or.inr ⟨done, stamped, rfl⟩)

/-- A farm that took no new job holds the packets it held. -/
theorem Sized.pipe
    {pipe : Farm workers Line Int64}
    (sized : process.Sized)
    (same : pipe.submitted = process.pipe.submitted) : Sized { process with pipe := pipe } := by
  refine { sized with submitted := ?_ }
  change ∀ job ∈ pipe.submitted, Small job.content.packet
  rw [same]
  exact sized.submitted

/-- A forwarder gives its line to the farm, which takes it or is closed. -/
theorem Sized.submit
    {ingress : Ingress}
    {line : Line}
    {pipe : Farm workers Line Int64}
    (sized : process.Sized)
    (held : process.forwarder ingress = some line)
    (moved : process.pipe.step (.submit line) = some pipe) :
    Sized { process with
      pipe := pipe
      forwarder := Function.update process.forwarder ingress none } := by
  refine { sized with forwarders := ?_, submitted := ?_ }
  · exact (Function.forall_update_iff process.forwarder fun _ forwarder =>
      ∀ taken, forwarder = some taken → Small taken.packet).mpr
        ⟨fun taken none => absurd none.symm (Option.some_ne_none taken),
          fun other _ => sized.forwarders other⟩
  · intro job member
    rcases Farm.step_submit moved with ⟨_, rfl⟩ | ⟨_, _, rfl⟩
    · exact sized.submitted job member
    · rcases List.mem_append.mp member with before | added
      · exact sized.submitted job before
      · rw [List.mem_singleton] at added
        rw [added]
        exact sized.forwarders ingress line held

/-- The main loop takes a step, and the item it receives fits a buffer. -/
theorem Sized.engine
    {event : LoopEvent}
    {engine : Engine}
    (sized : process.Sized)
    (small : ∀ arrival, event = .receive arrival → Small arrival.packet)
    (stepped : process.engine.step unicode event = some engine) :
    Sized { process with engine := engine } :=
  { sized with batch := sized.batch.step small stepped }

/-- A step keeps every packet and every queue within its bound. -/
theorem Sized.step
    {event : ProcessEvent workers}
    (sized : process.Sized)
    (accounted : process.pipe.Accounted)
    (stepped : process.step unicode event = some next) : next.Sized := by
  obtain ⟨_, advanced⟩ := step_eq_some.mp stepped
  cases event with
  | readDatagram buf bytes =>
      obtain ⟨ready, same⟩ := Option.ite_none_right_eq_some.mp advanced
      obtain rfl := Option.some.inj same
      refine { sized with reader := fun line read => ?_ }
      obtain rfl := Option.some.inj read
      exact small_fillBuffer ready.2.2 bytes
  | sendDatagram =>
      rw [advance] at advanced
      split at advanced
      next line reader =>
        obtain ⟨sent, isSent, rfl⟩ := Option.map_eq_some_iff.mp advanced
        obtain ⟨room, rfl⟩ := send_eq_some.mp isSent
        exact { sized.enqueue (sized.reader line reader) room with
          reader := fun _ none => absurd none.symm (Option.some_ne_none _) }
      next => exact absurd advanced.symm (Option.some_ne_none next)
  | request isPost body readError =>
      obtain rfl := advance_request advanced
      refine { sized with handlers := fun lines member => ?_ }
      rw [List.mem_append, List.mem_singleton] at member
      rcases member with before | rfl
      · exact sized.handlers lines before
      · exact fun line => small_of_mem_requestLines
  | sendLine request =>
      rw [advance] at advanced
      split at advanced
      next line remaining handler =>
        obtain ⟨sent, isSent, rfl⟩ := Option.map_eq_some_iff.mp advanced
        obtain ⟨room, rfl⟩ := send_eq_some.mp isSent
        have lines := sized.handlers _ (List.mem_of_getElem? handler)
        refine { sized.enqueue (lines line List.mem_cons_self) room with
          handlers := fun others member => ?_ }
        rcases List.mem_or_eq_of_mem_set member with before | rfl
        · exact sized.handlers others before
        · exact fun other later => lines other (List.mem_cons_of_mem line later)
      next => exact absurd advanced.symm (Option.some_ne_none next)
  | forward ingress =>
      obtain ⟨line, channel, _, popped, rfl⟩ := advance_forward advanced
      exact sized.forward popped
  | submit ingress =>
      obtain ⟨line, pipe, held, moved, rfl⟩ := advance_submit advanced
      exact sized.submit held moved
  | worker event =>
      obtain ⟨pipe, moved, rfl⟩ := advance_worker advanced
      exact sized.pipe (Farm.submitted_eq_step moved event.submits_farm)
  | receive =>
      obtain ⟨done, rest, pipe, engine, queue, moved, engineStepped, rfl⟩ :=
        advance_receive advanced
      have small : Small done.job.content.packet :=
        sized.submitted _ (mem_submitted_of_output accounted (queue ▸ List.mem_cons_self))
      refine (sized.pipe (Farm.submitted_eq_step moved rfl)).engine ?_ engineStepped
      intro _ same
      obtain rfl := LoopEvent.receive.inj same
      exact small
  | loop event =>
      obtain ⟨_, quiet, engine, engineStepped, rfl⟩ := advance_loop advanced
      refine sized.engine ?_ engineStepped
      rintro arrival rfl
      exact absurd quiet (List.cons_ne_nil _ _)
  | signal written =>
      obtain ⟨engine, engineStepped, rfl⟩ := advance_signal advanced
      exact { sized.engine (fun _ same => by simp at same) engineStepped with }
  | close =>
      obtain ⟨_, _, _, ⟨_, _, _, moved, rfl⟩ | ⟨_, _, moved, rfl⟩ | ⟨_, rfl⟩⟩ :=
        advance_close advanced
      · exact { sized.pipe (Farm.submitted_eq_step moved rfl) with }
      · exact { sized.pipe (Farm.submitted_eq_step moved rfl) with }
      · exact { sized with }

/-- In every run, and at every moment of it, the channels and queues hold no
more than their sizes, and the pending batch stays below the flush size and the
puts of one item. -/
theorem queues_and_batch_bounded
    (unicode : UnicodeTables)
    (workers : Nat)
    (base : DB)
    (events : List (ProcessEvent workers))
    (process : Process workers)
    (reached : Transition.run (Process.step unicode) (start workers base) events =
      some process) :
    (process.channel .udp).queue.length ≤ 20000 ∧
      (process.channel .http).queue.length ≤ 10000 ∧
      process.pipe.input.queue.length ≤ 20000 ∧
      process.pipe.output.queue.length ≤ 20000 ∧
      process.engine.batch.length < 2500 + 684 := by
  have sized : process.Sized := by
    refine Transition.run_history (fun _ process => process.Sized) ?_ ?_ reached
    · exact {
        reader := fun _ none => absurd none.symm (Option.some_ne_none _)
        handlers := fun _ member => absurd member List.not_mem_nil
        queues := fun _ _ member => absurd member List.not_mem_nil
        forwarders := fun _ _ none => absurd none.symm (Option.some_ne_none _)
        submitted := fun _ member => absurd member List.not_mem_nil
        channels := fun ingress => .make Line (ingressSize ingress)
        batch := (by decide : 0 < maxBatchSize) }
    · intro history moment event next current sized stepped
      exact sized.step (accounted_of_run current) stepped
  have fits := fits_of_run reached
  obtain ⟨loops, traced⟩ := exists_traced reached
  refine ⟨(sized.channels .udp).length_le, (sized.channels .http).length_le,
    fits.input.length_le, fits.output.length_le, ?_⟩
  rw [← (represents_ofEvents traced.reached).size]
  exact sized.batch.batchSize_lt

theorem queues_and_batch_bounded_waitingDatagram :
    ∃ process : Process 1, Transition.run (step asciiTables) (start 1 ∅) waitingDatagram =
        some process ∧
      (process.channel .udp).queue.length = 1 ∧
      (process.channel .udp).queue.length ≤ 20000 := by
  obtain ⟨process, reached, waiting⟩ := (Option.any_eq_true _ _).mp
    (by decide +kernel : (Transition.run (step asciiTables) (start 1 ∅)
      waitingDatagram).any (fun process => decide
        ((process.channel .udp).queue.length = 1)) = true)
  exact ⟨process, reached, of_decide_eq_true waiting,
    (queues_and_batch_bounded asciiTables 1 ∅ waitingDatagram process reached).1⟩

end Process
end Server
end Chronolog
