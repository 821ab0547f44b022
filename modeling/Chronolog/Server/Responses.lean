import Chronolog.Ingestion.Listeners
import Chronolog.Ingestion.Message
import Chronolog.Server.Retrieval

/-!
# Responses

The RPCs of the engine put the stored bytes of every result into a protobuf
string, which must be valid UTF-8.  The bytes were cut to the size of a packet
buffer and then by the parser.  The parser never splits a character, so a
response can be encoded exactly when no ill-formed byte of a packet lies behind
the header the parser drops.
-/

namespace Chronolog
namespace Server

open Ingestion Pipeline Search Storage Utf8

/-- The protobuf message of one entry. -/
structure LogEntry where
  timestampNano : Int64
  message : Bytes
  deriving DecidableEq

/-- The protobuf message of a whole answer. -/
structure QueryResponse where
  logs : List LogEntry
  totalFound : Nat
  error : Option ReadError

/-- The entry of one result; the timestamp is not filled in. -/
def entryOf (raw : Bytes) : LogEntry where
  timestampNano := 0
  message := raw

namespace Engine

/-- `Query` -/
def query (engine : Engine) (request : SearchRequest) : QueryResponse :=
  let answer := engine.search request
  match answer.err with
  | some err => { logs := [], totalFound := 0, error := some err }
  | none =>
      let entries := answer.results.map fun result => entryOf result.2
      { logs := entries, totalFound := entries.length, error := none }

/-- `StreamQuery`: the entries sent one by one. -/
def streamQuery (engine : Engine) (request : SearchRequest) :
    Except ReadError (List LogEntry) :=
  let answer := engine.search request
  match answer.err with
  | some err => .error err
  | none => .ok (answer.results.map fun result => entryOf result.2)

/-- Whether protobuf can marshal what either RPC returns for a request. -/
structure Encodable (engine : Engine) (request : SearchRequest) : Prop where
  unary : ∀ entry ∈ (engine.query request).logs, Valid entry.message
  streamed : ∀ entries, engine.streamQuery request = .ok entries →
    ∀ entry ∈ entries, Valid entry.message

end Engine

/-- Number of bytes the parser drops before the message. -/
def headerLength (arrival : Arrival) : Nat :=
  arrival.packet.filled.length - arrival.message.length

/-- Whether every ill-formed byte of a packet is dropped with the header. -/
def IllFormedInHeader (arrival : Arrival) : Prop :=
  ∀ offset ∈ illFormed arrival.packet.filled, offset < headerLength arrival

instance (arrival : Arrival) : Decidable (IllFormedInHeader arrival) :=
  inferInstanceAs (Decidable (∀ offset ∈ illFormed arrival.packet.filled, _))

/-- The arrival of a line copied into a fresh buffer. -/
def lineArrival (now : Int64) (line : Bytes) : Arrival where
  now := now
  packet := fillBuffer freshBuffer line

theorem valid_message_iff (arrival : Arrival) :
    Valid arrival.message ↔ IllFormedInHeader arrival := by
  obtain ⟨dropped, split, ascii⟩ := message_cut arrival.now arrival.packet.filled
  change arrival.packet.filled = dropped ++ arrival.message at split
  have length : headerLength arrival = dropped.length := by
    rw [headerLength, split, List.length_append, Nat.add_sub_cancel]
  rw [IllFormedInHeader, length, split]
  exact valid_iff_illFormed_dropped ascii

/-- A valid line of any length is stored as a valid message exactly when the
buffer does not split one of its characters. -/
theorem valid_message_of_line_iff
    (now : Int64)
    {line : Bytes}
    (valid : Valid line) :
    Valid (lineArrival now line).message ↔
      line.length ≤ bufferSize ∨ Boundary line bufferSize := by
  obtain ⟨dropped, split, ascii⟩ := message_cut now (lineArrival now line).packet.filled
  change _ = dropped ++ (lineArrival now line).message at split
  have filled : (lineArrival now line).packet.filled = line.take bufferSize := by
    rw [← length_freshBuffer]
    exact filled_fillBuffer _ _
  rw [filled] at split
  have whole : line = dropped ++
      ((lineArrival now line).message ++ line.drop bufferSize) := by
    rw [← List.append_assoc, ← split, List.take_append_drop]
  have validDropped : Valid dropped := by
    rw [whole] at valid
    exact ((valid_cutBehindAscii ascii).mp valid).1
  rw [← valid_take_iff_boundary valid, split, valid_cutBehindAscii ascii]
  exact (and_iff_right validDropped).symm

variable {unicode : UnicodeTables}

/-- The results are messages of received items. -/
theorem exists_item_of_result
    {events : List LoopEvent}
    {engine : Engine}
    {request : SearchRequest}
    {id : LogRecordID}
    {data : Bytes}
    (reached : Engine.Reaches unicode events engine)
    (result : (id, data) ∈ (engine.search request).results) :
    ∃ arrival ∈ received events, recordID arrival = id ∧ data = arrival.message := by
  have record := (candidate_of_mem_search result).2
  rw [(represents_ofEvents reached).db] at record
  obtain ⟨arrival, stored, same, data⟩ := exists_item_of_record record
  refine ⟨arrival, ?_, same, data⟩
  rw [← Ledger.received_ofEvents unicode]
  exact (Ledger.ofEvents unicode events).stored_subset stored

/-- Both RPCs return the bytes of the results. -/
theorem encodable_iff_results
    {engine : Engine}
    {request : SearchRequest} :
    engine.Encodable request ↔
      ∀ result ∈ (engine.search request).results, Valid result.2 := by
  have err : (engine.search request).err = none := searchTerm_err_ofDB _ _ _
  have unary : (engine.query request).logs =
      (engine.search request).results.map fun result => entryOf result.2 := by
    rw [Engine.query]
    simp only [err]
  have streamed : engine.streamQuery request =
      .ok ((engine.search request).results.map fun result => entryOf result.2) := by
    rw [Engine.streamQuery]
    simp only [err]
  constructor
  · intro encodable result member
    refine encodable.unary (entryOf result.2) ?_
    rw [unary]
    exact List.mem_map_of_mem member
  · intro valid
    have entries : ∀ entry ∈ (engine.search request).results.map
        fun result => entryOf result.2, Valid entry.message := by
      intro entry member
      obtain ⟨result, present, rfl⟩ := List.mem_map.mp member
      exact valid result present
    refine ⟨by rwa [unary], fun sent same => ?_⟩
    rw [streamed, Except.ok.injEq] at same
    exact same ▸ entries

/-- In every reachable state a response can be encoded exactly when every
packet whose record it includes has its ill-formed bytes in the header; and a
valid line of any length becomes a valid message exactly when it fits its
buffer or the buffer ends between two of its characters. -/
theorem encodable_iff_illFormedInHeader
    (unicode : UnicodeTables)
    (events : List LoopEvent)
    (engine : Engine)
    (reached : Engine.Reaches unicode events engine) :
    (∀ request, engine.Encodable request ↔
      ∀ arrival ∈ received events,
        (recordID arrival, arrival.message) ∈ (engine.search request).results →
          IllFormedInHeader arrival) ∧
    ∀ now line, Valid line →
      (Valid (lineArrival now line).message ↔
        line.length ≤ bufferSize ∨ Boundary line bufferSize) := by
  refine ⟨fun request => ?_, fun now line valid => valid_message_of_line_iff now valid⟩
  rw [encodable_iff_results]
  constructor
  · intro valid arrival _ result
    exact (valid_message_iff arrival).mp (valid _ result)
  · intro harmless result member
    obtain ⟨arrival, present, same, data⟩ := exists_item_of_result reached member
    rw [data]
    refine (valid_message_iff arrival).mpr (harmless arrival present ?_)
    rwa [same, ← data]

theorem encodable_iff_illFormedInHeader_hello :
    ∃ engine, Engine.Reaches asciiTables (iteration helloItem ++ [.tick true]) engine ∧
      ((∀ request, engine.Encodable request ↔
        ∀ arrival ∈ received (iteration helloItem ++ [.tick true]),
          (recordID arrival, arrival.message) ∈ (engine.search request).results →
            IllFormedInHeader arrival) ∧
      ∀ now line, Valid line →
        (Valid (lineArrival now line).message ↔
          line.length ≤ bufferSize ∨ Boundary line bufferSize)) := by
  obtain ⟨engine, reached⟩ := Option.isSome_iff_exists.mp
    (by decide +kernel : (Transition.run (Engine.step asciiTables)
      (Engine.start ∅) (iteration helloItem ++ [.tick true])).isSome = true)
  exact ⟨engine, reached, encodable_iff_illFormedInHeader asciiTables _ engine reached⟩

/-- A datagram with a byte that is no character behind the host name. -/
def brokenItem : Arrival where
  now := 7
  packet := fillBuffer freshBuffer ("<34>host hello ".toUTF8.toList ++ [0xFF])

/-- A search that finds the broken item cannot be answered. -/
theorem broken_response_not_encodable :
    ¬ ∀ events engine, Engine.Reaches asciiTables events engine →
      ∀ request, engine.Encodable request := by
  intro claim
  obtain ⟨engine, reached, facts⟩ := (Option.any_eq_true _ _).mp
    (by decide +kernel : (Transition.run (Engine.step asciiTables)
      (Engine.start ∅) (iteration brokenItem ++ [.tick true])).any (fun engine =>
        decide (∃ result ∈ (engine.search (searchFor "hello")).results,
          ¬ Valid result.2)) = true)
  obtain ⟨result, member, invalid⟩ := of_decide_eq_true facts
  exact invalid (encodable_iff_results.mp
    (claim _ engine reached (searchFor "hello")) result member)

end Server
end Chronolog
