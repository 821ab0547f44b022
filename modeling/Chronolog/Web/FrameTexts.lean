import Chronolog.Foundation.Json
import Chronolog.Web.Numerals
import Chronolog.Web.SystemSteps

/-!
# Frames on the wire

A frame of the live tail is sent as the JSON text of an object, and the message
handler of the page parses it again.  The system of the searches and live frames
puts packets on their way; here they are read out of the texts: in every run the
page has handled what the first frames say, in their order, and what is on its
way is what the others say.
-/

namespace Chronolog
namespace Web

open Binary64 (Double)
open Decimal LiveTail Pipeline Search Server Storage Utf8

/-! ## The bridge -/

/-- The object of an entry of a frame. -/
def entryValue (entry : LiveTail.LogEntry) (receivedAt : Bytes) : Json.Value :=
  .object
    [("timestamp_nano".toList, .text (text entry.timestampNano)),
      ("message".toList, .text (text entry.message)),
      ("received_at".toList, .text (text receivedAt))]

/-- The object of a frame. -/
def frameValue : Frame → Json.Value
  | .status state =>
      .object [("type".toList, .text "status".toList), ("state".toList, .text state.toList)]
  | .error message =>
      .object [("type".toList, .text "error".toList), ("error".toList, .text (text message))]
  | .log entry receivedAt =>
      .object [("type".toList, .text "log".toList), ("log".toList, entryValue entry receivedAt)]

/-- `ws.send(JSON.stringify(frame))` -/
def frameText (frame : Frame) : Bytes := (frameValue frame).print.flatMap encode

/-! ## The text of an entry -/

theorem not_isAscii_of_mem_encode
    {char : Char}
    {byte : UInt8}
    (large : 128 ≤ char.toNat)
    (member : byte ∈ encode char) : ¬ IsAscii byte := by
  cases encoded : encode char with
  | nil => exact absurd encoded (encode_ne_nil char)
  | cons head tail =>
      rw [encoded] at member
      rcases List.mem_cons.mp member with rfl | later
      · intro ascii
        obtain ⟨single, alone⟩ := exists_encode_of_isAscii ascii
        have same : decode (encode char) = decode (encode single ++ tail) := by
          rw [encoded, alone]
          rfl
        have whole := decode_encode_append char []
        rw [List.append_nil] at whole
        rw [whole, decode_encode_append] at same
        obtain rfl : char = single := congrArg Prod.fst same
        have size := length_encode char
        rw [alone, List.length_singleton] at size
        have bound : char.toNat ≤ 127 := Char.utf8Size_eq_one_iff.mp size.symm
        omega
      · have inTail : byte ∈ (encode char).tail := by
          rw [encoded]
          exact later
        exact not_isAscii_of_mem_tail inTail

/-- A character is escaped like its bytes. -/
theorem flatMap_encode_escapeChar (char : Char) :
    (Json.escapeChar char).flatMap encode = (encode char).flatMap JsonText.escapeByte := by
  have table : ∀ code < 128,
      (Json.escapeChar (Char.ofNat code)).flatMap encode =
        (encode (Char.ofNat code)).flatMap JsonText.escapeByte := by
    decide +kernel
  by_cases small : char.toNat < 128
  · rw [← Char.ofNat_toNat char]
    exact table char.toNat small
  · have notListed : (Json.shortEscapes.find? fun escape => escape.2 = char) = none := by
      rw [List.find?_eq_none]
      intro escape member same
      have listed : ∀ escape ∈ Json.shortEscapes, escape.2.toNat < 128 := by decide
      exact small (of_decide_eq_true same ▸ listed escape member)
    have noControl : ¬ char < ' ' := fun control =>
      small (Nat.lt_trans (show char.toNat < 32 from control) (by decide))
    have plain : ∀ byte ∈ encode char, JsonText.escapeByte byte = [byte] := by
      intro byte member
      apply JsonText.escapeByte_of_notMem
      intro escaped
      have listed : ∀ byte ∈ JsonText.escaped, IsAscii byte := by decide +kernel
      exact not_isAscii_of_mem_encode (Nat.le_of_not_lt small) member (listed byte escaped)
    rw [Json.escapeChar, notListed]
    dsimp only
    rw [if_neg noControl, List.flatMap_singleton, List.flatMap_congr plain,
      List.flatMap_singleton']

/-- The literal of a text, in bytes. -/
theorem quote_flatMap_encode (chars : Text) :
    JsonText.quote (chars.flatMap encode) = (Json.quote chars).flatMap encode := by
  have escapes : (chars.flatMap encode).flatMap JsonText.escapeByte =
      (chars.flatMap Json.escapeChar).flatMap encode := by
    rw [List.flatMap_assoc, List.flatMap_assoc]
    apply List.flatMap_congr
    intro char _
    exact (flatMap_encode_escapeChar char).symm
  have mark : encode '"' = [0x22] := by decide
  rw [JsonText.quote, Json.quote, List.flatMap_cons, List.flatMap_append,
    List.flatMap_singleton, mark, escapes]
  rfl

/-- The text whose digest is the key of an entry is the JSON text of its object. -/
theorem stringify_eq_print
    {entry : LiveTail.LogEntry}
    (timestamp : Valid entry.timestampNano)
    (message : Valid entry.message) :
    stringify entry =
      (Json.Value.object
        [("timestamp_nano".toList, .text (text entry.timestampNano)),
          ("message".toList, .text (text entry.message))]).print.flatMap encode := by
  have shape : ∀ first second : Text,
      (Json.Value.object [("timestamp_nano".toList, .text first),
        ("message".toList, .text second)]).print =
      "\x7b\"timestamp_nano\":".toList ++ (Json.quote first ++
        (",\"message\":".toList ++ (Json.quote second ++ "\x7d".toList))) :=
    fun _ _ => rfl
  have ascii : "\x7b\"timestamp_nano\":".toList.flatMap encode =
        "\x7b\"timestamp_nano\":".toUTF8.toList ∧
      ",\"message\":".toList.flatMap encode = ",\"message\":".toUTF8.toList ∧
      "\x7d".toList.flatMap encode = "\x7d".toUTF8.toList := by
    decide +kernel
  rw [shape, List.flatMap_append, List.flatMap_append, List.flatMap_append,
    List.flatMap_append, ← quote_flatMap_encode, ← quote_flatMap_encode,
    encode_text timestamp, encode_text message, ascii.1, ascii.2.1, ascii.2.2]
  rfl

/-! ## The page -/

/-- A member that is a text. -/
def givenText (value : Json.Value) (name : String) : Option Text :=
  match value.member? name.toList with
  | some (.text chars) => some chars
  | _ => none

/-- A member that is a text or absent, which is the empty text. -/
def optionalText (value : Json.Value) (name : String) : Option Text :=
  match value.member? name.toList with
  | none => some []
  | some (.text chars) => some chars
  | some _ => none

/-- The integer that digits behind a sign spell. -/
def integerOf (chars : Text) : Option Int :=
  let (negative, digits) := signPart chars
  if digits ≠ [] ∧ digits.all Char.isDigit then
    some (if negative then -(digitsValue digits : Int) else digitsValue digits)
  else none

/-- The timestamp of an entry.  An empty text is none. -/
def givenTimestamp (value : Json.Value) : Option (Option Int) := do
  let chars ← optionalText value "timestamp_nano"
  if chars = [] then some none else (integerOf chars).map some

/-- The entry of an object, where its members are texts. -/
def readEntry (value : Json.Value) : Option RawEntry := do
  let timestampNano ← givenTimestamp value
  let message ← optionalText value "message"
  let id ← optionalText value "id"
  let timestamp ← optionalText value "timestamp"
  let app ← optionalText value "app"
  let host ← optionalText value "host"
  let env ← optionalText value "env"
  if value.member? "meta".toList matches none then
    some { timestampNano, message, id, timestamp, app, host, env, metadata := [] }
  else none

/-- What `onmessage` reads out of an object. -/
def readPacket (value : Json.Value) : Option (Packet Unit) :=
  match value.member? "type".toList with
  | some (.text kind) =>
      if kind = "status".toList then (givenText value "state").map .status
      else if kind = "error".toList then (givenText value "error").map .error
      else if kind = "log".toList then
        (readEntry ((value.member? "log".toList).getD (.object []))).map fun raw =>
          .log { raw, record := () }
      else some .other
  | _ => some .other

/-- What `onmessage` reads out of the text of a message. -/
def readMessage (message : Bytes) : Option (Packet Unit) :=
  match Json.parse (text message) with
  | some value => readPacket value
  | none => some .other

/-- A packet without the record of its entry, which is on no wire. -/
def Packet.onWire {Key : Type} : Packet Key → Packet Unit
  | .status state => .status state
  | .error message => .error message
  | .log entry => .log { raw := entry.raw, record := () }
  | .other => .other

/-! ## One frame -/

/-- The text of a frame is parsed to its object. -/
theorem readMessage_frameText (frame : Frame) :
    readMessage (frameText frame) = readPacket (frameValue frame) := by
  rw [readMessage, frameText, text_flatMap_encode, Json.parse_print]

theorem readMessage_status (state : String) :
    readMessage (frameText (.status state)) = some (.status state.toList) := by
  rw [readMessage_frameText]
  rfl

theorem readMessage_error (message : Bytes) :
    readMessage (frameText (.error message)) = some (.error (text message)) := by
  rw [readMessage_frameText]
  rfl

/-- A record that the engine returned is read as the entry of an answer. -/
theorem readMessage_log (result : LogRecordID × Bytes) (receivedAt : Bytes) :
    readMessage (frameText (.log (tailEntry result) receivedAt)) =
      some (Packet.log (resultEntry result)).onWire := by
  have zero : text "0".toUTF8.toList = ['0'] := by decide +kernel
  rw [readMessage_frameText, frameValue, entryValue, tailEntry, zero]
  rfl

/-! ## All frames of a connection -/

section Runs

variable {unicode : UnicodeTables} {sha1Hex : Bytes → Bytes} {int64Field : Double → Int64}
  {builtins : Builtins}

/-- What the page reads out of the frames of an answer. -/
theorem map_readMessage_observe
    (sha1Hex : Bytes → Bytes)
    (seen current : OrderedStore Bytes Nat)
    (clock : Nat → Bytes)
    (results : List (LogRecordID × Bytes)) :
    (observe sha1Hex seen current clock (results.map tailEntry)).2.map
        (fun frame => readMessage (frameText frame)) =
      (observed sha1Hex seen current results).map fun result =>
        some (Packet.log (resultEntry result)).onWire := by
  induction results generalizing current with
  | nil => rfl
  | cons result results inductionHypothesis =>
      rw [List.map_cons, observe_cons, observed]
      dsimp only
      split
      · rw [List.map_cons, List.map_cons, readMessage_log, inductionHypothesis]
      · exact inductionHypothesis _

/-- A packet that arrived at a socket, with the clock readings of its handler. -/
structure Delivery where
  socket : Nat
  packet : Packet LogRecordID
  clock : Nat → Int

/-- The packet that an event delivers comes after those before. -/
def noteDelivery
    (system : System)
    (event : SystemEvent)
    (noted : List Delivery) : List Delivery :=
  match event with
  | .deliver socket clock =>
      match (system.connections socket).bind fun connection => connection.inFlight.head? with
      | some packet => noted ++ [{ socket, packet, clock }]
      | none => noted
  | _ => noted

/-- The packets that arrive in a run. -/
def deliveries
    (unicode : UnicodeTables)
    (sha1Hex : Bytes → Bytes)
    (int64Field : Double → Int64)
    (builtins : Builtins)
    (start : System)
    (events : List SystemEvent) : List Delivery :=
  Transition.notes (System.step unicode sha1Hex int64Field builtins) noteDelivery start [] events

/-- The packets that arrived at one socket. -/
def arrivedAt (socket : Nat) (noted : List Delivery) : List (Packet Unit) :=
  (noted.filter fun delivery => delivery.socket = socket).map fun delivery =>
    delivery.packet.onWire

/-- The frames say what arrived and what is on its way. -/
def Connection.InStep (connection : Connection) (arrived : List (Packet Unit)) : Prop :=
  connection.tail.frames.map (fun frame => readMessage (frameText frame)) =
    (arrived ++ connection.inFlight.map Packet.onWire).map some

theorem Connection.InStep.start (term : Bytes) (now : Int) (isOpen : Bool) :
    (Connection.start term now isOpen).InStep [] := by
  have connecting := readMessage_status "connecting"
  cases isOpen with
  | false => exact congrArg (fun packet => [packet]) connecting
  | true => exact congrArg (fun packet => [packet]) connecting

/-- New frames put their packets on their way. -/
theorem Connection.InStep.send
    {connection later : Connection}
    {arrived : List (Packet Unit)}
    {frames : List Frame}
    {packets : List (Packet LogRecordID)}
    (inStep : connection.InStep arrived)
    (sent : later.tail.frames = connection.tail.frames ++ frames)
    (queued : later.inFlight = connection.inFlight ++ packets)
    (read : frames.map (fun frame => readMessage (frameText frame)) =
      (packets.map Packet.onWire).map some) : later.InStep arrived := by
  unfold Connection.InStep at *
  rw [sent, queued, List.map_append, inStep, read, ← List.map_append, List.append_assoc,
    ← List.map_append]

theorem Connection.InStep.report
    {connection : Connection}
    {arrived : List (Packet Unit)}
    (inStep : connection.InStep arrived)
    (results : List (LogRecordID × Bytes))
    (clock : Nat → Bytes) :
    (connection.report sha1Hex results clock).InStep arrived := by
  cases stopped : connection.tail.stopped with
  | true =>
      rw [Connection.report, Tail.callback, if_pos stopped, if_pos stopped]
      exact inStep
  | false =>
      have alive := Bool.eq_false_iff.mp stopped
      rw [Connection.report, Tail.callback, if_neg alive, if_neg alive]
      refine inStep.send (List.append_assoc _ _ _) (List.append_assoc _ _ _) ?_
      have connected := readMessage_status "connected"
      rw [List.map_append, map_readMessage_observe, List.map_append, List.map_append,
        List.map_map, List.map_map]
      exact congrArg (_ ++ ·) (congrArg (fun packet => [packet]) connected)

theorem Connection.InStep.reportFailure
    {connection : Connection}
    {arrived : List (Packet Unit)}
    (inStep : connection.InStep arrived)
    (message : Bytes) :
    (connection.reportFailure sha1Hex message).InStep arrived := by
  cases stopped : connection.tail.stopped with
  | true =>
      rw [Connection.reportFailure, Tail.callback, if_pos stopped, if_pos stopped]
      exact inStep
  | false =>
      have alive := Bool.eq_false_iff.mp stopped
      rw [Connection.reportFailure, Tail.callback, if_neg alive, if_neg alive]
      refine inStep.send rfl rfl ?_
      exact congrArg (fun packet => [packet]) (readMessage_error message)

/-- The packet that comes first arrives. -/
theorem Connection.InStep.deliver
    {connection : Connection}
    {arrived : List (Packet Unit)}
    {packet : Packet LogRecordID}
    {inFlight : List (Packet LogRecordID)}
    (inStep : connection.InStep arrived)
    (queued : connection.inFlight = packet :: inFlight) :
    { connection with inFlight }.InStep (arrived ++ [packet.onWire]) := by
  unfold Connection.InStep at *
  rw [inStep, queued, List.map_cons, List.append_assoc, List.singleton_append]

/-- Every connection is in step, and nothing arrives where there is none. -/
def InStep (noted : List Delivery) (system : System) : Prop :=
  ∀ socket,
    match system.connections socket with
    | some connection => connection.InStep (arrivedAt socket noted)
    | none => arrivedAt socket noted = []

/-- An event at one connection. -/
theorem InStep.setConnection
    {noted : List Delivery}
    {system : System}
    {connection : Connection}
    (inStep : InStep noted system)
    (socket : Nat)
    (kept : connection.InStep (arrivedAt socket noted)) :
    InStep noted (system.setConnection socket connection) := by
  intro other
  unfold System.setConnection
  dsimp only
  by_cases same : other = socket
  · rw [same, Function.update_self]
    exact kept
  · rw [Function.update_of_ne same]
    exact inStep other

theorem InStep.held
    {noted : List Delivery}
    {system : System}
    {socket : Nat}
    {connection : Connection}
    (inStep : InStep noted system)
    (held : system.connections socket = some connection) :
    connection.InStep (arrivedAt socket noted) := by
  have here := inStep socket
  rwa [held] at here

theorem frames_stop (tail : Tail) : tail.stop.frames = tail.frames := by
  unfold Tail.stop
  split <;> rfl

theorem frames_poll
    {tail polled : Tail}
    {term : Bytes}
    {now : Int}
    {isOpen : Bool}
    (stepped : tail.step sha1Hex term (.poll now isOpen) = some polled) :
    polled.frames = tail.frames := by
  obtain ⟨_, same⟩ := Option.ite_none_right_eq_some.mp stepped
  obtain rfl := Option.some.inj same
  unfold Tail.poll
  split
  · exact frames_stop _
  · rfl

theorem arrivedAt_concat (socket : Nat) (noted : List Delivery) (delivery : Delivery) :
    arrivedAt socket (noted ++ [delivery]) =
      arrivedAt socket noted ++
        if delivery.socket = socket then [delivery.packet.onWire] else [] := by
  unfold arrivedAt
  rw [List.filter_append, List.map_append, List.filter_singleton]
  by_cases here : delivery.socket = socket
  · rw [if_pos here, decide_eq_true here]
    rfl
  · rw [if_neg here, decide_eq_false here]
    rfl

/-- What a delivery notes. -/
theorem noteDelivery_of_head
    {system : System}
    {socket : Nat}
    {clock : Nat → Int}
    {noted : List Delivery}
    {connection : Connection}
    {packet : Packet LogRecordID}
    {inFlight : List (Packet LogRecordID)}
    (held : system.connections socket = some connection)
    (queued : connection.inFlight = packet :: inFlight) :
    noteDelivery system (.deliver socket clock) noted =
      noted ++ [({ socket, packet, clock } : Delivery)] := by
  rw [noteDelivery, held, Option.bind_some, queued]
  rfl

theorem InStep.step
    {noted : List Delivery}
    {system next : System}
    {event : SystemEvent}
    (inStep : InStep noted system)
    (stepped : system.step unicode sha1Hex int64Field builtins event = some next) :
    InStep (noteDelivery system event noted) next := by
  cases systemChange_of_step stepped with
  | accept socket now isOpen opening _ unconnected =>
      have here := inStep socket
      rw [unconnected] at here
      apply inStep.setConnection socket
      rw [here]
      exact Connection.InStep.start _ now isOpen
  | poll socket now isOpen connection tail held polled =>
      apply inStep.setConnection socket
      unfold Connection.InStep
      rw [frames_poll polled]
      exact inStep.held held
  | pollAnswer socket connection request results held _ _ =>
      have before := inStep.held held
      exact inStep.setConnection socket before
  | pollReply socket clock connection results held _ =>
      exact inStep.setConnection socket ((inStep.held held).report results clock)
  | pollFails socket message connection held =>
      exact inStep.setConnection socket ((inStep.held held).reportFailure message)
  | disconnect socket connection held =>
      apply inStep.setConnection socket
      unfold Connection.InStep
      rw [frames_stop]
      exact inStep.held held
  | deliver socket clock connection packet inFlight app held queued _ =>
      rw [noteDelivery_of_head held queued]
      intro other
      rw [arrivedAt_concat]
      unfold System.setConnection
      dsimp only
      by_cases same : other = socket
      · rw [same, Function.update_self, if_pos rfl]
        exact (inStep.held held).deliver queued
      · rw [Function.update_of_ne same, if_neg (Ne.symm same), List.append_nil]
        exact inStep other
  | _ => exact inStep

/-- In every run of the system, the packets that arrived at a socket and those on
their way to it are, in this order, what the page reads out of the texts of all the
frames that its connection has sent. -/
theorem frames_read
    (unicode : UnicodeTables)
    (sha1Hex : Bytes → Bytes)
    (int64Field : Double → Int64)
    (builtins : Builtins)
    (db : DB)
    (query : Text)
    (timeRange : Rat)
    (isLive : Bool)
    (now : Int)
    (events : List SystemEvent)
    (system : System)
    (reached : Transition.run (System.step unicode sha1Hex int64Field builtins)
      (System.start db query timeRange isLive now) events = some system)
    (socket : Nat)
    (connection : Connection)
    (held : system.connections socket = some connection) :
    connection.tail.frames.map (fun frame => readMessage (frameText frame)) =
      (arrivedAt socket (deliveries unicode sha1Hex int64Field builtins
          (System.start db query timeRange isLive now) events) ++
        connection.inFlight.map Packet.onWire).map some := by
  have initial : InStep [] (System.start db query timeRange isLive now) := fun _ => rfl
  have preserved : ∀ state event noted next, InStep noted state →
      System.step unicode sha1Hex int64Field builtins state event = some next →
      InStep (noteDelivery state event noted) next :=
    fun _ _ _ _ inStep stepped => inStep.step stepped
  exact (Transition.run_notes preserved initial reached).held held

end Runs

/-- The frame of a row arrives, and the status behind it is on its way. -/
theorem frames_read_tailHello :
    ∃ system connection, Transition.run
        (System.step asciiTables plainDigest longField asciiBuiltins)
        openedHello (searchHello ++ tailHello) = some system ∧
      system.connections 0 = some connection ∧ connection.inFlight ≠ [] ∧
      connection.tail.frames.map (fun frame => readMessage (frameText frame)) =
        (arrivedAt 0 (deliveries asciiTables plainDigest longField asciiBuiltins openedHello
            (searchHello ++ tailHello)) ++
          connection.inFlight.map Packet.onWire).map some := by
  obtain ⟨system, reached, waiting⟩ := (Option.any_eq_true _ _).mp
    (by decide +kernel : (Transition.run
      (System.step asciiTables plainDigest longField asciiBuiltins)
      openedHello (searchHello ++ tailHello)).any (fun system =>
        (system.connections 0).any fun connection => !connection.inFlight.isEmpty) = true)
  obtain ⟨connection, held, nonempty⟩ := (Option.any_eq_true _ _).mp waiting
  refine ⟨system, connection, reached, held, by simpa using nonempty, ?_⟩
  exact frames_read asciiTables plainDigest longField asciiBuiltins ∅ "| hello".toList 15 false
    1000000 _ system reached 0 connection held

end Web
end Chronolog
