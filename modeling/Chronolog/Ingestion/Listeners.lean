import Chronolog.Ingestion.Parser

/-!
# The listeners

How received bytes become packets.  A datagram is read into a recycled buffer
and a line of an HTTP body is copied into a fresh one; either keeps at most as
many bytes as the buffer has.  The body is split by a `bufio.Scanner`, which
gives up on a line that does not fit its own buffer.
-/

namespace Chronolog
namespace Ingestion

/-- Size of a packet buffer. -/
def bufferSize : Nat := 2048

/-- A buffer as `make([]byte, 2048)` leaves it. -/
def freshBuffer : Bytes := List.replicate bufferSize 0

/-- `copy(buf, bytes)`, and likewise a datagram read into a buffer: as many
bytes as fit, over what the buffer held before. -/
def fillBuffer (buf bytes : Bytes) : PacketBuffer where
  data := bytes.take buf.length ++ buf.drop bytes.length
  size := min bytes.length buf.length

/-- The filled part of a packet, `pkt.Data[:pkt.Size]`. -/
def PacketBuffer.filled (packet : PacketBuffer) : Bytes :=
  Storage.slice packet.data 0 packet.size

/-- Longest line with its line feed that a `bufio.Scanner` reads. -/
def maxScanTokenSize : Nat := 64 * 1024

/-- Why a scan ends early. -/
inductive ScanError
  | tooLong
  | read
  deriving DecidableEq

/-- A line without the carriage return before its line feed. -/
def dropCR (line : Bytes) : Bytes :=
  if line.getLast? = some 0x0D then line.dropLast else line

/-- `bufio.ScanLines` over the rest of a body.  `line` is the line read so far
and `readError` what the reader returns in place of the end of the body. -/
def scanLines (readError : Option ScanError) :
    Bytes → Bytes → List Bytes × Option ScanError
  | line, [] => (if line = [] then [] else [dropCR line], readError)
  | line, byte :: rest =>
      if byte = 0x0A then
        let (lines, err) := scanLines readError [] rest
        (dropCR line :: lines, err)
      else if maxScanTokenSize ≤ line.length + 1 then ([], some .tooLong)
      else scanLines readError (line ++ [byte]) rest

/-- The packets `handleIngest` puts on the output channel, in order, and the
status it answers with. -/
def handleIngest (isPost : Bool) (body : Bytes) (readError : Option ScanError) :
    List PacketBuffer × Nat :=
  if isPost = false then ([], 405)
  else
    let (lines, err) := scanLines readError [] body
    ((lines.filter fun line => line ≠ []).map (fillBuffer freshBuffer),
      if err = none then 202 else 400)

/-- A packet keeps as many bytes of a line as its buffer has. -/
theorem filled_fillBuffer (buf bytes : Bytes) :
    (fillBuffer buf bytes).filled = bytes.take buf.length := by
  rw [PacketBuffer.filled, Storage.slice, List.drop_zero, fillBuffer]
  have length : (bytes.take buf.length).length = min bytes.length buf.length := by
    rw [List.length_take, Nat.min_comm]
  rw [← length, List.take_left]

theorem length_freshBuffer : freshBuffer.length = bufferSize :=
  List.length_replicate

end Ingestion
end Chronolog
