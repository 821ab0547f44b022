import Chronolog.Storage.Schema

/-!
# Syslog parsing

The RFC 3164 parser of the ingestion package.  Its reading of the wall clock is
an argument, and its successive reslicings of the input are separate stages:
the priority bracket, the fifteen-byte timestamp and the hostname.
-/

namespace Chronolog
namespace Ingestion

/-- A received packet: a recycled buffer and how much of it was filled. -/
structure PacketBuffer where
  data : Bytes
  size : Nat
  deriving DecidableEq

/-- A packet that fills its buffer with the bytes of a text. -/
def PacketBuffer.ofString (text : String) : PacketBuffer where
  data := text.toUTF8.toList
  size := text.toUTF8.toList.length

/-- What the parser extracts from one line. -/
structure ParsedLog where
  priority : Int
  facility : Int
  severity : Int
  timestampNano : Int64
  hostname : Bytes
  message : Bytes
  deriving DecidableEq

/-- The digits of `strconv.Atoi`, most significant first. -/
def atoiDigits : Int → Bytes → Option Int
  | number, [] => some number
  | number, byte :: rest =>
      if 0x30 ≤ byte ∧ byte ≤ 0x39 then
        atoiDigits (number * 10 + (byte.toNat - 0x30)) rest
      else none

/-- `strconv.Atoi` on a 64-bit platform: an optional sign and at least one
decimal digit, within the range of `int`. -/
def atoi (text : Bytes) : Option Int :=
  let unsigned :=
    match text with
    | 0x2D :: rest => (atoiDigits 0 rest).map fun number => (-number, rest)
    | 0x2B :: rest => (atoiDigits 0 rest).map fun number => (number, rest)
    | digits => (atoiDigits 0 digits).map fun number => (number, digits)
  match unsigned with
  | some (number, digits) =>
      if digits ≠ [] ∧ -2 ^ 63 ≤ number ∧ number < 2 ^ 63 then some number
      else none
  | none => none

/-- `bytes.TrimLeft(data, " ")` -/
def trimLeft (data : Bytes) : Bytes :=
  data.dropWhile fun byte => byte == 0x20

/-- The result before anything was read: severity info, facility user-level. -/
def defaultLog (now : Int64) : ParsedLog where
  priority := 0
  facility := 1
  severity := 6
  timestampNano := now
  hostname := []
  message := []

/-- Stage 1: the priority bracket `<PRIVALUE>`.  A bracket whose content is not
a number is dropped without being used. -/
def parsePri (res : ParsedLog) (data : Bytes) : ParsedLog × Bytes :=
  if data.head? = some 0x3C then
    match data.idxOf? 0x3E with
    | some endPri =>
        if 1 < endPri ∧ endPri ≤ 5 then
          let res :=
            match atoi (Storage.slice data 1 endPri) with
            | some priVal =>
                { res with
                  priority := priVal
                  facility := priVal >>> (3 : Nat)
                  -- the low three bits of the two's complement
                  severity := priVal % 8 }
            | none => res
          (res, data.drop (endPri + 1))
        else (res, data)
    | none => (res, data)
  else (res, data)

/-- Stage 2: advance past a timestamp shaped like `Mmm dd hh:mm:ss `. -/
def skipTimestamp (data : Bytes) : Bytes :=
  if 16 < data.length ∧ data[3]? = some 0x20 ∧ data[6]? = some 0x20 ∧
      data[15]? = some 0x20 then
    data.drop 16
  else data

/-- Stage 3: the first word is the hostname and the rest is the message; a
single word is a message without a hostname. -/
def splitHostname (res : ParsedLog) (data : Bytes) : ParsedLog :=
  match data.idxOf? 0x20 with
  | some spaceIdx =>
      { res with
        hostname := data.take spaceIdx
        message := trimLeft (data.drop (spaceIdx + 1)) }
  | none => { res with message := data }

/-- `ParseSyslogRFC3164`, with the clock reading it takes as an argument. -/
def parseSyslogRFC3164 (now : Int64) (data : Bytes) : ParsedLog :=
  let res := defaultLog now
  if data = [] then res
  else
    let (res, data) := parsePri res data
    let data := skipTimestamp (trimLeft data)
    splitHostname res (trimLeft data)

theorem parsePri_timestampNano (res : ParsedLog) (data : Bytes) :
    (parsePri res data).1.timestampNano = res.timestampNano := by
  unfold parsePri
  split
  · split
    · split
      · cases atoi (Storage.slice data 1 _) <;> rfl
      · rfl
    · rfl
  · rfl

theorem splitHostname_timestampNano (res : ParsedLog) (data : Bytes) :
    (splitHostname res data).timestampNano = res.timestampNano := by
  unfold splitHostname
  split <;> rfl

/-- Every line is stamped with the clock reading of its parse. -/
@[simp] theorem parseSyslogRFC3164_timestampNano (now : Int64) (data : Bytes) :
    (parseSyslogRFC3164 now data).timestampNano = now := by
  unfold parseSyslogRFC3164
  split
  · rfl
  · rw [splitHostname_timestampNano, parsePri_timestampNano]
    rfl

/-- The README's example line. -/
example :
    parseSyslogRFC3164 7
        "<34>Sep 24 16:15:00 api-gw router: timeout".toUTF8.toList =
      { priority := 34, facility := 4, severity := 2, timestampNano := 7,
        hostname := "api-gw".toUTF8.toList,
        message := "router: timeout".toUTF8.toList } := by
  decide +kernel

end Ingestion
end Chronolog
