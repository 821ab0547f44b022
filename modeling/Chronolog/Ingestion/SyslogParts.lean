import Chronolog.Ingestion.Priority

/-!
# The parts of a syslog line

The parser once more with its index expressions and slices as Go evaluates
them: out of range they panic.  It never does.  A line put together from a
priority, a timestamp, a hostname and a message is taken apart again, with the
priority and without.
-/

namespace Chronolog
namespace Ingestion

open Storage

/-! ## Index expressions that can panic -/

/-- `data[low:high]` -/
def slice? (data : Bytes) (low high : Nat) : Option Bytes :=
  if low ≤ high ∧ high ≤ data.length then some (slice data low high) else none

/-- `data[low:]` -/
def sliceFrom? (data : Bytes) (low : Nat) : Option Bytes := slice? data low data.length

/-- Stage 1 of the parser. -/
def parsePri? (res : ParsedLog) (data : Bytes) : Option (ParsedLog × Bytes) := do
  let first ← data[0]?
  if first = 0x3C then
    match data.idxOf? 0x3E with
    | some endPri =>
        if 1 < endPri ∧ endPri ≤ 5 then
          let text ← slice? data 1 endPri
          let res :=
            match atoi text with
            | some priVal =>
                { res with
                  priority := priVal
                  facility := priVal >>> (3 : Nat)
                  severity := priVal % 8 }
            | none => res
          let data ← sliceFrom? data (endPri + 1)
          return (res, data)
        else return (res, data)
    | none => return (res, data)
  else return (res, data)

/-- Stage 2: the operands of `&&` are evaluated from left to right. -/
def skipTimestamp? (data : Bytes) : Option Bytes := do
  if 16 < data.length then
    let month ← data[3]?
    if month = 0x20 then
      let day ← data[6]?
      if day = 0x20 then
        let seconds ← data[15]?
        if seconds = 0x20 then sliceFrom? data 16
        else return data
      else return data
    else return data
  else return data

/-- Stage 3 of the parser. -/
def splitHostname? (res : ParsedLog) (data : Bytes) : Option ParsedLog := do
  match data.idxOf? 0x20 with
  | some spaceIdx =>
      let hostname ← slice? data 0 spaceIdx
      let message ← sliceFrom? data (spaceIdx + 1)
      return { res with hostname, message := trimLeft message }
  | none => return { res with message := data }

/-- `ParseSyslogRFC3164`, undefined where it panics. -/
def parseSyslogRFC3164? (now : Int64) (data : Bytes) : Option ParsedLog := do
  let res := defaultLog now
  if data = [] then return res
  else
    let (res, data) ← parsePri? res data
    let data ← skipTimestamp? (trimLeft data)
    splitHostname? res (trimLeft data)

/-! ## The parser does not panic -/

theorem sliceFrom?_eq_drop
    {data : Bytes}
    {low : Nat}
    (inside : low ≤ data.length) : sliceFrom? data low = some (data.drop low) := by
  rw [sliceFrom?, slice?, if_pos ⟨inside, Nat.le_refl _⟩, slice, List.take_length]

theorem parsePri?_eq
    (res : ParsedLog)
    {data : Bytes}
    (nonempty : data ≠ []) : parsePri? res data = some (parsePri res data) := by
  obtain ⟨first, rest, rfl⟩ := List.exists_cons_of_ne_nil nonempty
  rw [parsePri?, parsePri, List.getElem?_cons_zero, List.head?_cons, Option.bind_eq_bind,
    Option.bind_some]
  by_cases opens : first = 0x3C
  · rw [if_pos opens, if_pos (congrArg some opens)]
    cases found : (first :: rest).idxOf? 0x3E with
    | none => rfl
    | some endPri =>
        have inside := (List.idxOf?_eq_some_iff.mp found).1
        dsimp only
        by_cases short : 1 < endPri ∧ endPri ≤ 5
        · rw [if_pos short, if_pos short, slice?,
            if_pos ⟨Nat.le_of_lt short.1, Nat.le_of_lt inside⟩, sliceFrom?_eq_drop inside]
          rfl
        · rw [if_neg short, if_neg short]
          rfl
  · rw [if_neg opens, if_neg fun same => opens (Option.some.inj same)]
    rfl

theorem skipTimestamp?_eq (data : Bytes) :
    skipTimestamp? data = some (skipTimestamp data) := by
  rw [skipTimestamp?, skipTimestamp]
  by_cases long : 16 < data.length
  · rw [if_pos long, List.getElem?_eq_getElem (by omega),
      List.getElem?_eq_getElem (by omega), List.getElem?_eq_getElem (by omega),
      sliceFrom?_eq_drop (Nat.le_of_lt long)]
    simp only [Option.bind_eq_bind, Option.bind_some, Option.some.injEq, long, true_and]
    by_cases month : data[3] = 0x20
    · by_cases day : data[6] = 0x20
      · by_cases seconds : data[15] = 0x20
        · simp [month, day, seconds]
        · simp [month, day, seconds]
      · simp [month, day]
    · simp [month]
  · rw [if_neg long, if_neg fun shape => long shape.1]
    rfl

theorem splitHostname?_eq (res : ParsedLog) (data : Bytes) :
    splitHostname? res data = some (splitHostname res data) := by
  rw [splitHostname?, splitHostname]
  cases found : data.idxOf? 0x20 with
  | none => rfl
  | some spaceIdx =>
      have inside := (List.idxOf?_eq_some_iff.mp found).1
      dsimp only
      rw [slice?, if_pos ⟨Nat.zero_le _, Nat.le_of_lt inside⟩, sliceFrom?_eq_drop inside]
      rfl

/-- Every index expression of the parser is in range, whatever the input. -/
theorem parseSyslogRFC3164?_eq (now : Int64) (data : Bytes) :
    parseSyslogRFC3164? now data = some (parseSyslogRFC3164 now data) := by
  rw [parseSyslogRFC3164?, parseSyslogRFC3164]
  split
  next => rfl
  next nonempty =>
    simp only [parsePri?_eq _ nonempty, skipTimestamp?_eq, splitHostname?_eq,
      Option.bind_eq_bind, Option.bind_some]

/-! ## Printing and parsing -/

/-- What a syslog line is put together from. -/
structure SyslogParts where
  pri : Nat
  timestamp : Bytes
  hostname : Bytes
  message : Bytes
  pri_le : pri ≤ 191
  timestamp_length : timestamp.length = 15
  timestamp_month : timestamp[3]? = some 0x20
  timestamp_day : timestamp[6]? = some 0x20
  timestamp_head : timestamp.head? ≠ some 0x20
  hostname_ne_nil : hostname ≠ []
  hostname_noSpace : 0x20 ∉ hostname

namespace SyslogParts

variable (parts : SyslogParts)

/-- The hostname and the message, with a blank between them. -/
def body : Bytes := parts.hostname ++ 0x20 :: parts.message

/-- `<PRI>Mmm dd hh:mm:ss hostname message` -/
def line : Bytes := syslogHeader parts.pri parts.timestamp ++ parts.body

/-- The line without its priority. -/
def plainLine : Bytes := parts.timestamp ++ 0x20 :: parts.body

theorem trimLeft_body : trimLeft parts.body = parts.body := by
  apply trimLeft_eq_self
  rw [body, List.head?_append_of_ne_nil _ parts.hostname_ne_nil]
  exact head?_ne_of_notMem parts.hostname_noSpace

theorem body_ne_nil : parts.body ≠ [] :=
  List.append_ne_nil_of_left_ne_nil parts.hostname_ne_nil _

theorem splitHostname_body (res : ParsedLog) :
    splitHostname res (trimLeft parts.body) =
      { res with hostname := parts.hostname, message := trimLeft parts.message } := by
  rw [trimLeft_body, body, splitHostname_word res _ parts.hostname_noSpace]

theorem parse_line (now : Int64) :
    parseSyslogRFC3164 now parts.line =
      { priority := parts.pri, facility := parts.pri / 8, severity := parts.pri % 8,
        timestampNano := now, hostname := parts.hostname,
        message := trimLeft parts.message } := by
  rw [line, parseSyslogRFC3164_syslogHeader now parts.pri_le parts.timestamp_length
    parts.timestamp_month parts.timestamp_day parts.timestamp_head parts.body_ne_nil,
    splitHostname_body, shiftRight_three]
  rfl

theorem parse_plainLine
    (now : Int64)
    (unbracketed : parts.timestamp.head? ≠ some 0x3C) :
    parseSyslogRFC3164 now parts.plainLine =
      { defaultLog now with
        hostname := parts.hostname, message := trimLeft parts.message } := by
  have filled : parts.timestamp ≠ [] :=
    List.ne_nil_of_length_pos (by rw [parts.timestamp_length]; decide)
  have noBracket : parsePri (defaultLog now) parts.plainLine =
      (defaultLog now, parts.plainLine) := by
    apply parsePri_of_noBracket
    rintro ⟨endPri, opens, _⟩
    rw [plainLine, List.head?_append_of_ne_nil _ filled] at opens
    exact unbracketed opens
  have nonempty : parts.plainLine ≠ [] := List.append_ne_nil_of_left_ne_nil filled _
  rw [parseSyslogRFC3164, if_neg nonempty, noBracket]
  dsimp only
  rw [plainLine, skipTimestamp_timestamp parts.timestamp_length parts.timestamp_month
    parts.timestamp_day parts.timestamp_head parts.body_ne_nil, splitHostname_body]

end SyslogParts

/-- A syslog line is parsed back to its parts without leaving the input, with
its priority and, unless its timestamp opens a bracket, without. -/
theorem parse_syslogParts
    (now : Int64)
    (parts : SyslogParts) :
    parseSyslogRFC3164? now parts.line =
        some
          { priority := parts.pri, facility := parts.pri / 8, severity := parts.pri % 8,
            timestampNano := now, hostname := parts.hostname,
            message := trimLeft parts.message } ∧
      (parts.timestamp.head? ≠ some 0x3C →
        parseSyslogRFC3164? now parts.plainLine =
          some
            { defaultLog now with
              hostname := parts.hostname, message := trimLeft parts.message }) := by
  constructor
  · rw [parseSyslogRFC3164?_eq, parts.parse_line]
  · intro unbracketed
    rw [parseSyslogRFC3164?_eq, parts.parse_plainLine now unbracketed]

/-- The README's example line. -/
def exampleParts : SyslogParts where
  pri := 34
  timestamp := "Sep 24 16:15:00".toUTF8.toList
  hostname := "api-gw".toUTF8.toList
  message := " router: timeout".toUTF8.toList
  pri_le := by decide
  timestamp_length := by decide +kernel
  timestamp_month := by decide +kernel
  timestamp_day := by decide +kernel
  timestamp_head := by decide +kernel
  hostname_ne_nil := by decide +kernel
  hostname_noSpace := by decide +kernel

theorem parse_syslogParts_example :
    parseSyslogRFC3164? 7 "Sep 24 16:15:00 api-gw  router: timeout".toUTF8.toList =
      some
        { defaultLog 7 with
          hostname := "api-gw".toUTF8.toList
          message := "router: timeout".toUTF8.toList } := by
  have line : exampleParts.plainLine =
      "Sep 24 16:15:00 api-gw  router: timeout".toUTF8.toList := by decide +kernel
  have message : trimLeft exampleParts.message = "router: timeout".toUTF8.toList := by
    decide +kernel
  have parsed := (parse_syslogParts 7 exampleParts).2 (by decide +kernel)
  rw [line, message] at parsed
  exact parsed

end Ingestion
end Chronolog
