import Chronolog.Ingestion.LineScan
import Chronolog.Ingestion.Priority
import Chronolog.Pipeline.TokenSeams
import Chronolog.Pipeline.WorkerPool

/-!
# The two ways in

A line posted to `/ingest` is parsed without its terminator, a datagram is
parsed as it comes.  A line feed at the end of a datagram passes through every
stage of the parser and ends up in the message, so the same line sent with a
line feed and without is stored as two different records.
-/

namespace Chronolog
namespace Ingestion

open Storage

/-! ## A line feed behind the parser's input -/

theorem idxOf?_append_lineFeed
    {byte : UInt8}
    (data : Bytes)
    (other : byte ≠ 0x0A) : (data ++ [0x0A]).idxOf? byte = data.idxOf? byte := by
  induction data with
  | nil => simp [List.idxOf?_cons, Ne.symm other]
  | cons first rest inductionHypothesis =>
      rw [List.cons_append, List.idxOf?_cons, List.idxOf?_cons, inductionHypothesis]

theorem trimLeft_append_lineFeed (data : Bytes) :
    trimLeft (data ++ [0x0A]) = trimLeft data ++ [0x0A] := by
  rw [trimLeft, List.dropWhile_append]
  split
  next blank =>
    rw [trimLeft, List.isEmpty_iff.mp blank]
    rfl
  next => rfl

/-- The bracket is read the same way. -/
theorem parsePri_append_lineFeed
    (res : ParsedLog)
    {data : Bytes}
    (nonempty : data ≠ []) :
    parsePri res (data ++ [0x0A]) =
      ((parsePri res data).1, (parsePri res data).2 ++ [0x0A]) := by
  rw [parsePri, parsePri, List.head?_append_of_ne_nil _ nonempty,
    idxOf?_append_lineFeed data (by decide)]
  split
  · split
    next endPri found =>
      obtain ⟨inside, _⟩ := List.idxOf?_eq_some_iff.mp found
      split
      · rw [List.drop_append_of_le_length inside, slice, slice,
          List.take_append_of_le_length (Nat.le_of_lt inside)]
      · rfl
    next => rfl
  · rfl

/-- The message keeps the line feed. -/
theorem splitHostname_append_lineFeed (res : ParsedLog) (data : Bytes) :
    splitHostname res (data ++ [0x0A]) =
      { splitHostname res data with
        message := (splitHostname res data).message ++ [0x0A] } := by
  rw [splitHostname, splitHostname, idxOf?_append_lineFeed data (by decide)]
  split
  next spaceIdx found =>
    obtain ⟨inside, _⟩ := List.idxOf?_eq_some_iff.mp found
    rw [List.drop_append_of_le_length inside, trimLeft_append_lineFeed,
      List.take_append_of_le_length (Nat.le_of_lt inside)]
  next => rfl

/-- A timestamp with its blank and nothing behind it.  The parser takes it for
a hostname and a message, and for a timestamp when a line feed follows. -/
def IsBareTimestamp (data : Bytes) : Prop :=
  data.length = 16 ∧ data[3]? = some 0x20 ∧ data[6]? = some 0x20 ∧ data[15]? = some 0x20

instance (data : Bytes) : Decidable (IsBareTimestamp data) :=
  inferInstanceAs (Decidable (_ ∧ _))

theorem skipTimestamp_append_lineFeed (data : Bytes) :
    IsBareTimestamp data ∧ skipTimestamp (data ++ [0x0A]) = [0x0A] ∨
      ¬ IsBareTimestamp data ∧
        skipTimestamp (data ++ [0x0A]) = skipTimestamp data ++ [0x0A] := by
  have before : ∀ index < data.length, (data ++ [0x0A])[index]? = data[index]? :=
    fun index inside => List.getElem?_append_left inside
  have length : (data ++ [0x0A]).length = data.length + 1 := by simp
  rw [skipTimestamp, skipTimestamp, IsBareTimestamp, length]
  rcases Nat.lt_trichotomy data.length 16 with short | exact | long
  · right
    rw [if_neg (by omega), if_neg (by omega)]
    exact ⟨by omega, rfl⟩
  · rw [before 3 (by omega), before 6 (by omega), before 15 (by omega)]
    by_cases shape : data[3]? = some 0x20 ∧ data[6]? = some 0x20 ∧ data[15]? = some 0x20
    · left
      rw [if_pos ⟨by omega, shape⟩]
      exact ⟨⟨exact, shape⟩, List.drop_left' exact⟩
    · right
      rw [if_neg fun both => shape both.2, if_neg fun both => shape both.2]
      exact ⟨fun both => shape both.2, rfl⟩
  · right
    rw [before 3 (by omega), before 6 (by omega), before 15 (by omega)]
    refine ⟨by omega, ?_⟩
    by_cases shape : data[3]? = some 0x20 ∧ data[6]? = some 0x20 ∧ data[15]? = some 0x20
    · rw [if_pos ⟨by omega, shape⟩, if_pos ⟨long, shape⟩,
        List.drop_append_of_le_length (Nat.le_of_lt long)]
    · rw [if_neg fun both => shape both.2, if_neg fun both => shape both.2]

/-- What the parser has left of a line behind the bracket. -/
def behindPri (now : Int64) (line : Bytes) : Bytes :=
  trimLeft (parsePri (defaultLog now) line).2

/-- A line feed behind a line ends up behind its message, unless it completes a
bare timestamp; the facility is the same in either case. -/
theorem parseSyslogRFC3164_append_lineFeed
    (now : Int64)
    {line : Bytes}
    (nonempty : line ≠ []) :
    (parseSyslogRFC3164 now (line ++ [0x0A])).facility =
        (parseSyslogRFC3164 now line).facility ∧
      (parseSyslogRFC3164 now (line ++ [0x0A])).message =
        (if IsBareTimestamp (behindPri now line) then []
          else (parseSyslogRFC3164 now line).message) ++ [0x0A] := by
  rw [parseSyslogRFC3164, parseSyslogRFC3164, if_neg nonempty,
    if_neg (List.append_ne_nil_of_left_ne_nil nonempty _),
    parsePri_append_lineFeed _ nonempty]
  simp only [trimLeft_append_lineFeed]
  rw [← behindPri]
  refine ⟨by rw [(splitHostname_priority _ _).2.1, (splitHostname_priority _ _).2.1], ?_⟩
  rcases skipTimestamp_append_lineFeed (behindPri now line) with
    ⟨bare, skipped⟩ | ⟨notBare, skipped⟩
  · rw [if_pos bare, skipped]
    rfl
  · rw [if_neg notBare, skipped, trimLeft_append_lineFeed, splitHostname_append_lineFeed]

end Ingestion

namespace Pipeline

open Ingestion Storage Utf8

variable {unicode : UnicodeTables}

/-! ## The tokens of a message with a line feed -/

/-- A line feed at the end of a message adds no token. -/
theorem tokenize_append_lineFeed (message : Bytes) :
    tokenize unicode (message ++ [0x0A]) = tokenize unicode message := by
  have nothing : tokenize unicode [] = [] := rfl
  rw [tokenize_append_separator message [] (by decide) (by decide), nothing,
    List.filter_nil, List.append_nil]

/-! ## Arrivals -/

/-- A datagram received into a recycled buffer, with the clock reading of its
parse. -/
def datagramArrival (now : Int64) (buf datagram : Bytes) : Arrival where
  now := now
  packet := fillBuffer buf datagram

/-- The packets of a posted body, with one clock reading for their parses. -/
def postedArrivals (now : Int64) (body : Bytes) : List Arrival :=
  (handleIngest true body none).1.map fun packet => { now, packet }

variable (unicode) in
/-- Two arrivals lead to the same record value, stream ID and term keys. -/
def SameRecord (left right : Arrival) : Prop :=
  (left.item unicode).logValue = (right.item unicode).logValue ∧
    left.streamID = right.streamID ∧
    (left.item unicode).termKeys = (right.item unicode).termKeys

variable (unicode) in
/-- A datagram, the same line posted, and the datagram with a line feed are
stored as the same record. -/
def PathsAgree (now : Int64) (buf other line : Bytes) : Prop :=
  (∃ posted, postedArrivals now line = [posted] ∧
      SameRecord unicode (datagramArrival now buf line) posted) ∧
    SameRecord unicode (datagramArrival now buf line)
      (datagramArrival now other (line ++ [0x0A]))

theorem parsed_datagramArrival
    (now : Int64)
    {buf datagram : Bytes}
    (size : buf.length = bufferSize)
    (room : datagram.length ≤ bufferSize) :
    (datagramArrival now buf datagram).parsed = parseSyslogRFC3164 now datagram := by
  have filled := filled_fillBuffer buf datagram
  rw [size, List.take_of_length_le room] at filled
  exact congrArg (parseSyslogRFC3164 now) filled

/-- Arrivals with one parse lead to one record. -/
theorem SameRecord.of_parsed
    {left right : Arrival}
    (same : left.parsed = right.parsed) : SameRecord unicode left right := by
  simp only [SameRecord, Arrival.item, Arrival.tokens, Arrival.message, Arrival.streamID, same,
    and_self]

/-- A datagram without a line feed is stored like the posted line. -/
theorem datagram_sameRecord_posted
    (unicode : UnicodeTables)
    (now : Int64)
    {buf line : Bytes}
    (size : buf.length = bufferSize)
    (nonempty : line ≠ [])
    (noLineFeed : 0x0A ∉ line)
    (noReturn : line.getLast? ≠ some 0x0D)
    (room : line.length ≤ bufferSize) :
    ∃ posted, postedArrivals now line = [posted] ∧
      SameRecord unicode (datagramArrival now buf line) posted := by
  have held : fits line = true :=
    decide_eq_true (Nat.lt_of_le_of_lt room (by decide))
  have single : linesBeforeFailure line = [line] := by
    rw [linesBeforeFailure_of_fits, bodyLines_single nonempty noLineFeed noReturn]
    rw [segments_single noLineFeed, List.all_cons, held]
    rfl
  refine ⟨datagramArrival now freshBuffer line, ?_, SameRecord.of_parsed ?_⟩
  · rw [postedArrivals, handleIngest_post, single]
    rfl
  · rw [parsed_datagramArrival now size room,
      parsed_datagramArrival now length_freshBuffer room]

/-- Whatever the line, a datagram with a line feed behind it is stored as
another value, although the other two ways agree.  The stream ID is the same,
and so are the term keys, unless the line feed completes a bare timestamp. -/
theorem lineFeed_datagram_differs
    (unicode : UnicodeTables)
    (now : Int64)
    (buf other line : Bytes)
    (size : buf.length = bufferSize)
    (otherSize : other.length = bufferSize)
    (nonempty : line ≠ [])
    (noLineFeed : 0x0A ∉ line)
    (noReturn : 0x0D ∉ line)
    (short : line.length ≤ 2047) :
    ¬ PathsAgree unicode now buf other line ∧
      (∃ posted, postedArrivals now line = [posted] ∧
        SameRecord unicode (datagramArrival now buf line) posted) ∧
      (datagramArrival now other (line ++ [0x0A])).streamID =
        (datagramArrival now buf line).streamID ∧
      (¬ IsBareTimestamp (behindPri now line) →
        (datagramArrival now other (line ++ [0x0A])).message =
            (datagramArrival now buf line).message ++ [0x0A] ∧
          ((datagramArrival now other (line ++ [0x0A])).item unicode).termKeys =
            ((datagramArrival now buf line).item unicode).termKeys) := by
  have room : line.length ≤ bufferSize := Nat.le_trans short (by decide)
  have roomLineFeed : (line ++ [0x0A]).length ≤ bufferSize := by
    rw [List.length_append]
    exact Nat.succ_le_succ short
  have parsed := parsed_datagramArrival now size room
  have parsedLineFeed := parsed_datagramArrival now otherSize roomLineFeed
  obtain ⟨facility, message⟩ := parseSyslogRFC3164_append_lineFeed now nonempty
  rw [← parsed, ← parsedLineFeed] at facility message
  refine ⟨?_, ?_, ?_, ?_⟩
  · rintro ⟨_, values, _⟩
    change (datagramArrival now buf line).parsed.message =
      (datagramArrival now other (line ++ [0x0A])).parsed.message at values
    -- a message is an end of its line, so without a line feed there is none in it
    obtain ⟨dropped, split, _⟩ := message_cut now line
    rw [← parsed, values, message] at split
    apply noLineFeed
    rw [split]
    simp
  · exact datagram_sameRecord_posted unicode now size nonempty noLineFeed
      (fun last => noReturn (List.mem_of_getLast? last)) room
  · rw [Arrival.streamID, facility, Arrival.streamID]
  · intro notBare
    rw [if_neg notBare] at message
    refine ⟨message, ?_⟩
    have tokens : (datagramArrival now other (line ++ [0x0A])).tokens unicode =
        (datagramArrival now buf line).tokens unicode := by
      rw [Arrival.tokens, Arrival.message, message, tokenize_append_lineFeed]
      rfl
    rw [Arrival.item_termKeys, Arrival.item_termKeys, tokens, Arrival.streamID, facility]
    rfl

theorem lineFeed_datagram_differs_hello :
    ¬ PathsAgree asciiTables 7 freshBuffer freshBuffer "<34>hello".toUTF8.toList ∧
      (datagramArrival 7 freshBuffer ("<34>hello".toUTF8.toList ++ [0x0A])).message =
        (datagramArrival 7 freshBuffer "<34>hello".toUTF8.toList).message ++ [0x0A] :=
  have differs := lineFeed_datagram_differs asciiTables 7 freshBuffer freshBuffer
    "<34>hello".toUTF8.toList length_freshBuffer length_freshBuffer (by decide +kernel)
    (by decide +kernel) (by decide +kernel) (by decide +kernel)
  ⟨differs.1, (differs.2.2.2 (by decide +kernel)).1⟩

/-- A line sent with the line feed of the README's example and the same line
posted are stored with two messages. -/
theorem lineFeed_stored :
    ¬ ∀ unicode now buf other line, buf.length = bufferSize → other.length = bufferSize →
      line ≠ [] → 0x0A ∉ line → 0x0D ∉ line → line.length ≤ 2047 →
      PathsAgree unicode now buf other line := by
  intro claim
  obtain ⟨_, values, _⟩ := claim asciiTables 7 freshBuffer freshBuffer
    "<34>hello".toUTF8.toList length_freshBuffer length_freshBuffer (by decide +kernel)
    (by decide +kernel) (by decide +kernel) (by decide +kernel)
  exact absurd values (by decide +kernel)

end Pipeline
end Chronolog
