import Chronolog.Ingestion.Priority
import Chronolog.Pipeline.TokenSeams
import Chronolog.Pipeline.WorkerPool
import Mathlib.Data.List.DropRight

/-!
# Plain-text lines

The parser reads every line as syslog: it drops a short bracket, skips what has
blanks in three places, and takes the first word for a hostname.  The message of
a line is the whole line, less its leading blanks, exactly when none of the
three stages finds anything.
-/

namespace Chronolog
namespace Ingestion

/-! ## Plain lines -/

/-- `Mmm dd hh:mm:ss `, byte by byte. -/
def timestampShape : List (UInt8 → Bool) :=
  let upper := fun byte : UInt8 => 0x41 ≤ byte && byte ≤ 0x5A
  let lower := fun byte : UInt8 => 0x61 ≤ byte && byte ≤ 0x7A
  let blank := fun byte : UInt8 => byte == 0x20
  let colon := fun byte : UInt8 => byte == 0x3A
  [upper, lower, lower, blank, fun byte => blank byte || isDecimal byte, isDecimal, blank,
    isDecimal, isDecimal, colon, isDecimal, isDecimal, colon, isDecimal, isDecimal, blank]

/-- A line that starts with neither a priority bracket nor a timestamp. -/
structure PlainLine (line : Bytes) : Prop where
  noPri : ∀ digits after, digits ≠ [] → (∀ byte ∈ digits, isDecimal byte = true) →
    line ≠ 0x3C :: (digits ++ 0x3E :: after)
  noTimestamp : ¬ (timestampShape.length ≤ line.length ∧
    (timestampShape.zip line).all (fun place => place.1 place.2) = true)

/-! ## What the stages leave -/

theorem length_trimLeft_le (data : Bytes) : (trimLeft data).length ≤ data.length :=
  List.length_dropWhile_le _ _

theorem trimLeft_trimLeft (data : Bytes) : trimLeft (trimLeft data) = trimLeft data :=
  List.dropWhile_idempotent _ data

theorem length_skipTimestamp_le (data : Bytes) :
    (skipTimestamp data).length ≤ data.length := by
  rw [skipTimestamp]
  split
  · rw [List.length_drop]
    omega
  · exact Nat.le_refl _

theorem length_message_le (res : ParsedLog) (data : Bytes) :
    (splitHostname res data).message.length ≤ data.length := by
  rw [splitHostname]
  split
  next spaceIdx _ =>
    refine Nat.le_trans (length_trimLeft_le _) ?_
    rw [List.length_drop]
    omega
  next => exact Nat.le_refl _

/-- A blank costs the message its first word. -/
theorem length_message_lt
    (res : ParsedLog)
    {data : Bytes}
    (blank : 0x20 ∈ data) :
    (splitHostname res data).message.length < data.length := by
  obtain ⟨before, after, rfl, noBlank⟩ := List.eq_append_cons_of_mem blank
  rw [splitHostname_word res after noBlank]
  have shorter := length_trimLeft_le after
  rw [List.length_append, List.length_cons]
  dsimp only
  omega

/-- A line without a timestamp's blanks, or what is left behind the timestamp,
which is shorter. -/
theorem skipTimestamp_cases (data : Bytes) :
    skipTimestamp data = data ∨ (skipTimestamp data).length < data.length := by
  rw [skipTimestamp]
  split
  next shape =>
    right
    rw [List.length_drop]
    omega
  next => exact Or.inl rfl

theorem skipTimestamp_of_noBlank
    {data : Bytes}
    (noBlank : 0x20 ∉ data) : skipTimestamp data = data := by
  rw [skipTimestamp, if_neg]
  rintro ⟨_, month, _⟩
  exact noBlank (List.mem_of_getElem? month)

/-- The message of a line is the line without its leading blanks exactly when the
line starts with no short bracket and holds no other blank. -/
theorem message_eq_trimLeft_iff (now : Int64) (line : Bytes) :
    (parseSyslogRFC3164 now line).message = trimLeft line ↔
      ¬ ShortBracket line ∧ 0x20 ∉ trimLeft line := by
  rw [parseSyslogRFC3164]
  split
  next empty =>
    rw [empty]
    refine iff_of_true rfl ⟨?_, List.not_mem_nil⟩
    rintro ⟨_, opens, _⟩
    exact Option.some_ne_none _ opens.symm
  next =>
    have bound : ∀ res data, (splitHostname res
        (trimLeft (skipTimestamp (trimLeft data)))).message.length ≤
        (trimLeft data).length := fun res data =>
      Nat.le_trans (length_message_le _ _)
        (Nat.le_trans (length_trimLeft_le _) (length_skipTimestamp_le _))
    by_cases bracket : ShortBracket line
    · obtain ⟨endPri, opens, found, short⟩ := id bracket
      refine iff_of_false (fun whole => ?_) fun kept => kept.1 bracket
      have untrimmed : trimLeft line = line := by
        apply trimLeft_eq_self
        rw [opens]
        decide
      have inside := (List.idxOf?_eq_some_iff.mp found).1
      have lengths := congrArg List.length whole
      have shorter := bound (parsePri (defaultLog now) line).1
        (parsePri (defaultLog now) line).2
      dsimp only at lengths
      rw [parsePri_of_bracket _ opens found short] at lengths shorter
      have dropped := length_trimLeft_le (line.drop (endPri + 1))
      rw [List.length_drop] at dropped
      rw [untrimmed] at lengths
      omega
    · rw [parsePri_of_noBracket _ bracket]
      dsimp only
      by_cases blank : 0x20 ∈ trimLeft line
      · refine iff_of_false (fun whole => ?_) fun kept => kept.2 blank
        have lengths := congrArg List.length whole
        rcases skipTimestamp_cases (trimLeft line) with same | skipped
        · rw [same, trimLeft_trimLeft] at lengths
          exact absurd lengths (Nat.ne_of_lt (length_message_lt _ blank))
        · have shorter := Nat.le_trans
            (length_message_le (defaultLog now) (trimLeft (skipTimestamp (trimLeft line))))
            (length_trimLeft_le _)
          omega
      · refine iff_of_true ?_ ⟨bracket, blank⟩
        rw [skipTimestamp_of_noBlank blank, trimLeft_trimLeft, splitHostname_single _ blank]

end Ingestion

namespace Pipeline

open Ingestion Storage

variable {unicode : UnicodeTables}

namespace Arrival

/-- The line a worker parses: the filled part of the buffer. -/
def line (arrival : Arrival) : Bytes :=
  slice arrival.packet.data 0 arrival.packet.size

variable (unicode) in
/-- The whole line, less its leading blanks, is stored and tokenized, and each of
its words of 2 to 64 bytes is indexed. -/
structure KeptWhole (arrival : Arrival) : Prop where
  stored : (arrival.item unicode).logValue = trimLeft arrival.line
  tokens : arrival.tokens unicode = tokenize unicode (trimLeft arrival.line)
  words : ∀ word, IsWord unicode arrival.line word → 2 ≤ word.length → word.length ≤ 64 →
    encodeIndexKey (toLower unicode word) arrival.now arrival.streamID ∈
      (arrival.item unicode).termKeys

/-- A line is stored and indexed as a whole exactly when it starts with no short
bracket and has no blank behind the leading ones. -/
theorem keptWhole_iff (unicode : UnicodeTables) (arrival : Arrival) :
    arrival.KeptWhole unicode ↔
      ¬ ShortBracket arrival.line ∧ 0x20 ∉ trimLeft arrival.line := by
  rw [← message_eq_trimLeft_iff arrival.now]
  constructor
  · exact fun kept => kept.stored
  · intro whole
    have tokens : arrival.tokens unicode = tokenize unicode (trimLeft arrival.line) :=
      congrArg (tokenize unicode) whole
    refine ⟨whole, tokens, fun word isWord low high => ?_⟩
    rw [arrival.item_termKeys unicode, tokens, trimLeft, tokenize_dropWhile_blank]
    refine List.mem_map.mpr ⟨_, mem_tokenize.mpr ⟨word, ?_, low, high, rfl⟩, rfl⟩
    exact mem_fieldsFunc_of_isWord isWord

/-- The first word of a plain line is neither stored nor indexed. -/
theorem plain_line_loses_word :
    ¬ ∀ (unicode : UnicodeTables) (arrival : Arrival),
      PlainLine arrival.line → arrival.KeptWhole unicode := by
  intro claim
  have kept := claim asciiTables { now := 0, packet := .ofString "disk full" } ⟨?_, ?_⟩
  · have stored := kept.stored
    revert stored
    decide +kernel
  · intro digits after _ _ same
    have first := congrArg List.head? same
    rw [List.head?_cons] at first
    revert first
    decide +kernel
  · decide +kernel

end Arrival
end Pipeline
end Chronolog
