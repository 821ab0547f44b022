import Chronolog.Ingestion.SyslogParts
import Chronolog.Server.Responses
import Chronolog.Web.DisplayedFields

/-!
# Syslog lines on the display

A syslog line is parsed by the engine, which stores its message alone, and read
again by the browser, which looks for the header the engine has dropped.  The
host, the application and the level of the line reach the display only by
coincidence: when the application is the browser's default and the message
names the host first and words the severity.
-/

namespace Chronolog
namespace Web

open Ingestion Pipeline Search Server Storage Utf8

/-- A line `<PRI>Mmm dd hh:mm:ss HOST APP: MSG`.  Of the timestamp the shape is
given. -/
structure SyslogLine where
  pri : Nat
  timestamp : Bytes
  host : Text
  app : Text
  msg : Bytes
  pri_le : pri ≤ 191
  timestamp_length : timestamp.length = 15
  timestamp_month : timestamp[3]? = some 0x20
  timestamp_day : timestamp[6]? = some 0x20
  timestamp_head : timestamp.head? ≠ some 0x20
  host_ne_nil : host ≠ []
  host_noSpace : ' ' ∉ host
  app_ne_nil : app ≠ []
  app_noSpace : ' ' ∉ app

namespace SyslogLine

variable (line : SyslogLine)

/-- `APP: MSG` -/
def tagged : Bytes := line.app.flatMap encode ++ 0x3A :: 0x20 :: line.msg

/-- The whole line. -/
def bytes : Bytes :=
  syslogHeader line.pri line.timestamp ++
    (line.host.flatMap encode ++ 0x20 :: line.tagged)

/-- The bytes of a line before the application. -/
def hostEnd : Nat :=
  (syslogHeader line.pri line.timestamp).length + (line.host.flatMap encode).length + 1

/-- The text of the message as far as it fits into the packet buffer. -/
def kept : Text :=
  text (line.msg.take (bufferSize - (line.hostEnd + (line.app.flatMap encode).length + 2)))

end SyslogLine

/-! ## The message the engine stores -/

theorem length_syslogHeader_le
    {pri : Nat}
    {timestamp : Bytes}
    (small : pri ≤ 191)
    (length : timestamp.length = 15) : (syslogHeader pri timestamp).length ≤ 21 := by
  obtain ⟨_, short, _, _⟩ := atoi_pri pri (Nat.lt_succ_of_le small)
  rw [syslogHeader]
  simp only [List.length_cons, List.length_append, List.length_nil, length]
  omega

theorem space_notMem {chars : Text} (noSpace : ' ' ∉ chars) :
    (0x20 : UInt8) ∉ chars.flatMap encode :=
  fun member => noSpace (mem_of_mem_flatMap_encode (by decide) (by decide) member)

namespace SyslogLine

variable (line : SyslogLine)

theorem take_tagged_untrimmed (size : Nat) :
    trimLeft (line.tagged.take size) = line.tagged.take size := by
  apply trimLeft_eq_self
  intro first
  have nonempty : line.app.flatMap encode ≠ [] := by
    intro empty
    have length := length_le_length_flatMap_encode line.app
    rw [empty, List.length_nil, Nat.le_zero, List.length_eq_zero_iff] at length
    exact line.app_ne_nil length
  have same : line.tagged.head? = some 0x20 := by
    rw [← List.take_append_drop size line.tagged, List.head?_append, first, Option.some_or]
  rw [tagged, List.head?_append_of_ne_nil _ nonempty] at same
  exact head?_ne_of_notMem (space_notMem line.app_noSpace) same

/-- The message of a packet that holds a syslog line: what is behind the host, or
the beginning of a host that does not fit into the buffer. -/
theorem message_of_packet
    {arrival : Arrival}
    {buf : Bytes}
    (size : buf.length = bufferSize)
    (packet : arrival.packet = fillBuffer buf line.bytes) :
    (bufferSize < line.hostEnd ∧ arrival.message = (line.host.flatMap encode).take
        (bufferSize - (syslogHeader line.pri line.timestamp).length)) ∨
      line.hostEnd ≤ bufferSize ∧
        arrival.message = line.tagged.take (bufferSize - line.hostEnd) := by
  have headerLength := length_syslogHeader_le line.pri_le line.timestamp_length
  have host_pos : 0 < (line.host.flatMap encode).length :=
    Nat.lt_of_lt_of_le (List.length_pos_iff.mpr line.host_ne_nil)
      (length_le_length_flatMap_encode line.host)
  have noSpace := space_notMem line.host_noSpace
  have capacity : bufferSize = 2048 := rfl
  have parsed : arrival.message = (parseSyslogRFC3164 arrival.now
      (syslogHeader line.pri line.timestamp ++
        (line.host.flatMap encode ++ 0x20 :: line.tagged).take
          (bufferSize - (syslogHeader line.pri line.timestamp).length))).message := by
    have filled := filled_fillBuffer buf line.bytes
    rw [← packet, size, SyslogLine.bytes, List.take_append,
      List.take_of_length_le (by omega)] at filled
    rw [← filled]
    rfl
  have restNonempty : (line.host.flatMap encode ++ 0x20 :: line.tagged).take
      (bufferSize - (syslogHeader line.pri line.timestamp).length) ≠ [] := by
    rw [← List.length_pos_iff, List.length_take, List.length_append]
    omega
  rw [parseSyslogRFC3164_syslogHeader arrival.now line.pri_le line.timestamp_length
    line.timestamp_month line.timestamp_day line.timestamp_head restNonempty,
    List.take_append] at parsed
  rw [hostEnd]
  rcases Nat.lt_or_ge (line.host.flatMap encode).length
      (bufferSize - (syslogHeader line.pri line.timestamp).length) with fits | cut
  · refine Or.inr ⟨by omega, ?_⟩
    obtain ⟨left, leftEq⟩ : ∃ left,
        bufferSize - (syslogHeader line.pri line.timestamp).length -
          (line.host.flatMap encode).length = left + 1 := ⟨_, (Nat.succ_pred_eq_of_pos
            (by omega)).symm⟩
    have untrimmed : trimLeft (line.host.flatMap encode ++ 0x20 :: line.tagged.take left) =
        line.host.flatMap encode ++ 0x20 :: line.tagged.take left := by
      apply trimLeft_eq_self
      rw [List.head?_append_of_ne_nil _ (List.length_pos_iff.mp host_pos)]
      exact head?_ne_of_notMem noSpace
    rw [List.take_of_length_le (Nat.le_of_lt fits), leftEq, List.take_succ_cons,
      untrimmed, splitHostname_word _ _ noSpace, take_tagged_untrimmed] at parsed
    apply parsed.trans
    change line.tagged.take left = _
    congr 1
    omega
  · refine Or.inl ⟨by omega, ?_⟩
    have absent : (0x20 : UInt8) ∉ (line.host.flatMap encode).take
        (bufferSize - (syslogHeader line.pri line.timestamp).length) :=
      fun member => noSpace (List.mem_of_mem_take member)
    rwa [Nat.sub_eq_zero_of_le cut, List.take_zero, List.append_nil,
      trimLeft_eq_self (head?_ne_of_notMem absent), splitHostname_single _ absent] at parsed

theorem tagged_eq : line.tagged = (line.app ++ [':', ' ']).flatMap encode ++ line.msg := by
  rw [List.flatMap_append, List.append_assoc]
  rfl

end SyslogLine

/-! ## The display -/

/-- The entry of a response as the browser receives it. -/
def rawEntryOf (entry : LogEntry) : RawEntry where
  timestampNano := some entry.timestampNano.toInt
  message := text entry.message
  id := []
  timestamp := []
  app := []
  host := []
  env := []
  metadata := []

/-- The engine received a line and returns its record in a later query, in a
response that can be encoded. -/
structure Returned (unicode : UnicodeTables) (line : SyslogLine) (entry : LogEntry) : Prop where
  queried : ∃ events engine arrival request buf,
    Engine.Reaches unicode events engine ∧ arrival ∈ received events ∧
      buf.length = bufferSize ∧ arrival.packet = fillBuffer buf line.bytes ∧
      (recordID arrival, arrival.message) ∈ (engine.search request).results ∧
      entry ∈ (engine.query request).logs ∧ entry = entryOf arrival.message
  encoded : Valid entry.message

/-- A displayed log shows the header of a line, and label selectors on its host
and its application select it. -/
structure Shown (builtins : Builtins) (line : SyslogLine) (log : DisplayLog) : Prop where
  host : log.host = line.host
  app : log.app = line.app
  level : log.level = priToSev.getD (line.pri % 8) .info
  host_selects : applyLabelFilters builtins [log] [⟨"host".toList, line.host⟩] = [log]
  app_selects : applyLabelFilters builtins [log] [⟨"app".toList, line.app⟩] = [log]

/-- The application of a line is the default of the browser, and its message
starts with the host and words the severity. -/
structure Repeated (builtins : Builtins) (line : SyslogLine) : Prop where
  app : line.app = "engine".toList
  host : firstWord line.kept = line.host
  level : MostSevere (builtins.toLowerCase ("engine: ".toList ++ line.kept))
    (priToSev.getD (line.pri % 8) .info)

theorem shown_iff {builtins : Builtins} {line : SyslogLine} {log : DisplayLog} :
    Shown builtins line log ↔
      log.host = line.host ∧ log.app = line.app ∧
        log.level = priToSev.getD (line.pri % 8) .info := by
  refine ⟨fun shown => ⟨shown.host, shown.app, shown.level⟩, ?_⟩
  rintro ⟨host, app, level⟩
  refine ⟨host, app, level, ?_, ?_⟩
  · simp [applyLabelFilters, satisfies, host]
  · simp [applyLabelFilters, satisfies, app]

/-- A host that does not leave room for the tag is not the default host. -/
theorem host_ne_unknown
    {line : SyslogLine}
    (far : bufferSize < line.hostEnd + 8) : line.host ≠ "unknown".toList := by
  intro same
  have headerLength := length_syslogHeader_le line.pri_le line.timestamp_length
  have hostLength : (line.host.flatMap encode).length = 7 := by
    rw [same]
    decide
  have capacity : bufferSize = 2048 := rfl
  rw [SyslogLine.hostEnd, hostLength] at far
  omega

/-- Nothing of the message is kept when its beginning does not fit. -/
theorem firstWord_kept_of_cut
    {line : SyslogLine}
    (cut : bufferSize < line.hostEnd + (line.app.flatMap encode).length + 2) :
    firstWord line.kept = "unknown".toList := by
  have nothing : line.kept = [] := by
    rw [SyslogLine.kept, Nat.sub_eq_zero_of_le (Nat.le_of_lt cut), List.take_zero]
    rfl
  rw [nothing]
  rfl

section Display

variable {builtins : Builtins} {newDate dateNow index : Int} {line : SyslogLine}
  {message : Bytes}

/-- A line whose host does not fit into the buffer. -/
theorem shown_iff_repeated_of_long_host
    (valid : Valid message)
    (long : bufferSize < line.hostEnd)
    {size : Nat}
    (stored : message = (line.host.flatMap encode).take size) :
    Shown builtins line
        (normalizeLogEntry builtins newDate dateNow (rawEntryOf (entryOf message)) index) ↔
      Repeated builtins line := by
  have notUnknown : line.host ≠ "unknown".toList := host_ne_unknown (by omega)
  have shorter : (text message).length ≤ line.host.length := by
    have start := text_take_prefix (stored ▸ valid)
    rw [text_flatMap_encode, ← stored] at start
    exact start.length_le
  refine iff_of_false (fun shown => ?_) fun repeated => ?_
  · rcases host_shorter builtins newDate dateNow index (rawEntryOf (entryOf message)) rfl
      with default | less
    · exact notUnknown (shown.host ▸ default)
    · rw [shown.host] at less
      exact absurd less (Nat.not_lt.mpr shorter)
  · have same := repeated.host
    rw [firstWord_kept_of_cut (by omega)] at same
    exact notUnknown same.symm

/-- A message cut inside its tag has no second word. -/
theorem firstWord_of_cut_engine
    {shown rest : Text}
    (start : shown <+: "engine: ".toList ++ rest)
    (short : shown.length ≤ 7) :
    firstWord (shown.dropWhile isNonSpace) = "unknown".toList := by
  have noBlank : shown.dropWhile isNonSpace = [] := by
    rw [List.dropWhile_eq_nil_iff]
    have inTag : shown <+: "engine:".toList :=
      List.prefix_of_prefix_length_le start (List.prefix_append "engine:".toList
        (' ' :: rest)) short
    have words : "engine:".toList.all isNonSpace = true := by decide
    exact fun char member => List.all_eq_true.mp words char (inTag.subset member)
  rw [noBlank]
  rfl

/-- A message that keeps its tag is the tag and what is kept of the line. -/
theorem text_eq_engine_kept
    (stored : message = line.tagged.take (bufferSize - line.hostEnd))
    (engine : line.app = "engine".toList)
    (room : line.hostEnd + 8 ≤ bufferSize) :
    text message = "engine: ".toList ++ line.kept := by
  have tag : ((line.app ++ [':', ' ']).flatMap encode).length = 8 := by
    rw [engine]
    decide
  have tagLength : (line.app.flatMap encode).length = 6 := by
    rw [engine]
    decide
  rw [stored, line.tagged_eq, List.take_append, List.take_of_length_le (by omega),
    text_flatMap_encode_append, tag, engine, SyslogLine.kept, tagLength, Nat.sub_sub]
  rfl

/-- A line of the default application. -/
theorem shown_iff_repeated_of_engine
    (valid : Valid message)
    (fits : line.hostEnd ≤ bufferSize)
    (stored : message = line.tagged.take (bufferSize - line.hostEnd))
    (engine : line.app = "engine".toList) :
    Shown builtins line
        (normalizeLogEntry builtins newDate dateNow (rawEntryOf (entryOf message)) index) ↔
      Repeated builtins line := by
  have start : text message <+: "engine: ".toList ++ text line.msg := by
    have whole := text_take_prefix (stored ▸ valid)
    rw [line.tagged_eq, text_flatMap_encode_append, ← line.tagged_eq, ← stored,
      engine] at whole
    exact whole
  have head : ∀ char, (text message).head? = some char → char = 'e' := by
    intro char first
    obtain ⟨more, whole⟩ := start
    have same : (text message ++ more).head? = some 'e' := by
      rw [whole]
      rfl
    rw [List.head?_append, first, Option.some_or, Option.some.injEq] at same
    exact same
  obtain ⟨level, app, host⟩ := normalizeLogEntry_word builtins newDate dateNow index
    (rawEntryOf (entryOf message)) rfl rfl
    (fun bracket => absurd (head _ bracket) (by decide))
    (fun bracket => absurd (head _ bracket) (by decide))
    (fun char first => head char first ▸ by decide)
  have tagLength : (line.app.flatMap encode).length = 6 := by
    rw [engine]
    decide
  rw [shown_iff, level, app, host]
  rcases Nat.lt_or_ge bufferSize (line.hostEnd + 8) with cut | room
  · have notUnknown := host_ne_unknown cut
    have short : (text message).length ≤ 7 := by
      have bytes := length_le_length_flatMap_encode (text message)
      have size := congrArg List.length stored
      rw [encode_text valid] at bytes
      rw [List.length_take] at size
      omega
    have shownHost := firstWord_of_cut_engine start short
    refine iff_of_false (fun shown => ?_) fun repeated => ?_
    · exact notUnknown (shown.1.symm.trans shownHost)
    · have same := repeated.host
      rw [firstWord_kept_of_cut (by omega)] at same
      exact notUnknown same.symm
  · have content := text_eq_engine_kept stored engine room
    have second : firstWord ((text message).dropWhile isNonSpace) =
        firstWord line.kept := by
      rw [content]
      rfl
    change firstWord ((text message).dropWhile isNonSpace) = line.host ∧
      "engine".toList = line.app ∧
        detectLevel (builtins.toLowerCase (text message)) = _ ↔ _
    rw [second, content, detectLevel_eq_iff]
    constructor
    · rintro ⟨sameHost, sameApp, sameLevel⟩
      exact ⟨engine, sameHost, sameLevel⟩
    · intro repeated
      exact ⟨repeated.host, repeated.app.symm, repeated.level⟩

end Display

/-- The header of a syslog line is displayed exactly when its application is the
browser's default and its message, as far as it fits into the packet buffer,
starts with the host and words the severity. -/
theorem shown_iff_repeated
    (unicode : UnicodeTables)
    (builtins : Builtins)
    (line : SyslogLine)
    (entry : LogEntry)
    (newDate dateNow index : Int)
    (returned : Returned unicode line entry) :
    Shown builtins line
        (normalizeLogEntry builtins newDate dateNow (rawEntryOf entry) index) ↔
      Repeated builtins line := by
  obtain ⟨events, engine, arrival, request, buf, _, _, size, packet, _, _, rfl⟩ :=
    returned.queried
  have valid : Valid arrival.message := returned.encoded
  rcases line.message_of_packet size packet with ⟨long, stored⟩ | ⟨fits, stored⟩
  · exact shown_iff_repeated_of_long_host valid long stored
  · by_cases engine : line.app = "engine".toList
    · exact shown_iff_repeated_of_engine valid fits stored engine
    · have start : text arrival.message <+: line.app ++ ':' :: (' ' :: text line.msg) := by
        have whole := text_take_prefix (stored ▸ valid)
        rw [line.tagged_eq, text_flatMap_encode_append, ← line.tagged_eq, ← stored,
          List.append_assoc] at whole
        exact whole
      refine iff_of_false (fun shown => ?_) fun repeated => engine repeated.app
      exact engine (app_eq_engine builtins newDate dateNow index _ rfl start shown.app)

/-- A line `<34>Sep 24 16:15:00 HOST APP: MSG` -/
def exampleLine
    (host app : String)
    (msg : String)
    (host_ne_nil : host.toList ≠ [])
    (host_noSpace : ' ' ∉ host.toList)
    (app_ne_nil : app.toList ≠ [])
    (app_noSpace : ' ' ∉ app.toList) : SyslogLine where
  pri := 34
  timestamp := "Sep 24 16:15:00".toUTF8.toList
  host := host.toList
  app := app.toList
  msg := msg.toUTF8.toList
  pri_le := exampleParts.pri_le
  timestamp_length := exampleParts.timestamp_length
  timestamp_month := exampleParts.timestamp_month
  timestamp_day := exampleParts.timestamp_day
  timestamp_head := exampleParts.timestamp_head
  host_ne_nil
  host_noSpace
  app_ne_nil
  app_noSpace

/-- A line of the default application that names its host and its severity. -/
def engineLine : SyslogLine :=
  exampleLine "db" "engine" "db fatal" (by decide) (by decide) (by decide) (by decide)

/-- The README's example line. -/
def routerLine : SyslogLine :=
  exampleLine "api-gw" "router" "timeout" (by decide) (by decide) (by decide) (by decide)

/-- A run that stores a line with a number of tokens. -/
def storingRun (line : SyslogLine) (tokens : Nat) : List LoopEvent :=
  .receive (lineArrival 7 line.bytes) :: List.replicate tokens .register ++
    [.endItem true, .tick true]

/-- A stored line is returned for its term. -/
theorem returned_of_storingRun
    (line : SyslogLine)
    (tokens : Nat)
    (request : SearchRequest)
    (found : (Transition.run (Engine.step asciiTables) (Engine.start ∅)
      (storingRun line tokens)).any (fun engine =>
        decide ((recordID (lineArrival 7 line.bytes),
            (lineArrival 7 line.bytes).message) ∈ (engine.search request).results ∧
          entryOf (lineArrival 7 line.bytes).message ∈ (engine.query request).logs ∧
          Valid (entryOf (lineArrival 7 line.bytes).message).message)) = true) :
    Returned asciiTables line (entryOf (lineArrival 7 line.bytes).message) := by
  obtain ⟨engine, reached, facts⟩ := (Option.any_eq_true _ _).mp found
  obtain ⟨result, logged, valid⟩ := of_decide_eq_true facts
  have member : lineArrival 7 line.bytes ∈ received (storingRun line tokens) := by
    rw [storingRun, List.cons_append]
    exact List.mem_cons_self
  exact ⟨⟨storingRun line tokens, engine, lineArrival 7 line.bytes, request, freshBuffer,
    reached, member, length_freshBuffer, rfl, result, logged, rfl⟩, valid⟩

theorem shown_iff_repeated_engineLine :
    Shown asciiBuiltins engineLine (normalizeLogEntry asciiBuiltins 0 0
        (rawEntryOf (entryOf (lineArrival 7 engineLine.bytes).message)) 0) ↔
      Repeated asciiBuiltins engineLine :=
  shown_iff_repeated asciiTables asciiBuiltins engineLine _ 0 0 0
    (returned_of_storingRun engineLine 3 (searchFor "db") (by decide +kernel))

example : Repeated asciiBuiltins engineLine :=
  ⟨rfl, by decide +kernel, detectLevel_eq_iff.mp (by decide +kernel)⟩

/-- The README's line is displayed as one of the application `engine`. -/
theorem routerLine_not_shown :
    ¬ ∀ unicode builtins line entry newDate dateNow index,
      Returned unicode line entry →
        Shown builtins line
          (normalizeLogEntry builtins newDate dateNow (rawEntryOf entry) index) := by
  intro claim
  have shown := claim asciiTables asciiBuiltins routerLine _ 0 0 0
    (returned_of_storingRun routerLine 2 (searchFor "timeout") (by decide +kernel))
  exact absurd shown.app (by decide +kernel)

end Web
end Chronolog
