import Chronolog.Foundation.Doubles
import Chronolog.LiveTail.Bridge
import Chronolog.Server.SearchOrder
import Chronolog.Web.App
import Chronolog.Web.SyslogDisplay

/-!
# Searches and live frames on one display

The browser together with the BFF and the engine.  A search is answered by the
engine at some moment and its reply arrives later; every socket has a connection
of its own on the BFF, with a fresh memory of what it has sent, and its frames
arrive in order.  Nothing compares the rows that come from different searches
and connections: a record has one row as long as no frame arrives for a record
that is on the display or buffered, and no reply lists a buffered record.
-/

namespace Chronolog
namespace Web

open Binary64 (Double)
open LiveTail Pipeline Search Server Storage Utf8

/-- A record of an answer as the browser receives it. -/
def resultEntry (result : LogRecordID × Bytes) : Entry LogRecordID where
  raw := rawEntryOf (entryOf result.2)
  record := result.1

/-! ## The BFF -/

/-- `handleSearch`: the request of a search whose parameters are accepted.
`int64Field` is what protobuf makes of a number in an `int64` field. -/
def handleSearch (int64Field : Double → Int64) (params : SearchParams) :
    Option SearchRequest :=
  if params.startTime < 0 ∨ params.endTime < params.startTime ∨
      params.limit < 1 ∨ 5000 < params.limit then none
  else
    some
      { term := params.term.flatMap encode
        startNano := int64Field (.finite (toNanos params.startTime))
        endNano := int64Field (.finite (toNanos params.endTime))
        limit := params.limit }

/-- The request of a poll. -/
def pollRequest (int64Field : Double → Int64) (request : QueryRequest) : SearchRequest where
  term := request.term
  startNano := int64Field (.finite request.startTimeNano)
  endNano := int64Field (.finite request.endTimeNano)
  limit := request.limit

/-- The numbers of an `int64` field. -/
def FitsInt64 (number : Int) : Prop := -2 ^ 63 ≤ number ∧ number < 2 ^ 63

/-- A conversion keeps the numbers of an `int64` field, and takes the largest one for
those above. -/
structure Saturates (int64Field : Double → Int64) : Prop where
  kept : ∀ number : Int, FitsInt64 number → (int64Field (.finite number)).toInt = number
  above : ∀ number : Int, 2 ^ 63 ≤ number → int64Field (.finite number) = Int64.maxValue

/-- `Long.fromNumber`, the conversion of the protobuf library. -/
def longField : Double → Int64
  | .finite number =>
      if number ≤ -2 ^ 63 then Int64.minValue
      else if 2 ^ 63 ≤ number + 1 then Int64.maxValue
      else Int64.ofInt (if number < 0 then ⌈number⌉ else ⌊number⌋)
  | .infinite negative => if negative then Int64.minValue else Int64.maxValue
  | .notANumber => 0

theorem saturates_longField : Saturates longField where
  kept := by
    intro number fits
    obtain ⟨low, high⟩ := fits
    unfold longField
    dsimp only
    split_ifs with least greatest negative
    · have same : number = -2 ^ 63 := le_antisymm (by exact_mod_cast least) low
      rw [same]
      rfl
    · have same : number = 2 ^ 63 - 1 := by
        have reaches : (2 : Int) ^ 63 ≤ number + 1 := by exact_mod_cast greatest
        omega
      rw [same]
      rfl
    · rw [Int.ceil_intCast]
      exact Int64.toInt_ofInt_of_le low high
    · rw [Int.floor_intCast]
      exact Int64.toInt_ofInt_of_le low high
  above := by
    intro number high
    have notLeast : ¬ (number : Rat) ≤ -2 ^ 63 := by
      rw [not_le]
      have positive : (-2 ^ 63 : Int) < number := by omega
      exact_mod_cast positive
    have greatest : (2 : Rat) ^ 63 ≤ number + 1 := by
      have reaches : (2 : Int) ^ 63 ≤ number + 1 := by omega
      exact_mod_cast reaches
    unfold longField
    dsimp only
    rw [if_neg notLeast, if_pos greatest]

/-- A record of an answer as the live tail reads it. -/
def tailEntry (result : LogRecordID × Bytes) : LiveTail.LogEntry where
  timestampNano := "0".toUTF8.toList
  message := result.2

/-- The records of an answer for which `observe` sends a frame. -/
def observed
    (sha1Hex : Bytes → Bytes)
    (seen current : OrderedStore Bytes Nat) :
    List (LogRecordID × Bytes) → List (LogRecordID × Bytes)
  | [] => []
  | result :: results =>
      let key := entryKey sha1Hex (tailEntry result)
      let occurrence := current.getD key 0 + 1
      let rest := observed sha1Hex seen (current.insert key occurrence) results
      if seen.getD key 0 < occurrence then result :: rest else rest

/-- The frames of `observe` are those of the observed records. -/
theorem content_observe
    (sha1Hex : Bytes → Bytes)
    (seen current : OrderedStore Bytes Nat)
    (clock : Nat → Bytes)
    (results : List (LogRecordID × Bytes)) :
    (observe sha1Hex seen current clock (results.map tailEntry)).2.filterMap
        Frame.content? =
      (observed sha1Hex seen current results).map tailEntry := by
  induction results generalizing current with
  | nil => rfl
  | cons result results inductionHypothesis =>
      rw [List.map_cons, observe_cons, observed]
      dsimp only
      split
      · rw [List.filterMap_cons, List.map_cons, inductionHypothesis]
        rfl
      · exact inductionHypothesis _

/-- A connection of the live tail: its variables, what the engine answered to
the call in progress, and the frames on their way to the browser. -/
structure Connection where
  term : Bytes
  tail : Tail
  answered : Option (List (LogRecordID × Bytes))
  inFlight : List (Packet LogRecordID)

namespace Connection

/-- `createLiveTail` -/
def start (term : Bytes) (now : Int) (isOpen : Bool) : Connection where
  term := term
  tail := Tail.createLiveTail term now isOpen
  answered := none
  inFlight := [.status "connecting".toList]

/-- The callback of a poll that was answered. -/
def report
    (sha1Hex : Bytes → Bytes)
    (connection : Connection)
    (results : List (LogRecordID × Bytes))
    (clock : Nat → Bytes) : Connection :=
  { connection with
    tail := connection.tail.callback sha1Hex (.response (results.map tailEntry) []) clock
    answered := none
    inFlight :=
      if connection.tail.stopped then connection.inFlight
      else
        connection.inFlight ++
          (observed sha1Hex connection.tail.seen ∅ results).map
            (fun result => .log (resultEntry result)) ++
          [.status "connected".toList] }

/-- The callback of a poll that failed. -/
def reportFailure
    (sha1Hex : Bytes → Bytes)
    (connection : Connection)
    (message : Bytes) : Connection :=
  { connection with
    tail := connection.tail.callback sha1Hex (.failure message) fun _ => []
    answered := none
    inFlight :=
      if connection.tail.stopped then connection.inFlight
      else connection.inFlight ++ [.error (text message)] }

end Connection

/-! ## The whole system -/

/-- The engine, the browser, the answers to searches on their way to the browser,
and the connections by their sockets. -/
structure System where
  engine : Engine
  app : App LogRecordID
  answers : List (Nat × List (LogRecordID × Bytes))
  connections : Nat → Option Connection

/-- What can happen: a step of the engine's main loop, an event of the browser
alone, the answer to a search and its arrival, or its failure; a connection is
accepted, polls, is answered, reports, fails to, or ends; and a frame arrives. -/
inductive SystemEvent
  | engine (event : LoopEvent)
  | browser (event : AppEvent LogRecordID)
  | answer (number : Nat)
  | reply (number : Nat) (clock : Nat → Int × Int)
  | lost (number : Nat) (error : QueryError)
  | accept (socket : Nat) (now : Int) (isOpen : Bool)
  | poll (socket : Nat) (now : Int) (isOpen : Bool)
  | pollAnswer (socket : Nat)
  | pollReply (socket : Nat) (clock : Nat → Bytes)
  | pollFails (socket : Nat) (message : Bytes)
  | disconnect (socket : Nat)
  | deliver (socket : Nat) (clock : Nat → Int)

/-- Whether an event of the browser involves nobody else. -/
def AppEvent.isLocal {Key : Type} : AppEvent Key → Bool
  | .settle _ _ | .message _ _ _ => false
  | _ => true

/-- The records of an answer that protobuf can marshal. -/
def marshalled (engine : Engine) (request : SearchRequest) :
    Option (List (LogRecordID × Bytes)) :=
  let results := (engine.search request).results
  if ∀ result ∈ results, Valid result.2 then some results else none

namespace System

/-- The system when the page is opened over a database. -/
def start (db : DB) (query : Text) (timeRange : Rat) (isLive : Bool) (now : Int) :
    System where
  engine := Engine.start db
  app := App.mount query timeRange isLive now
  answers := []
  connections := fun _ => none

/-- Replace a connection. -/
def setConnection (system : System) (socket : Nat) (connection : Connection) : System :=
  { system with connections := Function.update system.connections socket (some connection) }

section Source

variable (unicode : UnicodeTables) (sha1Hex : Bytes → Bytes) (int64Field : Double → Int64)
  (builtins : Builtins)

/-- One event. -/
def step (system : System) : SystemEvent → Option System
  | .engine event =>
      (system.engine.step unicode event).map fun engine => { system with engine }
  | .browser event =>
      if event.isLocal then
        (system.app.step builtins event).map fun app => { system with app }
      else none
  | .answer number => do
      let search ← system.app.searches[number]?
      let request ← handleSearch int64Field search.params
      let results ← marshalled system.engine request
      if (system.answers.lookup number).isNone then
        some { system with answers := system.answers ++ [(number, results)] }
      else none
  | .reply number clock => do
      let results ← system.answers.lookup number
      let app ← system.app.step builtins
        (.settle number (.response (results.map resultEntry) clock))
      some { system with app }
  | .lost number error =>
      (system.app.step builtins (.settle number (.failure error))).map fun app =>
        { system with app }
  | .accept socket now isOpen => do
      let opening ← system.app.sockets[socket]?
      if opening.readyState = .connecting ∧ (system.connections socket).isNone then
        some (system.setConnection socket
          (Connection.start (opening.term.flatMap encode) now isOpen))
      else none
  | .poll socket now isOpen => do
      let connection ← system.connections socket
      let tail ← connection.tail.step sha1Hex connection.term (.poll now isOpen)
      some (system.setConnection socket { connection with tail })
  | .pollAnswer socket => do
      let connection ← system.connections socket
      let request ← connection.tail.activeCall
      let results ← marshalled system.engine (pollRequest int64Field request)
      if connection.answered.isNone then
        some (system.setConnection socket { connection with answered := some results })
      else none
  | .pollReply socket clock => do
      let connection ← system.connections socket
      let results ← connection.answered
      some (system.setConnection socket (connection.report sha1Hex results clock))
  | .pollFails socket message => do
      let connection ← system.connections socket
      if connection.tail.activeCall.isSome then
        some (system.setConnection socket (connection.reportFailure sha1Hex message))
      else none
  | .disconnect socket => do
      let connection ← system.connections socket
      some (system.setConnection socket { connection with tail := connection.tail.stop })
  | .deliver socket clock => do
      let connection ← system.connections socket
      match connection.inFlight with
      | packet :: inFlight =>
          let app ← system.app.step builtins (.message socket packet clock)
          some ({ system with app }.setConnection socket { connection with inFlight })
      | [] => none

end Source

/-- The records that are on the display. -/
def displayed (system : System) : List LogRecordID := system.app.logs.map Row.record

/-- The records that wait for the next flush. -/
def buffered (system : System) : List LogRecordID := system.app.bufferRef.map Row.record

/-- Whether an event brings nothing that is there already: the frame that arrives
is for a record that is neither on the display nor buffered, and no row of the
reply that arrives is of a buffered record. -/
def Fresh (builtins : Builtins) (system : System) : SystemEvent → Bool
  | .deliver socket _ =>
      match (system.connections socket).map Connection.inFlight with
      | some (.log entry :: _) =>
          if system.app.sockets[socket]?.any Socket.listening then
            entry.record ∉ system.displayed ∧ entry.record ∉ system.buffered
          else true
      | _ => true
  | .reply number clock =>
      match system.app.searches[number]?, system.answers.lookup number with
      | some search, some results =>
          (rowsOf builtins search.labels (results.map resultEntry) clock).all fun row =>
            row.record ∉ system.buffered
      | _, _ => true
  | _ => true

end System

/-! ## One row a record -/

variable {unicode : UnicodeTables} {sha1Hex : Bytes → Bytes} {int64Field : Double → Int64}
  {builtins : Builtins}

/-- No record is in two rows, now or after the next flush, and no answer on its
way lists a record twice. -/
structure RowsDistinct (system : System) : Prop where
  rows : (system.buffered ++ system.displayed).Nodup
  answers : ∀ answer ∈ system.answers, (answer.2.map Prod.fst).Nodup

theorem nodup_search_ids (engine : Engine) (request : SearchRequest) :
    ((engine.search request).results.map Prod.fst).Nodup := by
  rw [search_ids]
  exact ((FirstOccurrence.nodup_eraseDups _).filter _).sublist (List.take_sublist _ _)

theorem nodup_of_marshalled
    {engine : Engine}
    {request : SearchRequest}
    {results : List (LogRecordID × Bytes)}
    (answered : marshalled engine request = some results) : (results.map Prod.fst).Nodup := by
  obtain ⟨_, same⟩ := Option.ite_none_right_eq_some.mp answered
  exact Option.some.inj same ▸ nodup_search_ids engine request

/-- The rows of a reply are of records the answer lists, in its order. -/
theorem records_rowsOf_sublist
    (labels : List Label)
    (results : List (LogRecordID × Bytes))
    (clock : Nat → Int × Int) :
    ((rowsOf builtins labels (results.map resultEntry) clock).map Row.record).Sublist
      (results.map Prod.fst) := by
  have records : ((results.map resultEntry).mapIdx fun index entry =>
      { log := normalizeLogEntry builtins (clock index).1 (clock index).2 entry.raw index
        record := entry.record : Row LogRecordID }).map Row.record =
      results.map Prod.fst := by
    rw [List.mapIdx_eq_zipIdx_map, List.map_map]
    change ((results.map resultEntry).zipIdx).map (Entry.record ∘ Prod.fst) = _
    rw [← List.map_map, List.zipIdx_map_fst, List.map_map]
    rfl
  rw [← records, rowsOf]
  split
  · exact List.Sublist.refl _
  · exact List.filter_sublist.map _

theorem nodup_of_keepsLists
    {app next : App LogRecordID}
    (distinct : (app.bufferRef.map Row.record ++ app.logs.map Row.record).Nodup)
    (keeps : KeepsLists app next) :
    (next.bufferRef.map Row.record ++ next.logs.map Row.record).Nodup := by
  obtain ⟨logs, same | empty⟩ := keeps
  · rwa [logs, same]
  · rw [logs, empty]
    exact (List.nodup_append.mp distinct).2.1

/-- Events of the browser alone keep the rows distinct. -/
theorem nodup_of_local
    {app next : App LogRecordID}
    {event : AppEvent LogRecordID}
    (distinct : (app.bufferRef.map Row.record ++ app.logs.map Row.record).Nodup)
    (isLocal : event.isLocal = true)
    (stepped : app.step builtins event = some next) :
    (next.bufferRef.map Row.record ++ next.logs.map Row.record).Nodup := by
  rcases lists_of_step stepped with keeps | ⟨_, _, _, rfl, _⟩ | ⟨_, _, _, rfl, _⟩ |
    ⟨_, rfl, logs, buffer⟩
  · exact nodup_of_keepsLists distinct keeps
  · exact absurd isLocal Bool.false_ne_true
  · exact absurd isLocal Bool.false_ne_true
  · rw [logs, buffer, List.map_nil, List.nil_append, List.map_take, List.map_append]
    exact distinct.sublist (List.take_sublist _ _)

/-- A frame for a record that is nowhere yet adds one row. -/
theorem nodup_of_message
    {app next : App LogRecordID}
    {socket : Nat}
    {packet : Packet LogRecordID}
    {clock : Nat → Int}
    (distinct : (app.bufferRef.map Row.record ++ app.logs.map Row.record).Nodup)
    (stepped : app.step builtins (.message socket packet clock) = some next)
    (fresh : ∀ entry, packet = .log entry →
      app.sockets[socket]?.any Socket.listening = true →
        entry.record ∉ app.logs.map Row.record ∧
          entry.record ∉ app.bufferRef.map Row.record) :
    (next.bufferRef.map Row.record ++ next.logs.map Row.record).Nodup := by
  rcases lists_of_step stepped with keeps | ⟨_, _, _, impossible, _⟩ |
    ⟨_, entry, _, same, listening, logs, buffer⟩ | ⟨_, impossible, _⟩
  · exact nodup_of_keepsLists distinct keeps
  · exact absurd impossible (by simp)
  · obtain ⟨rfl, rfl, rfl⟩ := AppEvent.message.inj same
    obtain ⟨notDisplayed, notBuffered⟩ := fresh entry rfl listening
    have perm : (app.bufferRef.map Row.record ++ [entry.record] ++
        app.logs.map Row.record).Perm
        (entry.record :: (app.bufferRef.map Row.record ++ app.logs.map Row.record)) := by
      rw [List.append_assoc, List.singleton_append]
      exact List.perm_middle
    rw [logs, buffer, List.map_append, List.map_singleton, liveRow, perm.nodup_iff,
      List.nodup_cons, List.mem_append, not_or]
    exact ⟨⟨notBuffered, notDisplayed⟩, distinct⟩
  · exact absurd impossible (by simp)

theorem mem_of_lookup
    {answers : List (Nat × List (LogRecordID × Bytes))}
    {number : Nat}
    {results : List (LogRecordID × Bytes)}
    (found : answers.lookup number = some results) : (number, results) ∈ answers := by
  obtain ⟨before, after, rfl, _⟩ := List.lookup_eq_some_iff.mp found
  simp

/-- The rows of a reply replace those on the display. -/
theorem RowsDistinct.reply
    {system next : System}
    {number : Nat}
    {clock : Nat → Int × Int}
    (distinct : RowsDistinct system)
    (fresh : system.Fresh builtins (.reply number clock) = true)
    (stepped : system.step unicode sha1Hex int64Field builtins (.reply number clock) = some next) :
    RowsDistinct next := by
  simp only [System.step, Option.bind_eq_bind, Option.bind_eq_some_iff] at stepped
  obtain ⟨results, found, app, settled, same⟩ := stepped
  obtain rfl := Option.some.inj same
  obtain ⟨search, issued, _, rfl⟩ := settle_eq_some settled
  refine ⟨?_, distinct.answers⟩
  rw [System.Fresh, issued, found] at fresh
  refine List.nodup_append.mpr ⟨(List.nodup_append.mp distinct.rows).1,
    (distinct.answers _ (mem_of_lookup found)).sublist
      (records_rowsOf_sublist search.labels results clock), ?_⟩
  intro record inBuffer other shown same
  obtain ⟨row, member, rfl⟩ := List.mem_map.mp shown
  have notBuffered := List.all_eq_true.mp fresh row member
  exact of_decide_eq_true notBuffered (same ▸ inBuffer)

/-- A frame adds a row to the buffer. -/
theorem RowsDistinct.deliver
    {system next : System}
    {socket : Nat}
    {clock : Nat → Int}
    (distinct : RowsDistinct system)
    (fresh : system.Fresh builtins (.deliver socket clock) = true)
    (stepped : system.step unicode sha1Hex int64Field builtins (.deliver socket clock) =
      some next) :
    RowsDistinct next := by
  simp only [System.step, Option.bind_eq_bind, Option.bind_eq_some_iff] at stepped
  obtain ⟨connection, found, stepped⟩ := stepped
  split at stepped
  next packet inFlight queued =>
    obtain ⟨app, delivered, same⟩ := Option.bind_eq_some_iff.mp stepped
    obtain rfl := Option.some.inj same
    refine ⟨nodup_of_message distinct.rows delivered fun entry isLog listening => ?_,
      distinct.answers⟩
    subst isLog
    rw [System.Fresh, found, Option.map_some, queued] at fresh
    simp only [listening, if_true] at fresh
    exact of_decide_eq_true fresh
  next => exact absurd stepped.symm (Option.some_ne_none next)

/-- One event that brings nothing that is there already. -/
theorem rowsDistinct_step
    {system next : System}
    {event : SystemEvent}
    (distinct : RowsDistinct system)
    (fresh : system.Fresh builtins event = true)
    (stepped : system.step unicode sha1Hex int64Field builtins event = some next) :
    RowsDistinct next := by
  obtain ⟨rows, listed⟩ := distinct
  cases event with
  | engine event =>
      obtain ⟨engine, _, rfl⟩ := Option.map_eq_some_iff.mp stepped
      exact ⟨rows, listed⟩
  | browser event =>
      obtain ⟨isLocal, same⟩ := Option.ite_none_right_eq_some.mp stepped
      obtain ⟨app, browsed, rfl⟩ := Option.map_eq_some_iff.mp same
      exact ⟨nodup_of_local rows isLocal browsed, listed⟩
  | answer number =>
      simp only [System.step, Option.bind_eq_bind, Option.bind_eq_some_iff] at stepped
      obtain ⟨search, _, request, _, results, answered, same⟩ := stepped
      obtain ⟨_, same⟩ := Option.ite_none_right_eq_some.mp same
      obtain rfl := Option.some.inj same
      refine ⟨rows, fun answer member => ?_⟩
      rcases List.mem_append.mp member with earlier | last
      · exact listed answer earlier
      · rw [List.mem_singleton.mp last]
        exact nodup_of_marshalled answered
  | reply number clock =>
      exact RowsDistinct.reply ⟨rows, listed⟩ fresh stepped
  | lost number error =>
      obtain ⟨app, settled, rfl⟩ := Option.map_eq_some_iff.mp stepped
      obtain ⟨search, _, _, rfl⟩ := settle_eq_some settled
      refine ⟨?_, listed⟩
      change (system.buffered ++ []).Nodup
      rw [List.append_nil]
      exact (List.nodup_append.mp rows).1
  | accept socket now isOpen =>
      simp only [System.step, Option.bind_eq_bind, Option.bind_eq_some_iff] at stepped
      obtain ⟨opening, _, same⟩ := stepped
      obtain ⟨_, same⟩ := Option.ite_none_right_eq_some.mp same
      exact Option.some.inj same ▸ ⟨rows, listed⟩
  | poll socket now isOpen =>
      simp only [System.step, Option.bind_eq_bind, Option.bind_eq_some_iff] at stepped
      obtain ⟨connection, _, tail, _, same⟩ := stepped
      exact Option.some.inj same ▸ ⟨rows, listed⟩
  | pollAnswer socket =>
      simp only [System.step, Option.bind_eq_bind, Option.bind_eq_some_iff] at stepped
      obtain ⟨connection, _, request, _, results, _, same⟩ := stepped
      obtain ⟨_, same⟩ := Option.ite_none_right_eq_some.mp same
      exact Option.some.inj same ▸ ⟨rows, listed⟩
  | pollReply socket clock =>
      simp only [System.step, Option.bind_eq_bind, Option.bind_eq_some_iff] at stepped
      obtain ⟨connection, _, results, _, same⟩ := stepped
      exact Option.some.inj same ▸ ⟨rows, listed⟩
  | pollFails socket message =>
      simp only [System.step, Option.bind_eq_bind, Option.bind_eq_some_iff] at stepped
      obtain ⟨connection, _, same⟩ := stepped
      obtain ⟨_, same⟩ := Option.ite_none_right_eq_some.mp same
      exact Option.some.inj same ▸ ⟨rows, listed⟩
  | disconnect socket =>
      simp only [System.step, Option.bind_eq_bind, Option.bind_eq_some_iff] at stepped
      obtain ⟨connection, _, same⟩ := stepped
      exact Option.some.inj same ▸ ⟨rows, listed⟩
  | deliver socket clock =>
      exact RowsDistinct.deliver ⟨rows, listed⟩ fresh stepped

/-- Once a record is buffered twice, or buffered and displayed, the next flush
shows it twice unless rows are cut off. -/
theorem nodup_flush_iff
    {app : App LogRecordID}
    (room : app.bufferRef.length + app.logs.length ≤ liveMaxLines) :
    (app.flush.logs.map Row.record).Nodup ↔
      (app.bufferRef.map Row.record ++ app.logs.map Row.record).Nodup := by
  rw [← List.map_append, App.flush]
  split
  next empty => rw [empty, List.nil_append]
  next =>
    rw [List.take_of_length_le]
    rwa [List.length_append]

theorem rowsDistinct_start
    (db : DB)
    (query : Text)
    (timeRange : Rat)
    (isLive : Bool)
    (now : Int) : RowsDistinct (System.start db query timeRange isLive now) := by
  refine ⟨?_, fun answer member => absurd member List.not_mem_nil⟩
  rw [System.buffered, System.displayed, System.start, bufferRef_mount, logs_mount]
  exact List.nodup_nil

/-- In a run in which no frame arrives for a record that is on the display or
buffered, and no reply lists a buffered record, a record never has two rows. -/
theorem one_row_per_record
    (unicode : UnicodeTables)
    (sha1Hex : Bytes → Bytes)
    (int64Field : Double → Int64)
    (builtins : Builtins)
    (db : DB)
    (query : Text)
    (timeRange : Rat)
    (isLive : Bool)
    (now : Int)
    (events : List SystemEvent)
    (system : System)
    (reached : Transition.run (System.step unicode sha1Hex int64Field builtins)
      (System.start db query timeRange isLive now) events = some system)
    (fresh : ∀ moment event, Transition.Performs (System.step unicode sha1Hex int64Field builtins)
      (System.start db query timeRange isLive now) events moment event →
        moment.Fresh builtins event = true) :
    ∀ moment, Transition.Passes (System.step unicode sha1Hex int64Field builtins)
      (System.start db query timeRange isLive now) events moment →
        moment.displayed.Nodup := by
  rintro moment ⟨before, after, rfl, passed⟩
  have distinct : RowsDistinct moment := by
    refine Transition.run_history_meeting (fun _ state => RowsDistinct state)
      (rowsDistinct_start db query timeRange isLive now) ?_ passed
      fun earlier event performed =>
        fresh earlier event (Transition.performs_append performed)
    exact fun history state event next _ distinct fresh stepped =>
      rowsDistinct_step distinct fresh stepped
  exact (List.nodup_append.mp distinct.rows).2.1

/-! ## A record with two rows -/

/-- A line stored fifteen minutes after the epoch. -/
def quarterItem : Arrival where
  now := 900000000000
  packet := .ofString "<34>hello"

/-- The browser searches for `hello` and displays the line. -/
def searchHello : List SystemEvent :=
  (iteration quarterItem ++ [LoopEvent.tick true]).map SystemEvent.engine ++
    [.answer 0, .reply 0 fun _ => (0, 0)]

/-- Live tail is turned on; its first poll finds the line again. -/
def tailHello : List SystemEvent :=
  [.browser .space, .accept 0 1000001 true, .browser (.opened 0), .pollAnswer 0,
    .pollReply 0 fun _ => [], .deliver 0 fun _ => 0, .deliver 0 fun _ => 0,
    .browser (.flush 0)]

/-- The system when the page is opened with a query for `hello`. -/
def openedHello : System := System.start ∅ "| hello".toList 15 false 1000000

/-- A digest that tells the texts of entries apart. -/
def plainDigest (text : Bytes) : Bytes := text

theorem one_row_per_record_searchHello :
    ∃ system, Transition.run (System.step asciiTables plainDigest longField asciiBuiltins)
        openedHello searchHello = some system ∧
      system.displayed = [recordID quarterItem] ∧
      ∀ moment, Transition.Passes (System.step asciiTables plainDigest longField asciiBuiltins)
        openedHello searchHello moment → moment.displayed.Nodup := by
  obtain ⟨system, guarded, shown⟩ := (Option.any_eq_true _ _).mp
    (by decide +kernel : (Transition.run (Transition.guarded
      (System.step asciiTables plainDigest longField asciiBuiltins) (System.Fresh asciiBuiltins))
      openedHello searchHello).any (fun system =>
        decide (system.displayed = [recordID quarterItem])) = true)
  obtain ⟨reached, fresh⟩ := Transition.run_guarded guarded
  exact ⟨system, reached, of_decide_eq_true shown,
    one_row_per_record asciiTables plainDigest longField asciiBuiltins ∅ "| hello".toList 15 false
      1000000 searchHello system reached fresh⟩

/-- The line that the search found has a second row once live tail is on. -/
theorem tailed_record_has_two_rows :
    ¬ ∀ unicode sha1Hex int64Field builtins db query timeRange isLive now events system,
      Transition.run (System.step unicode sha1Hex int64Field builtins)
        (System.start db query timeRange isLive now) events = some system →
      system.displayed.Nodup := by
  intro claim
  obtain ⟨system, reached, shown⟩ := (Option.any_eq_true _ _).mp
    (by decide +kernel : (Transition.run
      (System.step asciiTables plainDigest longField asciiBuiltins)
      openedHello (searchHello ++ tailHello)).any (fun system =>
        decide (system.displayed = [recordID quarterItem, recordID quarterItem])) = true)
  have distinct := claim asciiTables plainDigest longField asciiBuiltins ∅ "| hello".toList 15 false
    1000000 _ system reached
  rw [of_decide_eq_true shown] at distinct
  exact (List.nodup_cons.mp distinct).1 List.mem_cons_self

end Web
end Chronolog
