import Chronolog.Web.LiveRows

/-!
# What an event of the system does

Every event of the whole system with what it finds and what it leaves, said once, and
the part of the page in it: the page runs through events of its own, so what holds in
every run of the page holds of the page in every run of the system.
-/

namespace Chronolog
namespace Web

open Binary64 (Double)
open LiveTail Pipeline Search Server Storage Utf8

variable {unicode : UnicodeTables} {sha1Hex : Bytes → Bytes} {int64Field : Double → Int64}
  {builtins : Builtins}

/-- What an event finds and what it leaves. -/
inductive SystemChange
    (unicode : UnicodeTables)
    (sha1Hex : Bytes → Bytes)
    (int64Field : Double → Int64)
    (builtins : Builtins)
    (system : System) : SystemEvent → System → Prop
  | engine (event : LoopEvent) (engine : Engine) :
      system.engine.step unicode event = some engine →
      SystemChange unicode sha1Hex int64Field builtins system (.engine event) { system with engine }
  | browser (event : AppEvent LogRecordID) (app : App LogRecordID) :
      event.isLocal = true →
      system.app.step builtins event = some app →
      SystemChange unicode sha1Hex int64Field builtins system (.browser event) { system with app }
  | answer
      (number : Nat)
      (search : IssuedSearch LogRecordID)
      (request : SearchRequest)
      (results : List (LogRecordID × Bytes)) :
      system.app.searches[number]? = some search →
      handleSearch int64Field search.params = some request →
      marshalled system.engine request = some results →
      SystemChange unicode sha1Hex int64Field builtins system (.answer number)
        { system with answers := system.answers ++ [(number, results)] }
  | reply
      (number : Nat)
      (clock : Nat → Int × Int)
      (results : List (LogRecordID × Bytes))
      (app : App LogRecordID) :
      system.answers.lookup number = some results →
      system.app.step builtins
        (.settle number (.response (results.map resultEntry) clock)) = some app →
      SystemChange unicode sha1Hex int64Field builtins system (.reply number clock)
        { system with app }
  | lost (number : Nat) (error : QueryError) (app : App LogRecordID) :
      system.app.step builtins (.settle number (.failure error)) = some app →
      SystemChange unicode sha1Hex int64Field builtins system (.lost number error)
        { system with app }
  | accept (socket : Nat) (now : Int) (isOpen : Bool) (opening : Socket) :
      system.app.sockets[socket]? = some opening →
      system.connections socket = none →
      SystemChange unicode sha1Hex int64Field builtins system (.accept socket now isOpen)
        (system.setConnection socket
          (Connection.start (opening.term.flatMap encode) now isOpen))
  | poll (socket : Nat) (now : Int) (isOpen : Bool) (connection : Connection) (tail : Tail) :
      system.connections socket = some connection →
      connection.tail.step sha1Hex connection.term (.poll now isOpen) = some tail →
      SystemChange unicode sha1Hex int64Field builtins system (.poll socket now isOpen)
        (system.setConnection socket { connection with tail })
  | pollAnswer
      (socket : Nat)
      (connection : Connection)
      (request : QueryRequest)
      (results : List (LogRecordID × Bytes)) :
      system.connections socket = some connection →
      connection.tail.activeCall = some request →
      marshalled system.engine (pollRequest int64Field request) = some results →
      SystemChange unicode sha1Hex int64Field builtins system (.pollAnswer socket)
        (system.setConnection socket { connection with answered := some results })
  | pollReply
      (socket : Nat)
      (clock : Nat → Bytes)
      (connection : Connection)
      (results : List (LogRecordID × Bytes)) :
      system.connections socket = some connection →
      connection.answered = some results →
      SystemChange unicode sha1Hex int64Field builtins system (.pollReply socket clock)
        (system.setConnection socket (connection.report sha1Hex results clock))
  | pollFails (socket : Nat) (message : Bytes) (connection : Connection) :
      system.connections socket = some connection →
      SystemChange unicode sha1Hex int64Field builtins system (.pollFails socket message)
        (system.setConnection socket (connection.reportFailure sha1Hex message))
  | disconnect (socket : Nat) (connection : Connection) :
      system.connections socket = some connection →
      SystemChange unicode sha1Hex int64Field builtins system (.disconnect socket)
        (system.setConnection socket { connection with tail := connection.tail.stop })
  | deliver
      (socket : Nat)
      (clock : Nat → Int)
      (connection : Connection)
      (packet : Packet LogRecordID)
      (inFlight : List (Packet LogRecordID))
      (app : App LogRecordID) :
      system.connections socket = some connection →
      connection.inFlight = packet :: inFlight →
      system.app.step builtins (.message socket packet clock) = some app →
      SystemChange unicode sha1Hex int64Field builtins system (.deliver socket clock)
        ({ system with app }.setConnection socket { connection with inFlight })

theorem systemChange_of_step
    {system next : System}
    {event : SystemEvent}
    (stepped : system.step unicode sha1Hex int64Field builtins event = some next) :
    SystemChange unicode sha1Hex int64Field builtins system event next := by
  cases event with
  | engine event =>
      obtain ⟨engine, moved, rfl⟩ := Option.map_eq_some_iff.mp stepped
      exact SystemChange.engine event engine moved
  | browser event =>
      obtain ⟨isLocal, same⟩ := Option.ite_none_right_eq_some.mp stepped
      obtain ⟨app, browsed, rfl⟩ := Option.map_eq_some_iff.mp same
      exact SystemChange.browser event app isLocal browsed
  | answer number =>
      simp only [System.step, Option.bind_eq_bind, Option.bind_eq_some_iff] at stepped
      obtain ⟨search, issued, request, accepted, results, answered, same⟩ := stepped
      obtain ⟨_, same⟩ := Option.ite_none_right_eq_some.mp same
      obtain rfl := Option.some.inj same
      exact SystemChange.answer number search request results issued accepted answered
  | reply number clock =>
      simp only [System.step, Option.bind_eq_bind, Option.bind_eq_some_iff] at stepped
      obtain ⟨results, answered, app, settled, same⟩ := stepped
      obtain rfl := Option.some.inj same
      exact SystemChange.reply number clock results app answered settled
  | lost number error =>
      obtain ⟨app, settled, rfl⟩ := Option.map_eq_some_iff.mp stepped
      exact SystemChange.lost number error app settled
  | accept socket now isOpen =>
      simp only [System.step, Option.bind_eq_bind, Option.bind_eq_some_iff] at stepped
      obtain ⟨opening, opened, same⟩ := stepped
      obtain ⟨⟨_, unconnected⟩, same⟩ := Option.ite_none_right_eq_some.mp same
      obtain rfl := Option.some.inj same
      exact SystemChange.accept socket now isOpen opening opened
        (Option.isNone_iff_eq_none.mp unconnected)
  | poll socket now isOpen =>
      simp only [System.step, Option.bind_eq_bind, Option.bind_eq_some_iff] at stepped
      obtain ⟨connection, held, tail, polled, same⟩ := stepped
      obtain rfl := Option.some.inj same
      exact SystemChange.poll socket now isOpen connection tail held polled
  | pollAnswer socket =>
      simp only [System.step, Option.bind_eq_bind, Option.bind_eq_some_iff] at stepped
      obtain ⟨connection, held, request, called, results, answered, same⟩ := stepped
      obtain ⟨_, same⟩ := Option.ite_none_right_eq_some.mp same
      obtain rfl := Option.some.inj same
      exact SystemChange.pollAnswer socket connection request results held called answered
  | pollReply socket clock =>
      simp only [System.step, Option.bind_eq_bind, Option.bind_eq_some_iff] at stepped
      obtain ⟨connection, held, results, answered, same⟩ := stepped
      obtain rfl := Option.some.inj same
      exact SystemChange.pollReply socket clock connection results held answered
  | pollFails socket message =>
      simp only [System.step, Option.bind_eq_bind, Option.bind_eq_some_iff] at stepped
      obtain ⟨connection, held, same⟩ := stepped
      obtain ⟨_, same⟩ := Option.ite_none_right_eq_some.mp same
      obtain rfl := Option.some.inj same
      exact SystemChange.pollFails socket message connection held
  | disconnect socket =>
      simp only [System.step, Option.bind_eq_bind, Option.bind_eq_some_iff] at stepped
      obtain ⟨connection, held, same⟩ := stepped
      obtain rfl := Option.some.inj same
      exact SystemChange.disconnect socket connection held
  | deliver socket clock =>
      simp only [System.step, Option.bind_eq_bind, Option.bind_eq_some_iff] at stepped
      obtain ⟨connection, held, stepped⟩ := stepped
      cases queued : connection.inFlight with
      | nil =>
          rw [queued] at stepped
          exact absurd stepped.symm (Option.some_ne_none next)
      | cons packet inFlight =>
          rw [queued] at stepped
          obtain ⟨app, delivered, same⟩ := Option.bind_eq_some_iff.mp stepped
          obtain rfl := Option.some.inj same
          exact SystemChange.deliver socket clock connection packet inFlight app held queued
            delivered

/-! ## The page -/

/-- What an event of the system is for the page. -/
def System.pageEvent? (system : System) : SystemEvent → Option (AppEvent LogRecordID)
  | .browser event => some event
  | .reply number clock =>
      (system.answers.lookup number).map fun results =>
        .settle number (.response (results.map resultEntry) clock)
  | .lost number error => some (.settle number (.failure error))
  | .deliver socket clock =>
      ((system.connections socket).bind fun connection => connection.inFlight.head?).map
        fun packet => .message socket packet clock
  | _ => none

/-- The events of the page in a run of the system. -/
def pageEvents
    (unicode : UnicodeTables)
    (sha1Hex : Bytes → Bytes)
    (int64Field : Double → Int64)
    (builtins : Builtins)
    (start : System)
    (events : List SystemEvent) : List (AppEvent LogRecordID) :=
  Transition.partEvents (System.step unicode sha1Hex int64Field builtins) System.pageEvent? start
    events

/-- A step of the system is a step of the page or leaves the page alone. -/
theorem step_pageEvent?
    {system next : System}
    {event : SystemEvent}
    (stepped : system.step unicode sha1Hex int64Field builtins event = some next) :
    (∃ pageEvent, system.pageEvent? event = some pageEvent ∧
      system.app.step builtins pageEvent = some next.app) ∨
    system.pageEvent? event = none ∧ next.app = system.app := by
  cases systemChange_of_step stepped with
  | browser event app _ browsed => exact Or.inl ⟨event, rfl, browsed⟩
  | reply number clock results app answered settled =>
      refine Or.inl ⟨_, ?_, settled⟩
      rw [System.pageEvent?, answered]
      rfl
  | lost number error app settled => exact Or.inl ⟨_, rfl, settled⟩
  | deliver socket clock connection packet inFlight app held queued delivered =>
      refine Or.inl ⟨_, ?_, delivered⟩
      rw [System.pageEvent?, held, Option.bind_some, queued]
      rfl
  | _ => exact Or.inr ⟨rfl, rfl⟩

/-- The page in the system is a page that runs alone. -/
theorem run_pageEvents
    {start system : System}
    {events : List SystemEvent}
    (reached : Transition.run (System.step unicode sha1Hex int64Field builtins) start events =
      some system) :
    Transition.run (App.step builtins) start.app
      (pageEvents unicode sha1Hex int64Field builtins start events) = some system.app := by
  have projects : ∀ state event next,
      System.step unicode sha1Hex int64Field builtins state event = some next →
      (∃ pageEvent, System.pageEvent? state event = some pageEvent ∧
        App.step builtins state.app pageEvent = some next.app) ∨
      System.pageEvent? state event = none ∧ next.app = state.app :=
    fun _ _ _ stepped => step_pageEvent? stepped
  exact Transition.run_partEvents projects reached

end Web
end Chronolog
