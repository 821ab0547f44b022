import Chronolog.Web.LiveSockets
import Chronolog.Web.SystemSteps

/-!
# Where the rows come from

Every row of the page is a record that was in the store with its message when the
engine returned it, in an earlier step of the run, to a search of the page or to a
poll for one of its sockets.  Between the engine and the display nothing makes up a row:
neither the replies and frames on their way, nor the connections of sockets that
are closed, nor what is buffered when live tail is turned off and on.
-/

namespace Chronolog
namespace Web

open Binary64 (Double)
open LiveTail Pipeline Search Server Storage Utf8

/-! ## The terms of the sockets -/

section Sockets

variable {Key : Type} {builtins : Builtins}

/-- The sockets keep their terms, and new sockets come after them. -/
def KeepsTerms (app next : App Key) : Prop :=
  app.sockets.map Socket.term <+: next.sockets.map Socket.term

namespace KeepsTerms

theorem of_eq
    {app next : App Key}
    (same : next.sockets.map Socket.term = app.sockets.map Socket.term) :
    KeepsTerms app next := by
  rw [KeepsTerms, same]

theorem trans
    {first second third : App Key}
    (earlier : KeepsTerms first second)
    (later : KeepsTerms second third) : KeepsTerms first third :=
  List.IsPrefix.trans earlier later

theorem map_term_modify
    (sockets : List Socket)
    (index : Nat)
    {change : Socket → Socket}
    (keeps : ∀ socket, (change socket).term = socket.term) :
    (sockets.modify index change).map Socket.term = sockets.map Socket.term := by
  apply List.ext_getElem?
  intro other
  rw [List.getElem?_map, List.getElem?_map, List.getElem?_modify, Option.map_eq_map,
    Option.map_map]
  congr 1
  funext socket
  rw [Function.comp_apply]
  split
  · exact keeps socket
  · rfl

theorem map_term_set
    {sockets : List Socket}
    {index : Nat}
    {socket changed : Socket}
    (present : sockets[index]? = some socket)
    (keeps : changed.term = socket.term) :
    (sockets.set index changed).map Socket.term = sockets.map Socket.term := by
  obtain ⟨inside, rfl⟩ := List.getElem?_eq_some_iff.mp present
  rw [List.map_set, keeps, ← List.getElem_map Socket.term, List.set_getElem_self]
  rwa [List.length_map]

theorem closeSocket (app : App Key) (socket : Nat) :
    KeepsTerms app (app.closeSocket socket) := by
  apply of_eq
  apply map_term_modify
  intro socket
  split <;> rfl

theorem connect (app : App Key) (effect : Nat) : KeepsTerms app (app.connect effect) := by
  unfold App.connect
  split
  · split
    · exact of_eq rfl
    · rw [KeepsTerms, List.map_append]
      exact List.prefix_append _ _
  · exact of_eq rfl

theorem runLiveEffect (app : App Key) : KeepsTerms app app.runLiveEffect := by
  unfold App.runLiveEffect
  split
  · dsimp only
    refine KeepsTerms.trans ?_ (connect _ _)
    exact of_eq rfl
  · dsimp only
    split
    · exact closeSocket _ _
    · exact of_eq rfl

theorem runCleanup (app : App Key) : KeepsTerms app app.runCleanup := by
  unfold App.runCleanup
  split
  · exact of_eq rfl
  · dsimp only
    split
    · split
      · apply of_eq
        apply map_term_modify
        intro socket
        rfl
      · exact closeSocket _ _
    · exact of_eq rfl

theorem toggleIsLive (app : App Key) : KeepsTerms app app.toggleIsLive :=
  have toggled : KeepsTerms app { app with isLive := !app.isLive } := of_eq rfl
  toggled.trans ((runCleanup _).trans (runLiveEffect _))

theorem onClose (app : App Key) (effect : Nat) : KeepsTerms app (app.onClose effect) := by
  unfold App.onClose
  split
  · dsimp only
    split <;> split <;> exact of_eq rfl
  · exact of_eq rfl

theorem of_step
    {app next : App Key}
    {event : AppEvent Key}
    (stepped : app.step builtins event = some next) : KeepsTerms app next := by
  cases socketChange_of_step stepped with
  | kept keeps => exact of_eq (congrArg _ keeps.sockets)
  | toggled keeps => exact (of_eq (congrArg _ keeps.sockets)).trans (toggleIsLive _)
  | fired handle timer =>
      refine KeepsTerms.trans ?_ (connect _ _)
      exact of_eq rfl
  | opened index opening present =>
      have marked : KeepsTerms app
          { app with
            sockets := app.sockets.set index { opening with readyState := .open } } :=
        of_eq (map_term_set present rfl)
      unfold App.onOpen
      split
      · exact marked.trans (closeSocket _ _)
      · exact marked.trans (of_eq rfl)
  | closed index closing present =>
      refine KeepsTerms.trans ?_ (onClose _ _)
      exact of_eq (map_term_set present rfl)

/-- A socket is still there, with its term. -/
theorem exists_socket
    {app next : App Key}
    (keeps : KeepsTerms app next)
    {index : Nat}
    {opening : Socket}
    (opened : app.sockets[index]? = some opening) :
    ∃ later, next.sockets[index]? = some later ∧ later.term = opening.term := by
  have before : (app.sockets.map Socket.term)[index]? = some opening.term := by
    rw [List.getElem?_map, opened, Option.map_some]
  obtain ⟨inside, value⟩ := List.getElem?_eq_some_iff.mp before
  have after := List.prefix_iff_getElem?.mp keeps index inside
  rw [value, List.getElem?_map] at after
  exact Option.map_eq_some_iff.mp after

end KeepsTerms

end Sockets

/-! ## What the engine found -/

/-- The engine returns a record with its message at an event: to a search of the
page, or to the poll for a socket of the page. -/
inductive FoundBy (int64Field : Double → Int64) (moment : System) :
    SystemEvent → LogRecordID × Bytes → Prop
  | answer
      (number : Nat)
      (search : IssuedSearch LogRecordID)
      (request : SearchRequest)
      (result : LogRecordID × Bytes) :
      moment.app.searches[number]? = some search →
      handleSearch int64Field search.params = some request →
      result ∈ (moment.engine.search request).results →
      FoundBy int64Field moment (.answer number) result
  | pollAnswer
      (socket : Nat)
      (opening : Socket)
      (connection : Connection)
      (call : QueryRequest)
      (result : LogRecordID × Bytes) :
      moment.app.sockets[socket]? = some opening →
      moment.connections socket = some connection →
      connection.tail.activeCall = some call →
      call.term = opening.term.flatMap encode →
      result ∈ (moment.engine.search (pollRequest int64Field call)).results →
      FoundBy int64Field moment (.pollAnswer socket) result

theorem FoundBy.stored
    {int64Field : Double → Int64}
    {moment : System}
    {event : SystemEvent}
    {result : LogRecordID × Bytes}
    (found : FoundBy int64Field moment event result) :
    moment.engine.db[result.1.logKey]? = some result.2 := by
  cases found with
  | answer number search request result issued accepted returned =>
      exact (candidate_of_mem_search returned).2
  | pollAnswer socket opening connection call result opened held called term returned =>
      exact (candidate_of_mem_search returned).2

/-- A row is the display of a record with its message. -/
def Displays
    (builtins : Builtins)
    (row : Row LogRecordID)
    (result : LogRecordID × Bytes) : Prop :=
  row.record = result.1 ∧ ∃ newDate dateNow index,
    row.log = normalizeLogEntry builtins newDate dateNow (rawEntryOf (entryOf result.2)) index

theorem mem_of_marshalled
    {engine : Engine}
    {request : SearchRequest}
    {results : List (LogRecordID × Bytes)}
    (answered : marshalled engine request = some results) :
    results = (engine.search request).results := by
  obtain ⟨_, same⟩ := Option.ite_none_right_eq_some.mp answered
  exact (Option.some.inj same).symm

/-! ## The invariant -/

section Invariant

variable {builtins : Builtins} {known : LogRecordID × Bytes → Prop}

/-- The connection of a socket polls for its term, and all it holds is known. -/
structure Connection.Sourced
    (known : LogRecordID × Bytes → Prop)
    (app : App LogRecordID)
    (socket : Nat)
    (connection : Connection) : Prop where
  term : ∃ opening, app.sockets[socket]? = some opening ∧
    connection.term = opening.term.flatMap encode
  call : ∀ request, connection.tail.activeCall = some request →
    request.term = connection.term
  answered : ∀ results, connection.answered = some results →
    ∀ result ∈ results, known result
  inFlight : ∀ entry, Packet.log entry ∈ connection.inFlight →
    ∃ result, known result ∧ entry = resultEntry result

/-- Every record on its way to the display, and every row, is known. -/
structure Sourced
    (builtins : Builtins)
    (known : LogRecordID × Bytes → Prop)
    (system : System) : Prop where
  answers : ∀ answer ∈ system.answers, ∀ result ∈ answer.2, known result
  connections : ∀ socket connection, system.connections socket = some connection →
    connection.Sourced known system.app socket
  rows : ∀ row ∈ system.app.bufferRef ++ system.app.logs,
    ∃ result, known result ∧ Displays builtins row result

theorem Connection.Sourced.mono
    {larger : LogRecordID × Bytes → Prop}
    {app next : App LogRecordID}
    {socket : Nat}
    {connection : Connection}
    (sourced : connection.Sourced known app socket)
    (included : ∀ result, known result → larger result)
    (keeps : KeepsTerms app next) : connection.Sourced larger next socket where
  term := by
    obtain ⟨opening, opened, same⟩ := sourced.term
    obtain ⟨later, present, kept⟩ := keeps.exists_socket opened
    exact ⟨later, present, kept ▸ same⟩
  call := sourced.call
  answered := fun results held result member =>
    included result (sourced.answered results held result member)
  inFlight := by
    intro entry queued
    obtain ⟨result, found, same⟩ := sourced.inFlight entry queued
    exact ⟨result, included result found, same⟩

theorem Sourced.mono
    {larger : LogRecordID × Bytes → Prop}
    {system : System}
    (sourced : Sourced builtins known system)
    (included : ∀ result, known result → larger result) :
    Sourced builtins larger system where
  answers := fun answer member result listed =>
    included result (sourced.answers answer member result listed)
  connections := fun socket connection held =>
    (sourced.connections socket connection held).mono included (KeepsTerms.of_eq rfl)
  rows := by
    intro row member
    obtain ⟨result, found, displays⟩ := sourced.rows row member
    exact ⟨result, included result found, displays⟩

theorem Sourced.setConnection
    {system : System}
    {connection : Connection}
    (sourced : Sourced builtins known system)
    (socket : Nat)
    (fresh : connection.Sourced known system.app socket) :
    Sourced builtins known (system.setConnection socket connection) := by
  refine { sourced with connections := fun other held present => ?_ }
  change Function.update system.connections socket (some connection) other = some held
    at present
  by_cases same : other = socket
  · subst same
    rw [Function.update_self] at present
    exact Option.some.inj present ▸ fresh
  · rw [Function.update_of_ne same] at present
    exact sourced.connections other held present

/-- An event of the browser whose rows are known. -/
theorem Sourced.browse
    {system : System}
    {event : AppEvent LogRecordID}
    {app : App LogRecordID}
    (sourced : Sourced builtins known system)
    (stepped : system.app.step builtins event = some app)
    (rows : ∀ row ∈ app.bufferRef ++ app.logs,
      ∃ result, known result ∧ Displays builtins row result) :
    Sourced builtins known { system with app } where
  answers := sourced.answers
  connections := fun socket connection held =>
    (sourced.connections socket connection held).mono (fun _ => id)
      (KeepsTerms.of_step stepped)
  rows := rows

/-- Rows that are kept or dropped stay known. -/
theorem Sourced.rows_of_keepsLists
    {system : System}
    {app : App LogRecordID}
    (sourced : Sourced builtins known system)
    (keeps : KeepsLists system.app app) :
    ∀ row ∈ app.bufferRef ++ app.logs,
      ∃ result, known result ∧ Displays builtins row result := by
  intro row member
  apply sourced.rows
  obtain ⟨logs, same | empty⟩ := keeps
  · rwa [logs, same] at member
  · rw [logs, empty, List.nil_append] at member
    exact List.mem_append_right _ member

theorem Sourced.rows_of_local
    {system : System}
    {event : AppEvent LogRecordID}
    {app : App LogRecordID}
    (sourced : Sourced builtins known system)
    (isLocal : event.isLocal = true)
    (stepped : system.app.step builtins event = some app) :
    ∀ row ∈ app.bufferRef ++ app.logs,
      ∃ result, known result ∧ Displays builtins row result := by
  rcases lists_of_step stepped with keeps | ⟨_, _, _, rfl, _⟩ | ⟨_, _, _, rfl, _⟩ |
    ⟨_, rfl, logs, buffer⟩
  · exact sourced.rows_of_keepsLists keeps
  · exact absurd isLocal Bool.false_ne_true
  · exact absurd isLocal Bool.false_ne_true
  · intro row member
    apply sourced.rows
    rw [logs, buffer, List.nil_append] at member
    exact List.mem_of_mem_take member

/-- The rows of a reply are those of its answer. -/
theorem Sourced.rows_of_reply
    {system : System}
    {number : Nat}
    {results : List (LogRecordID × Bytes)}
    {clock : Nat → Int × Int}
    {app : App LogRecordID}
    (sourced : Sourced builtins known system)
    (answered : system.answers.lookup number = some results)
    (stepped : system.app.step builtins
      (.settle number (.response (results.map resultEntry) clock)) = some app) :
    ∀ row ∈ app.bufferRef ++ app.logs,
      ∃ result, known result ∧ Displays builtins row result := by
  obtain ⟨search, _, _, rfl⟩ := settle_eq_some stepped
  intro row member
  rcases List.mem_append.mp member with waiting | shown
  · exact sourced.rows row (List.mem_append_left _ waiting)
  · obtain ⟨_, index, entry, listed, record, log⟩ := mem_rowsOf.mp shown
    rw [List.getElem?_map, Option.map_eq_some_iff] at listed
    obtain ⟨result, found, rfl⟩ := listed
    exact ⟨result, sourced.answers _ (mem_of_lookup answered) result
      (List.mem_of_getElem? found), record, _, _, _, log⟩

/-- The row of a frame is that of its entry. -/
theorem Sourced.rows_of_message
    {system : System}
    {socket : Nat}
    {packet : Packet LogRecordID}
    {clock : Nat → Int}
    {app : App LogRecordID}
    (sourced : Sourced builtins known system)
    (sent : ∀ entry, packet = .log entry → ∃ result, known result ∧ entry = resultEntry result)
    (stepped : system.app.step builtins (.message socket packet clock) = some app) :
    ∀ row ∈ app.bufferRef ++ app.logs,
      ∃ result, known result ∧ Displays builtins row result := by
  rcases lists_of_step stepped with keeps | ⟨_, _, _, impossible, _⟩ |
    ⟨_, entry, _, same, _, logs, buffer⟩ | ⟨_, impossible, _⟩
  · exact sourced.rows_of_keepsLists keeps
  · exact absurd impossible (by simp)
  · obtain ⟨rfl, rfl, rfl⟩ := AppEvent.message.inj same
    obtain ⟨result, found, rfl⟩ := sent entry rfl
    intro row member
    rw [logs, buffer, List.append_assoc, List.mem_append, List.mem_append] at member
    rcases member with waiting | new | shown
    · exact sourced.rows row (List.mem_append_left _ waiting)
    · rw [List.mem_singleton.mp new]
      exact ⟨result, found, rfl, _, _, _, rfl⟩
    · exact sourced.rows row (List.mem_append_right _ shown)
  · exact absurd impossible (by simp)

/-! ## One event -/

section Steps

variable {unicode : UnicodeTables} {sha1Hex : Bytes → Bytes} {int64Field : Double → Int64}

/-- What is sent is observed in the answer. -/
theorem observed_sublist
    (seen current : OrderedStore Bytes Nat)
    (results : List (LogRecordID × Bytes)) :
    (observed sha1Hex seen current results).Sublist results := by
  induction results generalizing current with
  | nil => exact List.Sublist.slnil
  | cons result results inductionHypothesis =>
      rw [observed]
      split
      · exact (inductionHypothesis _).cons_cons result
      · exact (inductionHypothesis _).cons result

theorem Connection.Sourced.start
    {app : App LogRecordID}
    {socket : Nat}
    {opening : Socket}
    (present : app.sockets[socket]? = some opening)
    (now : Int)
    (isOpen : Bool) :
    (Connection.start (opening.term.flatMap encode) now isOpen).Sourced known app socket where
  term := ⟨opening, present, rfl⟩
  call := by
    intro request called
    cases isOpen with
    | false => exact absurd called.symm (Option.some_ne_none request)
    | true => exact Option.some.inj called ▸ rfl
  answered := fun results held => absurd held.symm (Option.some_ne_none results)
  inFlight := fun entry queued => absurd (List.mem_singleton.mp queued) (by simp)

/-- The callback of a poll puts known records on their way. -/
theorem Connection.Sourced.report
    {app : App LogRecordID}
    {socket : Nat}
    {connection : Connection}
    {results : List (LogRecordID × Bytes)}
    (sourced : connection.Sourced known app socket)
    (held : connection.answered = some results)
    (clock : Nat → Bytes) :
    (connection.report sha1Hex results clock).Sourced known app socket where
  term := sourced.term
  call := by
    intro request called
    rw [Connection.report, Tail.callback] at called
    split at called <;> exact absurd called.symm (Option.some_ne_none request)
  answered := fun others none => absurd none.symm (Option.some_ne_none others)
  inFlight := by
    intro entry queued
    rw [Connection.report] at queued
    dsimp only at queued
    split at queued
    next => exact sourced.inFlight entry queued
    next =>
      rw [List.mem_append, List.mem_append, List.mem_map, List.mem_singleton] at queued
      rcases queued with (earlier | ⟨result, sent, same⟩) | status
      · exact sourced.inFlight entry earlier
      · have listed := (observed_sublist _ _ results).subset sent
        exact ⟨result, sourced.answered results held result listed,
          (Packet.log.inj same).symm⟩
      · exact absurd status (by simp)

theorem Connection.Sourced.reportFailure
    {app : App LogRecordID}
    {socket : Nat}
    {connection : Connection}
    (sourced : connection.Sourced known app socket)
    (message : Bytes) :
    (connection.reportFailure sha1Hex message).Sourced known app socket where
  term := sourced.term
  call := by
    intro request called
    rw [Connection.reportFailure, Tail.callback] at called
    split at called <;> exact absurd called.symm (Option.some_ne_none request)
  answered := fun others none => absurd none.symm (Option.some_ne_none others)
  inFlight := by
    intro entry queued
    rw [Connection.reportFailure] at queued
    dsimp only at queued
    split at queued
    next => exact sourced.inFlight entry queued
    next =>
      rw [List.mem_append, List.mem_singleton] at queued
      rcases queued with earlier | error
      · exact sourced.inFlight entry earlier
      · exact absurd error (by simp)

/-- A poll is for the term of the connection. -/
theorem Connection.Sourced.poll
    {app : App LogRecordID}
    {socket : Nat}
    {connection : Connection}
    {tail : Tail}
    {now : Int}
    {isOpen : Bool}
    (sourced : connection.Sourced known app socket)
    (polled : connection.tail.step sha1Hex connection.term (.poll now isOpen) = some tail) :
    { connection with tail }.Sourced known app socket := by
  refine { sourced with call := fun request called => ?_ }
  obtain ⟨_, same⟩ := Option.ite_none_right_eq_some.mp polled
  obtain rfl := Option.some.inj same
  unfold Tail.poll at called
  split at called
  next =>
    unfold Tail.stop at called
    split at called <;> exact sourced.call request called
  next => exact Option.some.inj called ▸ rfl

theorem Connection.Sourced.disconnect
    {app : App LogRecordID}
    {socket : Nat}
    {connection : Connection}
    (sourced : connection.Sourced known app socket) :
    { connection with tail := connection.tail.stop }.Sourced known app socket := by
  refine { sourced with call := fun request called => ?_ }
  dsimp only at called
  unfold Tail.stop at called
  split at called <;> exact sourced.call request called

/-- One event, where what the engine returns at this moment is known. -/
theorem Sourced.step
    {system next : System}
    {event : SystemEvent}
    (sourced : Sourced builtins known system)
    (present : ∀ result, FoundBy int64Field system event result → known result)
    (stepped : system.step unicode sha1Hex int64Field builtins event = some next) :
    Sourced builtins known next := by
  cases systemChange_of_step stepped with
  | engine event engine _ => exact { sourced with }
  | browser event app isLocal browsed =>
      exact sourced.browse browsed (sourced.rows_of_local isLocal browsed)
  | answer number search request results issued accepted answered =>
      refine { sourced with answers := fun answer member result listed => ?_ }
      rcases List.mem_append.mp member with earlier | last
      · exact sourced.answers answer earlier result listed
      · rw [List.mem_singleton.mp last] at listed
        exact present result (.answer number search request result issued accepted
          (mem_of_marshalled answered ▸ listed))
  | reply number clock results app answered settled =>
      exact sourced.browse settled (sourced.rows_of_reply answered settled)
  | lost number error app settled =>
      apply sourced.browse settled
      obtain ⟨search, _, _, rfl⟩ := settle_eq_some settled
      intro row member
      change row ∈ system.app.bufferRef ++ [] at member
      rw [List.append_nil] at member
      exact sourced.rows row (List.mem_append_left _ member)
  | accept socket now isOpen opening opened _ =>
      exact sourced.setConnection socket (.start opened now isOpen)
  | poll socket now isOpen connection tail held polled =>
      exact sourced.setConnection socket ((sourced.connections socket connection held).poll polled)
  | pollAnswer socket connection request results held called answered =>
      have current := sourced.connections socket connection held
      apply sourced.setConnection socket
      refine { current with answered := fun others kept result listed => ?_ }
      obtain rfl := Option.some.inj kept
      obtain ⟨opening, opened, ofTerm⟩ := current.term
      exact present result (.pollAnswer socket opening connection request result opened held
        called ((current.call request called).trans ofTerm)
        (mem_of_marshalled answered ▸ listed))
  | pollReply socket clock connection results held answered =>
      exact sourced.setConnection socket
        ((sourced.connections socket connection held).report answered clock)
  | pollFails socket message connection held =>
      exact sourced.setConnection socket
        ((sourced.connections socket connection held).reportFailure message)
  | disconnect socket connection held =>
      exact sourced.setConnection socket (sourced.connections socket connection held).disconnect
  | deliver socket clock connection packet inFlight app held queued delivered =>
      have current := sourced.connections socket connection held
      have sent : ∀ entry, packet = .log entry →
          ∃ result, known result ∧ entry = resultEntry result := by
        rintro entry rfl
        exact current.inFlight entry (queued ▸ List.mem_cons_self)
      have browsed := sourced.browse delivered (sourced.rows_of_message sent delivered)
      apply browsed.setConnection socket
      have kept := current.mono (fun _ => id) (KeepsTerms.of_step delivered)
      exact { kept with
        inFlight := fun entry later =>
          kept.inFlight entry (queued ▸ List.mem_cons_of_mem packet later) }

end Steps

end Invariant

/-! ## Runs -/

theorem sourced_start
    (builtins : Builtins)
    (known : LogRecordID × Bytes → Prop)
    (db : DB)
    (query : Text)
    (timeRange : Rat)
    (isLive : Bool)
    (now : Int) :
    Sourced builtins known (System.start db query timeRange isLive now) where
  answers := fun answer member => absurd member List.not_mem_nil
  connections := fun socket connection none =>
    absurd none.symm (Option.some_ne_none connection)
  rows := by
    intro row member
    rw [System.start, bufferRef_mount, logs_mount] at member
    exact absurd member List.not_mem_nil

/-- In every run, every row on the display or waiting for the next flush shows a
record with the message that was in the store when the engine returned it, in an
earlier step of the run, to a search of the page or to the poll for one of its
sockets. -/
theorem rows_found
    (unicode : UnicodeTables)
    (sha1Hex : Bytes → Bytes)
    (int64Field : Double → Int64)
    (builtins : Builtins)
    (db : DB)
    (query : Text)
    (timeRange : Rat)
    (isLive : Bool)
    (now : Int)
    (events : List SystemEvent)
    (system : System)
    (reached : Transition.run (System.step unicode sha1Hex int64Field builtins)
      (System.start db query timeRange isLive now) events = some system) :
    ∀ row ∈ system.app.bufferRef ++ system.app.logs,
      ∃ moment event result,
        Transition.Performs (System.step unicode sha1Hex int64Field builtins)
          (System.start db query timeRange isLive now) events moment event ∧
        FoundBy int64Field moment event result ∧
        moment.engine.db[result.1.logKey]? = some result.2 ∧
        Displays builtins row result := by
  have sourced : Sourced builtins
      (fun result => ∃ moment event,
        Transition.Performs (System.step unicode sha1Hex int64Field builtins)
          (System.start db query timeRange isLive now) events moment event ∧
        FoundBy int64Field moment event result)
      system := by
    refine Transition.run_history (fun history state => Sourced builtins
      (fun result => ∃ moment event,
        Transition.Performs (System.step unicode sha1Hex int64Field builtins)
          (System.start db query timeRange isLive now) history moment event ∧
        FoundBy int64Field moment event result)
      state) (sourced_start builtins _ db query timeRange isLive now) ?_ reached
    intro history state event next current sourced stepped
    refine Sourced.step (sourced.mono ?_) ?_ stepped
    · rintro result ⟨moment, other, performed, found⟩
      exact ⟨moment, other, Transition.performs_append performed, found⟩
    · intro result found
      exact ⟨state, event, Transition.performs_concat current, found⟩
  intro row member
  obtain ⟨result, ⟨moment, event, performed, found⟩, displays⟩ := sourced.rows row member
  exact ⟨moment, event, result, performed, found, found.stored, displays⟩

theorem rows_found_tailHello :
    ∃ system, Transition.run (System.step asciiTables plainDigest longField asciiBuiltins)
        openedHello (searchHello ++ tailHello) = some system ∧
      system.app.logs ≠ [] ∧ ∀ row ∈ system.app.bufferRef ++ system.app.logs,
        ∃ moment event result,
          Transition.Performs (System.step asciiTables plainDigest longField asciiBuiltins)
            openedHello (searchHello ++ tailHello) moment event ∧
          FoundBy longField moment event result ∧
          moment.engine.db[result.1.logKey]? = some result.2 ∧
          Displays asciiBuiltins row result := by
  obtain ⟨system, reached, shown⟩ := (Option.any_eq_true _ _).mp
    (by decide +kernel : (Transition.run
      (System.step asciiTables plainDigest longField asciiBuiltins)
      openedHello (searchHello ++ tailHello)).any (fun system =>
        decide (system.app.logs ≠ [])) = true)
  exact ⟨system, reached, of_decide_eq_true shown,
    rows_found asciiTables plainDigest longField asciiBuiltins ∅ "| hello".toList 15 false
      1000000 (searchHello ++ tailHello) system reached⟩

end Web
end Chronolog
