import Chronolog.Foundation.Transition
import Chronolog.Web.QueryParser
import Mathlib.Data.Rat.Floor

/-!
# The browser application

`App.jsx` as a state machine: the React state and refs, the searches that were
issued, the sockets, and the closures of the live-tail effect.  An event is a
user action, the end of a search, a timer, or a socket event; the effects that
React runs after it belong to it.  Every log entry carries the record it was
read from, which the application does not look at.
-/

namespace Chronolog
namespace Web

variable {Key : Type}

/-- `LIVE_MAX_LINES` -/
def liveMaxLines : Nat := 5000

/-- A log entry and the record it was read from. -/
structure Entry (Key : Type) where
  raw : RawEntry
  record : Key

/-- A displayed log and the record it was read from. -/
structure Row (Key : Type) where
  log : DisplayLog
  record : Key
  deriving DecidableEq

/-- An error of the banner.  A text that is absent is empty. -/
structure QueryError where
  code : Text
  message : Text
  details : Text
  deriving DecidableEq

/-! ## Searches -/

/-- `timeRangeToMs`, without the rounding of doubles. -/
def timeRangeToMs (now : Int) (minutes : Rat) : Rat × Int :=
  (now - minutes * 60000, now)

/-- The parameters of `GET /api/logs/search`. -/
structure SearchParams where
  term : Text
  startTime : Int
  endTime : Int
  limit : Nat

/-- How a search ends.  `clock` gives the readings for the entries. -/
inductive Outcome (Key : Type)
  | response (logs : List (Entry Key)) (clock : Nat → Int × Int)
  | failure (error : QueryError)

/-- A call of `runQuery`, and how its request ended once it has. -/
structure IssuedSearch (Key : Type) where
  params : SearchParams
  labels : List Label
  outcome : Option (Outcome Key)

/-- The request of a call of `runQuery`. -/
def searchOf (query : Text) (timeRange : Rat) (now : Int) : IssuedSearch Key :=
  let parsed := parseQuery query
  let range := timeRangeToMs now timeRange
  { params :=
      { term := parsed.primaryTerm
        startTime := ⌊range.1⌋
        endTime := range.2
        limit := 500 }
    labels := parsed.labels
    outcome := none }

/-- The rows of a response: its entries normalised and filtered by label. -/
def rowsOf
    (builtins : Builtins)
    (labels : List Label)
    (logs : List (Entry Key))
    (clock : Nat → Int × Int) : List (Row Key) :=
  let normalized := logs.mapIdx fun index entry =>
    { log := normalizeLogEntry builtins (clock index).1 (clock index).2 entry.raw index
      record := entry.record : Row Key }
  if labels = [] then normalized
  else normalized.filter fun row => labels.all (satisfies builtins row.log)

namespace Outcome

/-- The list a finished search displays. -/
def rows (builtins : Builtins) (labels : List Label) : Outcome Key → List (Row Key)
  | .response logs clock => rowsOf builtins labels logs clock
  | .failure _ => []

/-- The error a finished search reports. -/
def error? : Outcome Key → Option QueryError
  | .response _ _ => none
  | .failure error => some error

end Outcome

/-! ## Sockets and the live effect -/

/-- `readyState` -/
inductive ReadyState
  | connecting
  | «open»
  | closing
  | closed
  deriving DecidableEq

/-- A socket: the run of the live effect that made it, its search term, and
which of its handlers are in place.  A replaced `onopen` closes it. -/
structure Socket where
  effect : Nat
  term : Text
  readyState : ReadyState
  closesOnOpen : Bool
  listening : Bool
  reportsErrors : Bool

/-- The variables one run of the live effect closes over, and whether its flush
interval is set. -/
structure LiveEffect where
  term : Text
  stopped : Bool
  reconnectTimer : Option Nat
  socket : Option Nat
  flushing : Bool

/-- What a frame says. -/
inductive Packet (Key : Type)
  | status (state : Text)
  | error (text : Text)
  | log (entry : Entry Key)
  | other

/-- The application.  Sockets and runs of the live effect are numbered; `cleanup`
is the run whose cleanup function React holds, and `timers` are the pending
reconnect timers with the runs that set them. -/
structure App (Key : Type) where
  query : Text
  timeRange : Rat
  isLive : Bool
  isLoading : Bool
  logs : List (Row Key)
  newLogCount : Nat
  socketState : Text
  queryError : Option QueryError
  socketRef : Option Nat
  bufferRef : List (Row Key)
  newCountRef : Nat
  searches : List (IssuedSearch Key)
  sockets : List Socket
  effects : List LiveEffect
  cleanup : Option Nat
  timers : List (Nat × Nat)
  nextTimer : Nat

/-- What can happen.  `now` is the reading of the clock for the time range, and
`clock` gives the readings in a message handler in order. -/
inductive AppEvent (Key : Type)
  | edit (query : Text)
  | enter (now : Int)
  | runButton (now : Int)
  | changeRange (minutes : Rat) (now : Int)
  | toggle (now : Int)
  | space
  | dismiss
  | settle (number : Nat) (outcome : Outcome Key)
  | timeout (handle : Nat)
  | opened (socket : Nat)
  | message (socket : Nat) (packet : Packet Key) (clock : Nat → Int)
  | failed (socket : Nat)
  | closed (socket : Nat)
  | flush (effect : Nat)

namespace App

/-- `runQuery`, up to the request. -/
def runQuery (app : App Key) (timeRange : Rat) (now : Int) : App Key :=
  { app with
    isLoading := true
    queryError := none
    newLogCount := 0
    newCountRef := 0
    searches := app.searches ++ [searchOf app.query timeRange now] }

/-- `runQuery`, from the end of the request on. -/
def settle
    (builtins : Builtins)
    (app : App Key)
    (number : Nat)
    (outcome : Outcome Key) : Option (App Key) :=
  match app.searches[number]? with
  | some search =>
      if search.outcome.isNone then
        some { app with
          isLoading := false
          logs := outcome.rows builtins search.labels
          queryError := outcome.error?.or app.queryError
          searches := app.searches.set number { search with outcome := some outcome } }
      else none
  | none => none

/-- `close` of a socket -/
def closeSocket (app : App Key) (socket : Nat) : App Key :=
  { app with
    sockets := app.sockets.modify socket fun socket =>
      match socket.readyState with
      | .connecting | .open => { socket with readyState := .closing }
      | _ => socket }

/-- `connect` -/
def connect (app : App Key) (effect : Nat) : App Key :=
  match app.effects[effect]? with
  | some live =>
      if live.stopped then app
      else
        let socket := app.sockets.length
        { app with
          socketState := "connecting".toList
          sockets := app.sockets ++
            [{ effect, term := live.term, readyState := .connecting, closesOnOpen := false,
               listening := true, reportsErrors := true }]
          effects := app.effects.set effect { live with socket := some socket }
          socketRef := some socket }
  | none => app

/-- The live effect. -/
def runLiveEffect (app : App Key) : App Key :=
  if app.isLive then
    let effect := app.effects.length
    let app : App Key :=
      { app with
        newCountRef := 0
        newLogCount := 0
        bufferRef := []
        effects := app.effects ++
          [{ term := (parseQuery app.query).primaryTerm, stopped := false,
             reconnectTimer := none, socket := none, flushing := true }]
        cleanup := some effect }
    app.connect effect
  else
    let app : App Key :=
      match app.socketRef with
      | some socket => { app.closeSocket socket with socketRef := none }
      | none => app
    { app with bufferRef := [], socketState := "off".toList, cleanup := none }

/-- The cleanup function of the live effect. -/
def runCleanup (app : App Key) : App Key :=
  match app.cleanup with
  | none => app
  | some effect =>
      let handle := app.effects[effect]?.bind LiveEffect.reconnectTimer
      let app : App Key :=
        { app with
          effects := app.effects.modify effect fun live =>
            { live with stopped := true, flushing := false }
          timers := app.timers.filter fun timer => some timer.1 ≠ handle
          cleanup := none }
      let app : App Key :=
        match app.socketRef with
        | some current =>
            let closed : App Key :=
              if app.sockets[current]?.any fun socket => socket.readyState = .connecting then
                { app with
                  sockets := app.sockets.modify current fun socket =>
                    { socket with
                      closesOnOpen := true, listening := false, reportsErrors := false } }
              else app.closeSocket current
            { closed with socketRef := none }
        | none => app
      { app with bufferRef := [], socketState := "off".toList }

/-- `setIsLive(v => !v)` and the effects that follow. -/
def toggleIsLive (app : App Key) : App Key :=
  ({ app with isLive := !app.isLive } : App Key).runCleanup.runLiveEffect

/-- `onopen` -/
def onOpen (app : App Key) (socket : Nat) (closesOnOpen : Bool) : App Key :=
  if closesOnOpen then app.closeSocket socket
  else { app with socketState := "connected".toList }

/-- `onmessage` -/
def onMessage
    (builtins : Builtins)
    (app : App Key)
    (packet : Packet Key)
    (clock : Nat → Int) : App Key :=
  match packet with
  | .status state => { app with socketState := state }
  | .error text =>
      { app with
        socketState := "error".toList
        queryError := some
          { code := "STREAM_ERROR".toList, message := text, details := [] } }
  | .log entry =>
      let timestampNano := entry.raw.timestampNano.getD (Binary64.round (clock 0 * 1000000))
      let raw := { entry.raw with timestampNano := some timestampNano }
      let row : Row Key :=
        { log := normalizeLogEntry builtins (clock 2) (clock 3) raw (clock 1)
          record := entry.record }
      { app with bufferRef := app.bufferRef ++ [row] }
  | .other => app

/-- `onclose` -/
def onClose (app : App Key) (effect : Nat) : App Key :=
  match app.effects[effect]? with
  | some live =>
      let app : App Key :=
        if app.socketRef = live.socket then { app with socketRef := none } else app
      if live.stopped then app
      else
        { app with
          effects := app.effects.set effect { live with reconnectTimer := some app.nextTimer }
          timers := app.timers ++ [(app.nextTimer, effect)]
          nextTimer := app.nextTimer + 1 }
  | none => app

/-- The callback of the flush interval. -/
def flush (app : App Key) : App Key :=
  if app.bufferRef = [] then app
  else
    let newCount := app.newCountRef + app.bufferRef.length
    { app with
      newCountRef := newCount
      newLogCount := newCount
      logs := (app.bufferRef ++ app.logs).take liveMaxLines
      bufferRef := [] }

/-- One event.  A socket opens while it is connecting, delivers messages while it
is open, and closes once; a disabled button does nothing. -/
def step (builtins : Builtins) (app : App Key) : AppEvent Key → Option (App Key)
  | .edit query => some { app with query }
  | .enter now => some (app.runQuery app.timeRange now)
  | .runButton now =>
      if app.isLoading then none else some (app.runQuery app.timeRange now)
  | .changeRange minutes now =>
      some { app.runQuery minutes now with timeRange := minutes }
  | .toggle now => some (app.runQuery app.timeRange now).toggleIsLive
  | .space => some app.toggleIsLive
  | .dismiss => some { app with queryError := none }
  | .settle number outcome => app.settle builtins number outcome
  | .timeout handle =>
      match app.timers.find? fun timer => timer.1 = handle with
      | some (_, effect) =>
          some (({ app with
            timers := app.timers.filter fun timer => timer.1 ≠ handle } : App Key).connect
              effect)
      | none => none
  | .opened socket =>
      match app.sockets[socket]? with
      | some opening =>
          if opening.readyState = .connecting then
            some (({ app with
              sockets := app.sockets.set socket { opening with readyState := .open } }
                : App Key).onOpen socket opening.closesOnOpen)
          else none
      | none => none
  | .message socket packet clock =>
      match app.sockets[socket]? with
      | some current =>
          if current.readyState = .open then
            some (if current.listening then app.onMessage builtins packet clock else app)
          else none
      | none => none
  | .failed socket =>
      match app.sockets[socket]? with
      | some failing =>
          if failing.readyState ≠ .closed then
            some (if failing.reportsErrors then { app with socketState := "error".toList }
              else app)
          else none
      | none => none
  | .closed socket =>
      match app.sockets[socket]? with
      | some closing =>
          if closing.readyState ≠ .closed then
            some (({ app with
              sockets := app.sockets.set socket { closing with readyState := .closed } }
                : App Key).onClose closing.effect)
          else none
      | none => none
  | .flush effect =>
      match app.effects[effect]? with
      | some live => if live.flushing then some app.flush else none
      | none => none

/-- The application after its first render and the effects of it. -/
def mount (query : Text) (timeRange : Rat) (isLive : Bool) (now : Int) : App Key :=
  ({ query, timeRange, isLive, isLoading := false, logs := [], newLogCount := 0,
     socketState := "off".toList, queryError := none, socketRef := none, bufferRef := [],
     newCountRef := 0, searches := [], sockets := [], effects := [], cleanup := none,
     timers := [], nextTimer := 0 : App Key }.runQuery timeRange now).runLiveEffect

/-- What is displayed. -/
def displayed (app : App Key) : List DisplayLog := app.logs.map Row.log

end App

/-- The rows of a response show what the label filters leave of its entries. -/
theorem map_log_rowsOf
    (builtins : Builtins)
    (labels : List Label)
    (logs : List (Entry Key))
    (clock : Nat → Int × Int) :
    (rowsOf builtins labels logs clock).map Row.log =
      applyLabelFilters builtins
        (logs.mapIdx fun index entry =>
          normalizeLogEntry builtins (clock index).1 (clock index).2 entry.raw index)
        labels := by
  have normalized : (logs.mapIdx fun index entry =>
      { log := normalizeLogEntry builtins (clock index).1 (clock index).2 entry.raw index
        record := entry.record : Row Key }).map Row.log =
      logs.mapIdx fun index entry =>
        normalizeLogEntry builtins (clock index).1 (clock index).2 entry.raw index := by
    rw [List.mapIdx_eq_zipIdx_map, List.mapIdx_eq_zipIdx_map, List.map_map]
    rfl
  rw [rowsOf, applyLabelFilters, ← normalized]
  split
  · rfl
  · exact (List.filter_map (p := fun log => labels.all (satisfies builtins log))).symm

/-- The rows of a response are those of its entries that satisfy the labels. -/
theorem mem_rowsOf
    {builtins : Builtins}
    {labels : List Label}
    {logs : List (Entry Key)}
    {clock : Nat → Int × Int}
    {row : Row Key} :
    row ∈ rowsOf builtins labels logs clock ↔
      labels.all (satisfies builtins row.log) = true ∧
        ∃ index entry, logs[index]? = some entry ∧ row.record = entry.record ∧
          row.log =
            normalizeLogEntry builtins (clock index).1 (clock index).2 entry.raw index := by
  have listed : (row ∈ logs.mapIdx fun index entry =>
      { log := normalizeLogEntry builtins (clock index).1 (clock index).2 entry.raw index
        record := entry.record : Row Key }) ↔
      ∃ index entry, logs[index]? = some entry ∧ row.record = entry.record ∧
        row.log =
          normalizeLogEntry builtins (clock index).1 (clock index).2 entry.raw index := by
    rw [List.mem_iff_getElem?]
    apply exists_congr
    intro index
    rw [List.getElem?_mapIdx, Option.map_eq_some_iff]
    refine exists_congr fun entry => and_congr_right fun _ => ?_
    constructor
    · rintro rfl
      exact ⟨rfl, rfl⟩
    · rintro ⟨record, log⟩
      rw [← record, ← log]
  rw [rowsOf]
  split
  next none => rw [listed, none, List.all_nil, eq_self, true_and]
  next => rw [List.mem_filter, listed, and_comm]

/-! ## What an event can do -/

section Steps

variable {builtins : Builtins} {app next : App Key}

theorem step_timeout
    {handle : Nat}
    (stepped : app.step builtins (.timeout handle) = some next) :
    ∃ timer ∈ app.timers, timer.1 = handle ∧
      next = ({ app with
        timers := app.timers.filter fun timer => timer.1 ≠ handle } : App Key).connect
          timer.2 := by
  rw [App.step] at stepped
  split at stepped
  next name effect found =>
    have named := List.find?_some found
    exact ⟨(name, effect), List.mem_of_find?_eq_some found, of_decide_eq_true named,
      (Option.some.inj stepped).symm⟩
  next => exact absurd stepped.symm (Option.some_ne_none next)

theorem step_opened
    {socket : Nat}
    (stepped : app.step builtins (.opened socket) = some next) :
    ∃ opening, app.sockets[socket]? = some opening ∧ opening.readyState = .connecting ∧
      next = ({ app with
        sockets := app.sockets.set socket { opening with readyState := .open } }
          : App Key).onOpen socket opening.closesOnOpen := by
  rw [App.step] at stepped
  split at stepped
  next opening found =>
    obtain ⟨connecting, same⟩ := Option.ite_none_right_eq_some.mp stepped
    exact ⟨opening, found, connecting, (Option.some.inj same).symm⟩
  next => exact absurd stepped.symm (Option.some_ne_none next)

theorem step_message
    {socket : Nat}
    {packet : Packet Key}
    {clock : Nat → Int}
    (stepped : app.step builtins (.message socket packet clock) = some next) :
    ∃ current, app.sockets[socket]? = some current ∧ current.readyState = .open ∧
      next = if current.listening then app.onMessage builtins packet clock else app := by
  rw [App.step] at stepped
  split at stepped
  next current found =>
    obtain ⟨isOpen, same⟩ := Option.ite_none_right_eq_some.mp stepped
    exact ⟨current, found, isOpen, (Option.some.inj same).symm⟩
  next => exact absurd stepped.symm (Option.some_ne_none next)

theorem step_failed
    {socket : Nat}
    (stepped : app.step builtins (.failed socket) = some next) :
    ∃ failing, app.sockets[socket]? = some failing ∧ failing.readyState ≠ .closed ∧
      next = if failing.reportsErrors then { app with socketState := "error".toList }
        else app := by
  rw [App.step] at stepped
  split at stepped
  next failing found =>
    obtain ⟨unclosed, same⟩ := Option.ite_none_right_eq_some.mp stepped
    exact ⟨failing, found, unclosed, (Option.some.inj same).symm⟩
  next => exact absurd stepped.symm (Option.some_ne_none next)

theorem step_closed
    {socket : Nat}
    (stepped : app.step builtins (.closed socket) = some next) :
    ∃ closing, app.sockets[socket]? = some closing ∧ closing.readyState ≠ .closed ∧
      next = ({ app with
        sockets := app.sockets.set socket { closing with readyState := .closed } }
          : App Key).onClose closing.effect := by
  rw [App.step] at stepped
  split at stepped
  next closing found =>
    obtain ⟨unclosed, same⟩ := Option.ite_none_right_eq_some.mp stepped
    exact ⟨closing, found, unclosed, (Option.some.inj same).symm⟩
  next => exact absurd stepped.symm (Option.some_ne_none next)

theorem step_flush
    {effect : Nat}
    (stepped : app.step builtins (.flush effect) = some next) :
    ∃ live, app.effects[effect]? = some live ∧ live.flushing = true ∧
      next = app.flush := by
  rw [App.step] at stepped
  split at stepped
  next live found =>
    obtain ⟨flushing, same⟩ := Option.ite_none_right_eq_some.mp stepped
    exact ⟨live, found, flushing, (Option.some.inj same).symm⟩
  next => exact absurd stepped.symm (Option.some_ne_none next)

theorem settle_eq_some
    {number : Nat}
    {outcome : Outcome Key}
    (stepped : app.settle builtins number outcome = some next) :
    ∃ search, app.searches[number]? = some search ∧ search.outcome = none ∧
      next = { app with
        isLoading := false
        logs := outcome.rows builtins search.labels
        queryError := outcome.error?.or app.queryError
        searches := app.searches.set number { search with outcome := some outcome } } := by
  unfold App.settle at stepped
  split at stepped
  next search found =>
    obtain ⟨fresh, same⟩ := Option.ite_none_right_eq_some.mp stepped
    exact ⟨search, found, Option.isNone_iff_eq_none.mp fresh, (Option.some.inj same).symm⟩
  next => exact absurd stepped.symm (Option.some_ne_none next)

end Steps

/-! ## What the live effect leaves alone -/

section LiveEffects

/-- The searches and what they set are left alone, and what is buffered is kept or
dropped. -/
structure KeepsSearches (app next : App Key) : Prop where
  query : next.query = app.query
  isLive : next.isLive = app.isLive
  logs : next.logs = app.logs
  searches : next.searches = app.searches
  bufferRef : next.bufferRef = app.bufferRef ∨ next.bufferRef = []

theorem KeepsSearches.refl (app : App Key) : KeepsSearches app app :=
  ⟨rfl, rfl, rfl, rfl, Or.inl rfl⟩

theorem KeepsSearches.trans
    {first second third : App Key}
    (earlier : KeepsSearches first second)
    (later : KeepsSearches second third) : KeepsSearches first third := by
  refine ⟨later.query.trans earlier.query, later.isLive.trans earlier.isLive,
    later.logs.trans earlier.logs, later.searches.trans earlier.searches, ?_⟩
  rcases later.bufferRef with same | empty
  · exact earlier.bufferRef.imp same.trans same.trans
  · exact Or.inr empty

theorem keepsSearches_connect (app : App Key) (effect : Nat) :
    KeepsSearches app (app.connect effect) := by
  unfold App.connect
  split
  · split
    · exact KeepsSearches.refl app
    · exact ⟨rfl, rfl, rfl, rfl, Or.inl rfl⟩
  · exact KeepsSearches.refl app

theorem keepsSearches_runLiveEffect (app : App Key) :
    KeepsSearches app app.runLiveEffect := by
  unfold App.runLiveEffect
  split
  · dsimp only
    refine KeepsSearches.trans ?_ (keepsSearches_connect _ _)
    exact ⟨rfl, rfl, rfl, rfl, Or.inr rfl⟩
  · dsimp only
    split <;> exact ⟨rfl, rfl, rfl, rfl, Or.inr rfl⟩

theorem keepsSearches_runCleanup (app : App Key) : KeepsSearches app app.runCleanup := by
  unfold App.runCleanup
  split
  · exact KeepsSearches.refl app
  · dsimp only
    split
    · split <;> exact ⟨rfl, rfl, rfl, rfl, Or.inr rfl⟩
    · exact ⟨rfl, rfl, rfl, rfl, Or.inr rfl⟩

theorem keepsSearches_toggleIsLive (app : App Key) :
    KeepsSearches { app with isLive := !app.isLive } app.toggleIsLive :=
  (keepsSearches_runCleanup _).trans (keepsSearches_runLiveEffect _)

theorem keepsSearches_onClose (app : App Key) (effect : Nat) :
    KeepsSearches app (app.onClose effect) := by
  unfold App.onClose
  split
  · dsimp only
    split <;> split <;> exact ⟨rfl, rfl, rfl, rfl, Or.inl rfl⟩
  · exact KeepsSearches.refl app

theorem logs_mount
    (query : Text)
    (timeRange : Rat)
    (isLive : Bool)
    (now : Int) : (App.mount query timeRange isLive now : App Key).logs = [] := by
  unfold App.mount
  exact (keepsSearches_runLiveEffect _).logs

theorem bufferRef_mount
    (query : Text)
    (timeRange : Rat)
    (isLive : Bool)
    (now : Int) : (App.mount query timeRange isLive now : App Key).bufferRef = [] := by
  unfold App.mount
  cases isLive <;> rfl

end LiveEffects

/-! ## What an event changes -/

section Changes

variable {builtins : Builtins}

/-- The row of a log frame. -/
def liveRow (builtins : Builtins) (entry : Entry Key) (clock : Nat → Int) : Row Key :=
  let timestampNano := entry.raw.timestampNano.getD (Binary64.round (clock 0 * 1000000))
  let raw := { entry.raw with timestampNano := some timestampNano }
  { log := normalizeLogEntry builtins (clock 2) (clock 3) raw (clock 1)
    record := entry.record }

/-- What an event changes of the query, the searches, the lists and the switch of
live tail. -/
inductive Change (builtins : Builtins) (app : App Key) : AppEvent Key → App Key → Prop
  | kept {event : AppEvent Key} {next : App Key} :
      KeepsSearches app next →
      Change builtins app event next
  | edited (query : Text) :
      Change builtins app (.edit query) { app with query }
  | issued {event : AppEvent Key} (timeRange : Rat) (now : Int) :
      Change builtins app event { app.runQuery timeRange now with timeRange }
  | toggled (now : Int) :
      Change builtins app (.toggle now) (app.runQuery app.timeRange now).toggleIsLive
  | spaced :
      Change builtins app .space app.toggleIsLive
  | settled (number : Nat) (outcome : Outcome Key) (search : IssuedSearch Key) :
      app.searches[number]? = some search →
      Change builtins app (.settle number outcome)
        { app with
          isLoading := false
          logs := outcome.rows builtins search.labels
          queryError := outcome.error?.or app.queryError
          searches := app.searches.set number { search with outcome := some outcome } }
  | buffered (socket : Nat) (entry : Entry Key) (clock : Nat → Int) :
      app.sockets[socket]?.any Socket.listening = true →
      Change builtins app (.message socket (.log entry) clock)
        { app with bufferRef := app.bufferRef ++ [liveRow builtins entry clock] }
  | flushed (effect : Nat) :
      app.bufferRef ≠ [] →
      Change builtins app (.flush effect) app.flush

theorem flush_of_ne_nil
    {app : App Key}
    (waiting : app.bufferRef ≠ []) :
    app.flush =
      { app with
        newCountRef := app.newCountRef + app.bufferRef.length
        newLogCount := app.newCountRef + app.bufferRef.length
        logs := (app.bufferRef ++ app.logs).take liveMaxLines
        bufferRef := [] } := by
  rw [App.flush, if_neg waiting]

theorem change_of_step
    {app next : App Key}
    {event : AppEvent Key}
    (stepped : app.step builtins event = some next) : Change builtins app event next := by
  cases event with
  | edit query => exact Option.some.inj stepped ▸ Change.edited query
  | enter now => exact Option.some.inj stepped ▸ Change.issued app.timeRange now
  | runButton now =>
      obtain ⟨_, same⟩ := Option.ite_none_left_eq_some.mp stepped
      exact Option.some.inj same ▸ Change.issued app.timeRange now
  | changeRange minutes now => exact Option.some.inj stepped ▸ Change.issued minutes now
  | toggle now => exact Option.some.inj stepped ▸ Change.toggled now
  | space => exact Option.some.inj stepped ▸ Change.spaced
  | dismiss =>
      exact Option.some.inj stepped ▸ Change.kept ⟨rfl, rfl, rfl, rfl, Or.inl rfl⟩
  | settle number outcome =>
      obtain ⟨search, found, _, rfl⟩ := settle_eq_some stepped
      exact Change.settled number outcome search found
  | timeout handle =>
      obtain ⟨timer, _, _, rfl⟩ := step_timeout stepped
      have fired : KeepsSearches app
          { app with timers := app.timers.filter fun timer => timer.1 ≠ handle } :=
        ⟨rfl, rfl, rfl, rfl, Or.inl rfl⟩
      exact Change.kept (fired.trans (keepsSearches_connect _ timer.2))
  | opened socket =>
      obtain ⟨opening, _, _, rfl⟩ := step_opened stepped
      unfold App.onOpen
      split <;> exact Change.kept ⟨rfl, rfl, rfl, rfl, Or.inl rfl⟩
  | message socket packet clock =>
      obtain ⟨current, found, _, rfl⟩ := step_message stepped
      split
      next listening =>
        cases packet with
        | log entry =>
            refine Change.buffered socket entry clock ?_
            rw [found, Option.any_some, listening]
        | _ => exact Change.kept ⟨rfl, rfl, rfl, rfl, Or.inl rfl⟩
      next => exact Change.kept (KeepsSearches.refl app)
  | failed socket =>
      obtain ⟨failing, _, _, rfl⟩ := step_failed stepped
      split <;> exact Change.kept ⟨rfl, rfl, rfl, rfl, Or.inl rfl⟩
  | closed socket =>
      obtain ⟨closing, _, _, rfl⟩ := step_closed stepped
      have marked : KeepsSearches app
          { app with
            sockets := app.sockets.set socket { closing with readyState := .closed } } :=
        ⟨rfl, rfl, rfl, rfl, Or.inl rfl⟩
      exact Change.kept (marked.trans (keepsSearches_onClose _ closing.effect))
  | flush effect =>
      obtain ⟨live, _, _, rfl⟩ := step_flush stepped
      by_cases waiting : app.bufferRef = []
      · rw [App.flush, if_pos waiting]
        exact Change.kept (KeepsSearches.refl app)
      · exact Change.flushed effect waiting

/-- The displayed list is left alone, and what is buffered is kept or dropped. -/
def KeepsLists (app next : App Key) : Prop :=
  next.logs = app.logs ∧ (next.bufferRef = app.bufferRef ∨ next.bufferRef = [])

theorem KeepsSearches.keepsLists
    {app next : App Key}
    (keeps : KeepsSearches app next) : KeepsLists app next :=
  ⟨keeps.logs, keeps.bufferRef⟩

/-- Only the end of a search, a log frame and a flush change the displayed list
and what is buffered, except that a toggle drops the buffer. -/
theorem lists_of_step
    {app next : App Key}
    {event : AppEvent Key}
    (stepped : app.step builtins event = some next) :
    KeepsLists app next ∨
    (∃ number outcome search, event = .settle number outcome ∧
      app.searches[number]? = some search ∧
      next.logs = outcome.rows builtins search.labels ∧ next.bufferRef = app.bufferRef) ∨
    (∃ socket entry clock, event = .message socket (.log entry) clock ∧
      app.sockets[socket]?.any Socket.listening = true ∧ next.logs = app.logs ∧
      next.bufferRef = app.bufferRef ++ [liveRow builtins entry clock]) ∨
    ∃ effect, event = .flush effect ∧
      next.logs = (app.bufferRef ++ app.logs).take liveMaxLines ∧ next.bufferRef = [] := by
  cases change_of_step stepped with
  | kept keeps => exact Or.inl keeps.keepsLists
  | edited query => exact Or.inl ⟨rfl, Or.inl rfl⟩
  | issued timeRange now => exact Or.inl ⟨rfl, Or.inl rfl⟩
  | toggled now => exact Or.inl (keepsSearches_toggleIsLive _).keepsLists
  | spaced => exact Or.inl (keepsSearches_toggleIsLive app).keepsLists
  | settled number outcome search found =>
      exact Or.inr (Or.inl ⟨number, outcome, search, rfl, found, rfl, rfl⟩)
  | buffered socket entry clock listening =>
      exact Or.inr (Or.inr (Or.inl ⟨socket, entry, clock, rfl, listening, rfl, rfl⟩))
  | flushed effect waiting =>
      rw [flush_of_ne_nil waiting]
      exact Or.inr (Or.inr (Or.inr ⟨effect, rfl, rfl, rfl⟩))

end Changes

end Web
end Chronolog
