import Chronolog.Web.FlushBatches
import Chronolog.Web.FrameTexts
import Chronolog.Web.LiveSockets

/-!
# What becomes of the frames that arrive

A log frame that arrives is one row of the buffer.  The buffer is emptied as a whole,
by a flush that puts its rows on the display or by a toggle of live tail that drops
them, and the display is what the last search to end has found under what was flushed
since.  The page inside the whole system runs through events of its own, so this holds
of every frame that arrives in it.
-/

namespace Chronolog
namespace Web

open Binary64 (Double)
open LiveTail Pipeline Search Server Storage Utf8

variable {Key : Type}

/-! ## Rows that arrive and batches that leave -/

/-- The row of what arrives. -/
def Packet.row? (builtins : Builtins) (clock : Nat → Int) : Packet Key → Option (Row Key)
  | .log entry => some (liveRow builtins entry clock)
  | _ => none

/-- The row of an event of the page. -/
def AppEvent.arrivedRow? (builtins : Builtins) : AppEvent Key → Option (Row Key)
  | .message _ packet clock => packet.row? builtins clock
  | _ => none

/-- What was in the buffer when it was emptied, and whether it was flushed. -/
structure Batch (Key : Type) where
  rows : List (Row Key)
  flushed : Bool

/-- The batches that left the buffer, what the search that ended last has found, and
the batches flushed since then. -/
structure LiveLedger (Key : Type) where
  batches : List (Batch Key)
  found : List (Row Key)
  flushedSince : List (List (Row Key))

/-- What an event adds to the ledger. -/
def LiveLedger.note
    (builtins : Builtins)
    (app : App Key)
    (event : AppEvent Key)
    (ledger : LiveLedger Key) : LiveLedger Key :=
  match event with
  | .flush _ =>
      { ledger with
        batches := ledger.batches ++ [{ rows := app.bufferRef, flushed := true }]
        flushedSince := ledger.flushedSince ++ [app.bufferRef] }
  | .toggle _ | .space =>
      { ledger with batches := ledger.batches ++ [{ rows := app.bufferRef, flushed := false }] }
  | .settle number outcome =>
      match app.searches[number]? with
      | some search =>
          { ledger with found := outcome.rows builtins search.labels, flushedSince := [] }
      | none => ledger
  | _ => ledger

/-- The ledger of a run of the page. -/
def liveLedger
    (builtins : Builtins)
    (app : App Key)
    (events : List (AppEvent Key)) : LiveLedger Key :=
  Transition.notes (App.step builtins) (LiveLedger.note builtins) app
    { batches := [], found := [], flushedSince := [] } events

/-! ## Open sockets have their handlers -/

section Handlers

variable {builtins : Builtins}

/-- Handlers are replaced together, and a socket whose handlers were replaced does not
stay open. -/
def Socket.Heard (socket : Socket) : Prop :=
  socket.closesOnOpen = !socket.listening ∧
    (socket.readyState = .open → socket.listening = true)

/-- Every socket that is open is listening. -/
def Hearing (sockets : List Socket) : Prop :=
  ∀ (index : Nat) (socket : Socket), sockets[index]? = some socket → socket.Heard

theorem Socket.Heard.close
    {socket : Socket}
    (heard : socket.Heard) : socket.close.Heard := by
  unfold Socket.close
  split
  · exact ⟨heard.1, fun closing => ReadyState.noConfusion closing⟩
  · exact ⟨heard.1, fun closing => ReadyState.noConfusion closing⟩
  · exact heard

theorem Hearing.modify
    {sockets : List Socket}
    {current : Nat}
    {change : Socket → Socket}
    (hearing : Hearing sockets)
    (kept : ∀ socket, sockets[current]? = some socket → (change socket).Heard) :
    Hearing (sockets.modify current change) := by
  intro index socket present
  obtain ⟨old, oldPresent, rfl⟩ := getElem?_modify_eq_some.mp present
  split
  next same => exact kept old (same ▸ oldPresent)
  next => exact hearing index old oldPresent

theorem Hearing.set
    {sockets : List Socket}
    {current : Nat}
    {socket : Socket}
    (hearing : Hearing sockets)
    (heard : socket.Heard) : Hearing (sockets.set current socket) := by
  intro index other present
  rw [List.getElem?_set] at present
  split at present
  · split at present
    · exact Option.some.inj present ▸ heard
    · exact absurd present.symm (Option.some_ne_none other)
  · exact hearing index other present

theorem Hearing.closeSocket
    {app : App Key}
    (hearing : Hearing app.sockets)
    (socket : Nat) : Hearing (app.closeSocket socket).sockets :=
  hearing.modify fun current present => (hearing socket current present).close

theorem Hearing.connect
    {app : App Key}
    (hearing : Hearing app.sockets)
    (effect : Nat) : Hearing (app.connect effect).sockets := by
  unfold App.connect
  split
  · split
    · exact hearing
    · intro index socket present
      rcases getElem?_concat_eq_some.mp present with old | ⟨_, rfl⟩
      · exact hearing index socket old
      · exact ⟨rfl, fun connecting => ReadyState.noConfusion connecting⟩
  · exact hearing

theorem Hearing.runLiveEffect
    {app : App Key}
    (hearing : Hearing app.sockets) : Hearing app.runLiveEffect.sockets := by
  unfold App.runLiveEffect
  split
  · apply Hearing.connect
    exact hearing
  · dsimp only
    split
    next socket _ => exact hearing.closeSocket socket
    next => exact hearing

theorem Hearing.runCleanup
    {app : App Key}
    (hearing : Hearing app.sockets) : Hearing app.runCleanup.sockets := by
  unfold App.runCleanup
  split
  · exact hearing
  · dsimp only
    split
    next current _ =>
      split
      next connecting =>
        apply hearing.modify
        intro socket present
        rw [present, Option.any_some, decide_eq_true_eq] at connecting
        exact ⟨rfl, fun isOpen => ReadyState.noConfusion (connecting.symm.trans isOpen)⟩
      next => exact Hearing.closeSocket hearing current
    next => exact hearing

/-- A socket that opens is listening, or is closed at once. -/
theorem Hearing.opened
    {app : App Key}
    {index : Nat}
    {opening : Socket}
    (hearing : Hearing app.sockets)
    (present : app.sockets[index]? = some opening) :
    Hearing (({ app with
      sockets := app.sockets.set index { opening with readyState := .open } } :
        App Key).onOpen index opening.closesOnOpen).sockets := by
  have heard := hearing index opening present
  unfold App.onOpen
  split
  next closes =>
    intro other socket changed
    obtain ⟨old, oldPresent, rfl⟩ := getElem?_modify_eq_some.mp changed
    have inside := (List.getElem?_eq_some_iff.mp present).1
    rcases (getElem?_set_eq_some inside).mp oldPresent with ⟨rfl, rfl⟩ | ⟨different, kept⟩
    · rw [if_pos rfl]
      exact ⟨heard.1, fun closing => ReadyState.noConfusion closing⟩
    · rw [if_neg (Ne.symm different)]
      exact hearing other old kept
  next stays =>
    apply hearing.set
    rw [heard.1, Bool.not_eq_true', Bool.not_eq_false] at stays
    exact ⟨heard.1, fun _ => stays⟩

theorem Hearing.onClose
    {app : App Key}
    (hearing : Hearing app.sockets)
    (effect : Nat) : Hearing (app.onClose effect).sockets := by
  unfold App.onClose
  split
  · dsimp only
    split <;> split <;> exact hearing
  · exact hearing

theorem Hearing.step
    {app next : App Key}
    {event : AppEvent Key}
    (hearing : Hearing app.sockets)
    (stepped : app.step builtins event = some next) : Hearing next.sockets := by
  cases socketChange_of_step stepped with
  | kept keeps => exact keeps.sockets ▸ hearing
  | toggled keeps =>
      apply Hearing.runLiveEffect
      apply Hearing.runCleanup
      exact keeps.sockets ▸ hearing
  | fired handle timer _ _ =>
      apply Hearing.connect
      exact hearing
  | opened index opening present _ =>
      exact hearing.opened present
  | closed index closing present _ =>
      apply Hearing.onClose
      apply hearing.set
      exact ⟨(hearing index closing present).1, fun closed => ReadyState.noConfusion closed⟩

end Handlers

/-! ## The account of a run -/

section Account

variable {builtins : Builtins}

/-- The rows of what arrives in a run. -/
def arrivedRows (builtins : Builtins) (events : List (AppEvent Key)) : List (Row Key) :=
  events.filterMap (AppEvent.arrivedRow? builtins)

/-- What arrived left in a batch or is still in the buffer, and the display is what the
ledger says. -/
structure LiveLedger.Accounts
    (builtins : Builtins)
    (passed : List (AppEvent Key))
    (ledger : LiveLedger Key)
    (app : App Key) : Prop where
  hearing : Hearing app.sockets
  rows : arrivedRows builtins passed = ledger.batches.flatMap Batch.rows ++ app.bufferRef
  logs : app.logs = ledger.flushedSince.foldl (Feed.push liveMaxLines) ledger.found

/-- The buffer and the display are left alone. -/
structure KeepsRows (app next : App Key) : Prop where
  bufferRef : next.bufferRef = app.bufferRef
  logs : next.logs = app.logs

theorem keepsRows_connect (app : App Key) (effect : Nat) :
    KeepsRows app (app.connect effect) := by
  unfold App.connect
  split
  · split <;> exact ⟨rfl, rfl⟩
  · exact ⟨rfl, rfl⟩

theorem keepsRows_onClose (app : App Key) (effect : Nat) :
    KeepsRows app (app.onClose effect) := by
  unfold App.onClose
  split
  · dsimp only
    split <;> split <;> exact ⟨rfl, rfl⟩
  · exact ⟨rfl, rfl⟩

theorem bufferRef_toggleIsLive (app : App Key) : app.toggleIsLive.bufferRef = [] := by
  unfold App.toggleIsLive App.runLiveEffect
  split
  · exact (keepsRows_connect _ _).bufferRef
  · rfl

variable {passed : List (AppEvent Key)} {ledger : LiveLedger Key} {app next : App Key}

theorem arrivedRows_concat (passed : List (AppEvent Key)) (event : AppEvent Key) :
    arrivedRows builtins (passed ++ [event]) =
      arrivedRows builtins passed ++ (event.arrivedRow? builtins).toList := by
  unfold arrivedRows
  rw [List.filterMap_append, List.filterMap_cons, List.filterMap_nil]
  cases event.arrivedRow? builtins <;> rfl

/-- An event that brings no row and takes none. -/
theorem LiveLedger.Accounts.kept
    {event : AppEvent Key}
    (accounts : ledger.Accounts builtins passed app)
    (hearing : Hearing next.sockets)
    (quiet : event.arrivedRow? builtins = none)
    (keeps : KeepsRows app next) : ledger.Accounts builtins (passed ++ [event]) next := by
  refine ⟨hearing, ?_, keeps.logs.trans accounts.logs⟩
  rw [arrivedRows_concat, quiet, keeps.bufferRef, accounts.rows]
  exact List.append_nil _

/-- The buffer is emptied into a batch. -/
theorem LiveLedger.Accounts.emptied
    {event : AppEvent Key}
    {other : LiveLedger Key}
    (accounts : ledger.Accounts builtins passed app)
    (hearing : Hearing next.sockets)
    (quiet : event.arrivedRow? builtins = none)
    (flushed : Bool)
    (batches : other.batches = ledger.batches ++ [{ rows := app.bufferRef, flushed }])
    (bufferRef : next.bufferRef = [])
    (logs : next.logs = other.flushedSince.foldl (Feed.push liveMaxLines) other.found) :
    other.Accounts builtins (passed ++ [event]) next := by
  refine ⟨hearing, ?_, logs⟩
  rw [arrivedRows_concat, quiet, bufferRef, batches, accounts.rows, List.flatMap_append,
    List.flatMap_singleton]
  rfl

theorem LiveLedger.Accounts.step
    {event : AppEvent Key}
    (accounts : ledger.Accounts builtins passed app)
    (stepped : app.step builtins event = some next) :
    (ledger.note builtins app event).Accounts builtins (passed ++ [event]) next := by
  have hearing := accounts.hearing.step stepped
  cases event with
  | edit query =>
      obtain rfl := Option.some.inj stepped
      exact accounts.kept hearing rfl ⟨rfl, rfl⟩
  | enter now =>
      obtain rfl := Option.some.inj stepped
      exact accounts.kept hearing rfl ⟨rfl, rfl⟩
  | runButton now =>
      obtain ⟨_, same⟩ := Option.ite_none_left_eq_some.mp stepped
      obtain rfl := Option.some.inj same
      exact accounts.kept hearing rfl ⟨rfl, rfl⟩
  | changeRange minutes now =>
      obtain rfl := Option.some.inj stepped
      exact accounts.kept hearing rfl ⟨rfl, rfl⟩
  | toggle now =>
      obtain rfl := Option.some.inj stepped
      apply accounts.emptied hearing rfl false rfl (bufferRef_toggleIsLive _)
      exact (keepsSearches_toggleIsLive _).logs.trans accounts.logs
  | space =>
      obtain rfl := Option.some.inj stepped
      apply accounts.emptied hearing rfl false rfl (bufferRef_toggleIsLive _)
      exact (keepsSearches_toggleIsLive _).logs.trans accounts.logs
  | dismiss =>
      obtain rfl := Option.some.inj stepped
      exact accounts.kept hearing rfl ⟨rfl, rfl⟩
  | settle number outcome =>
      obtain ⟨search, issued, _, rfl⟩ := settle_eq_some stepped
      unfold LiveLedger.note
      dsimp only
      rw [issued]
      refine ⟨hearing, ?_, rfl⟩
      rw [arrivedRows_concat, accounts.rows]
      exact List.append_nil _
  | timeout handle =>
      obtain ⟨timer, _, _, rfl⟩ := step_timeout stepped
      have connected := keepsRows_connect
        ({ app with timers := app.timers.filter fun timer => timer.1 ≠ handle } : App Key) timer.2
      exact accounts.kept hearing rfl ⟨connected.bufferRef, connected.logs⟩
  | opened socket =>
      obtain ⟨opening, _, _, rfl⟩ := step_opened stepped
      apply accounts.kept hearing rfl
      unfold App.onOpen
      split <;> exact ⟨rfl, rfl⟩
  | message socket packet clock =>
      obtain ⟨current, present, isOpen, rfl⟩ := step_message stepped
      have listening := (accounts.hearing socket current present).2 isOpen
      rw [if_pos listening] at hearing ⊢
      cases packet with
      | log entry =>
          refine ⟨hearing, ?_, accounts.logs⟩
          rw [arrivedRows_concat, accounts.rows]
          exact List.append_assoc _ _ _
      | _ => exact accounts.kept hearing rfl ⟨rfl, rfl⟩
  | failed socket =>
      obtain ⟨failing, _, _, rfl⟩ := step_failed stepped
      apply accounts.kept hearing rfl
      split <;> exact ⟨rfl, rfl⟩
  | closed socket =>
      obtain ⟨closing, _, _, rfl⟩ := step_closed stepped
      have closed := keepsRows_onClose
        ({ app with sockets := app.sockets.set socket { closing with readyState := .closed } } :
          App Key) closing.effect
      exact accounts.kept hearing rfl ⟨closed.bufferRef, closed.logs⟩
  | flush effect =>
      obtain ⟨live, _, _, rfl⟩ := step_flush stepped
      obtain ⟨logs, bufferRef, _⟩ := App.logs_flush app
      apply accounts.emptied hearing rfl true rfl bufferRef
      unfold LiveLedger.note
      dsimp only
      rw [List.foldl_append, logs, accounts.logs]
      rfl

theorem accounts_mount
    (query : Text)
    (timeRange : Rat)
    (isLive : Bool)
    (now : Int) :
    ({ batches := [], found := [], flushedSince := [] } : LiveLedger Key).Accounts builtins []
      (App.mount query timeRange isLive now) := by
  refine ⟨?_, (bufferRef_mount query timeRange isLive now).symm,
    logs_mount query timeRange isLive now⟩
  unfold App.mount
  apply Hearing.runLiveEffect
  intro index socket present
  exact absurd present.symm (Option.some_ne_none socket)

/-- In every run of the page, the rows of what arrived are those of the batches that
left the buffer and those still in it, in this order, and the display is what the
search that ended last has found under the batches flushed since. -/
theorem page_accounts
    (query : Text)
    (timeRange : Rat)
    (isLive : Bool)
    (now : Int)
    {events : List (AppEvent Key)}
    (reached : Transition.run (App.step builtins) (App.mount query timeRange isLive now) events =
      some app) :
    (liveLedger builtins (App.mount query timeRange isLive now) events).Accounts builtins events
      app :=
  Transition.run_notes_passed [] (fun _ _ _ _ _ accounts stepped => accounts.step stepped)
    (accounts_mount query timeRange isLive now) reached

end Account

/-! ## The page in the whole system -/

section Page

variable {unicode : UnicodeTables} {sha1Hex : Bytes → Bytes} {int64Field : Double → Int64}
  {builtins : Builtins}

/-- The row of a delivery. -/
def Delivery.row? (builtins : Builtins) (delivery : Delivery) : Option (Row LogRecordID) :=
  delivery.packet.row? builtins delivery.clock

/-- One event brings the same rows to both. -/
theorem filterMap_noteDelivery
    {system next : System}
    {event : SystemEvent}
    {noted : List Delivery}
    {passed : List (AppEvent LogRecordID)}
    (agree : noted.filterMap (Delivery.row? builtins) = arrivedRows builtins passed)
    (stepped : system.step unicode sha1Hex int64Field builtins event = some next) :
    (noteDelivery system event noted).filterMap (Delivery.row? builtins) =
      arrivedRows builtins (passed ++ (system.pageEvent? event).toList) := by
  cases systemChange_of_step stepped with
  | browser event app isLocal _ =>
      have quiet : event.arrivedRow? builtins = none := by
        cases event with
        | message socket packet clock => exact absurd isLocal Bool.false_ne_true
        | _ => rfl
      rw [System.pageEvent?, Option.toList_some, arrivedRows_concat, quiet, ← agree]
      exact (List.append_nil _).symm
  | reply number clock results app answered _ =>
      rw [System.pageEvent?, answered, Option.map_some, Option.toList_some, arrivedRows_concat,
        ← agree]
      exact (List.append_nil _).symm
  | lost number error app _ =>
      rw [System.pageEvent?, Option.toList_some, arrivedRows_concat, ← agree]
      exact (List.append_nil _).symm
  | deliver socket clock connection packet inFlight app held queued _ =>
      rw [noteDelivery_of_head held queued, System.pageEvent?, held, Option.bind_some, queued,
        List.head?_cons, Option.map_some, Option.toList_some, arrivedRows_concat, ← agree,
        List.filterMap_append, List.filterMap_cons, List.filterMap_nil]
      unfold Delivery.row? AppEvent.arrivedRow?
      dsimp only
      cases packet.row? builtins clock <;> rfl
  | _ => exact agree.trans (congrArg (arrivedRows builtins) (List.append_nil passed).symm)

/-- What arrives in the system is what arrives at the page. -/
theorem filterMap_deliveries
    (start : System)
    (events : List SystemEvent) :
    (deliveries unicode sha1Hex int64Field builtins start events).filterMap
        (Delivery.row? builtins) =
      arrivedRows builtins (pageEvents unicode sha1Hex int64Field builtins start events) := by
  have preserved : ∀ (system : System) (event : SystemEvent) (next : System)
      (noted : List Delivery) (passed : List (AppEvent LogRecordID)),
      noted.filterMap (Delivery.row? builtins) = arrivedRows builtins passed →
      system.step unicode sha1Hex int64Field builtins event = some next →
      (noteDelivery system event noted).filterMap (Delivery.row? builtins) =
        arrivedRows builtins (passed ++ (system.pageEvent? event).toList) :=
    fun _ _ _ _ _ agree stepped => filterMap_noteDelivery agree stepped
  exact Transition.notes_agree preserved start rfl events

end Page

/-- In every run of the system, every log frame that arrives is one row, in a batch
that a flush or a toggle took from the buffer or still in the buffer, all in the order
of their arrival; and the display is what the search that ended last has found under
the batches flushed since. -/
theorem frames_in_batches
    (unicode : UnicodeTables)
    (sha1Hex : Bytes → Bytes)
    (int64Field : Double → Int64)
    (builtins : Builtins)
    (db : DB)
    (query : Text)
    (timeRange : Rat)
    (isLive : Bool)
    (now : Int)
    (events : List SystemEvent)
    (system : System)
    (reached : Transition.run (System.step unicode sha1Hex int64Field builtins)
      (System.start db query timeRange isLive now) events = some system) :
    let ledger := liveLedger builtins (App.mount query timeRange isLive now)
      (pageEvents unicode sha1Hex int64Field builtins
        (System.start db query timeRange isLive now) events)
    (deliveries unicode sha1Hex int64Field builtins (System.start db query timeRange isLive now)
        events).filterMap (Delivery.row? builtins) =
      ledger.batches.flatMap Batch.rows ++ system.app.bufferRef ∧
    system.app.logs = ledger.flushedSince.foldl (Feed.push liveMaxLines) ledger.found := by
  intro ledger
  have accounts := page_accounts query timeRange isLive now (run_pageEvents reached)
  constructor
  · rw [filterMap_deliveries]
    exact accounts.rows
  · exact accounts.logs

/-- The record that was tailed is in the one batch that was flushed. -/
theorem frames_in_batches_tailHello :
    ∃ system, Transition.run (System.step asciiTables plainDigest longField asciiBuiltins)
        openedHello (searchHello ++ tailHello) = some system ∧
      system.app.logs ≠ [] ∧
      let ledger := liveLedger asciiBuiltins (App.mount "| hello".toList 15 false 1000000)
        (pageEvents asciiTables plainDigest longField asciiBuiltins openedHello
          (searchHello ++ tailHello))
      (deliveries asciiTables plainDigest longField asciiBuiltins openedHello
          (searchHello ++ tailHello)).filterMap (Delivery.row? asciiBuiltins) =
        ledger.batches.flatMap Batch.rows ++ system.app.bufferRef ∧
      system.app.logs = ledger.flushedSince.foldl (Feed.push liveMaxLines) ledger.found := by
  obtain ⟨system, reached, shown⟩ := (Option.any_eq_true _ _).mp
    (by decide +kernel : (Transition.run
      (System.step asciiTables plainDigest longField asciiBuiltins)
      openedHello (searchHello ++ tailHello)).any (fun system =>
        decide (system.app.logs ≠ [])) = true)
  refine ⟨system, reached, of_decide_eq_true shown, ?_⟩
  exact frames_in_batches asciiTables plainDigest longField asciiBuiltins ∅ "| hello".toList
    15 false 1000000 _ system reached

end Web
end Chronolog
