import Chronolog.Web.SearchRace

/-!
# The sockets of the live tail

Every run of the live effect closes over variables of its own and shares
`socketRef` with the others.  At any time at most one run is not stopped; it
holds the only socket that can still deliver, or else waits for its only
reconnect timer.  A socket that was given up delivers nothing any more, in
whatever order its late events come.
-/

namespace Chronolog
namespace Web

variable {Key : Type} {builtins : Builtins}

/-! ## Sockets that were given up -/

namespace Socket

/-- A socket that is closed or closing, or that is still connecting, closes when
it opens and has no message handler. -/
def Retired (socket : Socket) : Prop :=
  match socket.readyState with
  | .connecting => socket.closesOnOpen = true ∧ socket.listening = false
  | .open => False
  | .closing => True
  | .closed => True

/-- `close` -/
def close (socket : Socket) : Socket :=
  match socket.readyState with
  | .connecting | .open => { socket with readyState := .closing }
  | _ => socket

theorem retired_close (socket : Socket) : socket.close.Retired := by
  unfold close Retired
  cases state : socket.readyState <;> simp [state]

@[simp] theorem effect_close (socket : Socket) : socket.close.effect = socket.effect := by
  unfold close
  split <;> rfl

end Socket

theorem getElem?_concat_eq_some
    {α : Type}
    {list : List α}
    {last value : α}
    {index : Nat} :
    (list ++ [last])[index]? = some value ↔
      list[index]? = some value ∨ index = list.length ∧ value = last := by
  rcases Nat.lt_trichotomy index list.length with inside | end_ | outside
  · rw [List.getElem?_append_left inside]
    refine (or_iff_left ?_).symm
    rintro ⟨rfl, _⟩
    exact Nat.lt_irrefl _ inside
  · rw [end_, List.getElem?_concat_length, List.getElem?_eq_none (Nat.le_refl _)]
    simp [eq_comm]
  · rw [List.getElem?_eq_none (by simp; omega), List.getElem?_eq_none (by omega)]
    simp
    omega

theorem getElem?_set_eq_some
    {α : Type}
    {list : List α}
    {new value : α}
    {index other : Nat}
    (inside : index < list.length) :
    (list.set index new)[other]? = some value ↔
      other = index ∧ value = new ∨ other ≠ index ∧ list[other]? = some value := by
  by_cases same : other = index
  · rw [same, List.getElem?_set_self inside]
    simp [eq_comm]
  · rw [List.getElem?_set_ne (Ne.symm same)]
    simp [same]

/-- A value that is set without changing a view of it. -/
theorem exists_of_getElem?_set
    {α β : Type}
    {list : List α}
    {old new value : α}
    {index other : Nat}
    (view : α → β)
    (found : list[index]? = some old)
    (present : (list.set index new)[other]? = some value)
    (same : view new = view old) :
    ∃ before, list[other]? = some before ∧ view before = view value := by
  have inside := (List.getElem?_eq_some_iff.mp found).1
  rcases (getElem?_set_eq_some inside).mp present with ⟨rfl, rfl⟩ | ⟨_, kept⟩
  · exact ⟨old, found, same.symm⟩
  · exact ⟨value, kept, rfl⟩

theorem getElem?_modify_eq_some
    {α : Type}
    {list : List α}
    {change : α → α}
    {value : α}
    {index other : Nat} :
    (list.modify index change)[other]? = some value ↔
      ∃ old, list[other]? = some old ∧ value = if index = other then change old else old := by
  rw [List.getElem?_modify, Option.map_eq_map, Option.map_eq_some_iff]
  simp only [eq_comm]

/-! ## What an event does to the sockets -/

/-- The sockets and the runs of the live effect are left alone. -/
structure KeepsSockets (app next : App Key) : Prop where
  isLive : next.isLive = app.isLive
  socketRef : next.socketRef = app.socketRef
  sockets : next.sockets = app.sockets
  effects : next.effects = app.effects
  cleanup : next.cleanup = app.cleanup
  timers : next.timers = app.timers

theorem KeepsSockets.refl (app : App Key) : KeepsSockets app app :=
  ⟨rfl, rfl, rfl, rfl, rfl, rfl⟩

/-- What an event changes of the sockets and the runs of the live effect. -/
inductive SocketChange (app : App Key) : App Key → Prop
  | kept {next : App Key} :
      KeepsSockets app next →
      SocketChange app next
  | toggled {issued : App Key} :
      KeepsSockets app issued →
      SocketChange app issued.toggleIsLive
  | fired (handle : Nat) (timer : Nat × Nat) :
      timer ∈ app.timers →
      timer.1 = handle →
      SocketChange app
        (({ app with timers := app.timers.filter fun timer => timer.1 ≠ handle } :
          App Key).connect timer.2)
  | opened (index : Nat) (opening : Socket) :
      app.sockets[index]? = some opening →
      opening.readyState = .connecting →
      SocketChange app
        (({ app with
          sockets := app.sockets.set index { opening with readyState := .open } } :
            App Key).onOpen index opening.closesOnOpen)
  | closed (index : Nat) (closing : Socket) :
      app.sockets[index]? = some closing →
      closing.readyState ≠ .closed →
      SocketChange app
        (({ app with
          sockets := app.sockets.set index { closing with readyState := .closed } } :
            App Key).onClose closing.effect)

theorem socketChange_of_step
    {app next : App Key}
    {event : AppEvent Key}
    (stepped : app.step builtins event = some next) : SocketChange app next := by
  cases event with
  | edit query =>
      obtain rfl := Option.some.inj stepped
      exact SocketChange.kept ⟨rfl, rfl, rfl, rfl, rfl, rfl⟩
  | enter now =>
      obtain rfl := Option.some.inj stepped
      exact SocketChange.kept ⟨rfl, rfl, rfl, rfl, rfl, rfl⟩
  | runButton now =>
      obtain ⟨_, same⟩ := Option.ite_none_left_eq_some.mp stepped
      obtain rfl := Option.some.inj same
      exact SocketChange.kept ⟨rfl, rfl, rfl, rfl, rfl, rfl⟩
  | changeRange minutes now =>
      obtain rfl := Option.some.inj stepped
      exact SocketChange.kept ⟨rfl, rfl, rfl, rfl, rfl, rfl⟩
  | toggle now =>
      obtain rfl := Option.some.inj stepped
      exact SocketChange.toggled ⟨rfl, rfl, rfl, rfl, rfl, rfl⟩
  | space =>
      obtain rfl := Option.some.inj stepped
      exact SocketChange.toggled (KeepsSockets.refl app)
  | dismiss =>
      obtain rfl := Option.some.inj stepped
      exact SocketChange.kept ⟨rfl, rfl, rfl, rfl, rfl, rfl⟩
  | settle number outcome =>
      obtain ⟨_, _, _, rfl⟩ := settle_eq_some stepped
      exact SocketChange.kept ⟨rfl, rfl, rfl, rfl, rfl, rfl⟩
  | timeout handle =>
      obtain ⟨timer, member, named, rfl⟩ := step_timeout stepped
      exact SocketChange.fired handle timer member named
  | opened socket =>
      obtain ⟨opening, present, connecting, rfl⟩ := step_opened stepped
      exact SocketChange.opened socket opening present connecting
  | message socket packet clock =>
      obtain ⟨current, _, _, rfl⟩ := step_message stepped
      apply SocketChange.kept
      split
      · cases packet <;> exact ⟨rfl, rfl, rfl, rfl, rfl, rfl⟩
      · exact KeepsSockets.refl app
  | failed socket =>
      obtain ⟨failing, _, _, rfl⟩ := step_failed stepped
      apply SocketChange.kept
      split <;> exact ⟨rfl, rfl, rfl, rfl, rfl, rfl⟩
  | closed socket =>
      obtain ⟨closing, present, unclosed, rfl⟩ := step_closed stepped
      exact SocketChange.closed socket closing present unclosed
  | flush effect =>
      obtain ⟨live, _, _, rfl⟩ := step_flush stepped
      apply SocketChange.kept
      unfold App.flush
      split <;> exact ⟨rfl, rfl, rfl, rfl, rfl, rfl⟩

/-! ## The invariant -/

/-- No run of the live effect is going on. -/
structure Idle (app : App Key) : Prop where
  retired : ∀ (index : Nat) (socket : Socket),
    app.sockets[index]? = some socket → socket.Retired
  stopped : ∀ (effect : Nat) (live : LiveEffect),
    app.effects[effect]? = some live → live.stopped = true
  owned : ∀ (effect : Nat) (live : LiveEffect) (index : Nat),
    app.effects[effect]? = some live → live.socket = some index →
    ∃ socket, app.sockets[index]? = some socket ∧ socket.effect = effect
  numbered : ∀ (index : Nat) (socket : Socket), app.sockets[index]? = some socket →
    socket.effect < app.effects.length
  socketRef : app.socketRef = none
  timers : app.timers = []
  cleanup : app.cleanup = none

/-- At most one run of the live effect is going on, and what the others left
behind is retired. -/
structure Sound (app : App Key) : Prop where
  retired : ∀ (index : Nat) (socket : Socket), app.sockets[index]? = some socket →
    app.socketRef ≠ some index → socket.Retired
  alone : ∀ (index : Nat) (socket : Socket) (live : LiveEffect),
    app.sockets[index]? = some socket → app.effects[socket.effect]? = some live →
    live.stopped = false → socket.readyState ≠ .closed → app.socketRef = some index
  held : ∀ index, app.socketRef = some index →
    ∃ socket live, app.sockets[index]? = some socket ∧
      app.effects[socket.effect]? = some live ∧ live.stopped = false ∧
      live.socket = some index
  owned : ∀ (effect : Nat) (live : LiveEffect) (index : Nat),
    app.effects[effect]? = some live → live.socket = some index →
    ∃ socket, app.sockets[index]? = some socket ∧ socket.effect = effect
  numbered : ∀ (index : Nat) (socket : Socket), app.sockets[index]? = some socket →
    socket.effect < app.effects.length
  stopped : ∀ (effect : Nat) (live : LiveEffect), app.effects[effect]? = some live →
    app.cleanup ≠ some effect → live.stopped = true
  running : ∀ effect, app.cleanup = some effect →
    app.isLive = true ∧ ∃ live, app.effects[effect]? = some live ∧ live.stopped = false
  timers : ∀ timer ∈ app.timers, app.cleanup = some timer.2 ∧ app.socketRef = none ∧
    ∃ live, app.effects[timer.2]? = some live ∧ live.reconnectTimer = some timer.1
  single : app.timers.length ≤ 1

/-- The invariant is about the sockets and the runs only. -/
theorem Sound.of_keepsSockets
    {app next : App Key}
    (sound : Sound app)
    (keeps : KeepsSockets app next) : Sound next := by
  obtain ⟨isLive, socketRef, sockets, effects, cleanup, timers⟩ := keeps
  obtain ⟨retired, alone, held, owned, numbered, stopped, running, pending, single⟩ := sound
  constructor <;> simp only [isLive, socketRef, sockets, effects, cleanup, timers] <;>
    assumption

/-- A run that is not stopped is the one whose cleanup function is held. -/
theorem Sound.cleanup_of_running
    {app : App Key}
    {effect : Nat}
    {live : LiveEffect}
    (sound : Sound app)
    (found : app.effects[effect]? = some live)
    (running : live.stopped = false) : app.cleanup = some effect := by
  by_contra notCurrent
  rw [sound.stopped effect live found notCurrent] at running
  exact Bool.noConfusion running

/-- A stopped run does not own the socket that is held. -/
theorem Sound.unheld_of_stopped
    {app : App Key}
    {effect : Nat}
    {live : LiveEffect}
    (sound : Sound app)
    (found : app.effects[effect]? = some live)
    (stopped : live.stopped = true)
    (same : app.socketRef = live.socket) : app.socketRef = none := by
  rw [Option.eq_none_iff_forall_not_mem]
  intro current held
  obtain ⟨socket, other, socketFound, otherFound, running, _⟩ := sound.held current held
  obtain ⟨owner, ownerFound, belongs⟩ :=
    sound.owned effect live current found (same.symm.trans held)
  obtain rfl : socket = owner := Option.some.inj (socketFound.symm.trans ownerFound)
  rw [belongs, found, Option.some.injEq] at otherFound
  rw [← otherFound, stopped] at running
  exact Bool.noConfusion running

/-- While a socket is held no timer is pending. -/
theorem Sound.noTimers_of_held
    {app : App Key}
    {index : Nat}
    (sound : Sound app)
    (held : app.socketRef = some index) : app.timers = [] := by
  rw [List.eq_nil_iff_forall_not_mem]
  intro timer member
  obtain ⟨_, unheld, _⟩ := sound.timers timer member
  exact absurd (held.symm.trans unheld) (Option.some_ne_none index)

/-- With no run going on, nothing is held and nothing is pending. -/
theorem Sound.idle
    {app : App Key}
    (sound : Sound app)
    (noRun : app.cleanup = none) : Idle app := by
  have stopped : ∀ (effect : Nat) (live : LiveEffect),
      app.effects[effect]? = some live → live.stopped = true := by
    intro effect live found
    refine sound.stopped effect live found ?_
    rw [noRun]
    exact (Option.some_ne_none effect).symm
  have unheld : app.socketRef = none := by
    rw [Option.eq_none_iff_forall_not_mem]
    intro index current
    obtain ⟨socket, live, _, found, unstopped, _⟩ := sound.held index current
    rw [stopped _ _ found] at unstopped
    exact Bool.noConfusion unstopped
  refine ⟨?_, stopped, sound.owned, sound.numbered, unheld, ?_, noRun⟩
  · intro index socket found
    refine sound.retired index socket found ?_
    rw [unheld]
    exact (Option.some_ne_none index).symm
  · rw [List.eq_nil_iff_forall_not_mem]
    intro timer member
    obtain ⟨current, _⟩ := sound.timers timer member
    exact absurd (current.symm.trans noRun) (Option.some_ne_none timer.2)

theorem Sound.idle_of_off
    {app : App Key}
    (sound : Sound app)
    (off : app.isLive = false) : Idle app := by
  apply sound.idle
  rw [Option.eq_none_iff_forall_not_mem]
  intro effect current
  obtain ⟨live, _⟩ := sound.running effect current
  rw [off] at live
  exact Bool.noConfusion live

/-! ## Starting a run -/

theorem sound_connect
    {app : App Key}
    {effect : Nat}
    (sound : Sound app)
    (unheld : app.socketRef = none)
    (noTimers : app.timers = [])
    (current : app.cleanup = some effect) : Sound (app.connect effect) := by
  obtain ⟨isLive, live, found, unstopped⟩ := sound.running effect current
  have bound : effect < app.effects.length := (List.getElem?_eq_some_iff.mp found).1
  have connected : app.connect effect =
      { app with
        socketState := "connecting".toList
        sockets := app.sockets ++
          [{ effect, term := live.term, readyState := .connecting, closesOnOpen := false,
             listening := true, reportsErrors := true }]
        effects := app.effects.set effect { live with socket := some app.sockets.length }
        socketRef := some app.sockets.length } := by
    rw [App.connect, found]
    exact if_neg (by simp [unstopped])
  have notHeld : ∀ index, app.socketRef ≠ some index := by
    intro index
    rw [unheld]
    exact (Option.some_ne_none index).symm
  rw [connected]
  constructor <;> dsimp only
  · intro index socket present other
    rcases getElem?_concat_eq_some.mp present with old | ⟨rfl, _⟩
    · exact sound.retired index socket old (notHeld index)
    · exact absurd rfl other
  · intro index socket other present otherFound otherUnstopped unclosed
    rcases getElem?_concat_eq_some.mp present with old | ⟨rfl, _⟩
    · obtain ⟨before, beforeFound, kept⟩ :=
        exists_of_getElem?_set LiveEffect.stopped found otherFound rfl
      exact absurd (sound.alone index socket before old beforeFound
        (kept.trans otherUnstopped) unclosed) (notHeld index)
    · rfl
  · rintro index ⟨⟩
    exact ⟨_, { live with socket := some app.sockets.length },
      getElem?_concat_eq_some.mpr (Or.inr ⟨rfl, rfl⟩),
      (getElem?_set_eq_some bound).mpr (Or.inl ⟨rfl, rfl⟩), unstopped, rfl⟩
  · intro other otherLive index otherFound owns
    rcases (getElem?_set_eq_some bound).mp otherFound with ⟨rfl, rfl⟩ | ⟨_, same⟩
    · obtain rfl := Option.some.inj owns
      exact ⟨_, getElem?_concat_eq_some.mpr (Or.inr ⟨rfl, rfl⟩), rfl⟩
    · obtain ⟨socket, present, belongs⟩ := sound.owned other otherLive index same owns
      exact ⟨socket, getElem?_concat_eq_some.mpr (Or.inl present), belongs⟩
  · intro index socket present
    rw [List.length_set]
    rcases getElem?_concat_eq_some.mp present with old | ⟨_, rfl⟩
    · exact sound.numbered index socket old
    · exact bound
  · intro other otherLive otherFound notCurrent
    obtain ⟨before, beforeFound, kept⟩ :=
      exists_of_getElem?_set LiveEffect.stopped found otherFound rfl
    exact kept.symm.trans (sound.stopped other before beforeFound notCurrent)
  · intro other isCurrent
    obtain rfl : effect = other := Option.some.inj (current.symm.trans isCurrent)
    exact ⟨isLive, _, (getElem?_set_eq_some bound).mpr (Or.inl ⟨rfl, rfl⟩), unstopped⟩
  · rw [noTimers]
    exact fun timer impossible => absurd impossible List.not_mem_nil
  · rw [noTimers]
    exact Nat.zero_le 1

/-- A run of the live effect starts from an idle application only. -/
theorem sound_runLiveEffect
    {app : App Key}
    (idle : Idle app) : Sound app.runLiveEffect := by
  unfold App.runLiveEffect
  split
  next isLive =>
    dsimp only
    refine sound_connect ?_ idle.socketRef idle.timers rfl
    constructor <;> dsimp only
    · exact fun index socket present _ => idle.retired index socket present
    · intro index socket live present found unstopped _
      rcases getElem?_concat_eq_some.mp found with old | ⟨last, _⟩
      · rw [idle.stopped _ _ old] at unstopped
        exact Bool.noConfusion unstopped
      · exact absurd last (Nat.ne_of_lt (idle.numbered index socket present))
    · rw [idle.socketRef]
      exact fun index impossible => nomatch impossible
    · intro effect live index found owns
      rcases getElem?_concat_eq_some.mp found with old | ⟨_, rfl⟩
      · exact idle.owned effect live index old owns
      · exact nomatch owns
    · intro index socket present
      rw [List.length_append]
      exact Nat.lt_of_lt_of_le (idle.numbered index socket present) (Nat.le_add_right _ _)
    · intro effect live found notCurrent
      rcases getElem?_concat_eq_some.mp found with old | ⟨rfl, _⟩
      · exact idle.stopped effect live old
      · exact absurd rfl notCurrent
    · rintro effect ⟨⟩
      exact ⟨isLive, _, getElem?_concat_eq_some.mpr (Or.inr ⟨rfl, rfl⟩), rfl⟩
    · rw [idle.timers]
      exact fun timer impossible => absurd impossible List.not_mem_nil
    · rw [idle.timers]
      exact Nat.zero_le 1
  next =>
    rw [idle.socketRef]
    dsimp only
    constructor <;> dsimp only
    · exact fun index socket present _ => idle.retired index socket present
    · intro index socket live _ found unstopped _
      rw [idle.stopped _ _ found] at unstopped
      exact Bool.noConfusion unstopped
    · rw [idle.socketRef]
      exact fun index impossible => nomatch impossible
    · exact idle.owned
    · exact idle.numbered
    · exact fun effect live found _ => idle.stopped effect live found
    · exact fun effect impossible => nomatch impossible
    · rw [idle.timers]
      exact fun timer impossible => absurd impossible List.not_mem_nil
    · rw [idle.timers]
      exact Nat.zero_le 1

/-! ## Ending a run -/

/-- A socket given up by a cleanup before it was open. -/
theorem Socket.retired_disarmed
    {socket : Socket}
    (connecting : socket.readyState = .connecting) :
    Socket.Retired { socket with
      closesOnOpen := true, listening := false, reportsErrors := false } := by
  rw [Socket.Retired, connecting]
  exact ⟨rfl, rfl⟩

/-- Sockets of which one is changed are still numbered and owned. -/
theorem owned_modify
    {sockets : List Socket}
    {change : Socket → Socket}
    {effect index current : Nat}
    (kept : ∀ socket, (change socket).effect = socket.effect)
    (owned : ∃ socket, sockets[index]? = some socket ∧ socket.effect = effect) :
    ∃ socket, (sockets.modify current change)[index]? = some socket ∧
      socket.effect = effect := by
  obtain ⟨socket, present, belongs⟩ := owned
  refine ⟨_, getElem?_modify_eq_some.mpr ⟨socket, present, rfl⟩, ?_⟩
  split
  · rw [kept, belongs]
  · exact belongs

/-- The run that goes on is stopped; the others were before. -/
theorem Sound.stopped_modify
    {app : App Key}
    {effect other : Nat}
    {live : LiveEffect}
    (sound : Sound app)
    (current : app.cleanup = some effect)
    (found : (app.effects.modify effect fun live =>
      { live with stopped := true, flushing := false })[other]? = some live) :
    live.stopped = true ∧
      ∃ old, app.effects[other]? = some old ∧ old.socket = live.socket := by
  obtain ⟨old, oldFound, rfl⟩ := getElem?_modify_eq_some.mp found
  split
  · exact ⟨rfl, old, oldFound, rfl⟩
  next notCurrent =>
    refine ⟨sound.stopped other old oldFound ?_, old, oldFound, rfl⟩
    rw [current, Ne, Option.some.injEq]
    exact notCurrent

/-- The only timer that can be pending is that of the run that goes on. -/
theorem Sound.timers_filter
    {app : App Key}
    {effect : Nat}
    (sound : Sound app)
    (current : app.cleanup = some effect) :
    (app.timers.filter fun timer =>
      some timer.1 ≠ app.effects[effect]?.bind LiveEffect.reconnectTimer) = [] := by
  rw [List.filter_eq_nil_iff]
  intro timer member
  obtain ⟨same, _, live, found, handle⟩ := sound.timers timer member
  obtain rfl : effect = timer.2 := Option.some.inj (current.symm.trans same)
  simp [found, handle]

/-- Once the held socket is given up, all sockets are. -/
theorem Sound.retired_modify
    {app : App Key}
    {current index : Nat}
    {socket : Socket}
    {change : Socket → Socket}
    (sound : Sound app)
    (held : app.socketRef = some current)
    (retires : ∀ socket, app.sockets[current]? = some socket → (change socket).Retired)
    (present : (app.sockets.modify current change)[index]? = some socket) :
    socket.Retired := by
  obtain ⟨old, oldPresent, rfl⟩ := getElem?_modify_eq_some.mp present
  split
  next same => exact retires old (same ▸ oldPresent)
  next notHeld =>
    refine sound.retired index old oldPresent ?_
    rw [held, Ne, Option.some.injEq]
    exact notHeld

/-- Sockets of which one is changed keep the numbers of their runs. -/
theorem Sound.numbered_modify
    {app : App Key}
    {current index : Nat}
    {socket : Socket}
    {change : Socket → Socket}
    (sound : Sound app)
    (kept : ∀ socket, (change socket).effect = socket.effect)
    (present : (app.sockets.modify current change)[index]? = some socket) :
    socket.effect < app.effects.length := by
  obtain ⟨old, oldPresent, rfl⟩ := getElem?_modify_eq_some.mp present
  have numbered := sound.numbered index old oldPresent
  split
  · rw [kept]
    exact numbered
  · exact numbered

/-- The held socket is given up, the run that goes on is stopped and its timer
cleared. -/
theorem Sound.idle_of_givenUp
    {app next : App Key}
    {effect current : Nat}
    (change : Socket → Socket)
    (sound : Sound app)
    (running : app.cleanup = some effect)
    (held : app.socketRef = some current)
    (kept : ∀ socket, (change socket).effect = socket.effect)
    (retires : ∀ socket, app.sockets[current]? = some socket → (change socket).Retired)
    (effects : next.effects = app.effects.modify effect fun live =>
      { live with stopped := true, flushing := false })
    (sockets : next.sockets = app.sockets.modify current change)
    (socketRef : next.socketRef = none)
    (timers : next.timers = app.timers.filter fun timer =>
      some timer.1 ≠ app.effects[effect]?.bind LiveEffect.reconnectTimer)
    (cleanup : next.cleanup = none) : Idle next := by
  refine ⟨?_, ?_, ?_, ?_, socketRef, timers.trans (sound.timers_filter running), cleanup⟩
  · rw [sockets]
    exact fun index socket present => sound.retired_modify held retires present
  · rw [effects]
    exact fun other live found => (sound.stopped_modify running found).1
  · rw [effects, sockets]
    intro other live index found owns
    obtain ⟨_, old, oldFound, same⟩ := sound.stopped_modify running found
    exact owned_modify kept (sound.owned other old index oldFound (same.trans owns))
  · rw [effects, sockets, List.length_modify]
    exact fun index socket present => sound.numbered_modify kept present

/-- The cleanup function stops the run, its timer and its socket. -/
theorem idle_runCleanup
    {app : App Key}
    (sound : Sound app)
    (isLive : Bool) : Idle ({ app with isLive } : App Key).runCleanup := by
  unfold App.runCleanup
  split
  next noRun =>
    have idle := sound.idle noRun
    exact ⟨idle.retired, idle.stopped, idle.owned, idle.numbered, idle.socketRef, idle.timers,
      idle.cleanup⟩
  next effect current =>
    dsimp only at current ⊢
    split
    next socket held =>
      split
      next connecting =>
        refine Sound.idle_of_givenUp (fun socket => { socket with
          closesOnOpen := true, listening := false, reportsErrors := false })
          sound current held (fun _ => rfl) (fun other present => ?_) rfl rfl rfl rfl rfl
        rw [present] at connecting
        exact Socket.retired_disarmed (of_decide_eq_true connecting)
      next =>
        exact Sound.idle_of_givenUp Socket.close sound current held Socket.effect_close
          (fun other _ => other.retired_close) rfl rfl rfl rfl rfl
    next unheld =>
      refine ⟨?_, fun other live found => (sound.stopped_modify current found).1, ?_, ?_,
        unheld, sound.timers_filter current, rfl⟩
      · intro index socket present
        refine sound.retired index socket present ?_
        rw [unheld]
        exact (Option.some_ne_none index).symm
      · intro other live index found owns
        obtain ⟨_, old, oldFound, same⟩ := sound.stopped_modify current found
        exact sound.owned other old index oldFound (same.trans owns)
      · rw [List.length_modify]
        exact sound.numbered

theorem sound_toggleIsLive
    {app : App Key}
    (sound : Sound app) : Sound app.toggleIsLive :=
  sound_runLiveEffect (idle_runCleanup sound _)

/-! ## Events of a socket -/

/-- A socket changes without being closed or made able to deliver. -/
theorem sound_setSocket
    {app : App Key}
    {index : Nat}
    {old : Socket}
    (new : Socket)
    (sound : Sound app)
    (present : app.sockets[index]? = some old)
    (belongs : new.effect = old.effect)
    (unclosed : old.readyState ≠ .closed)
    (retired : old.Retired → new.Retired) :
    Sound { app with sockets := app.sockets.set index new } := by
  have inside := (List.getElem?_eq_some_iff.mp present).1
  have kept : ∀ (other effect : Nat),
      (∃ socket, app.sockets[other]? = some socket ∧ socket.effect = effect) →
      ∃ socket, (app.sockets.set index new)[other]? = some socket ∧
        socket.effect = effect := by
    rintro other _ ⟨socket, found, rfl⟩
    by_cases same : other = index
    · subst same
      obtain rfl : old = socket := Option.some.inj (present.symm.trans found)
      exact ⟨new, (getElem?_set_eq_some inside).mpr (Or.inl ⟨rfl, rfl⟩), belongs⟩
    · exact ⟨socket, (getElem?_set_eq_some inside).mpr (Or.inr ⟨same, found⟩), rfl⟩
  constructor <;> dsimp only
  · intro other socket found notHeld
    rcases (getElem?_set_eq_some inside).mp found with ⟨rfl, rfl⟩ | ⟨_, same⟩
    · exact retired (sound.retired other old present notHeld)
    · exact sound.retired other socket same notHeld
  · intro other socket live found liveFound unstopped open_
    rcases (getElem?_set_eq_some inside).mp found with ⟨rfl, rfl⟩ | ⟨_, same⟩
    · exact sound.alone other old live present (belongs ▸ liveFound) unstopped unclosed
    · exact sound.alone other socket live same liveFound unstopped open_
  · intro other current
    obtain ⟨socket, live, found, liveFound, unstopped, owns⟩ := sound.held other current
    obtain ⟨after, afterFound, same⟩ := kept other socket.effect ⟨socket, found, rfl⟩
    exact ⟨after, live, afterFound, same ▸ liveFound, unstopped, owns⟩
  · intro effect live other found owns
    exact kept other effect (sound.owned effect live other found owns)
  · intro other socket found
    rcases (getElem?_set_eq_some inside).mp found with ⟨rfl, rfl⟩ | ⟨_, same⟩
    · exact belongs ▸ sound.numbered other old present
    · exact sound.numbered other socket same
  · exact sound.stopped
  · exact sound.running
  · exact sound.timers
  · exact sound.single

/-- A socket opens, or closes at once if it was given up. -/
theorem sound_opened
    {app : App Key}
    {index : Nat}
    {opening : Socket}
    (sound : Sound app)
    (present : app.sockets[index]? = some opening)
    (connecting : opening.readyState = .connecting) :
    Sound (({ app with
      sockets := app.sockets.set index { opening with readyState := .open } } :
        App Key).onOpen index opening.closesOnOpen) := by
  have unclosed : opening.readyState ≠ .closed := by
    rw [connecting]
    exact ReadyState.noConfusion
  have inside := (List.getElem?_eq_some_iff.mp present).1
  unfold App.onOpen
  split
  next =>
    have closing := sound_setSocket { opening with readyState := .closing } sound present
      rfl unclosed fun _ => trivial
    refine closing.of_keepsSockets ⟨rfl, rfl, ?_, rfl, rfl, rfl⟩
    change (app.sockets.set index _).modify index Socket.close = app.sockets.set index _
    rw [List.modify_eq_set_getElem?, List.getElem?_set_self inside]
    exact List.set_set _
  next armed =>
    have isOpen := sound_setSocket { opening with readyState := .open } sound present
      rfl unclosed fun retired => by
        rw [Socket.Retired, connecting] at retired
        exact absurd retired.1 armed
    exact isOpen.of_keepsSockets ⟨rfl, rfl, rfl, rfl, rfl, rfl⟩

/-- The reconnect timer is set when the socket of the run that goes on closes,
and in no other case. -/
theorem sound_onClose
    {app : App Key}
    {index : Nat}
    {closing : Socket}
    (sound : Sound app)
    (present : app.sockets[index]? = some closing)
    (unclosed : closing.readyState ≠ .closed) :
    Sound (({ app with
      sockets := app.sockets.set index { closing with readyState := .closed } } :
        App Key).onClose closing.effect) := by
  have inside := (List.getElem?_eq_some_iff.mp present).1
  have marked := sound_setSocket { closing with readyState := .closed } sound present
      rfl unclosed fun _ => trivial
  obtain ⟨live, found⟩ : ∃ live, app.effects[closing.effect]? = some live :=
    ⟨_, List.getElem?_eq_getElem (sound.numbered index closing present)⟩
  have bound := (List.getElem?_eq_some_iff.mp found).1
  unfold App.onClose
  rw [found]
  dsimp only
  cases unstopped : live.stopped with
  | true =>
      rw [if_pos rfl]
      split
      next same =>
        have unheld := sound.unheld_of_stopped found unstopped same
        exact marked.of_keepsSockets ⟨rfl, unheld.symm, rfl, rfl, rfl, rfl⟩
      next => exact marked
  | false =>
      have held := sound.alone index closing live present found unstopped unclosed
      have current := sound.cleanup_of_running found unstopped
      have noTimers := sound.noTimers_of_held held
      have owns : app.socketRef = live.socket := by
        obtain ⟨socket, other, socketFound, otherFound, _, isHeld⟩ := sound.held index held
        obtain rfl : closing = socket := Option.some.inj (present.symm.trans socketFound)
        obtain rfl : live = other := Option.some.inj (found.symm.trans otherFound)
        rw [held, isHeld]
      rw [if_pos owns, if_neg (by simp)]
      constructor <;> dsimp only
      · intro other socket otherFound _
        rcases (getElem?_set_eq_some inside).mp otherFound with ⟨_, rfl⟩ | ⟨notIndex, same⟩
        · trivial
        · refine sound.retired other socket same ?_
          rw [held, Ne, Option.some.injEq]
          exact Ne.symm notIndex
      · intro other socket otherLive otherFound liveFound running open_
        exfalso
        rcases (getElem?_set_eq_some inside).mp otherFound with ⟨_, rfl⟩ | ⟨notIndex, same⟩
        · exact open_ rfl
        · obtain ⟨before, beforeFound, kept⟩ :=
            exists_of_getElem?_set LiveEffect.stopped found liveFound unstopped.symm
          have isHeld := sound.alone other socket before same beforeFound
            (kept.trans running) open_
          rw [held, Option.some.injEq] at isHeld
          exact notIndex isHeld.symm
      · exact fun other impossible => nomatch impossible
      · intro effect otherLive other liveFound isOwned
        obtain ⟨before, beforeFound, kept⟩ :=
          exists_of_getElem?_set LiveEffect.socket found liveFound rfl
        exact marked.owned effect before other beforeFound (kept.trans isOwned)
      · rw [List.length_set]
        exact marked.numbered
      · intro effect otherLive liveFound notCurrent
        obtain ⟨before, beforeFound, kept⟩ :=
          exists_of_getElem?_set LiveEffect.stopped found liveFound unstopped.symm
        exact kept.symm.trans (sound.stopped effect before beforeFound notCurrent)
      · intro effect isCurrent
        obtain rfl : closing.effect = effect := Option.some.inj (current.symm.trans isCurrent)
        exact ⟨(sound.running _ current).1, _,
          (getElem?_set_eq_some bound).mpr (Or.inl ⟨rfl, rfl⟩), rfl⟩
      · rw [noTimers, List.nil_append]
        intro timer member
        obtain rfl := List.mem_singleton.mp member
        exact ⟨current, rfl, _, (getElem?_set_eq_some bound).mpr (Or.inl ⟨rfl, rfl⟩), rfl⟩
      · rw [noTimers]
        exact Nat.le_refl 1

theorem sound_timeout
    {app : App Key}
    {handle : Nat}
    {timer : Nat × Nat}
    (sound : Sound app)
    (member : timer ∈ app.timers)
    (named : timer.1 = handle) :
    Sound (({ app with timers := app.timers.filter fun timer => timer.1 ≠ handle } :
      App Key).connect timer.2) := by
  obtain ⟨current, unheld, _⟩ := sound.timers timer member
  have only : app.timers = [timer] := by
    obtain ⟨first, shape⟩ : ∃ first, app.timers = [first] :=
      List.length_eq_one_iff.mp
        (Nat.le_antisymm sound.single (List.length_pos_of_mem member))
    rw [shape, List.mem_singleton] at member
    rw [shape, member]
  have fired : (app.timers.filter fun timer => timer.1 ≠ handle) = [] := by
    rw [only, List.filter_cons_of_neg (by simp [named]), List.filter_nil]
  refine sound_connect ?_ unheld fired current
  obtain ⟨retired, alone, held, owned, numbered, stopped, running, _, _⟩ := sound
  refine ⟨retired, alone, held, owned, numbered, stopped, running, ?_, ?_⟩
  · rw [fired]
    exact fun timer impossible => absurd impossible List.not_mem_nil
  · rw [fired]
    exact Nat.zero_le 1

/-- Every event keeps the invariant. -/
theorem sound_step
    {app next : App Key}
    {event : AppEvent Key}
    (sound : Sound app)
    (stepped : app.step builtins event = some next) : Sound next := by
  cases socketChange_of_step stepped with
  | kept keeps => exact sound.of_keepsSockets keeps
  | toggled keeps => exact sound_toggleIsLive (sound.of_keepsSockets keeps)
  | fired handle timer member named => exact sound_timeout sound member named
  | opened index opening present connecting => exact sound_opened sound present connecting
  | closed index closing present unclosed => exact sound_onClose sound present unclosed

theorem sound_mount (query : Text) (timeRange : Rat) (isLive : Bool) (now : Int) :
    Sound (App.mount query timeRange isLive now : App Key) := by
  apply sound_runLiveEffect
  constructor <;> simp [App.runQuery]

/-! ## Sockets of earlier runs -/

/-- A socket that is not held is never held again: what `socketRef` changes to
is a new socket or nothing. -/
structure Supersedes (app next : App Key) : Prop where
  sockets : app.sockets.length ≤ next.sockets.length
  socketRef : ∀ index, next.socketRef = some index →
    app.socketRef = some index ∨ app.sockets.length ≤ index

namespace Supersedes

theorem of_kept
    {app next : App Key}
    (sockets : next.sockets.length = app.sockets.length)
    (socketRef : next.socketRef = app.socketRef ∨ next.socketRef = none) :
    Supersedes app next := by
  refine ⟨Nat.le_of_eq sockets.symm, fun index current => ?_⟩
  rcases socketRef with same | nothing
  · exact Or.inl (same ▸ current)
  · exact absurd (current.symm.trans nothing) (Option.some_ne_none index)

theorem of_keepsSockets
    {app next : App Key}
    (keeps : KeepsSockets app next) : Supersedes app next :=
  of_kept (congrArg List.length keeps.sockets) (Or.inl keeps.socketRef)

theorem trans
    {first second third : App Key}
    (earlier : Supersedes first second)
    (later : Supersedes second third) : Supersedes first third := by
  refine ⟨Nat.le_trans earlier.sockets later.sockets, fun index current => ?_⟩
  rcases later.socketRef index current with held | new
  · exact earlier.socketRef index held
  · exact Or.inr (Nat.le_trans earlier.sockets new)

theorem connect (app : App Key) (effect : Nat) : Supersedes app (app.connect effect) := by
  unfold App.connect
  split
  · split
    · exact of_kept rfl (Or.inl rfl)
    · refine ⟨by simp, ?_⟩
      rintro index ⟨⟩
      exact Or.inr (Nat.le_refl _)
  · exact of_kept rfl (Or.inl rfl)

theorem runLiveEffect (app : App Key) : Supersedes app app.runLiveEffect := by
  unfold App.runLiveEffect
  split
  · dsimp only
    refine Supersedes.trans ?_ (connect _ _)
    exact of_kept rfl (Or.inl rfl)
  · dsimp only
    split
    · exact of_kept (by simp [App.closeSocket]) (Or.inr rfl)
    · exact of_kept rfl (Or.inl rfl)

theorem runCleanup (app : App Key) : Supersedes app app.runCleanup := by
  unfold App.runCleanup
  split
  · exact of_kept rfl (Or.inl rfl)
  · dsimp only
    split
    · split
      · exact of_kept (by simp) (Or.inr rfl)
      · exact of_kept (by simp [App.closeSocket]) (Or.inr rfl)
    · exact of_kept rfl (Or.inl rfl)

theorem toggleIsLive (app : App Key) : Supersedes app app.toggleIsLive :=
  have toggled : Supersedes app { app with isLive := !app.isLive } :=
    of_kept rfl (Or.inl rfl)
  toggled.trans ((runCleanup _).trans (runLiveEffect _))

theorem onClose (app : App Key) (effect : Nat) : Supersedes app (app.onClose effect) := by
  unfold App.onClose
  split
  · dsimp only
    split <;> split
    · exact of_kept rfl (Or.inr rfl)
    · exact of_kept rfl (Or.inl rfl)
    · exact of_kept rfl (Or.inr rfl)
    · exact of_kept rfl (Or.inl rfl)
  · exact of_kept rfl (Or.inl rfl)

theorem of_step
    {app next : App Key}
    {event : AppEvent Key}
    (stepped : app.step builtins event = some next) : Supersedes app next := by
  cases socketChange_of_step stepped with
  | kept keeps => exact of_keepsSockets keeps
  | toggled keeps => exact (of_keepsSockets keeps).trans (toggleIsLive _)
  | fired handle timer =>
      refine Supersedes.trans ?_ (connect _ _)
      exact of_kept rfl (Or.inl rfl)
  | opened index opening =>
      unfold App.onOpen
      split
      · exact of_kept (by simp [App.closeSocket]) (Or.inl rfl)
      · exact of_kept (by simp) (Or.inl rfl)
  | closed index closing =>
      refine Supersedes.trans ?_ (onClose _ _)
      exact of_kept (by simp) (Or.inl rfl)

end Supersedes

/-! ## Runs -/

theorem sound_run
    {query : Text}
    {timeRange : Rat}
    {isLive : Bool}
    {now : Int}
    {events : List (AppEvent Key)}
    {app : App Key}
    (reached : Transition.run (App.step builtins) (App.mount query timeRange isLive now)
      events = some app) : Sound app :=
  Transition.run_history (fun _ state => Sound state) (sound_mount _ _ _ _)
    (fun _ _ _ _ _ sound stepped => sound_step sound stepped) reached

theorem supersedes_run
    {start app : App Key}
    {events : List (AppEvent Key)}
    (reached : Transition.run (App.step builtins) start events = some app) :
    Supersedes start app :=
  Transition.run_history (fun _ state => Supersedes start state)
    (Supersedes.of_kept rfl (Or.inl rfl))
    (fun _ _ _ _ _ earlier stepped => earlier.trans (Supersedes.of_step stepped)) reached

/-- In every reachable state at most one reconnect timer is pending, and none
with live tail off; every socket but the held one is retired; and no socket that
existed when live tail was off at some earlier moment can deliver a message. -/
theorem liveSockets_clean
    (builtins : Builtins)
    (query : Text)
    (timeRange : Rat)
    (isLive : Bool)
    (now : Int)
    (events : List (AppEvent Key))
    (app : App Key)
    (reached : Transition.run (App.step builtins) (App.mount query timeRange isLive now)
      events = some app) :
    app.timers.length ≤ 1 ∧
      (app.isLive = false → app.timers = []) ∧
      (∀ (index : Nat) (socket : Socket), app.sockets[index]? = some socket →
        app.socketRef ≠ some index → socket.Retired) ∧
      ∀ before after moment, events = before ++ after →
        Transition.run (App.step builtins) (App.mount query timeRange isLive now) before =
          some moment →
        moment.isLive = false →
        ∀ index < moment.sockets.length, ∀ packet clock,
          app.step builtins (.message index packet clock) = none := by
  have sound := sound_run reached
  refine ⟨sound.single, fun off => (sound.idle_of_off off).timers, sound.retired, ?_⟩
  rintro before after moment rfl earlier off index older packet clock
  obtain ⟨middle, first, rest⟩ := Transition.run_append_eq_some.mp reached
  obtain rfl : middle = moment := Option.some.inj (first.symm.trans earlier)
  have unheld : app.socketRef ≠ some index := by
    intro current
    rcases (supersedes_run rest).socketRef index current with held | new
    · rw [((sound_run earlier).idle_of_off off).socketRef] at held
      exact nomatch held
    · exact absurd older (Nat.not_lt.mpr new)
  rw [Option.eq_none_iff_forall_not_mem]
  intro next stepped
  obtain ⟨socket, present, isOpen, _⟩ := step_message stepped
  have retired := sound.retired index socket present unheld
  rw [Socket.Retired, isOpen] at retired
  exact retired

/-- Live tail is turned off while its socket connects, and on again before that
socket opens and closes. -/
def hurriedToggles : List (AppEvent Unit) :=
  [.space, .space, .opened 0, .closed 0]

theorem liveSockets_clean_hurriedToggles :
    ∃ app, Transition.run (App.step asciiBuiltins)
        (App.mount "timeout".toList 15 true 0) hurriedToggles = some app ∧
      app.timers.length ≤ 1 ∧
      app.step asciiBuiltins (.message 0 .other fun _ => 0) = none := by
  obtain ⟨app, reached⟩ := Option.isSome_iff_exists.mp
    (by decide +kernel : (Transition.run (App.step asciiBuiltins)
      (App.mount "timeout".toList 15 true 0) hurriedToggles).isSome = true)
  obtain ⟨moment, earlier, facts⟩ := (Option.any_eq_true _ _).mp
    (by decide +kernel : (Transition.run (App.step asciiBuiltins)
      (App.mount "timeout".toList 15 true 0 : App Unit) [.space]).any (fun moment =>
        decide (moment.isLive = false ∧ 0 < moment.sockets.length)) = true)
  obtain ⟨off, older⟩ := of_decide_eq_true facts
  have clean := liveSockets_clean asciiBuiltins "timeout".toList 15 true 0 hurriedToggles app
    reached
  exact ⟨app, reached, clean.1,
    clean.2.2.2 [.space] [.space, .opened 0, .closed 0] moment rfl earlier off 0 older .other
      fun _ => 0⟩

end Web
end Chronolog
