import Chronolog.Foundation.Feed
import Chronolog.Web.LabelSelectors

/-!
# The rows marked as new

The page marks as many rows as were flushed since the count of new rows was reset.
A search resets the count when it is sent and replaces the list when it ends, so
the rows flushed in between are counted and gone.  The marks are on rows that were
flushed exactly as long as no row was flushed in between, or nothing else is on
display.
-/

namespace Chronolog
namespace Web

variable {Key : Type}

/-- Whether an event resets the count of new rows. -/
def resetsCount (app : App Key) : AppEvent Key → Bool
  | .enter _ | .runButton _ | .changeRange _ _ | .toggle _ => true
  | .space => !app.isLive
  | _ => false

/-- The rows flushed since the count was reset, the newest first: those flushed
since the list was replaced as well, and those flushed before that. -/
structure FlushedRows (Key : Type) where
  current : List (Row Key)
  replaced : List (Row Key)

/-- What an event does to the rows that were flushed. -/
def FlushedRows.note
    (app : App Key)
    (event : AppEvent Key)
    (rows : FlushedRows Key) : FlushedRows Key :=
  if resetsCount app event then { current := [], replaced := [] }
  else
    match event with
    | .flush _ => { rows with current := app.bufferRef ++ rows.current }
    | .settle _ _ => { current := [], replaced := rows.current ++ rows.replaced }
    | _ => rows

/-- The rows flushed in a run, when there were none before. -/
def flushedRows
    (builtins : Builtins)
    (app : App Key)
    (events : List (AppEvent Key)) : FlushedRows Key :=
  Transition.notes (App.step builtins) FlushedRows.note app { current := [], replaced := [] }
    events

/-- The rows that `LogViewer` marks as new. -/
def App.marked (app : App Key) : List (Row Key) := app.logs.take app.newLogCount

/-! ## What an event does to the count -/

section Counts

variable {builtins : Builtins}

/-- The count of new rows and its ref are left alone. -/
structure KeepsCount (app next : App Key) : Prop where
  newLogCount : next.newLogCount = app.newLogCount
  newCountRef : next.newCountRef = app.newCountRef

theorem KeepsCount.refl (app : App Key) : KeepsCount app app := ⟨rfl, rfl⟩

theorem keepsCount_connect (app : App Key) (effect : Nat) :
    KeepsCount app (app.connect effect) := by
  unfold App.connect
  split
  · split <;> exact ⟨rfl, rfl⟩
  · exact KeepsCount.refl app

theorem keepsCount_runCleanup (app : App Key) : KeepsCount app app.runCleanup := by
  unfold App.runCleanup
  split
  · exact KeepsCount.refl app
  · dsimp only
    split
    · split <;> exact ⟨rfl, rfl⟩
    · exact ⟨rfl, rfl⟩

/-- The live effect resets the count when live tail is turned on. -/
theorem count_runLiveEffect (app : App Key) :
    if app.isLive then app.runLiveEffect.newLogCount = 0 ∧ app.runLiveEffect.newCountRef = 0
    else KeepsCount app app.runLiveEffect := by
  unfold App.runLiveEffect
  split
  · dsimp only
    have kept := keepsCount_connect
      ({ app with
          newCountRef := 0
          newLogCount := 0
          bufferRef := []
          effects := app.effects ++
            [{ term := (parseQuery app.query).primaryTerm, stopped := false,
               reconnectTimer := none, socket := none, flushing := true }]
          cleanup := some app.effects.length } : App Key) app.effects.length
    exact ⟨kept.newLogCount, kept.newCountRef⟩
  · dsimp only
    split <;> exact ⟨rfl, rfl⟩

/-- Turning live tail on resets the count; turning it off leaves it alone. -/
theorem count_toggleIsLive (app : App Key) :
    if app.isLive then KeepsCount app app.toggleIsLive
    else app.toggleIsLive.newLogCount = 0 ∧ app.toggleIsLive.newCountRef = 0 := by
  have cleaned := keepsCount_runCleanup { app with isLive := !app.isLive }
  have effect := count_runLiveEffect ({ app with isLive := !app.isLive } : App Key).runCleanup
  rw [(keepsSearches_runCleanup _).isLive] at effect
  unfold App.toggleIsLive
  cases live : app.isLive with
  | true =>
      rw [live] at effect cleaned
      exact ⟨effect.newLogCount.trans cleaned.newLogCount,
        effect.newCountRef.trans cleaned.newCountRef⟩
  | false =>
      rw [live] at effect
      exact effect

/-- What an event does to the count of new rows. -/
inductive CountChange (app : App Key) : AppEvent Key → App Key → Prop
  | reset {event : AppEvent Key} {next : App Key} :
      resetsCount app event = true → next.newLogCount = 0 → next.newCountRef = 0 →
      CountChange app event next
  | flushed (effect : Nat) :
      CountChange app (.flush effect) app.flush
  | kept {event : AppEvent Key} {next : App Key} :
      resetsCount app event = false → (∀ effect, event ≠ .flush effect) →
      KeepsCount app next →
      CountChange app event next

theorem countChange_of_step
    {app next : App Key}
    {event : AppEvent Key}
    (stepped : app.step builtins event = some next) : CountChange app event next := by
  cases event with
  | edit query => exact Option.some.inj stepped ▸ .kept rfl (by simp) ⟨rfl, rfl⟩
  | enter now => exact Option.some.inj stepped ▸ .reset rfl rfl rfl
  | runButton now =>
      obtain ⟨_, same⟩ := Option.ite_none_left_eq_some.mp stepped
      exact Option.some.inj same ▸ .reset rfl rfl rfl
  | changeRange minutes now => exact Option.some.inj stepped ▸ .reset rfl rfl rfl
  | toggle now =>
      obtain rfl := Option.some.inj stepped
      have toggled := count_toggleIsLive (app.runQuery app.timeRange now)
      split at toggled
      · exact .reset rfl toggled.newLogCount toggled.newCountRef
      · exact .reset rfl toggled.1 toggled.2
  | space =>
      obtain rfl := Option.some.inj stepped
      have toggled := count_toggleIsLive app
      split at toggled
      next live => exact .kept (by rw [resetsCount, live]; rfl) (by simp) toggled
      next off =>
        exact .reset (by rw [resetsCount, Bool.eq_false_iff.mpr off]; rfl) toggled.1 toggled.2
  | dismiss => exact Option.some.inj stepped ▸ .kept rfl (by simp) ⟨rfl, rfl⟩
  | settle number outcome =>
      obtain ⟨search, _, _, rfl⟩ := settle_eq_some stepped
      exact .kept rfl (by simp) ⟨rfl, rfl⟩
  | timeout handle =>
      obtain ⟨timer, _, _, rfl⟩ := step_timeout stepped
      have kept := keepsCount_connect
        ({ app with timers := app.timers.filter fun timer => timer.1 ≠ handle } : App Key) timer.2
      exact .kept rfl (by simp) ⟨kept.newLogCount, kept.newCountRef⟩
  | opened socket =>
      obtain ⟨opening, _, _, rfl⟩ := step_opened stepped
      apply CountChange.kept rfl (by simp)
      unfold App.onOpen
      split <;> exact ⟨rfl, rfl⟩
  | message socket packet clock =>
      obtain ⟨current, _, _, rfl⟩ := step_message stepped
      apply CountChange.kept rfl (by simp)
      split
      · cases packet <;> exact ⟨rfl, rfl⟩
      · exact KeepsCount.refl app
  | failed socket =>
      obtain ⟨failing, _, _, rfl⟩ := step_failed stepped
      apply CountChange.kept rfl (by simp)
      split <;> exact ⟨rfl, rfl⟩
  | closed socket =>
      obtain ⟨closing, _, _, rfl⟩ := step_closed stepped
      apply CountChange.kept rfl (by simp)
      unfold App.onClose
      split
      · dsimp only
        split <;> split <;> exact ⟨rfl, rfl⟩
      · exact ⟨rfl, rfl⟩
  | flush effect =>
      obtain ⟨live, _, _, rfl⟩ := step_flush stepped
      exact .flushed effect

end Counts

/-! ## The rows that were flushed -/

section FlushedRows

variable {builtins : Builtins}

/-- The count is that of the rows that were flushed, and those that were not
replaced are on top of the list. -/
structure FlushedRows.Counted (rows : FlushedRows Key) (app : App Key) : Prop where
  ref : app.newCountRef = app.newLogCount
  count : app.newLogCount = rows.current.length + rows.replaced.length
  top : app.logs.take rows.current.length = rows.current.take liveMaxLines

theorem FlushedRows.note_eq_self
    {app : App Key}
    {event : AppEvent Key}
    (rows : FlushedRows Key)
    (noReset : resetsCount app event = false)
    (noFlush : ∀ effect, event ≠ .flush effect)
    (noSettle : ∀ number outcome, event ≠ .settle number outcome) :
    rows.note app event = rows := by
  unfold FlushedRows.note
  rw [if_neg (Bool.eq_false_iff.mp noReset)]
  split
  next effect => exact absurd rfl (noFlush effect)
  next number outcome => exact absurd rfl (noSettle number outcome)
  next => rfl

/-- A batch of rows is put on top of those that are there. -/
theorem FlushedRows.Counted.flush
    {rows : FlushedRows Key}
    {app : App Key}
    (counted : rows.Counted app) :
    ({ rows with current := app.bufferRef ++ rows.current } : FlushedRows Key).Counted
      app.flush := by
  by_cases waiting : app.bufferRef = []
  · rw [App.flush, if_pos waiting, waiting, List.nil_append]
    exact counted
  · rw [flush_of_ne_nil waiting]
    refine ⟨rfl, ?_, ?_⟩
    · dsimp only
      rw [counted.ref, counted.count, List.length_append]
      omega
    · dsimp only
      calc
        ((app.bufferRef ++ app.logs).take liveMaxLines).take
              (app.bufferRef ++ rows.current).length =
            (app.bufferRef ++ app.logs.take rows.current.length).take liveMaxLines := by
          rw [List.take_take, Nat.min_comm, ← List.take_take, List.length_append,
            List.take_length_add_append]
        _ = (app.bufferRef ++ rows.current.take liveMaxLines).take liveMaxLines := by
          rw [counted.top]
        _ = (app.bufferRef ++ rows.current).take liveMaxLines :=
          Feed.take_append_take liveMaxLines app.bufferRef rows.current

theorem FlushedRows.Counted.step
    {rows : FlushedRows Key}
    {app next : App Key}
    {event : AppEvent Key}
    (counted : rows.Counted app)
    (stepped : app.step builtins event = some next) : (rows.note app event).Counted next := by
  cases countChange_of_step stepped with
  | reset resets count ref =>
      have cleared : rows.note app event = { current := [], replaced := [] } := if_pos resets
      rw [cleared]
      exact ⟨ref.trans count.symm, count, rfl⟩
  | flushed effect => exact counted.flush
  | kept noReset noFlush keeps =>
      have ref := keeps.newCountRef.trans (counted.ref.trans keeps.newLogCount.symm)
      by_cases settles : ∃ number outcome, event = .settle number outcome
      · obtain ⟨number, outcome, rfl⟩ := settles
        refine ⟨ref, ?_, rfl⟩
        rw [keeps.newLogCount, counted.count]
        exact (Nat.zero_add _).symm ▸ (List.length_append).symm
      · have noSettle : ∀ number outcome, event ≠ .settle number outcome :=
          fun number outcome same => settles ⟨number, outcome, same⟩
        have logs : next.logs = app.logs := by
          rcases lists_of_step stepped with kept | ⟨number, outcome, _, same, _⟩ |
            ⟨_, _, _, _, _, same, _⟩ | ⟨effect, same, _⟩
          · exact kept.1
          · exact absurd same (noSettle number outcome)
          · exact same
          · exact absurd same (noFlush effect)
        rw [rows.note_eq_self noReset noFlush noSettle]
        exact ⟨ref, keeps.newLogCount.trans counted.count, logs ▸ counted.top⟩

theorem counted_mount
    (query : Text)
    (timeRange : Rat)
    (isLive : Bool)
    (now : Int) :
    ({ current := [], replaced := [] } : FlushedRows Key).Counted
      (App.mount query timeRange isLive now) := by
  unfold App.mount
  have effect := count_runLiveEffect
    ({ query, timeRange, isLive, isLoading := false, logs := [], newLogCount := 0,
       socketState := "off".toList, queryError := none, socketRef := none, bufferRef := [],
       newCountRef := 0, searches := [], sockets := [], effects := [], cleanup := none,
       timers := [], nextTimer := 0 : App Key }.runQuery timeRange now)
  split at effect
  · exact ⟨effect.2.trans effect.1.symm, effect.1, rfl⟩
  · exact ⟨effect.newCountRef.trans effect.newLogCount.symm, effect.newLogCount, rfl⟩

end FlushedRows

/-- In every run of the page, the count of new rows is the number of rows flushed
since it was reset, the same in the ref and on display, and the rows marked as new are
the flushed rows that the list still has exactly if no such row was in a list that a
search replaced, or nothing else is in the list. -/
theorem marked_iff
    (builtins : Builtins)
    (query : Text)
    (timeRange : Rat)
    (isLive : Bool)
    (now : Int)
    (events : List (AppEvent Key))
    (app : App Key)
    (reached : Transition.run (App.step builtins) (App.mount query timeRange isLive now) events =
      some app) :
    let rows := flushedRows builtins (App.mount query timeRange isLive now) events
    app.newCountRef = app.newLogCount ∧
      app.newLogCount = rows.current.length + rows.replaced.length ∧
      app.logs.take rows.current.length = rows.current.take liveMaxLines ∧
      (app.marked = rows.current.take liveMaxLines ↔
        rows.replaced = [] ∨ app.logs.length ≤ rows.current.length) := by
  intro rows
  have counted : rows.Counted app :=
    Transition.run_notes (fun _ _ _ _ counted stepped => counted.step stepped)
      (counted_mount query timeRange isLive now) reached
  refine ⟨counted.ref, counted.count, counted.top, ?_⟩
  rw [App.marked, counted.count, ← counted.top]
  constructor
  · intro same
    have lengths := congrArg List.length same
    rw [List.length_take, List.length_take] at lengths
    by_cases none : rows.replaced = []
    · exact Or.inl none
    · have positive := List.length_pos_iff.mpr none
      right
      omega
  · rintro (none | short)
    · rw [none, List.length_nil, Nat.add_zero]
    · rw [List.take_of_length_le short, List.take_of_length_le (by omega)]

/-- A live log is flushed before the search of the page ends. -/
def flushedEarly : List (AppEvent Unit) :=
  tailed "timeout" ++ [.settle 0 (.response [plainEntry "timeout"] fun _ => (0, 0))]

/-- The row that the search found is marked, which was never flushed. -/
theorem marked_iff_flushedEarly :
    ∃ app, Transition.run (App.step asciiBuiltins) (App.mount "| timeout".toList 15 true 0)
        flushedEarly = some app ∧
      app.marked.length = 1 ∧
      (flushedRows asciiBuiltins (App.mount "| timeout".toList 15 true 0) flushedEarly).current =
        [] ∧
      (app.marked = (flushedRows asciiBuiltins (App.mount "| timeout".toList 15 true 0)
          flushedEarly).current.take liveMaxLines ↔
        (flushedRows asciiBuiltins (App.mount "| timeout".toList 15 true 0)
            flushedEarly).replaced = [] ∨
          app.logs.length ≤ (flushedRows asciiBuiltins (App.mount "| timeout".toList 15 true 0)
            flushedEarly).current.length) := by
  obtain ⟨app, reached, shown⟩ := (Option.any_eq_true _ _).mp
    (by decide +kernel : (Transition.run (App.step asciiBuiltins)
      (App.mount "| timeout".toList 15 true 0) flushedEarly).any (fun app =>
        decide (app.marked.length = 1)) = true)
  refine ⟨app, reached, of_decide_eq_true shown, ?_, ?_⟩
  · exact List.isEmpty_iff.mp (by decide +kernel)
  · exact (marked_iff asciiBuiltins "| timeout".toList 15 true 0 flushedEarly app reached).2.2.2

end Web
end Chronolog
