import Chronolog.Web.App
import Mathlib.Data.List.DropRight

/-!
# Searches in flight

Several searches can be in flight at once, and the application displays what it
was told last, whichever search that came from.  With live tail off the display
shows the search issued last exactly when the replies that overtook it say the
same.
-/

namespace Chronolog
namespace Web

variable {Key : Type} {builtins : Builtins}

/-! ## The order of replies -/

namespace AppEvent

/-- The search an event settles. -/
def settled? : AppEvent Key → Option Nat
  | .settle number _ => some number
  | _ => none

/-- Whether an event issues a search. -/
def issues : AppEvent Key → Bool
  | .enter _ | .runButton _ | .changeRange _ _ | .toggle _ => true
  | _ => false

/-- What an event does to the error banner: a failure fills it, and the user
clears it. -/
def report? : AppEvent Key → Option (Option QueryError)
  | .settle _ outcome => outcome.error?.map some
  | .dismiss => some none
  | _ => none

/-- Whether an event turns live tail on or off. -/
def toggles : AppEvent Key → Bool
  | .toggle _ | .space => true
  | _ => false

end AppEvent

/-- The search that settled last. -/
def settledLast (events : List (AppEvent Key)) : Option Nat :=
  (events.filterMap AppEvent.settled?).getLast?

/-- The failure reported last since the last search was issued, unless the user
dismissed it. -/
def reportedLast (events : List (AppEvent Key)) : Option QueryError :=
  ((events.rtakeWhile fun event => !event.issues).filterMap AppEvent.report?).getLast?.join

namespace IssuedSearch

/-- The list the reply to a search displays. -/
def rows (builtins : Builtins) (search : IssuedSearch Key) : List (Row Key) :=
  match search.outcome with
  | some outcome => outcome.rows builtins search.labels
  | none => []

/-- The error of a search that failed. -/
def error? (search : IssuedSearch Key) : Option QueryError :=
  search.outcome.bind Outcome.error?

end IssuedSearch

namespace App

/-- The application displays the reply to the search that was issued last. -/
def ShowsLast (builtins : Builtins) (app : App Key) : Prop :=
  ∃ last, app.searches.getLast? = some last ∧
    app.displayed = (last.rows builtins).map Row.log ∧ app.queryError = last.error?

/-- The reply that came last lists the logs of the search issued last, and the
failure reported last since then is that of the search issued last. -/
def RepliesAgree
    (builtins : Builtins)
    (events : List (AppEvent Key))
    (app : App Key) : Prop :=
  ∃ last number search, app.searches.getLast? = some last ∧
    settledLast events = some number ∧ app.searches[number]? = some search ∧
    (search.rows builtins).map Row.log = (last.rows builtins).map Row.log ∧
    reportedLast events = last.error?

end App

theorem settledLast_concat (events : List (AppEvent Key)) (event : AppEvent Key) :
    settledLast (events ++ [event]) = event.settled?.or (settledLast events) := by
  rw [settledLast, List.filterMap_append, List.getLast?_append]
  cases settled : event.settled? with
  | none => simp [settled, settledLast]
  | some number => simp [settled]

theorem reportedLast_concat (events : List (AppEvent Key)) (event : AppEvent Key) :
    reportedLast (events ++ [event]) =
      if event.issues then none else event.report?.getD (reportedLast events) := by
  rw [reportedLast, List.rtakeWhile_concat]
  cases issues : event.issues with
  | true => rfl
  | false =>
      simp only [Bool.not_false, if_true, List.filterMap_append]
      rw [List.getLast?_append]
      cases report : event.report? with
      | none => simp [report, reportedLast]
      | some error => simp [report]

/-! ## With live tail off -/

/-- Nothing is left of the live tail when it was never on. -/
structure Quiet (app : App Key) : Prop where
  isLive : app.isLive = false
  effects : app.effects = []
  sockets : app.sockets = []
  timers : app.timers = []
  searched : app.searches ≠ []

/-- What is displayed is the reply that came last, and the error is the one
reported last. -/
structure Tracks
    (builtins : Builtins)
    (events : List (AppEvent Key))
    (app : App Key) : Prop where
  pending : settledLast events = none → ∀ search ∈ app.searches, search.outcome = none
  logs : ∀ number, settledLast events = some number →
    ∃ search, app.searches[number]? = some search ∧ search.outcome.isSome = true ∧
      app.logs = search.rows builtins
  queryError : app.queryError = reportedLast events

theorem isLive_toggleIsLive (app : App Key) : app.toggleIsLive.isLive = !app.isLive :=
  (keepsSearches_toggleIsLive app).isLive

/-- A search that is issued while nothing else happens. -/
theorem tracks_runQuery
    {events : List (AppEvent Key)}
    {event : AppEvent Key}
    {app next : App Key}
    (tracks : Tracks builtins events app)
    (issues : event.issues = true)
    (unsettled : event.settled? = none)
    {search : IssuedSearch Key}
    (fresh : search.outcome = none)
    (searches : next.searches = app.searches ++ [search])
    (logs : next.logs = app.logs)
    (queryError : next.queryError = none) :
    Tracks builtins (events ++ [event]) next := by
  constructor
  · rw [settledLast_concat, unsettled, Option.none_or, searches]
    intro never other member
    rcases List.mem_append.mp member with earlier | last
    · exact tracks.pending never other earlier
    · exact List.mem_singleton.mp last ▸ fresh
  · rw [settledLast_concat, unsettled, Option.none_or, searches, logs]
    intro number settled
    obtain ⟨other, found, done, same⟩ := tracks.logs number settled
    refine ⟨other, ?_, done, same⟩
    rw [List.getElem?_append_left (List.getElem?_eq_some_iff.mp found).1, found]
  · rw [reportedLast_concat, if_pos issues, queryError]

/-- An event that touches neither searches nor the display. -/
theorem tracks_unchanged
    {events : List (AppEvent Key)}
    {event : AppEvent Key}
    {app next : App Key}
    (tracks : Tracks builtins events app)
    (issues : event.issues = false)
    (unsettled : event.settled? = none)
    (searches : next.searches = app.searches)
    (logs : next.logs = app.logs)
    (queryError : next.queryError = event.report?.getD app.queryError) :
    Tracks builtins (events ++ [event]) next := by
  constructor
  · rw [settledLast_concat, unsettled, Option.none_or, searches]
    exact tracks.pending
  · rw [settledLast_concat, unsettled, Option.none_or, searches, logs]
    exact tracks.logs
  · rw [reportedLast_concat, issues, queryError, tracks.queryError]
    rfl

theorem tracks_settle
    {events : List (AppEvent Key)}
    {app next : App Key}
    {number : Nat}
    {outcome : Outcome Key}
    (tracks : Tracks builtins events app)
    (stepped : app.settle builtins number outcome = some next) :
    Tracks builtins (events ++ [.settle number outcome]) next := by
  obtain ⟨search, found, fresh, rfl⟩ := settle_eq_some stepped
  have bound := (List.getElem?_eq_some_iff.mp found).1
  constructor
  · rw [settledLast_concat]
    exact fun impossible => absurd impossible (Option.some_ne_none number)
  · rw [settledLast_concat]
    intro settled same
    obtain rfl : number = settled := Option.some.inj same
    exact ⟨_, List.getElem?_set_self bound, rfl, rfl⟩
  · rw [reportedLast_concat]
    change outcome.error?.or app.queryError =
      (outcome.error?.map some).getD (reportedLast events)
    rw [tracks.queryError]
    cases outcome <;> rfl

/-- One event while live tail stays off. -/
theorem quiet_step
    {events : List (AppEvent Key)}
    {event : AppEvent Key}
    {app next : App Key}
    (quiet : Quiet app)
    (tracks : Tracks builtins events app)
    (stepped : app.step builtins event = some next)
    (off : next.isLive = false) :
    Quiet next ∧ Tracks builtins (events ++ [event]) next := by
  obtain ⟨isLive, effects, sockets, timers, searched⟩ := quiet
  cases event with
  | edit query =>
      obtain rfl := Option.some.inj stepped
      exact ⟨⟨isLive, effects, sockets, timers, searched⟩,
        tracks_unchanged tracks rfl rfl rfl rfl rfl⟩
  | enter now =>
      obtain rfl := Option.some.inj stepped
      exact ⟨⟨isLive, effects, sockets, timers, by simp [App.runQuery]⟩,
        tracks_runQuery tracks rfl rfl rfl rfl rfl rfl⟩
  | runButton now =>
      obtain ⟨_, same⟩ := Option.ite_none_left_eq_some.mp stepped
      obtain rfl := Option.some.inj same
      exact ⟨⟨isLive, effects, sockets, timers, by simp [App.runQuery]⟩,
        tracks_runQuery tracks rfl rfl rfl rfl rfl rfl⟩
  | changeRange minutes now =>
      obtain rfl := Option.some.inj stepped
      exact ⟨⟨isLive, effects, sockets, timers, by simp [App.runQuery]⟩,
        tracks_runQuery tracks rfl rfl rfl rfl rfl rfl⟩
  | toggle now =>
      obtain rfl := Option.some.inj stepped
      rw [isLive_toggleIsLive, App.runQuery, isLive] at off
      exact absurd off (by decide)
  | space =>
      obtain rfl := Option.some.inj stepped
      rw [isLive_toggleIsLive, isLive] at off
      exact absurd off (by decide)
  | dismiss =>
      obtain rfl := Option.some.inj stepped
      exact ⟨⟨isLive, effects, sockets, timers, searched⟩,
        tracks_unchanged tracks rfl rfl rfl rfl rfl⟩
  | settle number outcome =>
      have tracked := tracks_settle tracks stepped
      obtain ⟨search, found, _, rfl⟩ := settle_eq_some stepped
      refine ⟨⟨isLive, effects, sockets, timers, fun empty => ?_⟩, tracked⟩
      rw [List.set_eq_nil_iff] at empty
      exact searched empty
  | timeout handle => simp [App.step, timers] at stepped
  | opened socket => simp [App.step, sockets] at stepped
  | message socket packet clock => simp [App.step, sockets] at stepped
  | failed socket => simp [App.step, sockets] at stepped
  | closed socket => simp [App.step, sockets] at stepped
  | flush effect => simp [App.step, effects] at stepped

/-- A run with live tail off. -/
theorem quiet_run
    {query : Text}
    {timeRange : Rat}
    {now : Int}
    {events : List (AppEvent Key)}
    {app : App Key}
    (reached : Transition.run (App.step builtins) (App.mount query timeRange false now)
      events = some app)
    (off : ∀ moment, Transition.Passes (App.step builtins)
      (App.mount query timeRange false now) events moment → moment.isLive = false) :
    Quiet app ∧ Tracks builtins events app := by
  refine Transition.run_history
    (fun history state => (∀ moment, Transition.Passes (App.step builtins)
      (App.mount query timeRange false now) history moment → moment.isLive = false) →
      Quiet state ∧ Tracks builtins history state) ?_ ?_ reached off
  · intro _
    refine ⟨⟨rfl, rfl, rfl, rfl, List.cons_ne_nil _ _⟩, ⟨fun _ search member => ?_, ?_, rfl⟩⟩
    · exact List.mem_singleton.mp member ▸ rfl
    · exact fun number impossible => absurd impossible.symm (Option.some_ne_none number)
  · intro history state event next before inductionHypothesis stepped off
    obtain ⟨quiet, tracks⟩ := inductionHypothesis fun moment passed =>
      off moment ((Transition.passes_concat before stepped).mpr (Or.inl passed))
    exact quiet_step quiet tracks stepped
      (off next ((Transition.passes_concat before stepped).mpr (Or.inr rfl)))

/-- With live tail off and all searches settled, the display shows the search
that was issued last exactly when the last reply lists the same logs and the
last failure reported since then is its own. -/
theorem showsLast_iff_repliesAgree
    (builtins : Builtins)
    (query : Text)
    (timeRange : Rat)
    (now : Int)
    (events : List (AppEvent Key))
    (app : App Key)
    (reached : Transition.run (App.step builtins) (App.mount query timeRange false now)
      events = some app)
    (off : ∀ moment, Transition.Passes (App.step builtins)
      (App.mount query timeRange false now) events moment → moment.isLive = false)
    (settled : ∀ search ∈ app.searches, search.outcome.isSome = true) :
    app.ShowsLast builtins ↔ app.RepliesAgree builtins events := by
  obtain ⟨quiet, tracks⟩ := quiet_run reached off
  obtain ⟨number, latest⟩ : ∃ number, settledLast events = some number := by
    rw [← Option.ne_none_iff_exists']
    intro never
    obtain ⟨search, member⟩ := List.exists_mem_of_ne_nil _ quiet.searched
    have done := settled search member
    rw [tracks.pending never search member] at done
    exact Bool.false_ne_true done
  obtain ⟨search, found, _, shown⟩ := tracks.logs number latest
  constructor
  · rintro ⟨last, isLast, logs, error⟩
    refine ⟨last, number, search, isLast, latest, found, ?_, ?_⟩
    · rw [← logs, App.displayed, shown]
    · rw [← error, tracks.queryError]
  · rintro ⟨last, other, otherSearch, isLast, otherLatest, otherFound, logs, error⟩
    obtain rfl : number = other := Option.some.inj (latest.symm.trans otherLatest)
    obtain rfl : search = otherSearch := Option.some.inj (found.symm.trans otherFound)
    refine ⟨last, isLast, ?_, ?_⟩
    · rw [App.displayed, shown, logs]
    · rw [tracks.queryError, error]

/-- Only a toggle turns live tail on or off. -/
theorem isLive_of_not_toggles
    {app next : App Key}
    {event : AppEvent Key}
    (stepped : app.step builtins event = some next)
    (noToggle : event.toggles = false) : next.isLive = app.isLive := by
  cases change_of_step stepped with
  | kept keeps => exact keeps.isLive
  | toggled now => exact absurd noToggle Bool.noConfusion
  | spaced => exact absurd noToggle Bool.noConfusion
  | flushed effect waiting => rw [flush_of_ne_nil waiting]
  | edited | issued | settled | buffered => rfl

theorem isLive_of_passes
    {start moment : App Key}
    {events : List (AppEvent Key)}
    (noToggle : ∀ event ∈ events, event.toggles = false)
    (passed : Transition.Passes (App.step builtins) start events moment) :
    moment.isLive = start.isLive := by
  obtain ⟨before, after, rfl, reached⟩ := passed
  have earlier : ∀ event ∈ before, event.toggles = false :=
    fun event member => noToggle event (List.mem_append_left after member)
  refine Transition.run_history
    (fun history state => (∀ event ∈ history, event.toggles = false) →
      state.isLive = start.isLive) (fun _ => rfl) ?_ reached earlier
  intro history state event next _ inductionHypothesis stepped noToggle
  rw [isLive_of_not_toggles stepped (noToggle event (by simp))]
  exact inductionHypothesis fun other member => noToggle other (by simp [member])

/-- The reply to the first search fails after the second one was answered. -/
def overtaken : List (AppEvent Unit) :=
  [.enter 1, .settle 1 (.response [] fun _ => (0, 0)),
    .settle 0 (.failure { code := [], message := [], details := [] })]

/-- The application when the user opens it. -/
def opened : App Unit := App.mount "timeout".toList 15 false 0

theorem overtaken_off :
    ∀ moment, Transition.Passes (App.step asciiBuiltins) opened overtaken moment →
      moment.isLive = false :=
  fun _ passed => isLive_of_passes (by decide) passed

theorem showsLast_iff_repliesAgree_overtaken :
    ∃ app, Transition.run (App.step asciiBuiltins) opened overtaken = some app ∧
      (app.ShowsLast asciiBuiltins ↔ app.RepliesAgree asciiBuiltins overtaken) := by
  obtain ⟨app, reached, settled⟩ := (Option.any_eq_true _ _).mp
    (by decide +kernel : (Transition.run (App.step asciiBuiltins) opened overtaken).any
      (fun app => decide (∀ search ∈ app.searches, search.outcome.isSome = true)) = true)
  exact ⟨app, reached, showsLast_iff_repliesAgree asciiBuiltins "timeout".toList 15 0
    overtaken app reached overtaken_off (of_decide_eq_true settled)⟩

/-- The failure of the first search is displayed for the second one. -/
theorem overtaken_not_showsLast :
    ¬ ∀ builtins query timeRange now (events : List (AppEvent Unit)) app,
      Transition.run (App.step builtins) (App.mount query timeRange false now) events =
        some app →
      (∀ moment, Transition.Passes (App.step builtins)
        (App.mount query timeRange false now) events moment → moment.isLive = false) →
      (∀ search ∈ app.searches, search.outcome.isSome = true) →
      app.ShowsLast builtins := by
  intro claim
  obtain ⟨app, reached, facts⟩ := (Option.any_eq_true _ _).mp
    (by decide +kernel : (Transition.run (App.step asciiBuiltins) opened overtaken).any
      (fun app => decide ((∀ search ∈ app.searches, search.outcome.isSome = true) ∧
        app.queryError ≠ app.searches.getLast?.bind IssuedSearch.error?)) = true)
  obtain ⟨settled, differs⟩ := of_decide_eq_true facts
  obtain ⟨last, isLast, _, error⟩ := claim asciiBuiltins "timeout".toList 15 0 overtaken app
    reached overtaken_off settled
  exact differs (by rw [error, isLast]; rfl)

end Web
end Chronolog
