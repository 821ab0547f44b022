import Chronolog.Web.SearchRace

/-!
# Replies over live logs

A flush puts the live logs in front of the displayed ones, and the end of a
search puts its reply in their place.  A live log that was flushed while a search
was in flight is displayed after the reply exactly when the reply lists it.
-/

namespace Chronolog
namespace Web

variable {Key : Type} {builtins : Builtins}

namespace Outcome

/-- A reply lists a record, with a log that satisfies the labels. -/
def Lists
    (builtins : Builtins)
    (labels : List Label)
    (record : Key) : Outcome Key → Prop
  | .response logs clock =>
      ∃ index entry, logs[index]? = some entry ∧ entry.record = record ∧
        labels.all (satisfies builtins
          (normalizeLogEntry builtins (clock index).1 (clock index).2 entry.raw index)) = true
  | .failure _ => False

end Outcome

/-- The rows of a reply are for the records it lists. -/
theorem mem_records_rows
    {labels : List Label}
    {record : Key}
    {outcome : Outcome Key} :
    record ∈ (outcome.rows builtins labels).map Row.record ↔
      outcome.Lists builtins labels record := by
  cases outcome with
  | failure error => exact iff_of_false List.not_mem_nil id
  | response logs clock =>
      rw [List.mem_map]
      constructor
      · rintro ⟨row, member, rfl⟩
        obtain ⟨satisfied, index, entry, listed, record, log⟩ := mem_rowsOf.mp member
        exact ⟨index, entry, listed, record.symm, log ▸ satisfied⟩
      · rintro ⟨index, entry, listed, rfl, satisfied⟩
        exact ⟨⟨normalizeLogEntry builtins (clock index).1 (clock index).2 entry.raw index,
          entry.record⟩, mem_rowsOf.mpr ⟨satisfied, index, entry, listed, rfl, rfl⟩, rfl⟩

namespace App

/-- The records of the displayed logs. -/
def shown (app : App Key) : List Key := app.logs.map Row.record

/-- The records of the buffered logs. -/
def waiting (app : App Key) : List Key := app.bufferRef.map Row.record

/-- The cap keeps a flush from displaying a log that is there to display. -/
def Evicts (app : App Key) (record : Key) : Prop :=
  record ∈ app.waiting ++ app.shown ∧ record ∉ app.flush.shown

/-- An event that does not take a log off the display: a flush that does not evict
it, a reply that lists it, or anything else. -/
def Spares (builtins : Builtins) (record : Key) (app : App Key) : AppEvent Key → Prop
  | .settle number outcome =>
      ∀ search, app.searches[number]? = some search →
        outcome.Lists builtins search.labels record
  | .flush _ => ¬ app.Evicts record
  | _ => True

end App

/-! ## What takes a log off the display -/

section Display

variable {app next : App Key} {event : AppEvent Key} {record : Key}

/-- The end of a search leaves the logs that its reply lists. -/
theorem shown_settle
    {number : Nat}
    {outcome : Outcome Key}
    {search : IssuedSearch Key}
    (issued : app.searches[number]? = some search)
    (stepped : app.step builtins (.settle number outcome) = some next) :
    record ∈ next.shown ↔ outcome.Lists builtins search.labels record := by
  obtain ⟨other, found, _, rfl⟩ := settle_eq_some stepped
  obtain rfl : search = other := Option.some.inj (issued.symm.trans found)
  exact mem_records_rows

theorem shown_step
    (stepped : app.step builtins event = some next)
    (spares : app.Spares builtins record event)
    (shown : record ∈ app.shown) : record ∈ next.shown := by
  rcases lists_of_step stepped with ⟨logs, _⟩ | ⟨number, outcome, search, rfl, found, _⟩ |
    ⟨_, _, _, _, _, logs, _⟩ | ⟨effect, rfl, _⟩
  · rwa [App.shown, logs]
  · exact (shown_settle found stepped).mpr (spares search found)
  · rwa [App.shown, logs]
  · obtain ⟨_, _, _, rfl⟩ := step_flush stepped
    exact not_not.mp fun lost => spares ⟨List.mem_append_right _ shown, lost⟩

/-- A displayed log stays until a flush evicts it or a reply does not list it. -/
theorem shown_run
    {events : List (AppEvent Key)}
    (reached : Transition.run (App.step builtins) app events = some next)
    (spared : ∀ moment event, Transition.Performs (App.step builtins) app events moment
      event → moment.Spares builtins record event)
    (shown : record ∈ app.shown) : record ∈ next.shown :=
  Transition.run_history_meeting (fun _ state => record ∈ state.shown) shown
    (fun _ _ _ _ _ earlier spares stepped => shown_step stepped spares earlier) reached spared

end Display

/-! ## Live logs flushed while a search is in flight -/

/-- After a search was issued, a flush put the live log of a record on the display
and none evicted it since.  Live tail is on ever since the search was issued. -/
structure FlushedSince
    (builtins : Builtins)
    (start : App Key)
    (history : List (AppEvent Key))
    (number : Nat)
    (record : Key) : Prop where
  flushed : ∃ first effect middle before after, history = first ++ .flush effect :: middle ∧
    Transition.run (App.step builtins) start first = some before ∧
    number < before.searches.length ∧ record ∈ before.waiting ∧
    before.step builtins (.flush effect) = some after ∧ record ∈ after.shown ∧
    ∀ moment other, Transition.Performs (App.step builtins) after middle moment
      (.flush other) → ¬ moment.Evicts record
  live : ∀ moment, Transition.Passes (App.step builtins) start history moment →
    number < moment.searches.length → moment.isLive = true

/-- Until the reply the log is displayed, as long as the replies to other searches
list it. -/
theorem FlushedSince.shown
    {start state : App Key}
    {history : List (AppEvent Key)}
    {number : Nat}
    {record : Key}
    (since : FlushedSince builtins start history number record)
    (current : Transition.run (App.step builtins) start history = some state)
    (listed : ∀ moment other outcome search,
      Transition.Performs (App.step builtins) start history moment (.settle other outcome) →
      moment.searches[other]? = some search →
      outcome.Lists builtins search.labels record) : record ∈ state.shown := by
  obtain ⟨first, effect, middle, before, after, rfl, reached, _, _, flushing, displayed,
    unevicted⟩ := since.flushed
  have flushed : Transition.run (App.step builtins) start (first ++ [.flush effect]) =
      some after :=
    Transition.run_concat_eq_some.mpr ⟨before, reached, flushing⟩
  rw [List.append_cons] at current listed
  obtain ⟨_, earlier, later⟩ := Transition.run_append_eq_some.mp current
  obtain rfl := Option.some.inj (earlier.symm.trans flushed)
  refine shown_run later (fun moment event performed => ?_) displayed
  cases event with
  | settle other outcome =>
      exact fun search => listed moment other outcome search
        (Transition.performs_of_later flushed performed)
  | flush other => exact unevicted moment other performed
  | _ => trivial

/-- The live logs flushed since a search was issued are displayed after its end. -/
def LiveLogsKept
    (builtins : Builtins)
    (start : App Key)
    (events : List (AppEvent Key)) : Prop :=
  ∀ history number outcome rest state next record,
    events = history ++ .settle number outcome :: rest →
    Transition.run (App.step builtins) start history = some state →
    state.step builtins (.settle number outcome) = some next →
    FlushedSince builtins start history number record →
    record ∈ next.shown

/-- The reply to a search lists the live logs flushed since the search was issued. -/
def RepliesListFlushed
    (builtins : Builtins)
    (start : App Key)
    (events : List (AppEvent Key)) : Prop :=
  ∀ history number outcome rest state search record,
    events = history ++ .settle number outcome :: rest →
    Transition.run (App.step builtins) start history = some state →
    state.searches[number]? = some search →
    FlushedSince builtins start history number record →
    outcome.Lists builtins search.labels record

/-- A run keeps the live logs that were flushed while a search was in flight
exactly when the reply to the search lists them. -/
theorem liveLogsKept_iff_repliesListFlushed
    (builtins : Builtins)
    (query : Text)
    (timeRange : Rat)
    (isLive : Bool)
    (now : Int)
    (events : List (AppEvent Key))
    (app : App Key)
    (reached : Transition.run (App.step builtins) (App.mount query timeRange isLive now)
      events = some app) :
    LiveLogsKept builtins (App.mount query timeRange isLive now) events ↔
      RepliesListFlushed builtins (App.mount query timeRange isLive now) events := by
  constructor
  · rintro kept history number outcome rest state search record rfl current issued since
    obtain ⟨next, stepped⟩ := Transition.exists_step_of_performs reached current
    exact (shown_settle issued stepped).mp
      (kept history number outcome rest state next record rfl current stepped since)
  · rintro listed history number outcome rest state next record rfl current stepped since
    obtain ⟨search, issued, _⟩ := settle_eq_some stepped
    exact (shown_settle issued stepped).mpr
      (listed history number outcome rest state search record rfl current issued since)

/-! ## A live log erased by a reply -/

/-- A live log arrives and is flushed before the reply to the first search, which
was answered before the log came. -/
def repliedLate : List (AppEvent Unit) :=
  [.opened 0,
    .message 0 (.log
      { raw :=
          { timestampNano := none, message := "timeout".toList, id := [], timestamp := [],
            app := [], host := [], env := [], metadata := [] }
        record := () }) fun _ => 0,
    .flush 0, .settle 0 (.response [] fun _ => (0, 0))]

theorem liveLogsKept_iff_repliesListFlushed_repliedLate :
    ∃ app, Transition.run (App.step asciiBuiltins)
        (App.mount "| timeout".toList 15 true 0) repliedLate = some app ∧
      (LiveLogsKept asciiBuiltins (App.mount "| timeout".toList 15 true 0) repliedLate ↔
        RepliesListFlushed asciiBuiltins (App.mount "| timeout".toList 15 true 0)
          repliedLate) := by
  obtain ⟨app, reached⟩ := Option.isSome_iff_exists.mp
    (by decide +kernel : (Transition.run (App.step asciiBuiltins)
      (App.mount "| timeout".toList 15 true 0) repliedLate).isSome = true)
  exact ⟨app, reached, liveLogsKept_iff_repliesListFlushed asciiBuiltins "| timeout".toList 15
    true 0 repliedLate app reached⟩

/-- The late reply to the first search takes the live log off the display. -/
theorem flushed_log_erased :
    ¬ ∀ builtins query timeRange isLive now (events : List (AppEvent Unit)) app,
      Transition.run (App.step builtins) (App.mount query timeRange isLive now) events =
        some app →
      LiveLogsKept builtins (App.mount query timeRange isLive now) events := by
  intro claim
  obtain ⟨app, reached⟩ := Option.isSome_iff_exists.mp
    (by decide +kernel : (Transition.run (App.step asciiBuiltins)
      (App.mount "| timeout".toList 15 true 0) repliedLate).isSome = true)
  obtain ⟨before, arrived, waiting⟩ := (Option.any_eq_true _ _).mp
    (by decide +kernel : (Transition.run (App.step asciiBuiltins)
      (App.mount "| timeout".toList 15 true 0) (repliedLate.take 2)).any (fun before =>
        decide (0 < before.searches.length ∧ () ∈ before.waiting ∧
          (before.step asciiBuiltins (.flush 0)).any (fun after =>
            decide (() ∈ after.shown) &&
              (after.step asciiBuiltins (.settle 0 (.response [] fun _ => (0, 0)))).any
                fun next => decide (() ∉ next.shown)) = true)) = true)
  obtain ⟨issued, buffered, flushed⟩ := of_decide_eq_true waiting
  obtain ⟨after, flushing, facts⟩ := (Option.any_eq_true _ _).mp flushed
  obtain ⟨displayed, replied⟩ := (Bool.and_eq_true _ _).mp facts
  obtain ⟨next, settling, erased⟩ := (Option.any_eq_true _ _).mp replied
  have current : Transition.run (App.step asciiBuiltins)
      (App.mount "| timeout".toList 15 true 0) (repliedLate.take 3) = some after :=
    Transition.run_concat_eq_some.mpr ⟨before, arrived, flushing⟩
  have since : FlushedSince asciiBuiltins (App.mount "| timeout".toList 15 true 0)
      (repliedLate.take 3) 0 () := by
    refine ⟨⟨repliedLate.take 2, 0, [], before, after, rfl, arrived, issued, buffered,
      flushing, of_decide_eq_true displayed, ?_⟩, ?_⟩
    · exact fun _ _ performed => absurd performed Transition.not_performs_nil
    · exact fun moment passed _ => isLive_of_passes (by decide) passed
  exact of_decide_eq_true erased
    (claim asciiBuiltins "| timeout".toList 15 true 0 repliedLate app reached
      (repliedLate.take 3) 0 (.response [] fun _ => (0, 0)) [] after next () rfl current
      settling since)

end Web
end Chronolog
