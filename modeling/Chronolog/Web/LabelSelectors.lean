import Chronolog.Web.App

/-!
# Label selectors on both routes

The application normalises what a search returns and filters it by the labels of
the query.  A live log is normalised the same way but reaches the display with no
filter.  While the query stays as it is, every displayed log satisfies its labels
exactly when every flush finds only such logs in the buffer, up to the cap.
-/

namespace Chronolog
namespace Web

variable {Key : Type} {builtins : Builtins}

/-! ## What the labels select -/

/-- The rows satisfy the labels. -/
def RowsSelected (builtins : Builtins) (labels : List Label) (rows : List (Row Key)) : Prop :=
  ∀ row ∈ rows, labels.all (satisfies builtins row.log) = true

instance (labels : List Label) (rows : List (Row Key)) :
    Decidable (RowsSelected builtins labels rows) :=
  inferInstanceAs (Decidable (∀ row ∈ rows, labels.all (satisfies builtins row.log) = true))

/-- Rows that satisfy the labels are the ones the label filters leave. -/
theorem rowsSelected_iff_applyLabelFilters (labels : List Label) (rows : List (Row Key)) :
    RowsSelected builtins labels rows ↔
      applyLabelFilters builtins (rows.map Row.log) labels = rows.map Row.log := by
  rw [applyLabelFilters]
  split
  next none => exact iff_of_true (fun row _ => none ▸ List.all_nil) rfl
  next =>
    rw [List.filter_eq_self, List.forall_mem_map]
    rfl

/-- The reply to a search displays only what satisfies its labels. -/
theorem rowsSelected_outcome (labels : List Label) (outcome : Outcome Key) :
    RowsSelected builtins labels (outcome.rows builtins labels) := by
  intro row member
  cases outcome with
  | response logs clock => exact (mem_rowsOf.mp member).1
  | failure error => exact absurd member List.not_mem_nil

namespace App

/-- A flush finds only logs that satisfy the labels, as far as the cap lets them
reach the display. -/
def FlushSelected
    (builtins : Builtins)
    (labels : List Label)
    (app : App Key) : AppEvent Key → Bool
  | .flush _ => RowsSelected builtins labels (app.bufferRef.take liveMaxLines)
  | _ => true

/-- A frame that a socket delivers is for a log that satisfies the labels. -/
def FrameSelected
    (builtins : Builtins)
    (labels : List Label)
    (app : App Key) : AppEvent Key → Bool
  | .message socket (.log entry) clock =>
      !app.sockets[socket]?.any Socket.listening ||
        labels.all (satisfies builtins (liveRow builtins entry clock).log)
  | _ => true

/-- Every displayed log satisfies the labels. -/
def LabelsHold (builtins : Builtins) (labels : List Label) (app : App Key) : Prop :=
  ∀ log ∈ app.displayed, ∀ label ∈ labels, satisfies builtins log label = true

/-- The searches carry the labels of the query, and the display satisfies them. -/
structure Selected
    (builtins : Builtins)
    (query : Text)
    (app : App Key) : Prop where
  unedited : app.query = query
  searches : ∀ search ∈ app.searches, search.labels = (parseQuery query).labels
  logs : RowsSelected builtins (parseQuery query).labels app.logs

end App

theorem labelsHold_iff_rowsSelected (labels : List Label) (app : App Key) :
    app.LabelsHold builtins labels ↔ RowsSelected builtins labels app.logs := by
  rw [App.LabelsHold, App.displayed, List.forall_mem_map]
  exact forall₂_congr fun row _ => List.all_eq_true.symm

/-! ## Runs under one query -/

section Runs

variable {query : Text} {app next : App Key} {event : AppEvent Key}

theorem App.Selected.of_keepsSearches
    (selected : app.Selected builtins query)
    (keeps : KeepsSearches app next) : next.Selected builtins query :=
  ⟨keeps.query.trans selected.unedited, keeps.searches ▸ selected.searches,
    keeps.logs ▸ selected.logs⟩

theorem App.Selected.toggleIsLive
    (selected : app.Selected builtins query) : app.toggleIsLive.Selected builtins query := by
  have switched : ({ app with isLive := !app.isLive } : App Key).Selected builtins query :=
    ⟨selected.unedited, selected.searches, selected.logs⟩
  exact switched.of_keepsSearches (keepsSearches_toggleIsLive app)

/-- A search that is issued carries the labels of the query. -/
theorem App.Selected.runQuery
    (selected : app.Selected builtins query)
    (timeRange : Rat)
    (now : Int) : (app.runQuery timeRange now).Selected builtins query := by
  refine ⟨selected.unedited, fun search member => ?_, selected.logs⟩
  rcases List.mem_append.mp member with earlier | last
  · exact selected.searches search earlier
  · rw [List.mem_singleton.mp last, ← selected.unedited]
    rfl

theorem selected_step
    (selected : app.Selected builtins query)
    (stepped : app.step builtins event = some next)
    (same : ∀ other, event = .edit other → other = query)
    (meets : app.FlushSelected builtins (parseQuery query).labels event = true) :
    next.Selected builtins query := by
  cases change_of_step stepped with
  | kept keeps => exact selected.of_keepsSearches keeps
  | edited other => exact ⟨same other rfl, selected.searches, selected.logs⟩
  | issued timeRange now =>
      have issued := selected.runQuery timeRange now
      exact ⟨issued.unedited, issued.searches, issued.logs⟩
  | toggled now => exact (selected.runQuery app.timeRange now).toggleIsLive
  | spaced => exact selected.toggleIsLive
  | settled number outcome search found =>
      have labels := selected.searches search (List.mem_of_getElem? found)
      refine ⟨selected.unedited, fun other member => ?_, ?_⟩
      · rcases List.mem_or_eq_of_mem_set member with earlier | rfl
        · exact selected.searches other earlier
        · exact labels
      · exact labels ▸ rowsSelected_outcome search.labels outcome
  | buffered socket entry clock listening =>
      exact ⟨selected.unedited, selected.searches, selected.logs⟩
  | flushed effect waiting =>
      rw [flush_of_ne_nil waiting]
      refine ⟨selected.unedited, selected.searches, fun row member => ?_⟩
      rw [List.take_append] at member
      rcases List.mem_append.mp member with flushed | earlier
      · exact of_decide_eq_true meets row flushed
      · exact selected.logs row (List.mem_of_mem_take earlier)

theorem selected_mount (timeRange : Rat) (isLive : Bool) (now : Int) :
    (App.mount query timeRange isLive now : App Key).Selected builtins query := by
  unfold App.mount
  refine App.Selected.of_keepsSearches (App.Selected.runQuery ?_ timeRange now)
    (keepsSearches_runLiveEffect _)
  exact ⟨rfl, fun _ member => absurd member List.not_mem_nil,
    fun _ member => absurd member List.not_mem_nil⟩

theorem selected_run
    {timeRange : Rat}
    {isLive : Bool}
    {now : Int}
    {events : List (AppEvent Key)}
    (reached : Transition.run (App.step builtins) (App.mount query timeRange isLive now)
      events = some app)
    (same : ∀ other, .edit other ∈ events → other = query)
    (meets : ∀ moment event, Transition.Performs (App.step builtins)
      (App.mount query timeRange isLive now) events moment event →
      moment.FlushSelected builtins (parseQuery query).labels event = true) :
    app.Selected builtins query := by
  refine Transition.run_history_meeting
    (fun history state => (∀ other, .edit other ∈ history → other = query) →
      state.Selected builtins query)
    (fun _ => selected_mount timeRange isLive now) ?_ reached meets same
  intro history state event next _ inductionHypothesis meets stepped same
  have earlier := inductionHypothesis fun other member =>
    same other (List.mem_append_left [event] member)
  refine selected_step earlier stepped (fun other edited => same other ?_) meets
  rw [edited]
  exact List.mem_append_right history List.mem_cons_self

/-- A log frame that satisfies the labels adds no other row to the buffer. -/
theorem bufferSelected_step
    {labels : List Label}
    (selected : RowsSelected builtins labels app.bufferRef)
    (stepped : app.step builtins event = some next)
    (meets : app.FrameSelected builtins labels event = true) :
    RowsSelected builtins labels next.bufferRef := by
  rcases lists_of_step stepped with ⟨_, same | empty⟩ | ⟨_, _, _, _, _, _, same⟩ |
    ⟨socket, entry, clock, rfl, listening, _, buffer⟩ | ⟨_, _, _, empty⟩
  · exact same ▸ selected
  · exact empty ▸ fun row member => absurd member List.not_mem_nil
  · exact same ▸ selected
  · rw [App.FrameSelected, listening, Bool.not_true, Bool.false_or] at meets
    rw [buffer]
    intro row member
    rcases List.mem_append.mp member with earlier | last
    · exact selected row earlier
    · exact List.mem_singleton.mp last ▸ meets
  · exact empty ▸ fun row member => absurd member List.not_mem_nil

/-- When the delivered frames satisfy the labels, so does what the flushes find. -/
theorem flushSelected_of_framesSelected
    {timeRange : Rat}
    {isLive : Bool}
    {now : Int}
    {events : List (AppEvent Key)}
    {labels : List Label}
    (meets : ∀ moment event, Transition.Performs (App.step builtins)
      (App.mount query timeRange isLive now) events moment event →
      moment.FrameSelected builtins labels event = true)
    {moment : App Key}
    (performed : Transition.Performs (App.step builtins)
      (App.mount query timeRange isLive now) events moment event) :
    moment.FlushSelected builtins labels event = true := by
  obtain ⟨before, after, rfl, current⟩ := performed
  have buffered : RowsSelected builtins labels moment.bufferRef := by
    refine Transition.run_history_meeting
      (fun _ state => RowsSelected builtins labels state.bufferRef) ?_
      (fun _ _ _ _ _ selected meets stepped => bufferSelected_step selected stepped meets)
      current (fun state event performed =>
        meets state event (Transition.performs_append performed))
    rw [bufferRef_mount]
    exact fun row member => absurd member List.not_mem_nil
  cases event with
  | flush effect =>
      exact decide_eq_true fun row member => buffered row (List.mem_of_mem_take member)
  | _ => rfl

/-- A flush of a log that does not satisfy the labels displays it. -/
theorem flushSelected_of_rowsSelected
    {labels : List Label}
    (stepped : app.step builtins event = some next)
    (selected : RowsSelected builtins labels next.logs) :
    app.FlushSelected builtins labels event = true := by
  cases event with
  | flush effect =>
      refine decide_eq_true fun row member => selected row ?_
      obtain ⟨_, _, _, rfl⟩ := step_flush stepped
      unfold App.flush
      split
      next empty =>
        rw [empty] at member
        exact absurd member List.not_mem_nil
      next =>
        rw [List.take_append]
        exact List.mem_append_left _ member
  | _ => rfl

end Runs

/-- Under a query that stays as it is, the displayed logs satisfy its labels in
every state of a run exactly when each flush finds only logs in the buffer that
satisfy them, as far as they fit on the display. -/
theorem labelsHold_iff_flushesSelected
    (builtins : Builtins)
    (query : Text)
    (timeRange : Rat)
    (isLive : Bool)
    (now : Int)
    (events : List (AppEvent Key))
    (app : App Key)
    (reached : Transition.run (App.step builtins) (App.mount query timeRange isLive now)
      events = some app)
    (same : ∀ other, .edit other ∈ events → other = query) :
    (∀ moment, Transition.Passes (App.step builtins)
      (App.mount query timeRange isLive now) events moment →
      moment.LabelsHold builtins (parseQuery query).labels) ↔
    ∀ moment event, Transition.Performs (App.step builtins)
      (App.mount query timeRange isLive now) events moment event →
      moment.FlushSelected builtins (parseQuery query).labels event = true := by
  constructor
  · rintro holds moment event ⟨before, after, rfl, current⟩
    obtain ⟨next, stepped⟩ := Transition.exists_step_of_performs reached current
    have passed : Transition.Passes (App.step builtins)
        (App.mount query timeRange isLive now) (before ++ event :: after) next :=
      ⟨before ++ [event], after, by simp,
        Transition.run_concat_eq_some.mpr ⟨moment, current, stepped⟩⟩
    exact flushSelected_of_rowsSelected stepped
      ((labelsHold_iff_rowsSelected _ next).mp (holds next passed))
  · rintro meets moment ⟨before, after, rfl, current⟩
    have selected := selected_run current
      (fun other member => same other (List.mem_append_left after member))
      (fun state event performed => meets state event (Transition.performs_append performed))
    exact (labelsHold_iff_rowsSelected _ moment).mpr selected.logs

/-! ## A live log that the selectors exclude -/

/-- The query of the documentation. -/
def nginxQuery : Text := "\x7bapp=\"nginx\", env=\"prod\"\x7d | \"error\"".toList

/-- An entry with nothing but its message. -/
def plainEntry (message : String) : Entry Unit where
  raw :=
    { timestampNano := none, message := message.toList, id := [], timestamp := [],
      app := [], host := [], env := [], metadata := [] }
  record := ()

/-- The frame of a line arrives and is flushed. -/
def tailed (message : String) : List (AppEvent Unit) :=
  [.opened 0, .message 0 (.log (plainEntry message)) fun _ => 0, .flush 0]

theorem labelsHold_iff_flushesSelected_nginx :
    ∃ app, Transition.run (App.step asciiBuiltins) (App.mount nginxQuery 15 true 0)
        (tailed "[nginx] error") = some app ∧
      app.displayed.length = 1 ∧
      ∀ moment, Transition.Passes (App.step asciiBuiltins) (App.mount nginxQuery 15 true 0)
        (tailed "[nginx] error") moment →
        moment.LabelsHold asciiBuiltins (parseQuery nginxQuery).labels := by
  obtain ⟨app, guarded, shown⟩ := (Option.any_eq_true _ _).mp
    (by decide +kernel : (Transition.run (Transition.guarded (App.step asciiBuiltins)
      (App.FlushSelected asciiBuiltins (parseQuery nginxQuery).labels))
      (App.mount nginxQuery 15 true 0) (tailed "[nginx] error")).any (fun app =>
        decide (app.displayed.length = 1)) = true)
  obtain ⟨reached, selected⟩ := Transition.run_guarded guarded
  refine ⟨app, reached, of_decide_eq_true shown,
    (labelsHold_iff_flushesSelected asciiBuiltins nginxQuery 15 true 0
      (tailed "[nginx] error") app reached ?_).mpr selected⟩
  intro other member
  simp [tailed] at member

/-- A line of another application is displayed under a query for `nginx`. -/
theorem tailed_log_not_selected :
    ¬ ∀ builtins query timeRange isLive now (events : List (AppEvent Unit)) app,
      Transition.run (App.step builtins) (App.mount query timeRange isLive now) events =
        some app →
      (∀ other, .edit other ∈ events → other = query) →
      app.LabelsHold builtins (parseQuery query).labels := by
  intro claim
  obtain ⟨app, reached, shown⟩ := (Option.any_eq_true _ _).mp
    (by decide +kernel : (Transition.run (App.step asciiBuiltins)
      (App.mount nginxQuery 15 true 0) (tailed "[cron] error")).any (fun app =>
        decide (¬ RowsSelected asciiBuiltins (parseQuery nginxQuery).labels app.logs)) = true)
  refine of_decide_eq_true shown ((labelsHold_iff_rowsSelected _ app).mp ?_)
  refine claim asciiBuiltins nginxQuery 15 true 0 (tailed "[cron] error") app reached ?_
  intro other member
  simp [tailed] at member

end Web
end Chronolog
