import Chronolog.LiveTail.Delivery

/-!
# No record twice, and which records never

The number of frames sent for a content against the number of its records that
were in the window of some successful poll.  No record is sent twice.  A record
is missed exactly when the poll that brings it no longer shows an older record of
the same content.
-/

namespace Chronolog
namespace LiveTail

/-- Every record that was in a polled window has its frame. -/
def Complete (term : Bytes) (session : Session) : Prop :=
  ∀ content, (session.observed term content).card ≤
    logFrames content session.tail.frames

/-- No poll brings a record of a content while an older record of the content,
shown by the last poll that showed any, has left the window. -/
def NoTurnover (term : Bytes) (session : Session) : Prop :=
  ∀ content, Observations.NoTurnover (session.sightings term content)

/-! ## A run with two polls -/

/-- The entry of a record that says `hello`. -/
def helloEntry : LogEntry where
  timestampNano := "0".toUTF8.toList
  message := "hello".toUTF8.toList

/-- A record that says `hello`. -/
def helloAt (timestamp : Int) : Record where
  timestamp := timestamp
  tokens := ["hello".toUTF8.toList]
  entry := helloEntry

/-- The digest of the text of `helloEntry`. -/
def helloDigest (text : Bytes) : Bytes :=
  if text = stringify helloEntry then
    "1b9379aea9a2fc3aa7ac973f47d7842751e83045".toUTF8.toList
  else []

/-- A connection that first polls a millisecond after a record was stored. -/
def helloConnection : Connection where
  term := "hello".toUTF8.toList
  now := 300000
  isOpen := true
  records := [helloAt 299999000000]

/-- The first poll shows the record; another one is stored before the second. -/
def twoPolls (timestamp now : Int) (logs : List LogEntry) : List SessionEvent :=
  [.answer, .tail (.reply (.response [helloEntry] []) fun _ => []),
    .store (helloAt timestamp), .tail (.poll now true),
    .answer, .tail (.reply (.response logs []) fun _ => [])]

theorem twoPolls_collisionFree (timestamp now : Int) (logs : List LogEntry) :
    CollisionFree helloDigest helloConnection (twoPolls timestamp now logs) := by
  have single : ∀ content ∈ contents helloConnection (twoPolls timestamp now logs),
      content = helloEntry := by
    rintro content ⟨record, member, rfl⟩
    rcases List.mem_cons.mp member with rfl | later
    · rfl
    · rw [List.mem_singleton.mp later]
      rfl
  rintro _ ⟨left, leftMember, rfl⟩ _ ⟨right, rightMember, rfl⟩ _
  rw [single left leftMember, single right rightMember]

variable {sha1Hex : Bytes → Bytes} {connection : Connection}

theorem recorded_contents (events : List SessionEvent) :
    ∀ record ∈ connection.records ++ storedRecords events,
      record.entry ∈ contents connection events :=
  fun record member => ⟨record, member, rfl⟩

/-- Each content is seen over one contiguous stretch of successful polls. -/
theorem contiguous_sightings
    {events : List SessionEvent}
    {session : Session}
    (advance : WindowsAdvance connection events)
    (reached : Transition.run (Session.step sha1Hex connection.term)
      (Session.start connection) events = some session)
    (content : LogEntry) :
    Observations.Contiguous (session.sightings connection.term content) :=
  Observations.contiguous_map (inWindow_ordConnected session content)
    (ordered_run advance reached).sorted

/-- No record is sent twice: whatever the store and the polls do, the frames of a
content are at most as many as its records that were in a polled window. -/
theorem frames_le_observed
    (sha1Hex : Bytes → Bytes)
    (connection : Connection)
    (events : List SessionEvent)
    (session : Session)
    (collisionFree : CollisionFree sha1Hex connection events)
    (advance : WindowsAdvance connection events)
    (reached : Transition.run (Session.step sha1Hex connection.term)
      (Session.start connection) events = some session)
    (content : LogEntry) :
    logFrames content session.tail.frames ≤
      (session.observed connection.term content).card := by
  have counts := counts_run (entryKey_injOn collisionFree)
    (recorded_contents events) reached
  rw [counts.counted content]
  exact Observations.reported_le_card_ever (contiguous_sightings advance reached content)

theorem frames_le_observed_twoPolls :
    ∃ final,
      Transition.run (Session.step helloDigest helloConnection.term)
          (Session.start helloConnection)
          (twoPolls 300000500000 300001 [helloEntry, helloEntry]) = some final ∧
        logFrames helloEntry final.tail.frames = 2 ∧
        logFrames helloEntry final.tail.frames ≤
          (final.observed helloConnection.term helloEntry).card := by
  obtain ⟨final, reached, frames⟩ := (Option.any_eq_true _ _).mp (by decide +kernel :
    (Transition.run (Session.step helloDigest helloConnection.term)
      (Session.start helloConnection)
      (twoPolls 300000500000 300001 [helloEntry, helloEntry])).any
      (fun final => decide (logFrames helloEntry final.tail.frames = 2)) = true)
  refine ⟨final, reached, of_decide_eq_true frames, ?_⟩
  exact frames_le_observed helloDigest helloConnection _ final
    (twoPolls_collisionFree _ _ _) (by unfold WindowsAdvance; decide +kernel) reached
    helloEntry

/-- Polls at times that do not go back have windows that do not go back. -/
theorem windowsAdvance_of_times
    {events : List SessionEvent}
    (times : (pollTimes connection events).Pairwise (· ≤ ·)) :
    WindowsAdvance connection events := by
  apply times.map
  intro earlier later less
  exact ⟨toNanos_mono (by omega), toNanos_mono less⟩

/-- Completeness, stated for the observer the connection implements. -/
theorem complete_iff
    {contents : Set LogEntry}
    {session : Session}
    (counts : Counts sha1Hex connection.term contents session) :
    Complete connection.term session ↔
      ∀ content, (Observations.ever (session.sightings connection.term content)).card ≤
        Observations.reported (session.sightings connection.term content) := by
  apply forall_congr'
  intro content
  rw [counts.counted content]
  rfl

/-- A delivery keeps a complete session complete exactly if it has no turnover. -/
theorem complete_delivers_iff
    {contents : Set LogEntry}
    {session next : Session}
    {later : List Record}
    {view : View}
    {logs : List LogEntry}
    (bounded : Bounded session)
    (counts : Counts sha1Hex connection.term contents session)
    (nextCounts : Counts sha1Hex connection.term contents next)
    (contiguous : ∀ content,
      Observations.Contiguous (next.sightings connection.term content))
    (grown : next.records = session.records ++ later)
    (delivers : Delivers sha1Hex connection.term session next view logs)
    (complete : Complete connection.term session)
    (noTurnover : NoTurnover connection.term session) :
    Complete connection.term next ↔ NoTurnover connection.term next := by
  rw [complete_iff nextCounts, NoTurnover]
  apply forall_congr'
  intro content
  have stretch := contiguous content
  have before := (complete_iff counts).mp complete content
  rw [delivers.sightings bounded grown] at stretch ⊢
  rw [Observations.card_ever_le_reported_cons_iff stretch before]
  exact (and_iff_left (noTurnover content)).symm

/-- A step keeps the two properties equivalent, given that they were. -/
theorem complete_step_iff
    {contents : Set LogEntry}
    {session next : Session}
    {event : SessionEvent}
    (bounded : Bounded session)
    (counts : Counts sha1Hex connection.term contents session)
    (nextCounts : Counts sha1Hex connection.term contents next)
    (contiguous : ∀ content,
      Observations.Contiguous (next.sightings connection.term content))
    (stepped : session.step sha1Hex connection.term event = some next)
    (complete : Complete connection.term session)
    (noTurnover : NoTurnover connection.term session) :
    Complete connection.term next ↔ NoTurnover connection.term next := by
  obtain ⟨grown, silent | ⟨view, logs, delivers⟩⟩ := step_cases stepped
  · have same : ∀ content, next.sightings connection.term content =
        session.sightings connection.term content := silent.sightings bounded grown
    refine iff_of_true ?_ ?_
    · rw [complete_iff nextCounts]
      intro content
      rw [same]
      exact (complete_iff counts).mp complete content
    · intro content
      rw [same]
      exact noTurnover content
  · exact complete_delivers_iff bounded counts nextCounts contiguous grown delivers
      complete noTurnover

/-- Turnover, once it has happened, stays in the history of the polls. -/
theorem noTurnover_of_step
    {session next : Session}
    {event : SessionEvent}
    (bounded : Bounded session)
    (stepped : session.step sha1Hex connection.term event = some next)
    (noTurnover : NoTurnover connection.term next) :
    NoTurnover connection.term session := by
  obtain ⟨grown, silent | ⟨view, logs, delivers⟩⟩ := step_cases stepped
  · intro content
    rw [← silent.sightings bounded grown]
    exact noTurnover content
  · intro content
    have whole := noTurnover content
    rw [delivers.sightings bounded grown] at whole
    exact whole.2

/-- Nothing is lost, in every state of a run, exactly if no successful poll of
the run brings a record of a content while an older one has left. -/
theorem complete_iff_noTurnover
    (sha1Hex : Bytes → Bytes)
    (connection : Connection)
    (events : List SessionEvent)
    (final : Session)
    (collisionFree : CollisionFree sha1Hex connection events)
    (times : (pollTimes connection events).Pairwise (· ≤ ·))
    (reached : Transition.run (Session.step sha1Hex connection.term)
      (Session.start connection) events = some final) :
    (∀ moment, Transition.Passes (Session.step sha1Hex connection.term)
        (Session.start connection) events moment → Complete connection.term moment) ↔
      NoTurnover connection.term final := by
  have distinct := entryKey_injOn collisionFree
  refine Transition.run_history
    (fun history session =>
      (∀ record ∈ connection.records ++ storedRecords history,
        record.entry ∈ contents connection events) →
      WindowsAdvance connection history →
      ((∀ moment, Transition.Passes (Session.step sha1Hex connection.term)
        (Session.start connection) history moment → Complete connection.term moment) ↔
          NoTurnover connection.term session))
    ?_ ?_ reached (recorded_contents events) (windowsAdvance_of_times times)
  · intro _ _
    refine iff_of_true ?_ fun content => trivial
    rintro moment ⟨before, after, split, current⟩
    obtain ⟨rfl, rfl⟩ := List.append_eq_nil_iff.mp split.symm
    obtain rfl := Option.some.inj current
    exact fun content => Nat.zero_le _
  · intro history session event next current inductionHypothesis stepped recorded advance
    have nextReached := Transition.run_concat_eq_some.mpr ⟨session, current, stepped⟩
    have earlier : ∀ record ∈ connection.records ++ storedRecords history,
        record.entry ∈ contents connection events := by
      rw [storedRecords, List.filterMap_append, ← List.append_assoc] at recorded
      exact (List.forall_mem_append.mp recorded).1
    have bounded := bounded_run current
    have before := inductionHypothesis earlier advance.of_append
    have here := complete_step_iff bounded (counts_run distinct earlier current)
      (counts_run distinct recorded nextReached)
      (contiguous_sightings advance nextReached) stepped
    simp only [Transition.passes_concat current stepped]
    constructor
    · intro complete
      have past : ∀ moment, Transition.Passes (Session.step sha1Hex connection.term)
          (Session.start connection) history moment → Complete connection.term moment :=
        fun moment passed => complete moment (Or.inl passed)
      exact (here (past session (Transition.passes_final current)) (before.mp past)).mp
        (complete next (Or.inr rfl))
    · intro noTurnover
      have past := before.mpr (noTurnover_of_step bounded stepped noTurnover)
      rintro moment (passed | rfl)
      · exact past moment passed
      · exact (here (past session (Transition.passes_final current))
          (noTurnover_of_step bounded stepped noTurnover)).mpr noTurnover

theorem complete_iff_noTurnover_twoPolls :
    ∃ final,
      Transition.run (Session.step helloDigest helloConnection.term)
          (Session.start helloConnection)
          (twoPolls 300000500000 300001 [helloEntry, helloEntry]) = some final ∧
        ((∀ moment, Transition.Passes (Session.step helloDigest helloConnection.term)
            (Session.start helloConnection)
            (twoPolls 300000500000 300001 [helloEntry, helloEntry]) moment →
            Complete helloConnection.term moment) ↔
          NoTurnover helloConnection.term final) := by
  obtain ⟨final, reached⟩ := Option.isSome_iff_exists.mp (by decide +kernel :
    (Transition.run (Session.step helloDigest helloConnection.term)
      (Session.start helloConnection)
      (twoPolls 300000500000 300001 [helloEntry, helloEntry])).isSome = true)
  exact ⟨final, reached, complete_iff_noTurnover helloDigest helloConnection _ final
    (twoPolls_collisionFree _ _ _) (by decide +kernel) reached⟩

/-- The first record has left the window when the second, with the same text,
is polled: the count is one again, and no frame is sent for it. -/
theorem expired_record_hides_new :
    CollisionFree helloDigest helloConnection
        (twoPolls 600000500000 600001 [helloEntry]) ∧
      (pollTimes helloConnection
        (twoPolls 600000500000 600001 [helloEntry])).Pairwise (· ≤ ·) ∧
      ∃ final,
        Transition.run (Session.step helloDigest helloConnection.term)
            (Session.start helloConnection)
            (twoPolls 600000500000 600001 [helloEntry]) = some final ∧
          logFrames helloEntry final.tail.frames = 1 ∧
          (final.observed helloConnection.term helloEntry).card = 2 := by
  refine ⟨twoPolls_collisionFree _ _ _, by decide +kernel, ?_⟩
  obtain ⟨final, reached, facts⟩ := (Option.any_eq_true _ _).mp (by decide +kernel :
    (Transition.run (Session.step helloDigest helloConnection.term)
      (Session.start helloConnection)
      (twoPolls 600000500000 600001 [helloEntry])).any
      (fun final => decide (logFrames helloEntry final.tail.frames = 1 ∧
        (final.observed helloConnection.term helloEntry).card = 2)) = true)
  exact ⟨final, reached, of_decide_eq_true facts⟩

end LiveTail
end Chronolog
