import Chronolog.Foundation.Observations
import Chronolog.Foundation.Transition
import Chronolog.LiveTail.Bridge

/-!
# A connection beside a growing store

Records are stored while a connection polls.  The engine answers a call at some
moment between its start and its end, and a successful response lists exactly
the records stored by then that match the term and lie in the window, in any
order.  The session keeps the view of every successful poll, newest first.
-/

namespace Chronolog
namespace LiveTail

/-- A stored record: its timestamp, the tokens it is indexed under, and the entry
responses show it as. -/
structure Record where
  timestamp : Int
  tokens : List Bytes
  entry : LogEntry

/-- What a poll looked at: its window, and how many records were stored. -/
structure View where
  startTimeNano : Int
  endTimeNano : Int
  stored : Nat

/-- A view is at most another one if nothing in it moves back. -/
instance : Preorder View where
  le left right := left.startTimeNano ≤ right.startTimeNano ∧
    left.endTimeNano ≤ right.endTimeNano ∧ left.stored ≤ right.stored
  le_refl _ := ⟨le_rfl, le_rfl, le_rfl⟩
  le_trans _ _ _ first second :=
    ⟨first.1.trans second.1, first.2.1.trans second.2.1, first.2.2.trans second.2.2⟩

/-- The bounds of the window. -/
def View.window (view : View) : Int × Int :=
  (view.startTimeNano, view.endTimeNano)

theorem View.le_iff {left right : View} :
    left ≤ right ↔ left.window ≤ right.window ∧ left.stored ≤ right.stored :=
  and_assoc.symm

/-- The record matches the term and lies in the window. -/
def View.Selects (view : View) (term : Bytes) (record : Record) : Prop :=
  term ∈ record.tokens ∧
    view.startTimeNano ≤ record.timestamp ∧ record.timestamp ≤ view.endTimeNano

instance (view : View) (term : Bytes) (record : Record) :
    Decidable (view.Selects term record) :=
  inferInstanceAs (Decidable (_ ∧ _ ∧ _))

/-- The view of a request answered when so many records were stored. -/
def QueryRequest.view (request : QueryRequest) (stored : Nat) : View where
  startTimeNano := request.startTimeNano
  endTimeNano := request.endTimeNano
  stored := stored

/-- The entries of the selected records. -/
def selectedEntries (view : View) (term : Bytes) (records : List Record) :
    List LogEntry :=
  ((records.take view.stored).filter fun record => view.Selects term record).map
    Record.entry

/-- How a connection begins: its search term, the time of its first poll, whether
the socket is open then, and the records stored before. -/
structure Connection where
  term : Bytes
  now : Int
  isOpen : Bool
  records : List Record

/-- A connection, the store it polls, when its call was answered, and the views
of its successful polls. -/
structure Session where
  tail : Tail
  records : List Record
  served : Option Nat
  polls : List View

/-- A record is stored, the engine answers the call in progress, or something
happens to the connection. -/
inductive SessionEvent
  | store (record : Record)
  | answer
  | tail (event : TailEvent)

namespace Session

/-- The session when `createLiveTail` returns. -/
def start (connection : Connection) : Session where
  tail := Tail.createLiveTail connection.term connection.now connection.isOpen
  records := connection.records
  served := none
  polls := []

/-- The view of the call in progress, once it was answered. -/
def view? (session : Session) : Option View :=
  session.tail.activeCall.bind fun request => session.served.map request.view

/-- Successful responses list exactly the selected records. -/
def isExact (session : Session) (term : Bytes) : TailEvent → Bool
  | .reply (.response logs []) _ =>
      session.view?.any fun view =>
        decide (logs.Perm (selectedEntries view term session.records))
  | _ => true

/-- The view a successful poll adds. -/
def polled (session : Session) : TailEvent → List View
  | .reply (.response _ []) _ =>
      if session.tail.stopped then [] else session.view?.toList
  | _ => []

variable (sha1Hex : Bytes → Bytes) (term : Bytes)

/-- One event. -/
def step (session : Session) : SessionEvent → Option Session
  | .store record => some { session with records := session.records ++ [record] }
  | .answer =>
      if session.tail.activeCall.isSome ∧ session.served = none then
        some { session with served := some session.records.length }
      else none
  | .tail event =>
      if session.isExact term event then
        (session.tail.step sha1Hex term event).map fun tail =>
          { session with
            tail
            served := match event with
              | .stop => session.served
              | _ => none
            polls := session.polled event ++ session.polls }
      else none

/-- The records of a content that a view selects, by their position. -/
def inWindow (session : Session) (content : LogEntry) (view : View) : Finset Nat :=
  (Finset.range view.stored).filter fun position =>
    session.records[position]?.any fun record =>
      decide (record.entry = content ∧ view.Selects term record)

/-- What the successful polls saw of a content, newest first. -/
def sightings (session : Session) (content : LogEntry) : List (Finset Nat) :=
  session.polls.map (session.inWindow term content)

/-- The records of a content that were in the window of some successful poll. -/
def observed (session : Session) (content : LogEntry) : Finset Nat :=
  Observations.ever (session.sightings term content)

end Session

/-- The records stored during a run. -/
def storedRecords (events : List SessionEvent) : List Record :=
  events.filterMap fun event =>
    match event with
    | .store record => some record
    | _ => none

/-- The times of the polls of a run. -/
def pollTimes (connection : Connection) (events : List SessionEvent) : List Int :=
  connection.now :: events.filterMap fun event =>
    match event with
    | .tail (.poll now true) => some now
    | _ => none

/-- The window bounds of a poll. -/
def pollWindow (now : Int) : Int × Int :=
  (toNanos (now - lookbackMs), toNanos now)

/-- The window bounds of a run never decrease. -/
def WindowsAdvance (connection : Connection) (events : List SessionEvent) : Prop :=
  ((pollTimes connection events).map pollWindow).Pairwise (· ≤ ·)

/-- The entries of the records of a run. -/
def contents (connection : Connection) (events : List SessionEvent) : Set LogEntry :=
  {content | ∃ record ∈ connection.records ++ storedRecords events,
    record.entry = content}

/-- The texts of the records of a run have different digests. -/
def CollisionFree
    (sha1Hex : Bytes → Bytes)
    (connection : Connection)
    (events : List SessionEvent) : Prop :=
  Set.InjOn sha1Hex (Set.image stringify (contents connection events))

variable {sha1Hex : Bytes → Bytes} {term : Bytes}

/-! ## What a poll shows -/

theorem mem_inWindow {session : Session} {content : LogEntry} {view : View} {position : Nat} :
    position ∈ session.inWindow term content view ↔
      position < view.stored ∧ ∃ record, session.records[position]? = some record ∧
        record.entry = content ∧ view.Selects term record := by
  rw [Session.inWindow, Finset.mem_filter, Finset.mem_range, Option.any_eq_true]
  simp only [decide_eq_true_eq]

/-- Positions that satisfy a predicate, counted along the list. -/
theorem card_filter_range {α : Type} (list : List α) (select : α → Bool) (bound : Nat) :
    ((Finset.range bound).filter fun position => list[position]?.any select).card =
      (list.take bound).countP select := by
  induction bound with
  | zero => rfl
  | succ bound inductionHypothesis =>
      rw [Finset.range_add_one, Finset.filter_insert, List.take_add_one,
        List.countP_append, ← inductionHypothesis]
      cases found : list[bound]? with
      | none => simp
      | some element =>
          by_cases selected : select element
          · simp [selected]
          · simp [selected]

/-- A response lists a content once for every record of it in the window. -/
theorem card_inWindow (session : Session) (content : LogEntry) (view : View) :
    (session.inWindow term content view).card =
      (selectedEntries view term session.records).count content := by
  rw [Session.inWindow, card_filter_range, selectedEntries, List.count_eq_countP,
    List.countP_map, List.countP_filter]
  congr 1
  funext record
  exact Bool.decide_and _ _

/-- Storing further records does not change what an earlier view selects. -/
theorem inWindow_append
    {session next : Session}
    {later : List Record}
    (grown : next.records = session.records ++ later)
    (content : LogEntry)
    {view : View}
    (bounded : view.stored ≤ session.records.length) :
    next.inWindow term content view = session.inWindow term content view := by
  ext position
  rw [mem_inWindow, mem_inWindow, grown]
  apply and_congr_right
  intro inside
  rw [List.getElem?_append_left (inside.trans_le bounded)]

/-- A record is visible to an interval of views. -/
theorem inWindow_ordConnected
    (session : Session)
    (content : LogEntry)
    (position : Nat) :
    Set.OrdConnected {view | position ∈ session.inWindow term content view} := by
  refine ⟨fun first firstMember last lastMember view between => ?_⟩
  obtain ⟨firstStored, record, found, same, matching, _, below⟩ :=
    mem_inWindow.mp firstMember
  obtain ⟨_, lastRecord, lastFound, _, _, above, _⟩ := mem_inWindow.mp lastMember
  obtain rfl : record = lastRecord := Option.some.inj (found.symm.trans lastFound)
  obtain ⟨⟨_, upper⟩, stored⟩ := View.le_iff.mp between.1
  obtain ⟨⟨lower, _⟩, _⟩ := View.le_iff.mp between.2
  exact mem_inWindow.mpr ⟨firstStored.trans_le stored, record, found, same, matching,
    lower.trans above, below.trans upper⟩

/-! ## What a step does -/

/-- A step that delivers no response. -/
structure Silent (session next : Session) : Prop where
  polls : next.polls = session.polls
  seen : next.tail.seen = session.tail.seen
  frames : ∀ content,
    logFrames content next.tail.frames = logFrames content session.tail.frames

/-- A successful poll of a view, with the entries of its response. -/
structure Delivers
    (sha1Hex : Bytes → Bytes)
    (term : Bytes)
    (session next : Session)
    (view : View)
    (logs : List LogEntry) : Prop where
  called : session.view? = some view
  exact : logs.Perm (selectedEntries view term session.records)
  polls : next.polls = view :: session.polls
  response : ∃ clock,
    next.tail.seen = session.tail.seen.write
        (observe sha1Hex session.tail.seen ∅ clock logs).1.toList ∧
      next.tail.frames = session.tail.frames ++
        (observe sha1Hex session.tail.seen ∅ clock logs).2 ++ [.status "connected"]

theorem Tail.stop_seen (tail : Tail) : tail.stop.seen = tail.seen := by
  rw [Tail.stop]
  split <;> rfl

theorem Tail.stop_frames (tail : Tail) : tail.stop.frames = tail.frames := by
  rw [Tail.stop]
  split <;> rfl

theorem Tail.stop_activeCall (tail : Tail) :
    tail.stop.activeCall = tail.activeCall := by
  rw [Tail.stop]
  split <;> rfl

theorem Tail.poll_seen (tail : Tail) (now : Int) (isOpen : Bool) :
    (Tail.poll term tail now isOpen).seen = tail.seen := by
  rw [Tail.poll]
  split
  · exact tail.stop_seen
  · rfl

theorem Tail.poll_frames (tail : Tail) (now : Int) (isOpen : Bool) :
    (Tail.poll term tail now isOpen).frames = tail.frames := by
  rw [Tail.poll]
  split
  · exact tail.stop_frames
  · rfl

/-- A poll leaves the call alone or, on an open socket, starts one over its own
window. -/
theorem Tail.poll_activeCall
    (term : Bytes)
    (tail : Tail)
    (now : Int)
    (isOpen : Bool) :
    (Tail.poll term tail now isOpen).activeCall = tail.activeCall ∨
      isOpen = true ∧ ∃ request,
        (Tail.poll term tail now isOpen).activeCall = some request ∧
          ∀ stored, (request.view stored).window = pollWindow now := by
  rw [Tail.poll]
  split
  next => exact Or.inl tail.stop_activeCall
  next going =>
    right
    rw [Bool.or_eq_true, not_or, Bool.not_eq_true', Bool.not_eq_false] at going
    exact ⟨going.2, _, rfl, fun _ => rfl⟩

/-- The callback ends the call. -/
theorem Tail.callback_activeCall
    (tail : Tail)
    (reply : Reply)
    (clock : Nat → Bytes) : (tail.callback sha1Hex reply clock).activeCall = none := by
  rw [Tail.callback]
  split <;> rfl

/-- What an event of the connection does, by the tail's own step. -/
theorem step_tail_eq_some
    {session next : Session}
    {event : TailEvent}
    (stepped : session.step sha1Hex term (.tail event) = some next) :
    session.isExact term event = true ∧
      session.tail.step sha1Hex term event = some next.tail ∧
      next.records = session.records ∧
      next.polls = session.polled event ++ session.polls ∧
      (next.served = session.served ∨ next.served = none) := by
  obtain ⟨exact, mapped⟩ := Option.ite_none_right_eq_some.mp stepped
  obtain ⟨tail, tailStepped, rfl⟩ := Option.map_eq_some_iff.mp mapped
  refine ⟨exact, tailStepped, rfl, rfl, ?_⟩
  cases event with
  | stop => exact Or.inl rfl
  | poll now isOpen => exact Or.inr rfl
  | reply reply clock => exact Or.inr rfl

theorem silent_of_frames
    {session next : Session}
    (polls : next.polls = session.polls)
    (seen : next.tail.seen = session.tail.seen)
    (frames : next.tail.frames = session.tail.frames) : Silent session next where
  polls := polls
  seen := seen
  frames content := by rw [frames]

theorem silent_of_error
    {session next : Session}
    {text : Bytes}
    (polls : next.polls = session.polls)
    (seen : next.tail.seen = session.tail.seen)
    (frames : next.tail.frames = session.tail.frames ++ [.error text]) :
    Silent session next where
  polls := polls
  seen := seen
  frames content := by
    rw [frames, logFrames_append, logFrames_error, Nat.add_zero]

/-- The end of a call is silent or delivers its response. -/
theorem step_reply
    {session next : Session}
    {reply : Reply}
    {clock : Nat → Bytes}
    (stepped : session.step sha1Hex term (.tail (.reply reply clock)) = some next) :
    Silent session next ∨
      ∃ view logs, Delivers sha1Hex term session next view logs := by
  obtain ⟨exact, tailStepped, _, polls, _⟩ := step_tail_eq_some stepped
  obtain ⟨_, tailNext⟩ := Option.ite_none_right_eq_some.mp tailStepped
  rw [Tail.callback] at tailNext
  by_cases stopped : session.tail.stopped = true
  · left
    rw [if_pos stopped] at tailNext
    have unpolled : session.polled (.reply reply clock) = [] := by
      cases reply with
      | failure message => rfl
      | response logs error =>
          cases error with
          | nil => exact if_pos stopped
          | cons byte error => rfl
    rw [unpolled] at polls
    apply silent_of_frames polls
    · rw [← Option.some.inj tailNext]
    · rw [← Option.some.inj tailNext]
  · rw [if_neg stopped] at tailNext
    cases reply with
    | failure message =>
        left
        apply silent_of_error polls
        · rw [← Option.some.inj tailNext]
          rfl
        · rw [← Option.some.inj tailNext]
          rfl
    | response logs error =>
        cases error with
        | cons byte error =>
            left
            apply silent_of_error polls
            · rw [← Option.some.inj tailNext]
              rfl
            · rw [← Option.some.inj tailNext]
              rfl
        | nil =>
            right
            obtain ⟨view, called, permuted⟩ := (Option.any_eq_true _ _).mp exact
            refine ⟨view, logs, called, of_decide_eq_true permuted, ?_, clock, ?_, ?_⟩
            · rw [polls, Session.polled, if_neg stopped, called]
              rfl
            · rw [← Option.some.inj tailNext]
              rfl
            · rw [← Option.some.inj tailNext]
              rfl

theorem step_poll
    {session next : Session}
    {now : Int}
    {isOpen : Bool}
    (stepped : session.step sha1Hex term (.tail (.poll now isOpen)) = some next) :
    Silent session next := by
  obtain ⟨_, tailStepped, _, polls, _⟩ := step_tail_eq_some stepped
  obtain ⟨_, tailNext⟩ := Option.ite_none_right_eq_some.mp tailStepped
  apply silent_of_frames polls
  · rw [← Option.some.inj tailNext, Tail.poll_seen]
  · rw [← Option.some.inj tailNext, Tail.poll_frames]

theorem step_stop
    {session next : Session}
    (stepped : session.step sha1Hex term (.tail .stop) = some next) :
    Silent session next := by
  obtain ⟨_, tailStepped, _, polls, _⟩ := step_tail_eq_some stepped
  apply silent_of_frames polls
  · rw [← Option.some.inj tailStepped, Tail.stop_seen]
  · rw [← Option.some.inj tailStepped, Tail.stop_frames]

/-- Every step of a session is silent or delivers a response, and records are
only ever added. -/
theorem step_cases
    {session next : Session}
    {event : SessionEvent}
    (stepped : session.step sha1Hex term event = some next) :
    next.records = session.records ++ storedRecords [event] ∧
      (Silent session next ∨
        ∃ view logs, Delivers sha1Hex term session next view logs) := by
  cases event with
  | store record =>
      obtain rfl := Option.some.inj stepped
      exact ⟨rfl, Or.inl (silent_of_frames rfl rfl rfl)⟩
  | answer =>
      obtain ⟨_, nextEq⟩ := Option.ite_none_right_eq_some.mp stepped
      obtain rfl := Option.some.inj nextEq
      exact ⟨(List.append_nil _).symm, Or.inl (silent_of_frames rfl rfl rfl)⟩
  | tail event =>
      refine ⟨?_, ?_⟩
      · rw [(step_tail_eq_some stepped).2.2.1]
        exact (List.append_nil _).symm
      · cases event with
        | poll now isOpen => exact Or.inl (step_poll stepped)
        | reply reply clock => exact step_reply stepped
        | stop => exact Or.inl (step_stop stepped)

end LiveTail
end Chronolog
