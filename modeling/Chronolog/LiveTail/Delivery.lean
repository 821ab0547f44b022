import Chronolog.LiveTail.Session

/-!
# Invariants of a session

Two invariants of the runs of a session.  The views of the successful polls are
in order, as far as the polled windows are.  The counts a connection keeps and
the frames it has sent are those of an observer that compares consecutive
observations, one for each successful poll.
-/

namespace Chronolog
namespace LiveTail

variable {sha1Hex : Bytes → Bytes} {term : Bytes} {connection : Connection}

/-! ## The order of the views -/

/-- Views never exceed the store, nor the answer of the call in progress. -/
structure Bounded (session : Session) : Prop where
  polls : ∀ view ∈ session.polls, view.stored ≤ session.records.length
  served : ∀ stored, session.served = some stored →
    stored ≤ session.records.length ∧ ∀ view ∈ session.polls, view.stored ≤ stored

theorem view?_eq_some {session : Session} {view : View} :
    session.view? = some view ↔ ∃ request, session.tail.activeCall = some request ∧
      ∃ stored, session.served = some stored ∧ request.view stored = view := by
  rw [Session.view?, Option.bind_eq_some_iff]
  simp only [Option.map_eq_some_iff]

/-- A poll adds the view of its call, if any. -/
theorem polled_cases (session : Session) (event : TailEvent) :
    session.polled event = [] ∨
      ∃ view, session.view? = some view ∧ session.polled event = [view] := by
  cases event with
  | poll now isOpen => exact Or.inl rfl
  | stop => exact Or.inl rfl
  | reply reply clock =>
      cases reply with
      | failure message => exact Or.inl rfl
      | response logs error =>
          cases error with
          | cons byte error => exact Or.inl rfl
          | nil =>
              rw [Session.polled]
              split
              · exact Or.inl rfl
              · cases called : session.view? with
                | none => exact Or.inl rfl
                | some view => exact Or.inr ⟨view, rfl, rfl⟩

theorem Bounded.step
    {session next : Session}
    {event : SessionEvent}
    (bounded : Bounded session)
    (stepped : session.step sha1Hex term event = some next) : Bounded next := by
  cases event with
  | store record =>
      obtain rfl := Option.some.inj stepped
      have grown : session.records.length ≤ (session.records ++ [record]).length :=
        List.length_append ▸ Nat.le_add_right _ _
      refine ⟨fun view member => (bounded.polls view member).trans grown, ?_⟩
      intro stored served
      obtain ⟨inside, views⟩ := bounded.served stored served
      exact ⟨inside.trans grown, views⟩
  | answer =>
      obtain ⟨_, nextEq⟩ := Option.ite_none_right_eq_some.mp stepped
      obtain rfl := Option.some.inj nextEq
      refine ⟨bounded.polls, fun stored served => ?_⟩
      obtain rfl := Option.some.inj served
      exact ⟨le_rfl, bounded.polls⟩
  | tail event =>
      obtain ⟨_, _, records, polls, served⟩ := step_tail_eq_some stepped
      have stillServed : ∀ stored, next.served = some stored →
          session.served = some stored := by
        intro stored nextServed
        rcases served with same | gone
        · rw [← same, nextServed]
        · rw [gone] at nextServed
          exact absurd nextServed.symm (Option.some_ne_none stored)
      rcases polled_cases session event with none | ⟨view, called, one⟩
      · rw [none, List.nil_append] at polls
        constructor
        · rw [polls, records]
          exact bounded.polls
        · intro stored nextServed
          rw [polls, records]
          exact bounded.served stored (stillServed stored nextServed)
      · obtain ⟨request, _, answered, wasServed, rfl⟩ := view?_eq_some.mp called
        rw [one, List.singleton_append] at polls
        obtain ⟨inside, views⟩ := bounded.served answered wasServed
        constructor
        · rw [polls, records]
          exact List.forall_mem_cons.mpr ⟨inside, bounded.polls⟩
        · intro stored nextServed
          obtain rfl : answered = stored :=
            Option.some.inj (wasServed.symm.trans (stillServed stored nextServed))
          rw [polls, records]
          exact ⟨inside, List.forall_mem_cons.mpr ⟨le_rfl, views⟩⟩

theorem bounded_run
    {events : List SessionEvent}
    {session : Session}
    (reached : Transition.run (Session.step sha1Hex term) (Session.start connection)
      events = some session) : Bounded session := by
  refine Transition.run_history (fun _ session => Bounded session) ?_ ?_ reached
  · refine ⟨fun view member => absurd member List.not_mem_nil, fun stored served => ?_⟩
    exact absurd served.symm (Option.some_ne_none stored)
  · exact fun history session event next _ bounded stepped => bounded.step stepped

/-- The windows polled so far, in step with the polls of the run. -/
structure Ordered
    (connection : Connection)
    (events : List SessionEvent)
    (session : Session) : Prop where
  call : ∀ request, session.tail.activeCall = some request →
    ∃ now ∈ pollTimes connection events,
      (∀ stored, (request.view stored).window = pollWindow now) ∧
        ∀ view ∈ session.polls, view.window ≤ pollWindow now
  polls : ∀ view ∈ session.polls,
    ∃ now ∈ pollTimes connection events, view.window = pollWindow now
  sorted : session.polls.Pairwise (· ≥ ·)

theorem pollTimes_subset (before after : List SessionEvent) :
    pollTimes connection before ⊆ pollTimes connection (before ++ after) := by
  rw [pollTimes, pollTimes, List.filterMap_append]
  exact List.cons_subset_cons _ (List.subset_append_left _ _)

theorem pollTimes_concat_poll (events : List SessionEvent) (now : Int) :
    pollTimes connection (events ++ [.tail (.poll now true)]) =
      pollTimes connection events ++ [now] := by
  rw [pollTimes, List.filterMap_append]
  rfl

theorem WindowsAdvance.of_append
    {before after : List SessionEvent}
    (advance : WindowsAdvance connection (before ++ after)) :
    WindowsAdvance connection before := by
  rw [WindowsAdvance, pollTimes, List.filterMap_append, ← List.cons_append,
    List.map_append] at advance
  exact (List.pairwise_append.mp advance).1

/-- A poll's window is the latest. -/
theorem WindowsAdvance.le_last
    {events : List SessionEvent}
    {now : Int}
    (advance : WindowsAdvance connection (events ++ [.tail (.poll now true)]))
    {earlier : Int}
    (member : earlier ∈ pollTimes connection events) :
    pollWindow earlier ≤ pollWindow now := by
  rw [WindowsAdvance, pollTimes_concat_poll, List.map_append,
    List.pairwise_append] at advance
  exact advance.2.2 _ (List.mem_map_of_mem member) _ (List.mem_singleton_self _)

theorem Ordered.later
    {events : List SessionEvent}
    {session next : Session}
    {event : SessionEvent}
    (ordered : Ordered connection events session)
    (polls : next.polls = session.polls)
    (call : next.tail.activeCall = session.tail.activeCall) :
    Ordered connection (events ++ [event]) next := by
  refine ⟨fun request active => ?_, fun view member => ?_, polls ▸ ordered.sorted⟩
  · obtain ⟨now, member, requested, latest⟩ := ordered.call request (call ▸ active)
    exact ⟨now, pollTimes_subset _ _ member, requested, polls ▸ latest⟩
  · obtain ⟨now, time, bounds⟩ := ordered.polls view (polls ▸ member)
    exact ⟨now, pollTimes_subset _ _ time, bounds⟩

/-- A new call looks at the latest window. -/
theorem Ordered.poll
    {events : List SessionEvent}
    {session next : Session}
    {now : Int}
    {request : QueryRequest}
    (ordered : Ordered connection events session)
    (advance : WindowsAdvance connection (events ++ [.tail (.poll now true)]))
    (polls : next.polls = session.polls)
    (call : next.tail.activeCall = some request)
    (requested : ∀ stored, (request.view stored).window = pollWindow now) :
    Ordered connection (events ++ [.tail (.poll now true)]) next := by
  refine ⟨?_, fun view member => ?_, polls ▸ ordered.sorted⟩
  · intro other active
    obtain rfl : request = other := Option.some.inj (call.symm.trans active)
    refine ⟨now, ?_, requested, fun view member => ?_⟩
    · rw [pollTimes_concat_poll]
      exact List.mem_append_right _ (List.mem_singleton_self now)
    · obtain ⟨earlier, time, bounds⟩ := ordered.polls view (polls ▸ member)
      rw [bounds]
      exact advance.le_last time
  · obtain ⟨earlier, time, bounds⟩ := ordered.polls view (polls ▸ member)
    exact ⟨earlier, pollTimes_subset _ _ time, bounds⟩

/-- The end of a call adds its view on top. -/
theorem Ordered.reply
    {events : List SessionEvent}
    {session next : Session}
    {event : TailEvent}
    (bounded : Bounded session)
    (ordered : Ordered connection events session)
    (polls : next.polls = session.polled event ++ session.polls)
    (ended : next.tail.activeCall = none) :
    Ordered connection (events ++ [.tail event]) next := by
  have idle : ∀ {property : QueryRequest → Prop} request,
      next.tail.activeCall = some request → property request :=
    fun request active => absurd (active.symm.trans ended) (Option.some_ne_none request)
  have before : ∀ view ∈ session.polls,
      ∃ now ∈ pollTimes connection (events ++ [.tail event]),
        view.window = pollWindow now := by
    intro view member
    obtain ⟨now, time, bounds⟩ := ordered.polls view member
    exact ⟨now, pollTimes_subset _ _ time, bounds⟩
  rcases polled_cases session event with none | ⟨view, called, one⟩
  · rw [none, List.nil_append] at polls
    exact ⟨idle, polls ▸ before, polls ▸ ordered.sorted⟩
  · obtain ⟨request, active, stored, served, rfl⟩ := view?_eq_some.mp called
    rw [one, List.singleton_append] at polls
    obtain ⟨now, time, requested, latest⟩ := ordered.call request active
    obtain ⟨_, answered⟩ := bounded.served stored served
    refine ⟨idle, ?_, ?_⟩
    · rw [polls]
      refine List.forall_mem_cons.mpr ⟨?_, before⟩
      exact ⟨now, pollTimes_subset _ _ time, requested stored⟩
    · rw [polls]
      refine List.pairwise_cons.mpr ⟨fun view member => ?_, ordered.sorted⟩
      exact View.le_iff.mpr ⟨requested stored ▸ latest view member, answered view member⟩

theorem Ordered.step
    {events : List SessionEvent}
    {session next : Session}
    {event : SessionEvent}
    (bounded : Bounded session)
    (ordered : Ordered connection events session)
    (advance : WindowsAdvance connection (events ++ [event]))
    (stepped : session.step sha1Hex term event = some next) :
    Ordered connection (events ++ [event]) next := by
  cases event with
  | store record =>
      obtain rfl := Option.some.inj stepped
      exact ordered.later rfl rfl
  | answer =>
      obtain ⟨_, nextEq⟩ := Option.ite_none_right_eq_some.mp stepped
      obtain rfl := Option.some.inj nextEq
      exact ordered.later rfl rfl
  | tail event =>
      obtain ⟨_, tailStepped, _, polls, _⟩ := step_tail_eq_some stepped
      cases event with
      | stop =>
          refine ordered.later polls ?_
          rw [← Option.some.inj tailStepped, Tail.stop_activeCall]
      | poll now isOpen =>
          obtain ⟨_, tailNext⟩ := Option.ite_none_right_eq_some.mp tailStepped
          have tailEq := (Option.some.inj tailNext).symm
          rcases Tail.poll_activeCall term
            { session.tail with timer := false } now isOpen with
            same | ⟨rfl, request, active, requested⟩
          · exact ordered.later polls (by rw [tailEq, same])
          · exact ordered.poll advance polls (tailEq ▸ active) requested
      | reply reply clock =>
          obtain ⟨_, tailNext⟩ := Option.ite_none_right_eq_some.mp tailStepped
          refine ordered.reply bounded polls ?_
          rw [← Option.some.inj tailNext, Tail.callback_activeCall]

theorem ordered_run
    {events : List SessionEvent}
    {session : Session}
    (advance : WindowsAdvance connection events)
    (reached : Transition.run (Session.step sha1Hex term) (Session.start connection)
      events = some session) : Ordered connection events session := by
  refine Transition.run_history
    (fun history session => WindowsAdvance connection history →
      Ordered connection history session) ?_ ?_ reached advance
  · intro _
    refine ⟨fun request active => ?_, fun view member => ?_, List.Pairwise.nil⟩
    · rcases Tail.poll_activeCall connection.term Tail.connecting
        connection.now connection.isOpen with none | ⟨_, first, call, requested⟩
      · exact absurd (active.symm.trans none) (Option.some_ne_none request)
      · obtain rfl : first = request := Option.some.inj (call.symm.trans active)
        exact ⟨connection.now, List.mem_cons_self, requested,
          fun view member => absurd member List.not_mem_nil⟩
    · exact absurd member List.not_mem_nil
  · intro history session event next current ordered stepped advance
    exact (ordered advance.of_append).step (bounded_run current) advance stepped

/-! ## Frames against sightings -/

/-- The counts of a connection, in terms of what its successful polls saw. -/
structure Counts
    (sha1Hex : Bytes → Bytes)
    (term : Bytes)
    (contents : Set LogEntry)
    (session : Session) : Prop where
  recorded : ∀ record ∈ session.records, record.entry ∈ contents
  counted : ∀ content, logFrames content session.tail.frames =
    Observations.reported (session.sightings term content)
  remembered : ∀ content ∈ contents,
    session.tail.seen.getD (entryKey sha1Hex content) 0 =
      (Observations.lastNonempty (session.sightings term content)).card

theorem sightings_append
    {session next : Session}
    {later : List Record}
    (bounded : Bounded session)
    (grown : next.records = session.records ++ later)
    (content : LogEntry) :
    session.polls.map (next.inWindow term content) = session.sightings term content := by
  apply List.map_congr_left
  intro view member
  exact inWindow_append grown content (bounded.polls view member)

theorem Silent.sightings
    {session next : Session}
    {later : List Record}
    (silent : Silent session next)
    (bounded : Bounded session)
    (grown : next.records = session.records ++ later)
    (content : LogEntry) :
    next.sightings term content = session.sightings term content := by
  rw [Session.sightings, silent.polls, sightings_append bounded grown]

/-- A successful poll adds what its view selects. -/
theorem Delivers.sightings
    {session next : Session}
    {later : List Record}
    {view : View}
    {logs : List LogEntry}
    (delivers : Delivers sha1Hex term session next view logs)
    (bounded : Bounded session)
    (grown : next.records = session.records ++ later)
    (content : LogEntry) :
    next.sightings term content =
      session.inWindow term content view :: session.sightings term content := by
  obtain ⟨_, _, stored, served, rfl⟩ := view?_eq_some.mp delivers.called
  rw [Session.sightings, delivers.polls, List.map_cons, sightings_append bounded grown,
    inWindow_append grown content (bounded.served stored served).1]

theorem Counts.silent
    {contents : Set LogEntry}
    {session next : Session}
    {later : List Record}
    (bounded : Bounded session)
    (counts : Counts sha1Hex term contents session)
    (grown : next.records = session.records ++ later)
    (recorded : ∀ record ∈ later, record.entry ∈ contents)
    (silent : Silent session next) : Counts sha1Hex term contents next := by
  refine ⟨?_, fun content => ?_, fun content member => ?_⟩
  · rw [grown]
    exact List.forall_mem_append.mpr ⟨counts.recorded, recorded⟩
  · rw [silent.frames, silent.sightings bounded grown, counts.counted]
  · rw [silent.seen, silent.sightings bounded grown, counts.remembered content member]

/-- The entries of an exact response are those of stored records. -/
theorem mem_contents_of_exact
    {contents : Set LogEntry}
    {session : Session}
    {view : View}
    {logs : List LogEntry}
    (counts : Counts sha1Hex term contents session)
    (exact : logs.Perm (selectedEntries view term session.records))
    {entry : LogEntry}
    (member : entry ∈ logs) : entry ∈ contents := by
  obtain ⟨record, selected, rfl⟩ := List.mem_map.mp (exact.mem_iff.mp member)
  exact counts.recorded record (List.mem_of_mem_take (List.mem_of_mem_filter selected))

theorem Counts.delivers
    {contents : Set LogEntry}
    (distinct : Set.InjOn (entryKey sha1Hex) contents)
    {session next : Session}
    {later : List Record}
    {view : View}
    {logs : List LogEntry}
    (bounded : Bounded session)
    (counts : Counts sha1Hex term contents session)
    (grown : next.records = session.records ++ later)
    (recorded : ∀ record ∈ later, record.entry ∈ contents)
    (delivers : Delivers sha1Hex term session next view logs) :
    Counts sha1Hex term contents next := by
  obtain ⟨clock, seen, frames⟩ := delivers.response
  have occurrences : ∀ content,
      (session.inWindow term content view).card = logs.count content := by
    intro content
    rw [card_inWindow, delivers.exact.count_eq]
  have separates : ∀ content ∈ contents, Separates sha1Hex content logs := by
    intro content member entry listed keys
    exact distinct (mem_contents_of_exact counts delivers.exact listed) member keys
  refine ⟨?_, fun content => ?_, fun content member => ?_⟩
  · rw [grown]
    exact List.forall_mem_append.mpr ⟨counts.recorded, recorded⟩
  · rw [frames, logFrames_append, logFrames_append, logFrames_status, Nat.add_zero,
      counts.counted, delivers.sightings bounded grown, Observations.reported_cons,
      occurrences]
    by_cases member : content ∈ contents
    · rw [logFrames_observe _ _ _ (separates content member), Std.TreeMap.getD_emptyc,
        counts.remembered content member]
      omega
    · have absent : content ∉ logs := fun listed =>
        member (mem_contents_of_exact counts delivers.exact listed)
      rw [logFrames_observe_of_notMem _ _ _ absent, List.count_eq_zero.mpr absent,
        Nat.zero_sub]
  · rw [seen, getD_seen _ _ (separates content member),
      delivers.sightings bounded grown, Observations.lastNonempty, counts.remembered content member]
    by_cases unseen : logs.count content = 0
    · rw [if_pos unseen, if_pos (Finset.card_eq_zero.mp (by rw [occurrences, unseen]))]
    · rw [if_neg unseen, if_neg fun empty => unseen (by
        rw [← occurrences, empty, Finset.card_empty]), occurrences]

theorem counts_run
    {contents : Set LogEntry}
    (distinct : Set.InjOn (entryKey sha1Hex) contents)
    {events : List SessionEvent}
    {session : Session}
    (recorded : ∀ record ∈ connection.records ++ storedRecords events,
      record.entry ∈ contents)
    (reached : Transition.run (Session.step sha1Hex connection.term)
      (Session.start connection) events = some session) :
    Counts sha1Hex connection.term contents session := by
  refine Transition.run_history
    (fun history session =>
      (∀ record ∈ connection.records ++ storedRecords history, record.entry ∈ contents) →
        Counts sha1Hex connection.term contents session) ?_ ?_ reached recorded
  · intro recorded
    refine ⟨(List.forall_mem_append.mp recorded).1, fun content => ?_,
      fun content member => ?_⟩
    · rw [Session.start, Tail.createLiveTail, Tail.poll_frames]
      rfl
    · rw [Session.start, Tail.createLiveTail, Tail.poll_seen]
      exact Std.TreeMap.getD_emptyc
  · intro history session event next current counts stepped recorded
    rw [storedRecords, List.filterMap_append, ← List.append_assoc,
      List.forall_mem_append] at recorded
    have bounded := bounded_run current
    obtain ⟨grown, silent | ⟨view, logs, delivers⟩⟩ := step_cases stepped
    · exact (counts recorded.1).silent bounded grown recorded.2 silent
    · exact (counts recorded.1).delivers distinct bounded grown recorded.2 delivers

end LiveTail
end Chronolog
