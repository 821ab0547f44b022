import Chronolog.LiveTail.Guarantees

/-!
# The life of a connection

Polls follow one another: as long as a connection lives, either its timer is set
or one call is under way.  What it sends is `connecting` and then one round for
every call that ended, which the replies alone determine: an error, or the entries
that occur more often than in the last response that had them, followed by
`connected`.  Once it is stopped it sends nothing, polls no more, and hears at most
of the call that was still under way.
-/

namespace Chronolog
namespace LiveTail

/-! ## Rounds -/

section Rounds

variable (sha1Hex : Bytes → Bytes)

/-- The number of entries with a key in the last response that had any. -/
def lastCount (key : Bytes) (replies : List Reply) : Nat :=
  replies.foldl (fun known reply =>
    match reply with
    | .response logs [] =>
        if keyCount sha1Hex key logs = 0 then known else keyCount sha1Hex key logs
    | _ => known) 0

/-- Whether the entry at an index of a response occurs, up to there, more often than
in the last response that had it. -/
def isNew (earlier : List Reply) (logs : List LogEntry) (place : LogEntry × Nat) : Bool :=
  lastCount sha1Hex (entryKey sha1Hex place.1) earlier <
    keyCount sha1Hex (entryKey sha1Hex place.1) (logs.take (place.2 + 1))

/-- The frame for the entry at an index of a response. -/
def frameOf (clock : Nat → Bytes) (logs : List LogEntry) (place : LogEntry × Nat) : Frame :=
  .log place.1 (clock (logs.length - (place.2 + 1)))

/-- The frames for the new entries of a response. -/
def newEntries (earlier : List Reply) (clock : Nat → Bytes) (logs : List LogEntry) :
    List Frame :=
  (logs.zipIdx.filter (isNew sha1Hex earlier logs)).map (frameOf clock logs)

/-- What is sent at the end of a call, after the ends of earlier ones. -/
def roundOf (earlier : List Reply) (clock : Nat → Bytes) : Reply → List Frame
  | .failure message => [.error message]
  | .response logs [] => newEntries sha1Hex earlier clock logs ++ [.status "connected"]
  | .response _ error => [.error error]

/-- One round for every call that ended. -/
def rounds (earlier : List Reply) : List (Reply × (Nat → Bytes)) → List (List Frame)
  | [] => []
  | (reply, clock) :: heard =>
      roundOf sha1Hex earlier clock reply :: rounds (earlier ++ [reply]) heard

/-- The calls that ended, with the clock readings of their frames. -/
def replies (events : List TailEvent) : List (Reply × (Nat → Bytes)) :=
  events.filterMap fun event =>
    match event with
    | .reply reply clock => some (reply, clock)
    | _ => none

end Rounds

variable {sha1Hex : Bytes → Bytes}

theorem rounds_concat
    (earlier : List Reply)
    (heard : List (Reply × (Nat → Bytes)))
    (reply : Reply)
    (clock : Nat → Bytes) :
    rounds sha1Hex earlier (heard ++ [(reply, clock)]) =
      rounds sha1Hex earlier heard ++
        [roundOf sha1Hex (earlier ++ heard.map Prod.fst) clock reply] := by
  induction heard generalizing earlier with
  | nil =>
      rw [List.map_nil, List.append_nil]
      rfl
  | cons first heard inductionHypothesis =>
      rw [List.cons_append, rounds, rounds, inductionHypothesis, List.map_cons,
        List.append_assoc, List.singleton_append, List.cons_append]

theorem lastCount_concat (key : Bytes) (earlier : List Reply) (reply : Reply) :
    lastCount sha1Hex key (earlier ++ [reply]) =
      match reply with
      | .response logs [] =>
          if keyCount sha1Hex key logs = 0 then lastCount sha1Hex key earlier
          else keyCount sha1Hex key logs
      | _ => lastCount sha1Hex key earlier := by
  rw [lastCount, List.foldl_append]
  rfl

/-- The loop over the rest of a response, with the counts of the part before it. -/
theorem observe_rest
    {seen : OrderedStore Bytes Nat}
    {earlier : List Reply}
    (known : ∀ key, seen.getD key 0 = lastCount sha1Hex key earlier)
    (clock : Nat → Bytes)
    {before logs whole : List LogEntry}
    {current : OrderedStore Bytes Nat}
    (split : whole = before ++ logs)
    (counted : ∀ key, current.getD key 0 = keyCount sha1Hex key before) :
    (observe sha1Hex seen current clock logs).2 =
      ((logs.zipIdx before.length).filter (isNew sha1Hex earlier whole)).map
        (frameOf clock whole) := by
  induction logs generalizing before current with
  | nil => rfl
  | cons entry logs inductionHypothesis =>
      have upTo : whole.take (before.length + 1) = before ++ [entry] := by
        rw [split, List.append_cons]
        exact List.take_left' List.length_append
      have place : frameOf clock whole (entry, before.length) =
          .log entry (clock logs.length) := by
        have later : whole.length - (before.length + 1) = logs.length := by
          rw [split, List.length_append, List.length_cons]
          omega
        rw [frameOf, later]
      have here : isNew sha1Hex earlier whole (entry, before.length) = true ↔
          seen.getD (entryKey sha1Hex entry) 0 <
            current.getD (entryKey sha1Hex entry) 0 + 1 := by
        rw [isNew, decide_eq_true_eq, upTo, keyCount_concat, if_pos rfl, known, counted]
      have counts : ∀ key, (current.insert (entryKey sha1Hex entry)
          (current.getD (entryKey sha1Hex entry) 0 + 1)).getD key 0 =
            keyCount sha1Hex key (before ++ [entry]) := by
        intro key
        rw [getD_insert_succ, counted, keyCount_concat]
      have rest := inductionHypothesis (split.trans (List.append_cons before entry logs)) counts
      rw [List.length_append, List.length_singleton] at rest
      rw [observe_cons, List.zipIdx_cons]
      dsimp only
      split
      next new => rw [List.filter_cons_of_pos (here.mpr new), List.map_cons, place, rest]
      next old => rw [List.filter_cons_of_neg (mt here.mp old), rest]

/-- The loop over a response sends the new entries. -/
theorem observe_eq_newEntries
    {seen : OrderedStore Bytes Nat}
    {earlier : List Reply}
    (known : ∀ key, seen.getD key 0 = lastCount sha1Hex key earlier)
    (clock : Nat → Bytes)
    (logs : List LogEntry) :
    (observe sha1Hex seen ∅ clock logs).2 = newEntries sha1Hex earlier clock logs := by
  have nothing : ∀ key, (∅ : OrderedStore Bytes Nat).getD key 0 = keyCount sha1Hex key [] :=
    fun _ => Std.TreeMap.getD_emptyc
  exact observe_rest known clock (List.nil_append logs).symm nothing

/-- The end of a call adds its round, and its response is remembered. -/
theorem report_eq
    {tail : Tail}
    {earlier : List Reply}
    (known : ∀ key, tail.seen.getD key 0 = lastCount sha1Hex key earlier)
    (clock : Nat → Bytes)
    (reply : Reply) :
    (tail.report sha1Hex clock reply).frames =
        tail.frames ++ roundOf sha1Hex earlier clock reply ∧
      (tail.report sha1Hex clock reply).stopped = tail.stopped ∧
      ∀ key, (tail.report sha1Hex clock reply).seen.getD key 0 =
        lastCount sha1Hex key (earlier ++ [reply]) := by
  cases reply with
  | failure message =>
      refine ⟨rfl, rfl, fun key => ?_⟩
      rw [lastCount_concat]
      exact known key
  | response logs error =>
      cases error with
      | cons first rest =>
          refine ⟨rfl, rfl, fun key => ?_⟩
          rw [lastCount_concat]
          exact known key
      | nil =>
          refine ⟨?_, rfl, fun key => ?_⟩
          · rw [roundOf, ← observe_eq_newEntries known clock logs, ← List.append_assoc]
            rfl
          · rw [lastCount_concat, ← known key]
            exact getD_write_observe tail.seen clock key logs

/-! ## Steps -/

/-- The number of calls under way. -/
def Tail.underWay (tail : Tail) : Nat := tail.activeCall.toList.length

/-- What a connection has sent and remembers after the ends of calls it has heard of:
all of them while it lives, and all but at most one once it is stopped. -/
structure Heard
    (sha1Hex : Bytes → Bytes)
    (history : List TailEvent)
    (tail : Tail)
    (heard : List (Reply × (Nat → Bytes))) : Prop where
  earliest : heard <+: replies history
  frames : tail.frames = .status "connecting" :: (rounds sha1Hex [] heard).flatten
  seen : ∀ key, tail.seen.getD key 0 = lastCount sha1Hex key (heard.map Prod.fst)
  all : tail.stopped = false → heard = replies history
  late : tail.stopped = true → (replies history).length + tail.underWay ≤ heard.length + 1

/-- Timer, call, and frames of a connection after a history. -/
structure Lifecycle
    (sha1Hex : Bytes → Bytes)
    (history : List TailEvent)
    (tail : Tail) : Prop where
  alternates : tail.stopped = false → (tail.timer = true ↔ tail.activeCall = none)
  unset : tail.stopped = true → tail.timer = false
  rounds : ∃ heard, Heard sha1Hex history tail heard

theorem replies_concat (history : List TailEvent) (event : TailEvent) :
    replies (history ++ [event]) = replies history ++ replies [event] :=
  List.filterMap_append

theorem underWay_le_one (tail : Tail) : tail.underWay ≤ 1 := by
  rw [Tail.underWay]
  cases tail.activeCall with
  | none => exact Nat.zero_le 1
  | some request => exact Nat.le_refl 1

/-- A connection that ends after all its replies hears at most of the call that is
still under way. -/
theorem Heard.ended
    {history : List TailEvent}
    {tail ended : Tail}
    {heard : List (Reply × (Nat → Bytes))}
    (facts : Heard sha1Hex history tail heard)
    (all : heard = replies history)
    (stopped : ended.stopped = true)
    (unset : ended.timer = false)
    (frames : ended.frames = tail.frames)
    (seen : ended.seen = tail.seen) : Lifecycle sha1Hex history ended := by
  have notLiving : ended.stopped ≠ false := Bool.ne_false_iff.mpr stopped
  refine ⟨fun living => absurd living notLiving, fun _ => unset, heard, facts.earliest,
    frames.trans facts.frames, seen ▸ facts.seen, fun living => absurd living notLiving,
    fun _ => ?_⟩
  rw [all]
  exact Nat.add_le_add_left (underWay_le_one ended) _

/-- A connection that ends gives up the timer and keeps the call. -/
theorem Lifecycle.stop
    {history : List TailEvent}
    {tail : Tail}
    (lifecycle : Lifecycle sha1Hex history tail) : Lifecycle sha1Hex history tail.stop := by
  unfold Tail.stop
  split
  · exact lifecycle
  next alive =>
    obtain ⟨heard, facts⟩ := lifecycle.rounds
    exact facts.ended (facts.all (Bool.eq_false_iff.mpr alive)) rfl rfl rfl rfl

/-- A poll starts one call, or finds the socket closed. -/
theorem Lifecycle.poll
    {history : List TailEvent}
    {tail : Tail}
    {term : Bytes}
    {now : Int}
    {isOpen : Bool}
    (lifecycle : Lifecycle sha1Hex history tail)
    (due : tail.stopped = false) :
    Lifecycle sha1Hex history (({ tail with timer := false } : Tail).poll term now isOpen) := by
  obtain ⟨heard, facts⟩ := lifecycle.rounds
  have same := facts.all due
  unfold Tail.poll
  split
  next =>
    unfold Tail.stop
    rw [if_neg (by simp [due])]
    exact facts.ended same rfl rfl rfl rfl
  next =>
    exact ⟨fun _ => ⟨fun set => absurd set Bool.false_ne_true, fun none => absurd none
      (Option.some_ne_none _)⟩, fun _ => rfl, heard, facts.earliest, facts.frames, facts.seen,
      fun _ => same, fun stopped => absurd (due.symm.trans stopped) Bool.false_ne_true⟩

/-- The end of a call is a round, unless the connection is stopped. -/
theorem Lifecycle.reply
    {history : List TailEvent}
    {tail : Tail}
    {request : QueryRequest}
    (lifecycle : Lifecycle sha1Hex history tail)
    (called : tail.activeCall = some request)
    (reply : Reply)
    (clock : Nat → Bytes) :
    Lifecycle sha1Hex (history ++ [.reply reply clock]) (tail.callback sha1Hex reply clock) := by
  obtain ⟨heard, facts⟩ := lifecycle.rounds
  have added : replies (history ++ [.reply reply clock]) =
      replies history ++ [(reply, clock)] := replies_concat history _
  unfold Tail.callback
  split
  next stopped =>
    refine ⟨fun living => absurd (living.symm.trans stopped) Bool.false_ne_true,
      lifecycle.unset, heard, ?_, facts.frames, facts.seen,
      fun living => absurd (living.symm.trans stopped) Bool.false_ne_true, fun _ => ?_⟩
    · rw [added]
      exact facts.earliest.trans (List.prefix_append _ _)
    · have before := facts.late stopped
      rw [Tail.underWay, called] at before
      rw [added, List.length_append]
      exact before
  next alive =>
    have living := Bool.eq_false_iff.mpr alive
    have all := facts.all living
    obtain ⟨sent, kept, remembered⟩ := report_eq facts.seen clock reply
    refine ⟨fun _ => ⟨fun _ => rfl, fun _ => rfl⟩,
      fun stopped => absurd ((kept.trans living).symm.trans stopped) Bool.false_ne_true,
      heard ++ [(reply, clock)], ?_, ?_, ?_, fun _ => ?_,
      fun stopped => absurd ((kept.trans living).symm.trans stopped) Bool.false_ne_true⟩
    · rw [added, all]
    · dsimp only
      rw [sent, facts.frames, rounds_concat, List.flatten_append, List.flatten_singleton,
        List.cons_append, List.nil_append]
    · intro key
      rw [List.map_append]
      exact remembered key
    · rw [added, all]

theorem Lifecycle.step
    {history : List TailEvent}
    {tail next : Tail}
    {term : Bytes}
    {event : TailEvent}
    (lifecycle : Lifecycle sha1Hex history tail)
    (stepped : tail.step sha1Hex term event = some next) :
    Lifecycle sha1Hex (history ++ [event]) next := by
  have quiet : ∀ later, replies [event] = [] → Lifecycle sha1Hex history later →
      Lifecycle sha1Hex (history ++ [event]) later := by
    intro later none kept
    obtain ⟨heard, facts⟩ := kept.rounds
    have same : replies (history ++ [event]) = replies history := by
      rw [replies_concat, none, List.append_nil]
    exact ⟨kept.alternates, kept.unset, heard, same ▸ facts.earliest, facts.frames, facts.seen,
      same ▸ facts.all, same ▸ facts.late⟩
  cases event with
  | poll now isOpen =>
      obtain ⟨set, same⟩ := Option.ite_none_right_eq_some.mp stepped
      obtain rfl := Option.some.inj same
      have due : tail.stopped = false := by
        rw [Bool.eq_false_iff]
        intro stopped
        exact absurd ((lifecycle.unset stopped).symm.trans set) Bool.false_ne_true
      exact quiet _ rfl (lifecycle.poll due)
  | reply reply clock =>
      obtain ⟨called, same⟩ := Option.ite_none_right_eq_some.mp stepped
      obtain rfl := Option.some.inj same
      obtain ⟨request, active⟩ := Option.isSome_iff_exists.mp called
      exact lifecycle.reply active reply clock
  | stop =>
      obtain rfl := Option.some.inj stepped
      exact quiet _ rfl lifecycle.stop

theorem lifecycle_createLiveTail (term : Bytes) (now : Int) (isOpen : Bool) :
    Lifecycle sha1Hex [] (Tail.createLiveTail term now isOpen) := by
  have unknown : ∀ key, (∅ : OrderedStore Bytes Nat).getD key 0 = lastCount sha1Hex key [] :=
    fun _ => Std.TreeMap.getD_emptyc
  cases isOpen with
  | false =>
      have stopped : (Tail.createLiveTail term now false).stopped = true := rfl
      exact ⟨fun living => absurd (living.symm.trans stopped) Bool.false_ne_true, fun _ => rfl,
        [], List.prefix_rfl, rfl, unknown,
        fun living => absurd (living.symm.trans stopped) Bool.false_ne_true,
        fun _ => Nat.zero_le 1⟩
  | true =>
      exact ⟨fun _ => ⟨fun set => absurd set Bool.false_ne_true,
          fun none => absurd none (Option.some_ne_none _)⟩, fun _ => rfl, [], List.prefix_rfl,
        rfl, unknown, fun _ => rfl, fun stopped => absurd stopped Bool.false_ne_true⟩

/-- A stopped connection stays as it is, but for the end of its call. -/
theorem stopped_step
    {tail next : Tail}
    {term : Bytes}
    {event : TailEvent}
    (stopped : tail.stopped = true)
    (unset : tail.timer = false)
    (stepped : tail.step sha1Hex term event = some next) :
    next.stopped = true ∧ next.frames = tail.frames := by
  cases event with
  | poll now isOpen =>
      obtain ⟨set, _⟩ := Option.ite_none_right_eq_some.mp stepped
      exact absurd (unset.symm.trans set) Bool.false_ne_true
  | reply reply clock =>
      obtain ⟨_, same⟩ := Option.ite_none_right_eq_some.mp stepped
      obtain rfl := Option.some.inj same
      rw [Tail.callback, if_pos stopped]
      exact ⟨stopped, rfl⟩
  | stop =>
      obtain rfl := Option.some.inj stepped
      rw [Tail.stop, if_pos stopped]
      exact ⟨stopped, rfl⟩

/-- In every run of a connection: while it lives, its timer is set exactly when no
call is under way, and it has sent the round of every reply; once it is stopped its
timer is off, at most one more call ends, and nothing more is sent. -/
theorem frames_in_rounds
    (sha1Hex : Bytes → Bytes)
    (term : Bytes)
    (now : Int)
    (isOpen : Bool)
    (events : List TailEvent)
    (tail : Tail)
    (reached : Transition.run (Tail.step sha1Hex term) (Tail.createLiveTail term now isOpen)
      events = some tail) :
    Lifecycle sha1Hex events tail ∧
      ∀ moment, Transition.Passes (Tail.step sha1Hex term)
          (Tail.createLiveTail term now isOpen) events moment →
        moment.stopped = true → tail.stopped = true ∧ tail.frames = moment.frames := by
  refine Transition.run_history (fun history state => Lifecycle sha1Hex history state ∧
    ∀ moment, Transition.Passes (Tail.step sha1Hex term)
        (Tail.createLiveTail term now isOpen) history moment →
      moment.stopped = true → state.stopped = true ∧ state.frames = moment.frames)
    ⟨lifecycle_createLiveTail term now isOpen, ?_⟩ ?_ reached
  · rintro moment ⟨before, after, split, passed⟩ stopped
    obtain ⟨rfl, _⟩ := List.append_eq_nil_iff.mp split.symm
    obtain rfl := Option.some.inj passed
    exact ⟨stopped, rfl⟩
  · rintro history state event next current ⟨lifecycle, silent⟩ stepped
    refine ⟨lifecycle.step stepped, fun moment passes stopped => ?_⟩
    rcases (Transition.passes_concat current stepped).mp passes with earlier | rfl
    · obtain ⟨still, same⟩ := silent moment earlier stopped
      obtain ⟨later, frames⟩ := stopped_step still (lifecycle.unset still) stepped
      exact ⟨later, frames.trans same⟩
    · exact ⟨stopped, rfl⟩

/-- Stopped during the second call. -/
theorem frames_in_rounds_stoppedCall :
    ∃ tail,
      Transition.run (Tail.step helloDigest helloConnection.term)
          (Tail.createLiveTail helloConnection.term 300000 true)
          [.reply (.response [helloEntry] []) (fun _ => []), .poll 300001 true, .stop,
            .reply (.response [helloEntry, helloEntry] []) (fun _ => [])] = some tail ∧
        tail.frames.length = 3 ∧
        Lifecycle helloDigest
          [.reply (.response [helloEntry] []) (fun _ => []), .poll 300001 true, .stop,
            .reply (.response [helloEntry, helloEntry] []) (fun _ => [])] tail := by
  obtain ⟨tail, reached, frames⟩ := (Option.any_eq_true _ _).mp (by decide +kernel :
    (Transition.run (Tail.step helloDigest helloConnection.term)
      (Tail.createLiveTail helloConnection.term 300000 true)
      [.reply (.response [helloEntry] []) (fun _ => []), .poll 300001 true, .stop,
        .reply (.response [helloEntry, helloEntry] []) (fun _ => [])]).any
      (fun tail => decide (tail.frames.length = 3)) = true)
  refine ⟨tail, reached, of_decide_eq_true frames, ?_⟩
  exact (frames_in_rounds helloDigest helloConnection.term 300000 true _ tail reached).1

end LiveTail
end Chronolog
