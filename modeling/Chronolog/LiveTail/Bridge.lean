import Chronolog.Foundation.Binary64
import Chronolog.Foundation.JsonText
import Chronolog.Foundation.OrderedStore

/-!
# The live-tail bridge

One `createLiveTail` connection.  A timer polls the `Query` RPC over the last
five minutes; the callback of a poll sends a frame for every entry that occurs
more often in the response than in the last response that had it, and sets the
timer again.  Entries are compared by the SHA-1 digest of their JSON text; the
digest function enters as a parameter.  Texts are given by their UTF-8 bytes.
-/

namespace Chronolog
namespace LiveTail

/-- `LOOKBACK_MS` -/
def lookbackMs : Int := 5 * 60 * 1000

/-- `LIMIT` -/
def limit : Int := 5000

/-- A log entry of a response.  The 64-bit timestamp arrives as a text. -/
structure LogEntry where
  timestampNano : Bytes
  message : Bytes
  deriving DecidableEq

/-- The arguments of one `Query` call. -/
structure QueryRequest where
  term : Bytes
  startTimeNano : Int
  endTimeNano : Int
  limit : Int

/-- How a `Query` call ends.  An empty `error` field is no error. -/
inductive Reply
  | failure (message : Bytes)
  | response (logs : List LogEntry) (error : Bytes)

/-- What is sent to the browser. -/
inductive Frame
  | status (state : String)
  | error (text : Bytes)
  | log (entry : LogEntry) (receivedAt : Bytes)

/-- The entry a frame carries. -/
def Frame.content? : Frame → Option LogEntry
  | .log entry _ => some entry
  | _ => none

/-- The number of `log` frames with a given content. -/
def logFrames (content : LogEntry) (frames : List Frame) : Nat :=
  (frames.filterMap Frame.content?).count content

/-- `JSON.stringify` of an entry. -/
def stringify (entry : LogEntry) : Bytes :=
  "\x7b\"timestamp_nano\":".toUTF8.toList ++
    (JsonText.quote entry.timestampNano ++
      (",\"message\":".toUTF8.toList ++
        (JsonText.quote entry.message ++ "\x7d".toUTF8.toList)))

/-- `Math.trunc(ms * 1e6)`: a product of this size is rounded to a double, which
is an integer again. -/
def toNanos (ms : Int) : Int :=
  Binary64.round (ms * 1000000)

/-- The variables a connection closes over, and the frames it has sent. -/
structure Tail where
  stopped : Bool
  timer : Bool
  activeCall : Option QueryRequest
  seen : OrderedStore Bytes Nat
  frames : List Frame

/-- What can happen to a connection: the timer fires, with the clock reading and
whether the socket is open; the call ends, with the clock readings of the frames
by the number of entries still to come; the socket closes. -/
inductive TailEvent
  | poll (now : Int) (isOpen : Bool)
  | reply (reply : Reply) (clock : Nat → Bytes)
  | stop

section Source

variable (sha1Hex : Bytes → Bytes)

/-- The key under which occurrences of an entry are counted. -/
def entryKey (entry : LogEntry) : Bytes :=
  sha1Hex (stringify entry)

/-- The loop over the entries of a response: the occurrence counts and the
frames sent. -/
def observe
    (seen current : OrderedStore Bytes Nat)
    (clock : Nat → Bytes) : List LogEntry → OrderedStore Bytes Nat × List Frame
  | [] => (current, [])
  | entry :: logs =>
      let key := entryKey sha1Hex entry
      let occurrence := current.getD key 0 + 1
      let (counts, frames) := observe seen (current.insert key occurrence) clock logs
      if seen.getD key 0 < occurrence then
        (counts, .log entry (clock logs.length) :: frames)
      else
        (counts, frames)

namespace Tail

/-- `stop`.  The callback of a cancelled call still runs. -/
def stop (tail : Tail) : Tail :=
  if tail.stopped then tail else { tail with stopped := true, timer := false }

/-- `poll` -/
def poll (term : Bytes) (tail : Tail) (now : Int) (isOpen : Bool) : Tail :=
  if tail.stopped || !isOpen then tail.stop
  else
    { tail with
      activeCall := some
        { term
          startTimeNano := toNanos (now - lookbackMs)
          endTimeNano := toNanos now
          limit } }

/-- The frames sent for the end of a call, and the counts kept. -/
def report (tail : Tail) (clock : Nat → Bytes) : Reply → Tail
  | .failure message => { tail with frames := tail.frames ++ [.error message] }
  | .response logs error =>
      if error ≠ [] then { tail with frames := tail.frames ++ [.error error] }
      else
        let (current, frames) := observe sha1Hex tail.seen ∅ clock logs
        { tail with
          seen := tail.seen.write current.toList
          frames := tail.frames ++ frames ++ [.status "connected"] }

/-- The callback of a poll. -/
def callback (tail : Tail) (reply : Reply) (clock : Nat → Bytes) : Tail :=
  if tail.stopped then { tail with activeCall := none }
  else { report sha1Hex tail clock reply with activeCall := none, timer := true }

/-- The connection before its first poll. -/
def connecting : Tail where
  stopped := false
  timer := false
  activeCall := none
  seen := ∅
  frames := [.status "connecting"]

/-- `createLiveTail`, up to the end of the first `poll`. -/
def createLiveTail (term : Bytes) (now : Int) (isOpen : Bool) : Tail :=
  poll term connecting now isOpen

/-- One event.  A timer fires only while it is set, and only a call in progress
ends. -/
def step (term : Bytes) (tail : Tail) : TailEvent → Option Tail
  | .poll now isOpen =>
      if tail.timer then some (poll term { tail with timer := false } now isOpen)
      else none
  | .reply reply clock =>
      if tail.activeCall.isSome then some (tail.callback sha1Hex reply clock)
      else none
  | .stop => some tail.stop

end Tail

end Source

variable {sha1Hex : Bytes → Bytes}

/-! ## Keys -/

/-- The JSON text determines the entry. -/
theorem stringify_injective : Function.Injective stringify := by
  intro left right equal
  have fields := List.append_cancel_left equal
  obtain ⟨timestamps, rest⟩ := JsonText.quote_append_inj fields
  obtain ⟨messages, _⟩ := JsonText.quote_append_inj (List.append_cancel_left rest)
  cases left
  cases right
  exact congrArg₂ LogEntry.mk timestamps messages

/-- Entries whose texts have different digests have different keys. -/
theorem entryKey_injOn
    {contents : Set LogEntry}
    (collisionFree : Set.InjOn sha1Hex (Set.image stringify contents)) :
    Set.InjOn (entryKey sha1Hex) contents := by
  intro left leftMember right rightMember equal
  apply stringify_injective
  exact collisionFree (Set.mem_image_of_mem _ leftMember)
    (Set.mem_image_of_mem _ rightMember) equal

/-- Times are converted monotonically. -/
theorem toNanos_mono {left right : Int} (less : left ≤ right) :
    toNanos left ≤ toNanos right :=
  Binary64.round_mono (by omega)

/-! ## The loop over a response -/

theorem logFrames_append (content : LogEntry) (first second : List Frame) :
    logFrames content (first ++ second) =
      logFrames content first + logFrames content second := by
  rw [logFrames, List.filterMap_append, List.count_append]
  rfl

@[simp] theorem logFrames_nil (content : LogEntry) : logFrames content [] = 0 := rfl

@[simp] theorem logFrames_status (content : LogEntry) (state : String) :
    logFrames content [.status state] = 0 := rfl

@[simp] theorem logFrames_error (content : LogEntry) (text : Bytes) :
    logFrames content [.error text] = 0 := rfl

theorem logFrames_cons_log
    (content entry : LogEntry)
    (receivedAt : Bytes)
    (frames : List Frame) :
    logFrames content (.log entry receivedAt :: frames) =
      logFrames content frames + if entry = content then 1 else 0 := by
  rw [logFrames, List.filterMap_cons]
  dsimp only [Frame.content?]
  rw [List.count_cons, logFrames]
  simp only [beq_iff_eq]

theorem getD_insert_self (store : OrderedStore Bytes Nat) (key : Bytes) (count : Nat) :
    (store.insert key count).getD key 0 = count :=
  Std.TreeMap.getD_insert_self

theorem getD_insert_of_ne
    (store : OrderedStore Bytes Nat)
    {key other : Bytes}
    (count : Nat)
    (different : key ≠ other) :
    (store.insert key count).getD other 0 = store.getD other 0 := by
  rw [Std.TreeMap.getD_insert, if_neg (by rwa [Std.LawfulEqOrd.compare_eq_iff_eq])]

/-- The entries of a response that share a key with a content are equal to it. -/
def Separates (sha1Hex : Bytes → Bytes) (content : LogEntry) (logs : List LogEntry) :
    Prop :=
  ∀ entry ∈ logs, entryKey sha1Hex entry = entryKey sha1Hex content → entry = content

/-- One round of the loop. -/
theorem observe_cons
    (seen current : OrderedStore Bytes Nat)
    (clock : Nat → Bytes)
    (entry : LogEntry)
    (logs : List LogEntry) :
    observe sha1Hex seen current clock (entry :: logs) =
      let key := entryKey sha1Hex entry
      let occurrence := current.getD key 0 + 1
      let rest := observe sha1Hex seen (current.insert key occurrence) clock logs
      (rest.1,
        if seen.getD key 0 < occurrence then
          .log entry (clock logs.length) :: rest.2
        else rest.2) := by
  rw [observe]
  dsimp only
  split <;> rfl

/-- The number of entries with a key. -/
def keyCount (sha1Hex : Bytes → Bytes) (key : Bytes) (logs : List LogEntry) : Nat :=
  logs.countP fun entry => entryKey sha1Hex entry = key

theorem keyCount_eq_count
    {content : LogEntry}
    {logs : List LogEntry}
    (separates : Separates sha1Hex content logs) :
    keyCount sha1Hex (entryKey sha1Hex content) logs = logs.count content := by
  apply List.countP_congr
  intro entry member
  rw [decide_eq_true_eq, beq_iff_eq]
  exact ⟨separates entry member, fun same => congrArg (entryKey sha1Hex) same⟩

theorem keyCount_concat (key : Bytes) (logs : List LogEntry) (entry : LogEntry) :
    keyCount sha1Hex key (logs ++ [entry]) =
      keyCount sha1Hex key logs + if entryKey sha1Hex entry = key then 1 else 0 := by
  rw [keyCount, List.countP_append, List.countP_singleton]
  simp only [decide_eq_true_eq]
  rfl

theorem getD_insert_succ
    (current : OrderedStore Bytes Nat)
    (key other : Bytes) :
    (current.insert key (current.getD key 0 + 1)).getD other 0 =
      current.getD other 0 + if key = other then 1 else 0 := by
  by_cases same : key = other
  · rw [← same, getD_insert_self, if_pos rfl]
  · rw [getD_insert_of_ne _ _ same, if_neg same, Nat.add_zero]

theorem getD_observe
    (seen current : OrderedStore Bytes Nat)
    (clock : Nat → Bytes)
    (key : Bytes)
    (logs : List LogEntry) :
    (observe sha1Hex seen current clock logs).1.getD key 0 =
      current.getD key 0 + keyCount sha1Hex key logs := by
  induction logs generalizing current with
  | nil => rfl
  | cons entry logs inductionHypothesis =>
      rw [observe_cons]
      dsimp only
      rw [inductionHypothesis, getD_insert_succ, keyCount, keyCount, List.countP_cons]
      simp only [decide_eq_true_eq]
      omega

theorem mem_observe_current
    (seen current : OrderedStore Bytes Nat)
    (clock : Nat → Bytes)
    (key : Bytes)
    (logs : List LogEntry) :
    key ∈ (observe sha1Hex seen current clock logs).1 ↔
      key ∈ current ∨ ∃ entry ∈ logs, entryKey sha1Hex entry = key := by
  induction logs generalizing current with
  | nil => simp [observe]
  | cons entry logs inductionHypothesis =>
      rw [observe_cons]
      dsimp only
      rw [inductionHypothesis, Std.TreeMap.mem_insert,
        Std.LawfulEqOrd.compare_eq_iff_eq, List.exists_mem_cons_iff]
      tauto

/-- A content is sent as often as it occurs beyond the number seen last. -/
theorem logFrames_observe
    (seen current : OrderedStore Bytes Nat)
    (clock : Nat → Bytes)
    {content : LogEntry}
    {logs : List LogEntry}
    (separates : Separates sha1Hex content logs) :
    logFrames content (observe sha1Hex seen current clock logs).2 =
      (current.getD (entryKey sha1Hex content) 0 + logs.count content -
          seen.getD (entryKey sha1Hex content) 0) -
        (current.getD (entryKey sha1Hex content) 0 -
          seen.getD (entryKey sha1Hex content) 0) := by
  induction logs generalizing current with
  | nil => simp [observe]
  | cons entry logs inductionHypothesis =>
      obtain ⟨here, later⟩ := List.forall_mem_cons.mp separates
      have rest := inductionHypothesis
        (current.insert (entryKey sha1Hex entry)
          (current.getD (entryKey sha1Hex entry) 0 + 1)) later
      rw [observe_cons, List.count_cons]
      dsimp only
      by_cases same : entry = content
      · -- An occurrence of the content: the count goes up by one, and a frame is
        -- sent once it exceeds the number seen.
        subst same
        rw [getD_insert_self] at rest
        rw [if_pos (beq_self_eq_true entry)]
        split
        · rw [logFrames_cons_log, if_pos rfl, rest]
          omega
        · rw [rest]
          omega
      · rw [getD_insert_of_ne _ _ fun keys => same (here keys)] at rest
        rw [if_neg (mt eq_of_beq same), Nat.add_zero (logs.count content), ← rest]
        split
        · rw [logFrames_cons_log, if_neg same, Nat.add_zero]
        · rfl

/-- Nothing is sent that is not in the response. -/
theorem logFrames_observe_of_notMem
    (seen current : OrderedStore Bytes Nat)
    (clock : Nat → Bytes)
    {content : LogEntry}
    {logs : List LogEntry}
    (absent : content ∉ logs) :
    logFrames content (observe sha1Hex seen current clock logs).2 = 0 := by
  induction logs generalizing current with
  | nil => rfl
  | cons entry logs inductionHypothesis =>
      rw [List.mem_cons, not_or] at absent
      rw [observe_cons]
      dsimp only
      split
      · rw [logFrames_cons_log, inductionHypothesis _ absent.2, if_neg (Ne.symm absent.1)]
      · exact inductionHypothesis _ absent.2

/-- `seen` after the counts of a response were copied into it. -/
theorem getD_write_toList
    (seen current : OrderedStore Bytes Nat)
    (key : Bytes) :
    (seen.write current.toList).getD key 0 =
      if key ∈ current then current.getD key 0 else seen.getD key 0 := by
  have keys : key ∈ current.toList.map Prod.fst ↔ key ∈ current := by
    rw [Std.TreeMap.map_fst_toList_eq_keys, Std.TreeMap.mem_keys]
  rw [Std.TreeMap.getD_eq_getD_getElem?]
  split
  next present =>
    obtain ⟨count, stored⟩ := (OrderedStore.mem_iff_getElem? _ _).mp present
    rw [OrderedStore.getElem?_write_of_mem seen current.toList key count
      (keys.mpr present), Std.TreeMap.getD_eq_getD_getElem?, stored]
    intro other member
    have found := Std.TreeMap.mem_toList_iff_getElem?_eq_some.mp member
    exact Option.some.inj (found.symm.trans stored)
  next absent =>
    rw [OrderedStore.getElem?_write_of_notMem _ _ _ (mt keys.mp absent),
      ← Std.TreeMap.getD_eq_getD_getElem?]

/-- After a response, a key counts with its occurrences there, or as before if it
has none. -/
theorem getD_write_observe
    (seen : OrderedStore Bytes Nat)
    (clock : Nat → Bytes)
    (key : Bytes)
    (logs : List LogEntry) :
    (seen.write (observe sha1Hex seen ∅ clock logs).1.toList).getD key 0 =
      if keyCount sha1Hex key logs = 0 then seen.getD key 0
      else keyCount sha1Hex key logs := by
  have occurs : key ∈ (observe sha1Hex seen ∅ clock logs).1 ↔
      keyCount sha1Hex key logs ≠ 0 := by
    rw [mem_observe_current, ← Nat.pos_iff_ne_zero, keyCount, List.countP_pos_iff]
    simp only [decide_eq_true_eq]
    exact or_iff_right Std.TreeMap.not_mem_emptyc
  rw [getD_write_toList, getD_observe]
  by_cases zero : keyCount sha1Hex key logs = 0
  · rw [if_neg fun member => occurs.mp member zero, if_pos zero]
  · rw [if_pos (occurs.mpr zero), if_neg zero, Std.TreeMap.getD_emptyc, Nat.zero_add]

/-- After a response, a content counts with its occurrences there, or as before
if it has none. -/
theorem getD_seen
    (seen : OrderedStore Bytes Nat)
    (clock : Nat → Bytes)
    {content : LogEntry}
    {logs : List LogEntry}
    (separates : Separates sha1Hex content logs) :
    (seen.write (observe sha1Hex seen ∅ clock logs).1.toList).getD
        (entryKey sha1Hex content) 0 =
      if logs.count content = 0 then seen.getD (entryKey sha1Hex content) 0
      else logs.count content := by
  rw [getD_write_observe, keyCount_eq_count separates]

end LiveTail
end Chronolog
