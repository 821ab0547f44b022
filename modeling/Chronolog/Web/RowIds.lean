import Chronolog.Web.FlushBatches
import Chronolog.Web.LiveRows

/-!
# The ids of the rows

An entry of the engine has no id, and its timestamp is the text `0`.  So the id
of a row is printed from its place in the response or from the clock at the
arrival of its frame, and rows have the same id when those numbers agree.
-/

namespace Chronolog
namespace Web

open Search

variable {Key : Type} (builtins : Builtins)

/-! ## One id -/

/-- The entry comes from the engine. -/
def FromEngine (raw : RawEntry) : Prop := raw.timestampNano = some 0 ∧ raw.id = []

theorem fromEngine_resultEntry (result : LogRecordID × Bytes) :
    FromEngine (resultEntry result).raw := ⟨rfl, rfl⟩

/-- `grpc-0-<index>` -/
def idOf (index : Int) : Text :=
  "grpc-".toList ++ builtins.numberToString (.finite 0) ++
    '-' :: builtins.numberToString (.finite index)

theorem id_normalizeLogEntry
    {raw : RawEntry}
    (fromEngine : FromEngine raw)
    (newDate dateNow index : Int) :
    (normalizeLogEntry builtins newDate dateNow raw index).id = idOf builtins index := by
  obtain ⟨timestampNano, noId⟩ := fromEngine
  have id : orElse raw.id
      ("grpc-".toList ++ builtins.numberToString
        (.finite ((raw.timestampNano.map Binary64.round).getD dateNow)) ++
        '-' :: builtins.numberToString (.finite index)) = idOf builtins index := by
    rw [noId, timestampNano, orElse, if_pos rfl]
    rfl
  rw [normalizeLogEntry, ← id]
  split
  · rfl
  · split <;> rfl

theorem idOf_injective
    (prints : ∀ first second : Int, builtins.numberToString (.finite first) =
      builtins.numberToString (.finite second) → first = second) :
    Function.Injective (idOf builtins) := by
  intro first second same
  have suffix := List.append_cancel_left same
  exact prints first second (List.cons.inj suffix).2

/-- What the clock shows when a frame arrives. -/
def LiveFrame.reading (frame : LiveFrame Key) : Int := frame.clock 1

theorem LiveFrame.id_log
    {frame : LiveFrame Key}
    (fromEngine : FromEngine frame.entry.raw) :
    (frame.log builtins).id = idOf builtins frame.reading := by
  have raw : FromEngine { frame.entry.raw with
      timestampNano := some (frame.entry.raw.timestampNano.getD
        (Binary64.round (frame.clock 0 * 1000000))) } := by
    refine ⟨?_, fromEngine.2⟩
    rw [fromEngine.1]
    rfl
  exact id_normalizeLogEntry builtins raw _ _ _

/-! ## The rows of a response -/

/-- The places in a response that the label filters leave. -/
def shownPositions
    (labels : List Label)
    (logs : List (Entry Key))
    (clock : Nat → Int × Int) : List Nat :=
  (logs.zipIdx.filter fun place =>
    labels.all (satisfies builtins
      (normalizeLogEntry builtins (clock place.2).1 (clock place.2).2 place.1.raw
        place.2))).map Prod.snd

theorem nodup_shownPositions
    (labels : List Label)
    (logs : List (Entry Key))
    (clock : Nat → Int × Int) : (shownPositions builtins labels logs clock).Nodup := by
  refine List.Nodup.sublist (List.filter_sublist.map Prod.snd) ?_
  rw [List.zipIdx_map_snd]
  exact List.nodup_range'

/-- The ids of a response are printed from the places. -/
theorem ids_rowsOf
    (labels : List Label)
    {logs : List (Entry Key)}
    (fromEngine : ∀ entry ∈ logs, FromEngine entry.raw)
    (clock : Nat → Int × Int) :
    (rowsOf builtins labels logs clock).map (fun row => row.log.id) =
      (shownPositions builtins labels logs clock).map fun (position : Nat) =>
        idOf builtins position := by
  have listed : rowsOf builtins labels logs clock =
      (logs.zipIdx.map fun place =>
        { log := normalizeLogEntry builtins (clock place.2).1 (clock place.2).2 place.1.raw
            place.2
          record := place.1.record : Row Key }).filter
        fun row => labels.all (satisfies builtins row.log) := by
    rw [rowsOf, List.mapIdx_eq_zipIdx_map]
    split
    next none => exact (List.filter_eq_self.mpr fun row _ => by rw [none]; rfl).symm
    next => rfl
  rw [listed, List.filter_map, List.map_map, shownPositions, List.map_map]
  apply List.map_congr_left
  intro place member
  have inLogs := List.fst_mem_of_mem_zipIdx (List.mem_of_mem_filter member)
  exact id_normalizeLogEntry builtins (fromEngine place.1 inLogs) _ _ _

/-! ## The displayed list -/

/-- The readings of the clock for the displayed frames are different from each
other and from the displayed places; both lists are given in the order of the
display. -/
structure StampsDistinct (readings : List Int) (positions : List Nat) : Prop where
  frames : (readings.take liveMaxLines).Nodup
  places : ∀ position ∈ positions.take (liveMaxLines - readings.length),
    (position : Int) ∉ readings.take liveMaxLines

/-- The frames that are merged into the list, the newest batch first. -/
def mergedFrames
    (early : List (LiveFrame Key))
    (batches : List (List (LiveFrame Key))) : List (LiveFrame Key) :=
  (Feed.merged early batches).reverse.flatten

theorem nodup_push_iff
    {early : List Int}
    {batches : List (List Int)}
    {positions : List Nat}
    (distinct : positions.Nodup) :
    ((Feed.merged early batches).foldl (Feed.push liveMaxLines)
        (positions.map Nat.cast)).Nodup ↔
      StampsDistinct (Feed.merged early batches).reverse.flatten positions := by
  have places : (positions.map (Nat.cast : Nat → Int)).Nodup :=
    distinct.map fun _ _ => Int.ofNat.inj
  rw [Feed.foldl_push]
  split
  next none =>
    rw [Feed.flatten_reverse_eq_nil none]
    refine iff_of_true places ⟨?_, fun position _ => ?_⟩
    · rw [List.take_nil]
      exact List.nodup_nil
    · rw [List.take_nil]
      exact List.not_mem_nil
  next =>
    rw [List.take_append, List.nodup_append', ← List.map_take]
    constructor
    · rintro ⟨frames, _, apart⟩
      exact ⟨frames, fun position member inFrames =>
        apart inFrames (List.mem_map_of_mem member)⟩
    · rintro ⟨frames, apart⟩
      refine ⟨frames, ?_, ?_⟩
      · rw [List.map_take]
        exact places.sublist (List.take_sublist _ _)
      · intro reading inFrames inPlaces
        obtain ⟨position, member, rfl⟩ := List.mem_map.mp inPlaces
        exact apart position member inFrames

theorem map_reading_mergedFrames
    (early : List (LiveFrame Key))
    (batches : List (List (LiveFrame Key))) :
    (mergedFrames early batches).map LiveFrame.reading =
      (Feed.merged (early.map LiveFrame.reading)
        (batches.map (List.map LiveFrame.reading))).reverse.flatten := by
  rw [mergedFrames, List.map_flatten, List.map_reverse, Feed.map_merged]

/-- The ids of buffered rows are printed from the readings. -/
theorem ids_rows
    {frames : List (LiveFrame Key)}
    (fromEngine : ∀ frame ∈ frames, FromEngine frame.entry.raw) :
    (frames.map (LiveFrame.row builtins)).map (fun row => row.log.id) =
      (frames.map LiveFrame.reading).map (idOf builtins) := by
  rw [List.map_map, List.map_map]
  exact List.map_congr_left fun frame member =>
    LiveFrame.id_log builtins (fromEngine frame member)

/-- A response arrives while some frames are buffered, and all frames are merged
with it: the ids on the display are distinct exactly when the numbers are that
they are printed from. -/
theorem ids_distinct_iff
    (prints : ∀ first second : Int, builtins.numberToString (.finite first) =
      builtins.numberToString (.finite second) → first = second)
    (app : App Key)
    (effect number : Nat)
    (search : IssuedSearch Key)
    (logs : List (Entry Key))
    (clock : Nat → Int × Int)
    (early : List (LiveFrame Key))
    (batches : List (List (LiveFrame Key)))
    (empty : app.bufferRef = [])
    (issued : app.searches[number]? = some search)
    (pending : search.outcome = none)
    (heard : ∀ frame ∈ early ++ batches.flatten, frame.Heard app)
    (flushing : app.Flushing effect)
    (logsFromEngine : ∀ entry ∈ logs, FromEngine entry.raw)
    (framesFromEngine : ∀ frame ∈ early ++ batches.flatten, FromEngine frame.entry.raw) :
    ∃ next, Transition.run (App.step builtins) app
        (early.map LiveFrame.event ++
          .settle number (.response logs clock) :: App.cut effect batches) = some next ∧
      ((next.displayed.map DisplayLog.id).Nodup ↔
        StampsDistinct ((mergedFrames early batches).map LiveFrame.reading)
          (shownPositions builtins search.labels logs clock)) := by
  obtain ⟨earlyHeard, laterHeard⟩ := List.forall_mem_append.mp heard
  obtain ⟨earlyFrom, laterFrom⟩ := List.forall_mem_append.mp framesFromEngine
  let buffered : App Key :=
    { app with bufferRef := app.bufferRef ++ early.map (LiveFrame.row builtins) }
  let settled : App Key :=
    { buffered with
      isLoading := false
      logs := rowsOf builtins search.labels logs clock
      queryError := app.queryError
      searches := app.searches.set number
        { search with outcome := some (.response logs clock) } }
  have answered : buffered.step builtins (.settle number (.response logs clock)) =
      some settled := by
    change buffered.settle builtins number (.response logs clock) = some settled
    rw [App.settle, show buffered.searches[number]? = some search from issued]
    dsimp only
    rw [if_pos (by rw [pending]; rfl)]
    rfl
  obtain ⟨next, finished, shown⟩ :=
    App.run_cut builtins settled laterHeard flushing
  refine ⟨next, ?_, ?_⟩
  · rw [Transition.run_append, App.run_frames builtins app earlyHeard, Option.bind_some,
      Transition.run_cons, answered, Option.bind_some]
    exact finished
  · have ids : next.displayed.map DisplayLog.id =
        ((Feed.merged (early.map LiveFrame.reading)
          (batches.map (List.map LiveFrame.reading))).foldl (Feed.push liveMaxLines)
            ((shownPositions builtins search.labels logs clock).map Nat.cast)).map
          (idOf builtins) := by
      have earlyIds : settled.bufferRef.map (fun row => row.log.id) =
          (early.map LiveFrame.reading).map (idOf builtins) := by
        rw [← ids_rows builtins earlyFrom, ← List.nil_append (early.map _), ← empty]
      have batchIds : (batches.map (List.map (LiveFrame.row builtins))).map
            (List.map fun row => row.log.id) =
          (batches.map (List.map LiveFrame.reading)).map (List.map (idOf builtins)) := by
        rw [List.map_map, List.map_map]
        apply List.map_congr_left
        intro batch member
        exact ids_rows builtins fun frame inBatch =>
          laterFrom frame (List.mem_flatten_of_mem member inBatch)
      have placeIds : settled.logs.map (fun row => row.log.id) =
          ((shownPositions builtins search.labels logs clock).map Nat.cast).map
            (idOf builtins) := by
        rw [List.map_map]
        exact ids_rowsOf builtins search.labels logsFromEngine clock
      have rows : next.displayed.map DisplayLog.id =
          next.logs.map fun row => row.log.id := List.map_map
      rw [rows, shown, Feed.map_foldl_push, Feed.map_merged, earlyIds, batchIds, placeIds,
        ← Feed.map_merged, ← Feed.map_foldl_push]
    rw [ids, List.nodup_map_iff (idOf_injective builtins prints),
      nodup_push_iff (nodup_shownPositions builtins _ _ _), map_reading_mergedFrames]

/-! ## Frames of one millisecond -/

/-- The integer that a decimal text spells. -/
def readInt : Text → Int
  | '-' :: digits => -(Nat.ofDigitChars 10 digits 0 : Nat)
  | digits => (Nat.ofDigitChars 10 digits 0 : Nat)

theorem readInt_toString (number : Int) : readInt (toString number).toList = number := by
  cases number with
  | ofNat number =>
      have digits : (toString (Int.ofNat number)).toList = Nat.toDigits 10 number :=
        Nat.toList_repr
      rw [digits, readInt.eq_def]
      split
      next rest minus =>
        have isDigit := Nat.isDigit_of_mem_toDigits (b := 10) (by decide) (by decide)
          (minus ▸ List.mem_cons_self)
        exact absurd isDigit (by decide)
      next =>
        rw [Nat.ofDigitChars_ten_toDigits]
        rfl
  | negSucc number =>
      have digits : (toString (Int.negSucc number)).toList =
          '-' :: Nat.toDigits 10 (number + 1) := by
        have split : toString (Int.negSucc number) = "-" ++ (number + 1).repr := rfl
        rw [split, String.toList_append, Nat.toList_repr]
        rfl
      rw [digits, readInt, Nat.ofDigitChars_ten_toDigits]
      rfl

theorem asciiBuiltins_prints
    (first second : Int)
    (same : asciiBuiltins.numberToString (.finite first) =
      asciiBuiltins.numberToString (.finite second)) : first = second := by
  rw [← readInt_toString first, ← readInt_toString second]
  exact congrArg readInt same

/-- A record of the engine. -/
def errorRecord : LogRecordID × Bytes := (⟨1, 1700000000000000000⟩, "error".toUTF8.toList)

/-- A frame with the record that arrives at a time. -/
def errorAt (now : Int) : LiveFrame LogRecordID where
  socket := 0
  entry := resultEntry errorRecord
  clock _ := now

theorem heard_errorAt (times : List Int) :
    ∀ frame ∈ times.map errorAt, frame.Heard App.tailing := by
  intro frame member
  obtain ⟨now, _, rfl⟩ := List.mem_map.mp member
  exact App.heard_tailing _ rfl

theorem fromEngine_errorAt (times : List Int) :
    ∀ frame ∈ times.map errorAt, FromEngine frame.entry.raw := by
  intro frame member
  obtain ⟨now, _, rfl⟩ := List.mem_map.mp member
  exact fromEngine_resultEntry errorRecord

theorem ids_distinct_iff_twoFrames :
    ∃ next, Transition.run (App.step asciiBuiltins) App.tailing
        ([errorAt 1700000000001].map LiveFrame.event ++
          .settle 0 (.response [resultEntry errorRecord] fun _ => (0, 0)) ::
            App.cut 0 [[errorAt 1700000000002]]) = some next ∧
      (next.displayed.map DisplayLog.id).Nodup := by
  obtain ⟨search, issued, pending, all⟩ : ∃ search : IssuedSearch LogRecordID,
      App.tailing.searches[0]? = some search ∧ search.outcome = none ∧ search.labels = [] :=
    ⟨_, rfl, rfl, rfl⟩
  obtain ⟨next, reached, distinct⟩ := ids_distinct_iff asciiBuiltins asciiBuiltins_prints
    App.tailing 0 0 search [resultEntry errorRecord] (fun _ => (0, 0))
    [errorAt 1700000000001] [[errorAt 1700000000002]] rfl issued pending
    (heard_errorAt [1700000000001, 1700000000002]) App.flushing_tailing
    (by
      intro entry member
      rw [List.mem_singleton.mp member]
      exact fromEngine_resultEntry errorRecord)
    (fromEngine_errorAt [1700000000001, 1700000000002])
  refine ⟨next, reached, distinct.mpr ⟨by decide, ?_⟩⟩
  rw [all]
  decide

/-- Two frames that arrive in the same millisecond have the same id. -/
theorem same_millisecond_same_id :
    ¬ ∀ (app next : App LogRecordID) (effect number : Nat)
        (search : IssuedSearch LogRecordID) (logs : List (Entry LogRecordID))
        (clock : Nat → Int × Int) (early : List (LiveFrame LogRecordID))
        (batches : List (List (LiveFrame LogRecordID))),
      app.bufferRef = [] → app.searches[number]? = some search → search.outcome = none →
      (∀ frame ∈ early ++ batches.flatten, frame.Heard app) → app.Flushing effect →
      (∀ entry ∈ logs, FromEngine entry.raw) →
      (∀ frame ∈ early ++ batches.flatten, FromEngine frame.entry.raw) →
      Transition.run (App.step asciiBuiltins) app
        (early.map LiveFrame.event ++
          .settle number (.response logs clock) :: App.cut effect batches) = some next →
      (next.displayed.map DisplayLog.id).Nodup := by
  intro claim
  have frames := heard_errorAt [1700000000001, 1700000000001]
  have repeated : (Transition.run (App.step asciiBuiltins) App.tailing
      (.settle 0 (.response [] fun _ => (0, 0)) ::
        App.cut 0 [[errorAt 1700000000001, errorAt 1700000000001]])).any
          (fun next => decide (next.displayed.map DisplayLog.id).Nodup) = false ∧
      (Transition.run (App.step asciiBuiltins) App.tailing
        (.settle 0 (.response [] fun _ => (0, 0)) ::
          App.cut 0 [[errorAt 1700000000001, errorAt 1700000000001]])).isSome = true := by
    decide +kernel
  obtain ⟨next, reached⟩ := Option.isSome_iff_exists.mp repeated.2
  have distinct := claim App.tailing next 0 0 _ [] (fun _ => (0, 0)) []
    [[errorAt 1700000000001, errorAt 1700000000001]] rfl rfl rfl frames
    App.flushing_tailing (fun _ member => absurd member List.not_mem_nil)
    (fromEngine_errorAt [1700000000001, 1700000000001]) reached
  rw [reached, Option.any_some, decide_eq_false_iff_not] at repeated
  exact repeated.1 distinct

end Web
end Chronolog
