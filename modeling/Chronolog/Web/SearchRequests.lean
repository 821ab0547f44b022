import Chronolog.Foundation.FormUrlencoded
import Chronolog.Web.LiveRows
import Chronolog.Web.Numerals

/-!
# Requests on the wire

The browser writes the parameters of a search and of a live tail into a query
string, and the BFF reads them back: `api.js` on one side, `queryController.js`
and `server.js` on the other.  What the browser writes arrives as it was meant,
and whatever else is in a query string, only a valid request goes on to the
engine.  The address of the page keeps its state in a query string as well.  A
text is a sequence of code points here, and bytes that are not UTF-8 are read one
by one as the replacement character.
-/

namespace Chronolog
namespace Web

open Binary64 Search Utf8

/-! ## Query strings -/

/-- The parameters of a query string by their names, in order. -/
abbrev QueryParams := List (Text × Text)

/-- `new URLSearchParams(params).toString()` -/
def queryText (params : QueryParams) : Bytes :=
  FormUrlencoded.serialize
    (params.map fun param => (param.1.flatMap encode, param.2.flatMap encode))

/-- The parameters read from a query string. -/
def readQuery (query : Bytes) : QueryParams :=
  (FormUrlencoded.parse query).map fun param => (text param.1, text param.2)

/-- The path of a request target and its query string. -/
def splitTarget (target : Bytes) : Bytes × Bytes :=
  (target.takeWhile (· ≠ 0x3F), (target.dropWhile (· ≠ 0x3F)).drop 1)

/-- Parameters of any texts arrive as they were written. -/
theorem readQuery_queryText (params : QueryParams) : readQuery (queryText params) = params := by
  rw [readQuery, queryText, FormUrlencoded.parse_serialize, List.map_map]
  calc
    params.map _ = params.map id := by
      apply List.map_congr_left
      intro param _
      exact Prod.ext (text_flatMap_encode param.1) (text_flatMap_encode param.2)
    _ = params := List.map_id params

/-! ## The browser -/

/-- The path of the search endpoint. -/
def searchPath : Bytes := "/api/logs/search".toUTF8.toList

/-- The path of the live tail. -/
def tailPath : Bytes := "/ws/logs".toUTF8.toList

/-- The request target of `searchLogs`. -/
def searchTarget (params : SearchParams) : Bytes :=
  searchPath ++ 0x3F :: queryText
    [("term".toList, params.term),
      ("startTime".toList, decimalText params.startTime),
      ("endTime".toList, decimalText params.endTime),
      ("limit".toList, decimalText params.limit)]

/-- The request target of `websocketUrl`. -/
def tailTarget (term : Text) : Bytes :=
  tailPath ++ 0x3F :: queryText [("term".toList, term)]

/-! ## The BFF -/

/-- `url.searchParams.get(name)` -/
def firstParam (params : QueryParams) (name : Text) : Option Text :=
  (params.find? fun param => param.1 = name).map Prod.snd

/-- A property of `req.query` as a text: a parameter that is given several times
is an array, whose text joins its members. -/
def queryProperty (params : QueryParams) (name : Text) : Option Text :=
  match (params.filter fun param => param.1 = name).map Prod.snd with
  | [] => none
  | values => some ([','].intercalate values)

/-- The term of the connection an upgrade request leads to; a request for
another path is refused. -/
def upgrade (target : Bytes) : Option Text :=
  let (path, query) := splitTarget target
  if path ≠ tailPath then none
  else some ((firstParam (readQuery query) "term".toList).getD [])

/-- The arguments of a `Query` call. -/
structure CallArguments where
  term : Text
  startTimeNano : Double
  endTimeNano : Double
  limit : Int
  deriving DecidableEq

/-- `Math.trunc(number)` -/
def trunc : Double → Double
  | .finite number => .finite (if number < 0 then ⌈number⌉ else ⌊number⌋ : Int)
  | other => other

/-- `Math.trunc(ms * 1e6)` -/
def truncNanos (ms : Rat) : Double := trunc (ofRat (ms * 1000000))

/-- `handleSearch` up to its call: the arguments, or nothing where it answers
with the status 400. -/
def readSearch (now : Int) (params : QueryParams) : Option CallArguments :=
  let term := (queryProperty params "term".toList).getD []
  let startMs := ((queryProperty params "startTime".toList).map toNumber).getD (.finite 0)
  let endMs := ((queryProperty params "endTime".toList).map toNumber).getD (.finite now)
  let limit := ((queryProperty params "limit".toList).map parseInt10).getD (some 100)
  match startMs, endMs, limit with
  | .finite startMs, .finite endMs, some limit =>
      if startMs < 0 ∨ endMs < startMs ∨ limit < 1 ∨ 5000 < limit then none
      else
        some
          { term
            startTimeNano := truncNanos startMs
            endTimeNano := truncNanos endMs
            limit }
  | _, _, _ => none

/-- The request the engine receives. -/
def CallArguments.request
    (int64Field : Double → Int64)
    (arguments : CallArguments) : SearchRequest where
  term := arguments.term.flatMap encode
  startNano := int64Field arguments.startTimeNano
  endNano := int64Field arguments.endTimeNano
  limit := arguments.limit

/-! ## What the browser asks for arrives -/

theorem splitTarget_append
    {path query : Bytes}
    (plain : (0x3F : UInt8) ∉ path) :
    splitTarget (path ++ 0x3F :: query) = (path, query) := by
  have apart : ∀ byte ∈ path, decide (byte ≠ 0x3F) = true := by
    intro byte member
    apply decide_eq_true
    rintro rfl
    exact plain member
  rw [splitTarget, List.takeWhile_append_of_pos apart, List.dropWhile_append_of_pos apart,
    List.takeWhile_cons_of_neg (by decide), List.dropWhile_cons_of_neg (by decide),
    List.append_nil, List.drop_one, List.tail_cons]

/-- The live tail is about the term that was asked for, whatever its characters. -/
theorem upgrade_tailTarget (term : Text) : upgrade (tailTarget term) = some term := by
  rw [upgrade, tailTarget, splitTarget_append (by decide +kernel)]
  dsimp only
  rw [if_neg (not_not.mpr rfl), readQuery_queryText]
  rfl

theorem toNanos_natCast (ms : Nat) : LiveTail.toNanos ms = roundNat (ms * 1000000) := by
  have product : (ms : Int) * 1000000 = Int.ofNat (ms * 1000000) := by
    rw [Int.ofNat_eq_natCast, Nat.cast_mul, Nat.cast_ofNat]
  rw [LiveTail.toNanos, product, Binary64.round]

/-- The nanoseconds of the BFF are those of the live tail. -/
theorem truncNanos_natCast {ms : Nat} (small : ms ≤ 2 ^ 53) :
    truncNanos ms = .finite (LiveTail.toNanos ms : Int) := by
  have bound : roundNat (ms * 1000000) < 2 ^ 1024 :=
    calc
      roundNat (ms * 1000000) ≤ roundNat (2 ^ 53 * 1000000) :=
        roundNat_mono (Nat.mul_le_mul_right _ small)
      _ < 2 ^ 1024 := by decide +kernel
  have rounded := ofRat_natCast (ms * 1000000) bound
  rw [Nat.cast_mul, Nat.cast_ofNat] at rounded
  rw [truncNanos, rounded, trunc, if_neg (not_lt.mpr (Nat.cast_nonneg _)), Int.floor_natCast,
    toNanos_natCast]

/-- Milliseconds whose nanoseconds fit an `int64`. -/
def maxMs : Nat := 9223372036854

theorem fitsInt64_toNanos {ms : Int} (nonneg : 0 ≤ ms) (fits : ms ≤ maxMs) :
    FitsInt64 (LiveTail.toNanos ms) := by
  obtain ⟨ms, rfl⟩ := Int.eq_ofNat_of_zero_le nonneg
  have bound : roundNat (ms * 1000000) < 2 ^ 63 :=
    calc
      roundNat (ms * 1000000) ≤ roundNat (maxMs * 1000000) :=
        roundNat_mono (Nat.mul_le_mul_right _ (Int.ofNat_le.mp fits))
      _ < 2 ^ 63 := by decide +kernel
  rw [toNanos_natCast, FitsInt64]
  omega

/-- The four parameters of the browser are found under their names. -/
theorem queryProperty_searchParams (term start stop limit : Text) :
    let params :=
      [("term".toList, term), ("startTime".toList, start), ("endTime".toList, stop),
        ("limit".toList, limit)]
    queryProperty params "term".toList = some term ∧
      queryProperty params "startTime".toList = some start ∧
      queryProperty params "endTime".toList = some stop ∧
      queryProperty params "limit".toList = some limit := by
  refine ⟨?_, ?_, ?_, ?_⟩
  · exact congrArg some (List.append_nil term)
  · exact congrArg some (List.append_nil start)
  · exact congrArg some (List.append_nil stop)
  · exact congrArg some (List.append_nil limit)

theorem readSearch_searchParams
    (now : Int)
    (term start stop limit : Text)
    {startMs endMs : Rat}
    {count : Int}
    (startRead : toNumber start = .finite startMs)
    (endRead : toNumber stop = .finite endMs)
    (limitRead : parseInt10 limit = some count) :
    readSearch now
        [("term".toList, term), ("startTime".toList, start), ("endTime".toList, stop),
          ("limit".toList, limit)] =
      if startMs < 0 ∨ endMs < startMs ∨ count < 1 ∨ 5000 < count then none
      else
        some
          { term
            startTimeNano := truncNanos startMs
            endTimeNano := truncNanos endMs
            limit := count } := by
  obtain ⟨termFound, startFound, endFound, limitFound⟩ :=
    queryProperty_searchParams term start stop limit
  rw [readSearch, termFound, startFound, endFound, limitFound, Option.map_some,
    Option.map_some, Option.map_some, startRead, endRead, limitRead]
  rfl

/-- What `handleSearch` reads out of the target of a search. -/
theorem readSearch_searchTarget
    (int64Field : Double → Int64)
    (now : Int)
    {params : SearchParams}
    (startSmall : params.startTime.natAbs ≤ 2 ^ 53)
    (endSmall : params.endTime.natAbs ≤ 2 ^ 53) :
    (readSearch now (readQuery (splitTarget (searchTarget params)).2)).map
        (CallArguments.request int64Field) = handleSearch int64Field params := by
  have startRead := toNumber_decimalText startSmall
  have endRead := toNumber_decimalText endSmall
  have limitRead := parseInt10_decimalText params.limit
  rw [searchTarget, splitTarget_append (by decide +kernel), readQuery_queryText,
    readSearch_searchParams now params.term _ _ _ startRead endRead limitRead, handleSearch]
  have conditions : ((params.startTime : Rat) < 0 ∨ (params.endTime : Rat) < params.startTime ∨
      (params.limit : Int) < 1 ∨ 5000 < (params.limit : Int)) ↔
      (params.startTime < 0 ∨ params.endTime < params.startTime ∨ params.limit < 1 ∨
        5000 < params.limit) := by
    rw [Int.cast_lt, ← Int.cast_zero, Int.cast_lt]
    omega
  by_cases refused : params.startTime < 0 ∨ params.endTime < params.startTime ∨
      params.limit < 1 ∨ 5000 < params.limit
  · rw [if_pos (conditions.mpr refused), if_pos refused, Option.map_none]
  · rw [if_neg (conditions.not.mpr refused), if_neg refused, Option.map_some,
      CallArguments.request]
    obtain ⟨startTime, startEq⟩ := Int.eq_ofNat_of_zero_le
      (show 0 ≤ params.startTime by omega)
    obtain ⟨endTime, endEq⟩ := Int.eq_ofNat_of_zero_le (show 0 ≤ params.endTime by omega)
    rw [startEq, endEq, Int.cast_natCast, Int.cast_natCast, truncNanos_natCast (by omega),
      truncNanos_natCast (by omega)]

/-- A search of the browser reaches the engine with the term, the window and the
limit it was issued with, or is refused for them.  Nanoseconds in range are kept. -/
theorem request_searchTarget
    (int64Field : Double → Int64)
    (now : Int)
    (params : SearchParams)
    (startSmall : params.startTime.natAbs ≤ 2 ^ 53)
    (endSmall : params.endTime.natAbs ≤ 2 ^ 53) :
    (readSearch now (readQuery (splitTarget (searchTarget params)).2)).map
        (CallArguments.request int64Field) = handleSearch int64Field params ∧
      (Saturates int64Field → params.endTime ≤ maxMs →
        ∀ request ∈ handleSearch int64Field params,
          request.startNano.toInt = LiveTail.toNanos params.startTime ∧
            request.endNano.toInt = LiveTail.toNanos params.endTime) := by
  refine ⟨readSearch_searchTarget int64Field now startSmall endSmall, ?_⟩
  intro saturates early request accepted
  obtain ⟨valid, same⟩ := Option.ite_none_left_eq_some.mp accepted
  obtain rfl := Option.some.inj same
  exact ⟨saturates.kept _ (fitsInt64_toNanos (by omega) (by omega)),
    saturates.kept _ (fitsInt64_toNanos (by omega) early)⟩

/-- The characters of the term that a query string gives a meaning. -/
def reservedSearch : SearchParams where
  term := "a&b=c+d%41 ü".toList
  startTime := 1700000000000
  endTime := 1700000900000
  limit := 500

theorem request_searchTarget_reserved :
    reservedSearch.startTime.natAbs ≤ 2 ^ 53 ∧
      (readSearch 0 (readQuery (splitTarget (searchTarget reservedSearch)).2)).map
          (CallArguments.request longField) = handleSearch longField reservedSearch ∧
      ∀ request ∈ handleSearch longField reservedSearch,
        request.startNano.toInt = LiveTail.toNanos reservedSearch.startTime ∧
          request.endNano.toInt = LiveTail.toNanos reservedSearch.endTime := by
  obtain ⟨reads, keeps⟩ := request_searchTarget longField 0 reservedSearch
    (by decide +kernel) (by decide +kernel)
  exact ⟨by decide +kernel, reads, keeps saturates_longField (by decide +kernel)⟩

/-! ## Whatever is asked for -/

theorem trunc_mono
    {left right : Double}
    (nonneg : (Double.finite 0).AtMost left)
    (less : left.AtMost right) : (trunc left).AtMost (trunc right) := by
  cases left with
  | finite left =>
      cases right with
      | finite right =>
          have below : 0 ≤ right := le_trans nonneg less
          rw [trunc, trunc, if_neg (not_lt.mpr nonneg), if_neg (not_lt.mpr below)]
          exact Int.cast_le.mpr (Int.floor_mono less)
      | infinite negative => exact less
      | notANumber => exact less
  | infinite negative =>
      cases right with
      | finite right => exact absurd (nonneg.symm.trans less) Bool.false_ne_true
      | infinite negative => exact less
      | notANumber => exact less
  | notANumber => exact absurd nonneg False.elim

theorem truncNanos_mono
    {left right : Rat}
    (nonneg : 0 ≤ left)
    (less : left ≤ right) : (truncNanos left).AtMost (truncNanos right) := by
  have scale : (0 : Rat) ≤ 1000000 := by norm_num
  have zero : (Double.finite 0).AtMost (ofRat (left * 1000000)) := by
    have bound := ofRat_mono le_rfl (mul_nonneg nonneg scale)
    rwa [← Nat.cast_zero, ofRat_natCast 0 (by decide +kernel),
      show roundNat 0 = 0 by decide +kernel, Nat.cast_zero] at bound
  exact trunc_mono zero
    (ofRat_mono (mul_nonneg nonneg scale) (mul_le_mul_of_nonneg_right less scale))

theorem truncNanos_zero : truncNanos 0 = .finite 0 := by
  rw [← Nat.cast_zero, truncNanos_natCast (Nat.zero_le _)]
  rfl

/-- Whatever is in the query string, a call is for a window of time from the
epoch on and for 1 to 5000 records. -/
theorem readSearch_window
    (now : Int)
    (params : QueryParams)
    (arguments : CallArguments)
    (accepted : readSearch now params = some arguments) :
    (Double.finite 0).AtMost arguments.startTimeNano ∧
      arguments.startTimeNano.AtMost arguments.endTimeNano ∧
      1 ≤ arguments.limit ∧ arguments.limit ≤ 5000 := by
  rw [readSearch] at accepted
  split at accepted
  next startMs endMs limit _ _ _ =>
    obtain ⟨valid, same⟩ := Option.ite_none_left_eq_some.mp accepted
    obtain rfl := Option.some.inj same
    simp only [not_or, not_lt] at valid
    obtain ⟨nonneg, ordered, positive, most⟩ := valid
    refine ⟨?_, truncNanos_mono nonneg ordered, positive, most⟩
    rw [← truncNanos_zero]
    exact truncNanos_mono le_rfl nonneg
  next => exact absurd accepted (Option.some_ne_none _).symm

/-- A request without a window is for all the time up to now. -/
def unbounded : QueryParams := [("term".toList, "disk".toList), ("limit".toList, "20".toList)]

theorem readSearch_window_unbounded :
    (Double.finite 0).AtMost (truncNanos 0) ∧
      (truncNanos 0).AtMost (truncNanos (1700000000000 : Int)) ∧
      (1 : Int) ≤ 20 ∧ (20 : Int) ≤ 5000 :=
  readSearch_window 1700000000000 unbounded
    ⟨"disk".toList, truncNanos 0, truncNanos (1700000000000 : Int), 20⟩ (by decide +kernel)

/-! ## The address of the page -/

/-- What the address of the page keeps. -/
structure UrlState where
  query : Text
  timeRange : Double
  isLive : Bool
  deriving DecidableEq

/-- `writeUrlState` for whole minutes: the query string behind the `?`. -/
def writeUrlState (query : Text) (timeRange : Int) (isLive : Bool) : Bytes :=
  queryText
    ([("q".toList, query), ("minutes".toList, decimalText timeRange)] ++
      if isLive then [("live".toList, "1".toList)] else [])

/-- `readUrlState`; zero is falsy, and so is what is not a number. -/
def readUrlState (query : Bytes) : UrlState :=
  let params := readQuery query
  { query :=
      match firstParam params "q".toList with
      | none | some [] => "timeout".toList
      | some query => query
    timeRange :=
      match (firstParam params "minutes".toList).map toNumber with
      | none | some .notANumber | some (.finite 0) => .finite 15
      | some minutes => minutes
    isLive := firstParam params "live".toList = some "1".toList }

/-- The page that is opened again is in the state it was left in, except that an
empty query and the range of zero minutes are replaced by the defaults. -/
theorem readUrlState_writeUrlState
    (query : Text)
    {timeRange : Int}
    (isLive : Bool)
    (small : timeRange.natAbs ≤ 2 ^ 53) :
    readUrlState (writeUrlState query timeRange isLive) =
      { query := if query = [] then "timeout".toList else query
        timeRange := .finite (if timeRange = 0 then 15 else timeRange)
        isLive } := by
  rw [readUrlState, writeUrlState, readQuery_queryText]
  have term : ∀ rest, firstParam (("q".toList, query) :: rest) "q".toList = some query :=
    fun _ => rfl
  have minutes : ∀ rest,
      firstParam (("q".toList, query) :: ("minutes".toList, decimalText timeRange) :: rest)
        "minutes".toList = some (decimalText timeRange) :=
    fun _ => rfl
  have live : firstParam
      ([("q".toList, query), ("minutes".toList, decimalText timeRange)] ++
        if isLive then [("live".toList, "1".toList)] else []) "live".toList =
      if isLive then some "1".toList else none := by
    cases isLive
    · rfl
    · rfl
  rw [live, List.cons_append, List.cons_append, term, minutes, Option.map_some,
    toNumber_decimalText small]
  congr 1
  · cases query with
    | nil => rfl
    | cons char query => rfl
  · by_cases zero : timeRange = 0
    · rw [zero]
      rfl
    · have nonzero : (timeRange : Rat) ≠ 0 := Int.cast_ne_zero.mpr zero
      rw [if_neg zero]
      split
      next absent => exact absurd absent (Option.some_ne_none _)
      next other => exact absurd (Option.some.inj other) (by simp)
      next other => exact absurd (Double.finite.inj (Option.some.inj other)) nonzero
      next same => exact (Option.some.inj same).symm
  · cases isLive
    · rfl
    · rfl

theorem readUrlState_writeUrlState_reserved :
    (30 : Int).natAbs ≤ 2 ^ 53 ∧
      readUrlState (writeUrlState reservedSearch.term 30 true) =
        ⟨reservedSearch.term, .finite 30, true⟩ :=
  ⟨by decide +kernel, readUrlState_writeUrlState reservedSearch.term true (by decide +kernel)⟩

end Web
end Chronolog
