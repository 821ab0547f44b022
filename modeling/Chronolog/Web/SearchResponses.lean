import Chronolog.Web.FrameTexts
import Chronolog.Web.SearchRequests

/-!
# Responses on the wire

The end of a `Query` call becomes the status and the JSON text of a response in
`queryController.js`, which `api.js` turns into the entries or the error of a
search again.  What the page gets for a search is what the engine answered to the
request that the search stands for.
-/

namespace Chronolog
namespace Web

open Binary64 Decimal Search Server Utf8

/-! ## The BFF -/

/-- How a `Query` call ends.  An empty `error` field is no error. -/
inductive CallEnd
  | failed (message : Text)
  | answered (logs : List LogEntry) (totalFound : Int) (error : Text)

/-- The status and the body of a response. -/
structure HttpResponse where
  status : Nat
  body : Bytes

/-- `res.status(status).json(value)` -/
def json (status : Nat) (value : Json.Value) : HttpResponse where
  status := status
  body := value.print.flatMap encode

/-- The object of a log entry; its timestamp is a text. -/
def logValue (entry : LogEntry) : Json.Value :=
  .object
    [("timestamp_nano".toList, .text (decimalText entry.timestampNano.toInt)),
      ("message".toList, .text (text entry.message))]

/-- The body of an answer. -/
def answerValue (logs : List LogEntry) (totalFound : Int) : Json.Value :=
  .object
    [("meta".toList, .object
        [("count".toList, .number (.ofNat logs.length)),
          ("totalFound".toList, .text (decimalText totalFound))]),
      ("logs".toList, .array (logs.map logValue))]

/-- What is wrong with a search that is refused. -/
def refusal : Text := "startTime/endTime must be valid and limit must be 1..5000".toList

/-- What is wrong with a search that failed. -/
def queryFailed : Text := "Go engine query failed".toList

/-- The body of a failed search. -/
def failureValue (details : Text) : Json.Value :=
  .object [("error".toList, .text queryFailed), ("details".toList, .text details)]

/-- The callback of `handleSearch`. -/
def respond : CallEnd → HttpResponse
  | .failed message => json 502 (failureValue message)
  | .answered logs totalFound error =>
      if error ≠ [] then json 502 (failureValue error)
      else json 200 (answerValue logs totalFound)

/-- `GET /api/logs/search` -/
def getSearch
    (int64Field : Double → Int64)
    (now : Int)
    (query : SearchRequest → CallEnd)
    (target : Bytes) : HttpResponse :=
  match readSearch now (readQuery (splitTarget target).2) with
  | none => json 400 (.object [("error".toList, .text refusal)])
  | some arguments => respond (query (arguments.request int64Field))

/-! ## The browser -/

/-- `searchLogs`, from the response on: the body, or an error.  A text that is no
JSON is read as an empty object, and members that are no texts are left out. -/
def searchLogs (response : HttpResponse) : Option (Except QueryError Json.Value) :=
  let body := (Json.parse (text response.body)).getD (.object [])
  if 200 ≤ response.status ∧ response.status < 300 then some (.ok body)
  else do
    let error ← optionalText body "error"
    let details ← optionalText body "details"
    let message := orElse error ("Server returned ".toList ++ decimalText response.status)
    some (.error { code := "ENGINE_ERROR".toList, message, details })

/-- `result.logs || []` -/
def readLogs (body : Json.Value) : Option (List RawEntry) :=
  match body.member? "logs".toList with
  | none => some []
  | some (.array values) => values.mapM readEntry
  | some _ => none

/-- What a search ends with. -/
def readOutcome (response : HttpResponse) : Option (Except QueryError (List RawEntry)) :=
  match searchLogs response with
  | some (.ok body) => (readLogs body).map .ok
  | some (.error error) => some (.error error)
  | none => none

/-- `isEngineDown` of the banner. -/
def isEngineDown (builtins : Builtins) (error : QueryError) : Bool :=
  let lower := builtins.toLowerCase error.message
  error.code = "ENGINE_ERROR".toList || includes lower "502".toList ||
    includes lower "grpc".toList

/-! ## What the engine answers arrives -/

theorem parse_json (status : Nat) (value : Json.Value) :
    Json.parse (text (json status value).body) = some value := by
  rw [json, text_flatMap_encode, Json.parse_print]

/-- The text of an integer is read back. -/
theorem integerOf_decimalText (number : Int) : integerOf (decimalText number) = some number := by
  have digits : ∀ number : Nat, (Nat.toDigits 10 number).all Char.isDigit = true := fun number =>
    List.all_eq_true.mpr fun char member => isDigit_of_mem_toDigits member
  cases number with
  | ofNat number =>
      rw [decimalText, integerOf, signPart_toDigits]
      dsimp only
      rw [if_pos ⟨Nat.toDigits_ne_nil, digits number⟩, if_neg Bool.false_ne_true,
        digitsValue_toDigits]
      rfl
  | negSucc number =>
      rw [decimalText, integerOf, signPart]
      dsimp only
      rw [if_pos ⟨Nat.toDigits_ne_nil, digits _⟩, if_pos rfl, digitsValue_toDigits]
      rfl

theorem decimalText_ne_nil (number : Int) : decimalText number ≠ [] := by
  cases number with
  | ofNat number => exact Nat.toDigits_ne_nil
  | negSucc number => exact List.cons_ne_nil _ _

/-- The object of an entry is read as the entry. -/
theorem readEntry_logValue (entry : LogEntry) :
    readEntry (logValue entry) = some (rawEntryOf entry) := by
  have timestamp : givenTimestamp (logValue entry) = some (some entry.timestampNano.toInt) := by
    change (if decimalText entry.timestampNano.toInt = [] then some none else
      (integerOf (decimalText entry.timestampNano.toInt)).map some) = _
    rw [if_neg (decimalText_ne_nil _), integerOf_decimalText]
    rfl
  rw [readEntry, timestamp]
  rfl

theorem readLogs_answerValue (logs : List LogEntry) (totalFound : Int) :
    readLogs (answerValue logs totalFound) = some (logs.map rawEntryOf) := by
  have pointwise : readEntry ∘ logValue =
      fun entry => (pure (rawEntryOf entry) : Option RawEntry) := by
    funext entry
    exact readEntry_logValue entry
  change (logs.map logValue).mapM readEntry = _
  rw [List.mapM_map, pointwise, List.mapM_pure]
  rfl

/-- The error of a response that is not successful. -/
def engineError (message details : Text) : QueryError where
  code := "ENGINE_ERROR".toList
  message := message
  details := details

/-- What the page makes of the end of a call. -/
def CallEnd.outcome : CallEnd → Except QueryError (List RawEntry)
  | .failed message => .error (engineError queryFailed message)
  | .answered logs _ error =>
      if error ≠ [] then .error (engineError queryFailed error) else .ok (logs.map rawEntryOf)

theorem searchLogs_ok (value : Json.Value) : searchLogs (json 200 value) = some (.ok value) := by
  rw [searchLogs, parse_json]
  exact if_pos ⟨Nat.le_refl 200, (by decide : 200 < 300)⟩

theorem readOutcome_failure (details : Text) :
    readOutcome (json 502 (failureValue details)) =
      some (.error (engineError queryFailed details)) := by
  rw [readOutcome, searchLogs, parse_json]
  rfl

/-- Every end of a call is told apart by the page. -/
theorem readOutcome_respond (callEnd : CallEnd) :
    readOutcome (respond callEnd) = some callEnd.outcome := by
  cases callEnd with
  | failed message => exact readOutcome_failure message
  | answered logs totalFound error =>
      rw [respond, CallEnd.outcome]
      split
      · exact readOutcome_failure error
      · rw [readOutcome, searchLogs_ok]
        dsimp only
        rw [readLogs_answerValue]
        rfl

/-- Whatever the page searches for and however the call of the engine ends, the
page gets the entries that the engine answered to the request of the search, or the
error of the call; a search that is refused is an error. -/
theorem outcome_searchTarget
    (int64Field : Double → Int64)
    (now : Int)
    (query : SearchRequest → CallEnd)
    (params : SearchParams)
    (startSmall : params.startTime.natAbs ≤ 2 ^ 53)
    (endSmall : params.endTime.natAbs ≤ 2 ^ 53) :
    readOutcome (getSearch int64Field now query (searchTarget params)) =
      some (match handleSearch int64Field params with
        | none => .error (engineError refusal [])
        | some request => (query request).outcome) := by
  rw [← readSearch_searchTarget int64Field now startSmall endSmall, getSearch]
  cases readSearch now (readQuery (splitTarget (searchTarget params)).2) with
  | none =>
      dsimp only
      rw [readOutcome, searchLogs, parse_json]
      rfl
  | some arguments => exact readOutcome_respond _

/-- An answer to a search for the reserved characters. -/
def reservedAnswer (_ : SearchRequest) : CallEnd :=
  .answered [entryOf "a \"b\"\n\\ü".toUTF8.toList] 1 []

theorem outcome_searchTarget_reserved :
    reservedSearch.startTime.natAbs ≤ 2 ^ 53 ∧
      readOutcome (getSearch longField 0 reservedAnswer (searchTarget reservedSearch)) =
        some (match handleSearch longField reservedSearch with
          | none => .error (engineError refusal [])
          | some request => (reservedAnswer request).outcome) :=
  ⟨by decide +kernel, outcome_searchTarget longField 0 reservedAnswer reservedSearch
    (by decide +kernel) (by decide +kernel)⟩

/-! ## The searches of the system -/

/-- How the call for a request ends at an engine.  An answer that protobuf cannot
marshal fails the call. -/
def callEngine
    (errorText : ReadError → Text)
    (marshalError : Text)
    (engine : Engine)
    (request : SearchRequest) : CallEnd :=
  let response := engine.query request
  if ∀ entry ∈ response.logs, Valid entry.message then
    .answered response.logs response.totalFound ((response.error.map errorText).getD [])
  else .failed marshalError

/-- The answer to a search in the system is what the page reads. -/
theorem outcome_marshalled
    (errorText : ReadError → Text)
    (marshalError : Text)
    {engine : Engine}
    {request : SearchRequest}
    {results : List (LogRecordID × Bytes)}
    (answered : marshalled engine request = some results) :
    (callEngine errorText marshalError engine request).outcome =
      .ok (results.map fun result => (resultEntry result).raw) := by
  obtain ⟨valid, same⟩ := Option.ite_none_right_eq_some.mp answered
  obtain rfl := Option.some.inj same
  have healthy : (engine.search request).err = none := searchTerm_err_ofDB _ _ _
  have encodable : ∀ entry ∈ (engine.search request).results.map fun result =>
      entryOf result.2, Valid entry.message := by
    intro entry member
    obtain ⟨result, listed, rfl⟩ := List.mem_map.mp member
    exact valid result listed
  rw [callEngine, Engine.query, healthy]
  dsimp only
  rw [if_pos encodable, CallEnd.outcome, List.map_map]
  rfl

/-- Every unsuccessful response shows the banner of an engine that is down. -/
theorem isEngineDown_of_searchLogs
    (builtins : Builtins)
    {response : HttpResponse}
    {error : QueryError}
    (failed : searchLogs response = some (.error error)) : isEngineDown builtins error = true := by
  have code : error.code = "ENGINE_ERROR".toList := by
    unfold searchLogs at failed
    dsimp only at failed
    split at failed
    · exact absurd (Option.some.inj failed) (by simp)
    · simp only [Option.bind_eq_bind, Option.bind_eq_some_iff] at failed
      obtain ⟨_, _, _, _, same⟩ := failed
      rw [← Except.error.inj (Option.some.inj same)]
  rw [isEngineDown, code]
  rfl

end Web
end Chronolog
