import Chronolog.Search.MemoryIndex
import Chronolog.Storage.ScanOrder

/-!
# Term search

`SearchTerm` consults the memory index, then scans the persistent index, and
looks every candidate up once in the record space.  The database is abstracted
to a reader, so that point reads and the iterator may also fail.  The main
result describes the answer without the loops: the records of the candidates in
order of first occurrence, cut at the limit.
-/

namespace Chronolog
namespace Search

open Storage

/-- Identity of a raw log record, used to deduplicate the candidates. -/
structure LogRecordID where
  streamID : UInt64
  ts : Int64
  deriving DecidableEq

/-- The key under which a record is stored. -/
def LogRecordID.logKey (id : LogRecordID) : Bytes :=
  encodeLogKey id.streamID id.ts

theorem LogRecordID.logKey_inj {left right : LogRecordID} :
    left.logKey = right.logKey ↔ left = right := by
  rw [logKey, logKey, encodeLogKey_inj, LogRecordID.mk.injEq]

/-- The key that indexes a record under a term. -/
def LogRecordID.indexKey (id : LogRecordID) (term : Bytes) : Bytes :=
  encodeIndexKey term id.ts id.streamID

theorem LogRecordID.indexKey_inj
    {left right : LogRecordID}
    {term other : Bytes} :
    left.indexKey term = right.indexKey other ↔ term = other ∧ left = right := by
  rw [indexKey, indexKey, encodeIndexKey_inj, LogRecordID.mk.injEq]
  tauto

theorem LogRecordID.logKey_ne_indexKey
    (left right : LogRecordID)
    (term : Bytes) :
    left.logKey ≠ right.indexKey term :=
  encodeLogKey_ne_encodeIndexKey _ _ _ _ _

theorem LogRecordID.decodeIndexKey_indexKey
    {term : Bytes}
    (id : LogRecordID)
    (nulFree : (0x00 : UInt8) ∉ term) :
    decodeIndexKey (id.indexKey term) = some (term, id.ts, id.streamID) :=
  decodeIndexKey_encodeIndexKey _ _ nulFree

/-- The record a posting refers to. -/
def PostingEntry.id (entry : PostingEntry) : LogRecordID where
  streamID := entry.streamID
  ts := entry.timestampNano

/-- Why a database read returns an error. -/
inductive ReadError
  | notFound
  | failed
  deriving DecidableEq

/-- What a search sees of the database: point reads, and for a key prefix the
keys its iterator yields together with the error it ends in. -/
structure Reader where
  get : Bytes → Except ReadError Bytes
  newIterator : Bytes → List Bytes × Option ReadError

/-- The reader of a healthy database. -/
def Reader.ofDB (db : DB) : Reader where
  get key :=
    match db[key]? with
    | some value => .ok value
    | none => .error .notFound
  newIterator keyPrefix := (db.scan (hasPrefix keyPrefix), none)

/-- The arguments of one search. -/
structure SearchRequest where
  term : Bytes
  startNano : Int64
  endNano : Int64
  limit : Int

/-- A search for a text from the epoch on. -/
def searchFor (text : String) : SearchRequest where
  term := text.toUTF8.toList
  startNano := 0
  endNano := Int64.maxValue
  limit := 10

namespace SearchRequest

/-- The limit in force: 50 when none was given. -/
def effectiveLimit (request : SearchRequest) : Nat :=
  if request.limit ≤ 0 then 50 else request.limit.toNat

/-- Whether a timestamp lies in the requested window. -/
def Covers (request : SearchRequest) (ts : Int64) : Prop :=
  request.startNano ≤ ts ∧ ts ≤ request.endNano

instance (request : SearchRequest) (ts : Int64) :
    Decidable (request.Covers ts) :=
  inferInstanceAs (Decidable (_ ∧ _))

theorem effectiveLimit_pos (request : SearchRequest) :
    0 < request.effectiveLimit := by
  unfold effectiveLimit
  split <;> omega

end SearchRequest

/-- Local state of a search.  Each result is kept with the identity it was
looked up under; the source returns the second components. -/
structure SearchState where
  seen : List LogRecordID
  results : List (LogRecordID × Bytes)

/-- The state before the first lookup. -/
def SearchState.start : SearchState where
  seen := []
  results := []

/-- The 17-byte scratch buffer for record keys. -/
def keyBuf : Bytes := List.replicate 17 0

/-- `fetchLog`: look an unseen record up and report whether it was found.  The
record counts as seen before the read, also when the read finds nothing. -/
def fetchLog (reader : Reader) (id : LogRecordID) (state : SearchState) :
    SearchState × Bool :=
  if id ∈ state.seen then (state, false)
  else
    let state := { state with seen := id :: state.seen }
    match reader.get (encodeLogKeyToBuf keyBuf id.streamID id.ts) with
    | .ok logData =>
        ({ state with results := state.results ++ [(id, logData)] }, true)
    | .error _ => (state, false)

/-- The loop over the matches of the memory index.  The flag reports that the
limit was reached, which ends the search. -/
def fetchMatches (reader : Reader) (limit : Nat) :
    List PostingEntry → SearchState → SearchState × Bool
  | [], state => (state, false)
  | entry :: rest, state =>
      let (state, found) := fetchLog reader entry.id state
      if found = true ∧ limit ≤ state.results.length then (state, true)
      else fetchMatches reader limit rest state

/-- The loop over the keys of the persistent index.  The flag reports that the
loop was left before the iterator was exhausted. -/
def scanIndex (reader : Reader) (request : SearchRequest) :
    List Bytes → SearchState → SearchState × Bool
  | [], state => (state, false)
  | key :: rest, state =>
      match decodeIndexKey key with
      | none => scanIndex reader request rest state
      | some (_, ts, streamID) =>
          if ts < request.startNano then scanIndex reader request rest state
          else if request.endNano < ts then (state, true)
          else
            let (state, found) := fetchLog reader ⟨streamID, ts⟩ state
            if found = true ∧ request.effectiveLimit ≤ state.results.length then
              (state, true)
            else scanIndex reader request rest state

/-- The answer of a search. -/
structure SearchResult where
  results : List (LogRecordID × Bytes)
  err : Option ReadError

/-- The matches the memory index offers, none without an index. -/
def memMatches (memIndex : Option MemoryIndex) (request : SearchRequest) :
    List PostingEntry :=
  match memIndex with
  | some index => index.query request.term request.startNano request.endNano
  | none => []

/-- `SearchTerm` -/
def searchTerm
    (memIndex : Option MemoryIndex) (reader : Reader) (request : SearchRequest) :
    SearchResult :=
  let (state, full) :=
    fetchMatches reader request.effectiveLimit (memMatches memIndex request)
      SearchState.start
  if full = true then { results := state.results, err := none }
  else
    let (keys, iterError) := reader.newIterator (indexPrefix request.term)
    let (state, left) := scanIndex reader request keys state
    { results := state.results, err := if left = true then none else iterError }

/-! ## The loops as one lookup pass -/

theorem encodeLogKeyToBuf_keyBuf (id : LogRecordID) :
    encodeLogKeyToBuf keyBuf id.streamID id.ts = id.logKey :=
  encodeLogKeyToBuf_eq keyBuf _ _ (by simp [keyBuf])

/-- Look candidates up in order until the limit is reached. -/
def fetchAll (reader : Reader) (limit : Nat) :
    List LogRecordID → SearchState → SearchState × Bool
  | [], state => (state, false)
  | id :: rest, state =>
      let (state, found) := fetchLog reader id state
      if found = true ∧ limit ≤ state.results.length then (state, true)
      else fetchAll reader limit rest state

/-- The candidates a list of index keys yields: keys below the window are
skipped and the first key past the window ends the scan. -/
def scanIDs (request : SearchRequest) : List Bytes → List LogRecordID
  | [] => []
  | key :: rest =>
      match decodeIndexKey key with
      | none => scanIDs request rest
      | some (_, ts, streamID) =>
          if ts < request.startNano then scanIDs request rest
          else if request.endNano < ts then []
          else ⟨streamID, ts⟩ :: scanIDs request rest

theorem fetchMatches_eq_fetchAll
    (reader : Reader)
    (limit : Nat)
    (entries : List PostingEntry)
    (state : SearchState) :
    fetchMatches reader limit entries state =
      fetchAll reader limit (entries.map PostingEntry.id) state := by
  induction entries generalizing state with
  | nil => rfl
  | cons entry entries inductionHypothesis =>
      simp only [fetchMatches, List.map_cons, fetchAll, inductionHypothesis]

theorem scanIndex_eq_fetchAll
    (reader : Reader)
    (request : SearchRequest)
    (keys : List Bytes)
    (state : SearchState) :
    (scanIndex reader request keys state).1 =
      (fetchAll reader request.effectiveLimit (scanIDs request keys) state).1 := by
  induction keys generalizing state with
  | nil => rfl
  | cons key keys inductionHypothesis =>
      rw [scanIndex, scanIDs]
      split
      next => exact inductionHypothesis state
      next _ ts streamID _ =>
        by_cases early : ts < request.startNano
        · rw [if_pos early, if_pos early, inductionHypothesis]
        · rw [if_neg early, if_neg early]
          by_cases late : request.endNano < ts
          · rw [if_pos late, if_pos late]
            rfl
          · rw [if_neg late, if_neg late, fetchAll]
            dsimp only
            split
            · rfl
            · exact inductionHypothesis _

theorem fetchAll_append
    (reader : Reader)
    (limit : Nat)
    (first second : List LogRecordID)
    (state : SearchState) :
    fetchAll reader limit (first ++ second) state =
      if (fetchAll reader limit first state).2 = true then
        fetchAll reader limit first state
      else fetchAll reader limit second (fetchAll reader limit first state).1 := by
  induction first generalizing state with
  | nil => rfl
  | cons id first inductionHypothesis =>
      rw [List.cons_append, fetchAll, fetchAll]
      dsimp only
      by_cases stop : (fetchLog reader id state).2 = true ∧
          limit ≤ (fetchLog reader id state).1.results.length
      · simp only [if_pos stop, if_true]
      · simp only [if_neg stop, inductionHypothesis]

/-! ## The answer without the loops -/

/-- The stored record of an identity, if a read finds one. -/
def lookup (reader : Reader) (id : LogRecordID) : Option (LogRecordID × Bytes) :=
  match reader.get id.logKey with
  | .ok logData => some (id, logData)
  | .error _ => none

/-- The records of the candidates, in order of first occurrence. -/
def found (reader : Reader) (ids : List LogRecordID) :
    List (LogRecordID × Bytes) :=
  ids.eraseDups.filterMap (lookup reader)

theorem lookup_eq_some
    {reader : Reader}
    {id other : LogRecordID}
    {logData : Bytes} :
    lookup reader id = some (other, logData) ↔
      id = other ∧ reader.get other.logKey = .ok logData := by
  unfold lookup
  split
  next data read =>
    rw [Option.some.injEq, Prod.mk.injEq]
    constructor
    · rintro ⟨rfl, rfl⟩
      exact ⟨rfl, read⟩
    · rintro ⟨rfl, readOther⟩
      exact ⟨rfl, Except.ok.inj (read.symm.trans readOther)⟩
  next read =>
    constructor
    · simp
    · rintro ⟨rfl, readOther⟩
      exact absurd (read.symm.trans readOther) (by simp)

theorem mem_found
    {reader : Reader}
    {ids : List LogRecordID}
    {id : LogRecordID}
    {logData : Bytes} :
    (id, logData) ∈ found reader ids ↔
      id ∈ ids ∧ reader.get id.logKey = .ok logData := by
  rw [found, List.mem_filterMap]
  constructor
  · rintro ⟨other, member, equal⟩
    obtain ⟨rfl, read⟩ := lookup_eq_some.mp equal
    exact ⟨List.mem_eraseDups.mp member, read⟩
  · rintro ⟨member, read⟩
    exact ⟨id, List.mem_eraseDups.mpr member, lookup_eq_some.mpr ⟨rfl, read⟩⟩

theorem fetchLog_seen
    {reader : Reader}
    {id : LogRecordID}
    {state : SearchState}
    (seen : id ∈ state.seen) :
    fetchLog reader id state = (state, false) :=
  if_pos seen

theorem fetchLog_unseen
    {reader : Reader}
    {id : LogRecordID}
    {state : SearchState}
    (unseen : id ∉ state.seen) :
    fetchLog reader id state =
      ({ seen := id :: state.seen
         results := state.results ++ (lookup reader id).toList },
        (lookup reader id).isSome) := by
  rw [fetchLog, if_neg unseen, encodeLogKeyToBuf_keyBuf, lookup]
  cases reader.get id.logKey <;> simp

/-- Whatever a read returns, the identity counts as seen afterwards. -/
theorem mem_seen_fetchLog
    {reader : Reader}
    {id other : LogRecordID}
    {state : SearchState} :
    other ∈ (fetchLog reader id state).1.seen ↔ other = id ∨ other ∈ state.seen := by
  by_cases seen : id ∈ state.seen
  · rw [fetchLog_seen seen]
    refine (or_iff_right_of_imp ?_).symm
    rintro rfl
    exact seen
  · rw [fetchLog_unseen seen]
    exact List.mem_cons

theorem mem_results_fetchLog
    {reader : Reader}
    {id other : LogRecordID}
    {data : Bytes}
    {state : SearchState}
    (result : (other, data) ∈ (fetchLog reader id state).1.results) :
    (other, data) ∈ state.results ∨ other = id := by
  by_cases seen : id ∈ state.seen
  · rw [fetchLog_seen seen] at result
    exact Or.inl result
  · rw [fetchLog_unseen seen] at result
    refine (List.mem_append.mp result).imp_right fun last => ?_
    rw [Option.mem_toList] at last
    exact (lookup_eq_some.mp last).1.symm

/-- A lookup pass appends the records of the unseen candidates, up to the
limit. -/
theorem fetchAll_results
    (reader : Reader)
    (limit : Nat)
    (ids : List LogRecordID)
    (state : SearchState)
    (below : state.results.length < limit) :
    (fetchAll reader limit ids state).1.results =
      (state.results ++
        found reader (ids.filter fun id => id ∉ state.seen)).take limit := by
  induction ids generalizing state with
  | nil =>
      simp only [fetchAll, List.filter_nil, found, List.eraseDups_nil,
        List.filterMap_nil, List.append_nil]
      exact (List.take_of_length_le (Nat.le_of_lt below)).symm
  | cons id ids inductionHypothesis =>
      rw [fetchAll]
      by_cases seen : id ∈ state.seen
      · rw [fetchLog_seen seen]
        dsimp only
        rw [if_neg (by simp), inductionHypothesis state below,
          List.filter_cons_of_neg (by simpa using seen)]
      · have rest : (ids.filter fun other => other ∉ state.seen).filter
            (fun other => !other == id) =
              ids.filter fun other => other ∉ id :: state.seen := by
          rw [List.filter_filter]
          apply List.filter_congr
          intro other _
          by_cases same : other = id <;> simp [same]
        have step : found reader ((id :: ids).filter fun other => other ∉ state.seen) =
            (lookup reader id).toList ++
              found reader (ids.filter fun other => other ∉ id :: state.seen) := by
          rw [List.filter_cons_of_pos (by simpa using seen), found,
            List.eraseDups_cons, rest, List.filterMap_cons]
          cases lookup reader id <;> rfl
        rw [fetchLog_unseen seen, step, ← List.append_assoc]
        dsimp only
        split
        next full =>
          have length : (state.results ++ (lookup reader id).toList).length = limit := by
            have hit := Option.isSome_iff_exists.mp full.1
            obtain ⟨record, equal⟩ := hit
            have large := full.2
            simp only [equal, Option.toList_some, List.length_append,
              List.length_singleton] at large ⊢
            omega
          rw [← length, List.take_left]
        next notFull =>
          apply inductionHypothesis
          dsimp only
          cases hit : lookup reader id with
          | none => simpa using below
          | some record =>
              rw [hit] at notFull
              simpa using notFull

/-- The candidates of a search, memory tier first. -/
def candidates
    (memIndex : Option MemoryIndex) (reader : Reader) (request : SearchRequest) :
    List LogRecordID :=
  (memMatches memIndex request).map PostingEntry.id ++
    scanIDs request (reader.newIterator (indexPrefix request.term)).1

/-- The answer is the records of the candidates, cut at the limit. -/
theorem searchTerm_results
    (memIndex : Option MemoryIndex)
    (reader : Reader)
    (request : SearchRequest) :
    (searchTerm memIndex reader request).results =
      (found reader (candidates memIndex reader request)).take
        request.effectiveLimit := by
  have whole : (fetchAll reader request.effectiveLimit
      (candidates memIndex reader request) SearchState.start).1.results =
        (found reader (candidates memIndex reader request)).take
          request.effectiveLimit := by
    rw [fetchAll_results _ _ _ _ request.effectiveLimit_pos]
    simp [SearchState.start]
  rw [← whole, candidates, fetchAll_append, searchTerm,
    fetchMatches_eq_fetchAll]
  simp only [scanIndex_eq_fetchAll]
  split <;> rfl

/-- A healthy database reports no error. -/
theorem searchTerm_err_ofDB
    (memIndex : Option MemoryIndex)
    (db : DB)
    (request : SearchRequest) :
    (searchTerm memIndex (Reader.ofDB db) request).err = none := by
  rw [searchTerm]
  dsimp only
  split
  · rfl
  · exact ite_self _

end Search
end Chronolog
