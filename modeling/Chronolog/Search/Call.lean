import Chronolog.Foundation.Transition
import Chronolog.Search.Query

/-!
# A search call, step by step

`SearchTerm` as a machine whose steps are its accesses to shared state: the
read of the memory index, each point read, and the creation of the iterator on
a snapshot.  Between two steps the database and the memory index may change.
Run without interruption, the machine computes `searchTerm`.
-/

namespace Chronolog
namespace Search

open Storage

/-- Where a call stands. -/
inductive SearchPoint
  | memoryTier
  | pointReads (rest : List PostingEntry)
  | openIterator
  | scan (keys : List Bytes) (iterError : Option ReadError)
  | returned (err : Option ReadError)
  deriving DecidableEq

/-- A call in progress. -/
structure SearchCall where
  point : SearchPoint
  state : SearchState

namespace SearchCall

/-- A call that has not read anything yet. -/
def start : SearchCall where
  point := .memoryTier
  state := SearchState.start

/-- After a lookup the call goes on, unless the results are full. -/
def afterFetch (limit : Nat) (fetched : SearchState × Bool) (next : SearchPoint) :
    SearchCall :=
  if fetched.2 = true ∧ limit ≤ fetched.1.results.length then
    { point := .returned none, state := fetched.1 }
  else { point := next, state := fetched.1 }

/-- One step of a call, in the memory index and the database of the moment. -/
def step
    (request : SearchRequest) (memIndex : Option MemoryIndex) (reader : Reader)
    (call : SearchCall) : Option SearchCall :=
  match call.point with
  | .memoryTier =>
      some { call with point := .pointReads (memMatches memIndex request) }
  | .pointReads [] => some { call with point := .openIterator }
  | .pointReads (entry :: rest) =>
      some (afterFetch request.effectiveLimit (fetchLog reader entry.id call.state)
        (.pointReads rest))
  | .openIterator =>
      let (keys, iterError) := reader.newIterator (indexPrefix request.term)
      some { call with point := .scan keys iterError }
  | .scan [] iterError => some { call with point := .returned iterError }
  | .scan (key :: rest) iterError =>
      match decodeIndexKey key with
      | none => some { call with point := .scan rest iterError }
      | some (_, ts, streamID) =>
          if ts < request.startNano then
            some { call with point := .scan rest iterError }
          else if request.endNano < ts then
            some { call with point := .returned none }
          else
            some (afterFetch request.effectiveLimit
              (fetchLog reader ⟨streamID, ts⟩ call.state) (.scan rest iterError))
  | .returned _ => none

variable {request : SearchRequest} {memIndex : Option MemoryIndex} {reader : Reader}

/-- Left alone, a call returns a given answer after finitely many steps. -/
def Finishes
    (request : SearchRequest) (memIndex : Option MemoryIndex) (reader : Reader)
    (call : SearchCall) (answer : SearchResult) : Prop :=
  ∃ steps state,
    Transition.run (fun call (_ : Unit) => step request memIndex reader call) call
        (List.replicate steps ()) =
      some { point := .returned answer.err, state } ∧
    state.results = answer.results

theorem Finishes.returned (err : Option ReadError) (state : SearchState) :
    Finishes request memIndex reader { point := .returned err, state }
      { results := state.results, err } :=
  ⟨0, state, rfl, rfl⟩

theorem Finishes.of_step
    {call next : SearchCall}
    {answer : SearchResult}
    (stepped : step request memIndex reader call = some next)
    (finishes : Finishes request memIndex reader next answer) :
    Finishes request memIndex reader call answer := by
  obtain ⟨steps, state, reached, results⟩ := finishes
  refine ⟨steps + 1, state, ?_, results⟩
  rw [List.replicate_succ, Transition.run_cons, stepped]
  exact reached

/-- The scan finishes with what the loop over the keys computes. -/
theorem finishes_scan
    {keys : List Bytes}
    {iterError : Option ReadError}
    {state final : SearchState}
    {left : Bool}
    (scanned : scanIndex reader request keys state = (final, left)) :
    Finishes request memIndex reader { point := .scan keys iterError, state }
      { results := final.results
        err := if left = true then none else iterError } := by
  induction keys generalizing state with
  | nil =>
      obtain ⟨rfl, rfl⟩ := Prod.mk.inj scanned
      exact Finishes.of_step rfl (Finishes.returned _ _)
  | cons key keys inductionHypothesis =>
      rw [scanIndex] at scanned
      cases decoded : decodeIndexKey key with
      | none =>
          rw [decoded] at scanned
          refine Finishes.of_step ?_ (inductionHypothesis scanned)
          simp only [step, decoded]
      | some parts =>
          obtain ⟨term, ts, streamID⟩ := parts
          rw [decoded] at scanned
          dsimp only at scanned
          by_cases early : ts < request.startNano
          · rw [if_pos early] at scanned
            refine Finishes.of_step ?_ (inductionHypothesis scanned)
            simp only [step, decoded, if_pos early]
          rw [if_neg early] at scanned
          by_cases late : request.endNano < ts
          · rw [if_pos late] at scanned
            obtain ⟨rfl, rfl⟩ := Prod.mk.inj scanned
            refine Finishes.of_step ?_ (Finishes.returned none state)
            simp only [step, decoded, if_neg early, if_pos late]
          rw [if_neg late] at scanned
          by_cases full : (fetchLog reader ⟨streamID, ts⟩ state).2 = true ∧
              request.effectiveLimit ≤
                (fetchLog reader ⟨streamID, ts⟩ state).1.results.length
          · rw [if_pos full] at scanned
            obtain ⟨rfl, rfl⟩ := Prod.mk.inj scanned
            refine Finishes.of_step ?_ (Finishes.returned none _)
            simp only [step, decoded, if_neg early, if_neg late, afterFetch,
              if_pos full]
          · rw [if_neg full] at scanned
            refine Finishes.of_step ?_ (inductionHypothesis scanned)
            simp only [step, decoded, if_neg early, if_neg late, afterFetch,
              if_neg full]

/-- Point reads that fill the results end the call. -/
theorem finishes_pointReads_full
    {entries : List PostingEntry}
    {state final : SearchState}
    (matched : fetchMatches reader request.effectiveLimit entries state =
      (final, true)) :
    Finishes request memIndex reader { point := .pointReads entries, state }
      { results := final.results, err := none } := by
  induction entries generalizing state with
  | nil => simp [fetchMatches] at matched
  | cons entry entries inductionHypothesis =>
      rw [fetchMatches] at matched
      dsimp only at matched
      by_cases full : (fetchLog reader entry.id state).2 = true ∧
          request.effectiveLimit ≤
            (fetchLog reader entry.id state).1.results.length
      · rw [if_pos full] at matched
        obtain ⟨rfl, _⟩ := Prod.mk.inj matched
        refine Finishes.of_step ?_ (Finishes.returned none _)
        simp only [step, afterFetch, if_pos full]
      · rw [if_neg full] at matched
        refine Finishes.of_step ?_ (inductionHypothesis matched)
        simp only [step, afterFetch, if_neg full]

/-- Point reads that leave room are followed by the scan. -/
theorem finishes_pointReads_rest
    {entries : List PostingEntry}
    {state middle : SearchState}
    {answer : SearchResult}
    (matched : fetchMatches reader request.effectiveLimit entries state =
      (middle, false))
    (finishes : Finishes request memIndex reader
      { point := .openIterator, state := middle } answer) :
    Finishes request memIndex reader { point := .pointReads entries, state }
      answer := by
  induction entries generalizing state with
  | nil =>
      obtain ⟨rfl, _⟩ := Prod.mk.inj matched
      exact Finishes.of_step rfl finishes
  | cons entry entries inductionHypothesis =>
      rw [fetchMatches] at matched
      dsimp only at matched
      by_cases full : (fetchLog reader entry.id state).2 = true ∧
          request.effectiveLimit ≤
            (fetchLog reader entry.id state).1.results.length
      · rw [if_pos full] at matched
        simp at matched
      · rw [if_neg full] at matched
        refine Finishes.of_step ?_ (inductionHypothesis matched)
        simp only [step, afterFetch, if_neg full]

/-- An uninterrupted call computes `searchTerm`. -/
theorem finishes_searchTerm
    (request : SearchRequest)
    (memIndex : Option MemoryIndex)
    (reader : Reader) :
    Finishes request memIndex reader start
      (searchTerm memIndex reader request) := by
  refine Finishes.of_step rfl ?_
  rw [searchTerm]
  cases matched : fetchMatches reader request.effectiveLimit
      (memMatches memIndex request) SearchState.start with
  | mk middle full =>
      cases full with
      | true => exact finishes_pointReads_full matched
      | false =>
          refine finishes_pointReads_rest matched (Finishes.of_step rfl ?_)
          exact finishes_scan rfl

end SearchCall
end Search
end Chronolog
