import Chronolog.Foundation.FirstOccurrence
import Chronolog.Search.Query
import Mathlib.Data.List.Perm.Subperm
import Mathlib.Data.List.TakeWhile

/-!
# Candidates and matches

Which identities a search considers.  The scan of the persistent index stops at
the first timestamp past the window, so a candidate is an identity in the
window that no such timestamp precedes.  The matches of a request are all
identities in the window, in either tier; a limit above their number cuts
nothing off.
-/

namespace Chronolog
namespace Search

open Storage

/-- The identity an index key refers to, if it decodes. -/
def keyID (key : Bytes) : Option LogRecordID :=
  (decodeIndexKey key).map fun (_, ts, streamID) => { streamID, ts }

theorem keyID_indexKey
    {term : Bytes}
    (id : LogRecordID)
    (nulFree : (0x00 : UInt8) ∉ term) :
    keyID (id.indexKey term) = some id := by
  rw [keyID, id.decodeIndexKey_indexKey nulFree]
  rfl

/-- The scan keeps the identities in the window up to the first one past it. -/
theorem scanIDs_eq (request : SearchRequest) (keys : List Bytes) :
    scanIDs request keys =
      ((keys.filterMap keyID).takeWhile fun id =>
        id.ts < request.startNano || id.ts ≤ request.endNano).filter fun id =>
          request.Covers id.ts := by
  induction keys with
  | nil => rfl
  | cons key keys inductionHypothesis =>
      rw [scanIDs, List.filterMap_cons, keyID]
      cases decodeIndexKey key with
      | none => exact inductionHypothesis
      | some parts =>
          obtain ⟨term, ts, streamID⟩ := parts
          simp only [Option.map_some]
          by_cases early : ts < request.startNano
          · rw [if_pos early, List.takeWhile_cons_of_pos (by simp [early]),
              List.filter_cons_of_neg fun covers =>
                Int64.not_le.mpr early (of_decide_eq_true covers).1,
              inductionHypothesis]
          · rw [if_neg early]
            by_cases late : request.endNano < ts
            · rw [if_pos late, List.takeWhile_cons_of_neg (by simp [early, late])]
              rfl
            · have covers : request.Covers ts :=
                ⟨Int64.not_lt.mp early, Int64.not_lt.mp late⟩
              rw [if_neg late,
                List.takeWhile_cons_of_pos (by simpa using Or.inr late),
                List.filter_cons_of_pos (by simpa using covers),
                inductionHypothesis]

/-- An identity is a candidate of the scan when it lies in the window and no
identity before it lies past the window. -/
theorem mem_scanIDs
    {request : SearchRequest}
    {keys : List Bytes}
    {id : LogRecordID} :
    id ∈ scanIDs request keys ↔
      request.Covers id.ts ∧
        ∃ before after, keys.filterMap keyID = before ++ id :: after ∧
          ∀ earlier ∈ before, earlier.ts ≤ request.endNano := by
  rw [scanIDs_eq, List.mem_filter, decide_eq_true_eq]
  generalize keys.filterMap keyID = ids
  constructor
  · rintro ⟨member, covers⟩
    refine ⟨covers, ?_⟩
    obtain ⟨before, rest, split⟩ := List.append_of_mem member
    refine ⟨before, rest ++ ids.dropWhile fun id =>
      id.ts < request.startNano || id.ts ≤ request.endNano, ?_, ?_⟩
    · rw [← List.cons_append, ← List.append_assoc, ← split]
      exact List.takeWhile_append_dropWhile.symm
    · intro earlier earlierMember
      have kept : earlier ∈ ids.takeWhile fun id =>
          id.ts < request.startNano || id.ts ≤ request.endNano := by
        rw [split]
        exact List.mem_append_left _ earlierMember
      have bound := List.mem_takeWhile_imp kept
      rw [Bool.or_eq_true, decide_eq_true_eq, decide_eq_true_eq] at bound
      refine bound.elim (fun early => ?_) (fun within => within)
      exact Int64.le_of_lt
        (Int64.lt_of_lt_of_le early (Int64.le_trans covers.1 covers.2))
  · rintro ⟨covers, before, after, rfl, unblocked⟩
    refine ⟨?_, covers⟩
    rw [List.takeWhile_append_of_pos, List.takeWhile_cons_of_pos]
    · exact List.mem_append_right _ List.mem_cons_self
    · simp [covers.2]
    · intro earlier member
      simp [unblocked earlier member]

theorem ofDB_get_eq_ok {db : DB} {key data : Bytes} :
    (Reader.ofDB db).get key = .ok data ↔ db[key]? = some data := by
  unfold Reader.ofDB
  cases lookup : db[key]? with
  | none => simp [lookup]
  | some value => simp [lookup]

/-- Over a healthy database, the records found are those of the stored ones
among the candidates. -/
theorem found_ids_ofDB (db : DB) (ids : List LogRecordID) :
    (found (Reader.ofDB db) ids).map Prod.fst =
      ids.eraseDups.filter fun id => id.logKey ∈ db := by
  rw [found, List.map_filterMap, ← List.filterMap_eq_filter]
  apply List.filterMap_congr
  intro id _
  cases record : db[id.logKey]? with
  | none =>
      have absent : id.logKey ∉ db := by
        rw [OrderedStore.mem_iff_getElem?, record]
        simp
      simp [lookup, Reader.ofDB, absent, Option.guard]
  | some data =>
      have present : id.logKey ∈ db :=
        (OrderedStore.mem_iff_getElem? _ _).mpr ⟨data, record⟩
      simp [lookup, Reader.ofDB, present, Option.guard]

/-- The identities indexed under the term of a request, in its window. -/
def indexedIDs (db : DB) (request : SearchRequest) : List LogRecordID :=
  ((db.scan (hasPrefix (indexPrefix request.term))).filterMap keyID).filter
    fun id => request.Covers id.ts

/-- The identities a request matches in either tier, each once. -/
def matchingIDs
    (memIndex : MemoryIndex) (db : DB) (request : SearchRequest) :
    List LogRecordID :=
  ((memMatches (some memIndex) request).map PostingEntry.id ++
    indexedIDs db request).eraseDups

theorem mem_indexedIDs
    {db : DB}
    {request : SearchRequest}
    {id : LogRecordID} :
    id ∈ indexedIDs db request ↔
      request.Covers id.ts ∧
        ∃ key ∈ db, hasPrefix (indexPrefix request.term) key = true ∧
          keyID key = some id := by
  rw [indexedIDs, List.mem_filter, decide_eq_true_eq, List.mem_filterMap, and_comm]
  simp only [OrderedStore.mem_scan, and_assoc]

theorem candidates_subset
    (memIndex : MemoryIndex)
    (db : DB)
    (request : SearchRequest) :
    candidates (some memIndex) (Reader.ofDB db) request ⊆
      matchingIDs memIndex db request := by
  intro id member
  rw [matchingIDs, List.mem_eraseDups]
  refine (List.mem_append.mp member).elim (List.mem_append_left _) fun scanned => ?_
  refine List.mem_append_right _ ?_
  obtain ⟨covers, before, after, split, _⟩ := mem_scanIDs.mp scanned
  rw [indexedIDs, List.mem_filter]
  refine ⟨?_, decide_eq_true covers⟩
  change id ∈ List.filterMap keyID ((Reader.ofDB db).newIterator _).1
  rw [split]
  exact List.mem_append_right _ List.mem_cons_self

/-- A limit above the number of matches cuts nothing off. -/
theorem searchTerm_results_of_room
    {memIndex : MemoryIndex}
    {db : DB}
    {request : SearchRequest}
    (room : (matchingIDs memIndex db request).length < request.effectiveLimit) :
    (searchTerm (some memIndex) (Reader.ofDB db) request).results =
      found (Reader.ofDB db)
        (candidates (some memIndex) (Reader.ofDB db) request) := by
  rw [searchTerm_results, List.take_of_length_le]
  refine Nat.le_trans (List.length_filterMap_le _ _) ?_
  refine Nat.le_trans (List.Subperm.length_le ?_) (Nat.le_of_lt room)
  apply (FirstOccurrence.nodup_eraseDups _).subperm
  intro id member
  exact candidates_subset memIndex db request (List.mem_eraseDups.mp member)

end Search
end Chronolog
