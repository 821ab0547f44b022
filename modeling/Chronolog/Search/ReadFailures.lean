import Chronolog.Search.Candidates

/-!
# Point reads that fail

A lookup treats every error of a point read as a missing record, and a search
reports only the error of its iterator.  A read that fails on a record the
answer needs therefore changes the answer without an error, and the place of
the record goes to a later one.  A search looks every record up once, so a
failure at some moment of a search is a failure on some key.
-/

namespace Chronolog
namespace Search

open Storage

/-- The reader of a database in which the point reads of some keys fail. -/
def Reader.failing (db : DB) (fails : Bytes → Bool) : Reader where
  get key := if fails key = true then .error .failed else (Reader.ofDB db).get key
  newIterator := (Reader.ofDB db).newIterator

/-- The answer is the same as without failing reads, unless an error is
reported. -/
def FailuresReported (memIndex : Option MemoryIndex) (db : DB) (fails : Bytes → Bool)
    (request : SearchRequest) : Prop :=
  (searchTerm memIndex (Reader.failing db fails) request).err = none →
    (searchTerm memIndex (Reader.failing db fails) request).results =
      (searchTerm memIndex (Reader.ofDB db) request).results

/-- The records a request asks for: of the candidates of both tiers, each once,
those with a stored record, as many as the limit admits. -/
def requestedIDs (memIndex : Option MemoryIndex) (db : DB) (request : SearchRequest) :
    List LogRecordID :=
  ((candidates memIndex (Reader.ofDB db) request).eraseDups.filter
    fun id => id.logKey ∈ db).take request.effectiveLimit

theorem searchTerm_ids_ofDB
    (memIndex : Option MemoryIndex)
    (db : DB)
    (request : SearchRequest) :
    (searchTerm memIndex (Reader.ofDB db) request).results.map Prod.fst =
      requestedIDs memIndex db request := by
  rw [searchTerm_results, List.map_take, found_ids_ofDB, requestedIDs]

/-- No failing point read is ever reported. -/
theorem searchTerm_err_failing
    (memIndex : Option MemoryIndex)
    (db : DB)
    (fails : Bytes → Bool)
    (request : SearchRequest) :
    (searchTerm memIndex (Reader.failing db fails) request).err = none := by
  rw [searchTerm]
  dsimp only
  split
  · rfl
  · exact ite_self _

/-- Failing reads drop their records and nothing else. -/
theorem found_failing
    (db : DB)
    (fails : Bytes → Bool)
    (ids : List LogRecordID) :
    found (Reader.failing db fails) ids =
      (found (Reader.ofDB db) ids).filter fun record => !fails record.1.logKey := by
  rw [found, found, List.filter_filterMap]
  apply List.filterMap_congr
  intro id _
  have read : (Reader.failing db fails).get id.logKey =
      if fails id.logKey = true then .error .failed
      else (Reader.ofDB db).get id.logKey := rfl
  rw [lookup, lookup, read]
  cases failing : fails id.logKey with
  | false => cases (Reader.ofDB db).get id.logKey <;> simp [Option.filter, failing]
  | true => cases (Reader.ofDB db).get id.logKey <;> simp [Option.filter, failing]

/-- Filtering leaves the first elements of a list alone exactly when it keeps
them. -/
theorem take_filter_eq_take_iff
    {α : Type}
    (list : List α)
    (keep : α → Bool)
    (limit : Nat) :
    (list.filter keep).take limit = list.take limit ↔
      ∀ entry ∈ list.take limit, keep entry = true := by
  constructor
  · intro equal entry member
    rw [← equal] at member
    exact (List.mem_filter.mp (List.mem_of_mem_take member)).2
  · intro kept
    conv_lhs => rw [← List.take_append_drop limit list]
    rw [List.filter_append, List.filter_eq_self.mpr kept]
    rcases Nat.le_total limit list.length with long | short
    · exact List.take_left' (List.length_take_of_le long)
    · rw [List.drop_of_length_le short, List.filter_nil, List.append_nil, List.take_take,
        Nat.min_self]

/-- A search hides no failure exactly when no read fails on a record the
request asks for. -/
theorem failuresReported_iff
    (memIndex : Option MemoryIndex)
    (db : DB)
    (fails : Bytes → Bool)
    (request : SearchRequest) :
    FailuresReported memIndex db fails request ↔
      ∀ id ∈ requestedIDs memIndex db request, fails id.logKey = false := by
  have offered : candidates memIndex (Reader.failing db fails) request =
      candidates memIndex (Reader.ofDB db) request := rfl
  rw [FailuresReported, searchTerm_err_failing, searchTerm_results, searchTerm_results,
    offered, found_failing, take_filter_eq_take_iff, ← searchTerm_results,
    ← searchTerm_ids_ofDB]
  simp only [true_imp_iff, List.mem_map, Bool.not_eq_true']
  constructor
  · rintro kept _ ⟨record, member, rfl⟩
    exact kept record member
  · intro kept record member
    exact kept record.1 ⟨record, member, rfl⟩

/-- A failing read of the only match leaves an empty answer without an error. -/
theorem failing_read_hidden :
    ¬ ∀ memIndex db fails request, FailuresReported memIndex db fails request := by
  intro claim
  have hidden := claim none (OrderedStore.write (∅ : DB)
      [(encodeLogKey 1 7, [0x68]), (encodeIndexKey [0x68] 7 1, [])])
    (fun _ => true) (searchFor "h") (searchTerm_err_failing _ _ _ _)
  exact absurd (congrArg List.length hidden) (by decide +kernel)

end Search
end Chronolog
