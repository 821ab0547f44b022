import Chronolog.Storage.Schema

/-!
# The in-memory inverted index

The hot tier of the engine: for every term an append-only list of postings, in
the order of registration.  A posting names a record by timestamp and stream
ID; the record itself is stored elsewhere.
-/

namespace Chronolog
namespace Search

/-- Where a term occurs.  `offset` and `length` are never filled in. -/
structure PostingEntry where
  timestampNano : Int64
  streamID : UInt64
  offset : UInt32
  length : UInt32
  deriving DecidableEq

/-- The postings of every term. -/
structure MemoryIndex where
  terms : Std.TreeMap Bytes (List PostingEntry) compare

namespace MemoryIndex

/-- `NewMemoryIndex` -/
def empty : MemoryIndex where
  terms := ∅

/-- The postings of one term, oldest first. -/
def postings (index : MemoryIndex) (term : Bytes) : List PostingEntry :=
  index.terms.getD term []

/-- `Add` -/
def add (index : MemoryIndex) (term : Bytes) (entry : PostingEntry) :
    MemoryIndex where
  terms := index.terms.insert term (index.terms.getD term [] ++ [entry])

/-- `Query`: the postings of a term within a closed time window. -/
def query
    (index : MemoryIndex) (term : Bytes) (startNano endNano : Int64) :
    List PostingEntry :=
  match index.terms[term]? with
  | none => []
  | some entries =>
      entries.filter fun entry =>
        startNano ≤ entry.timestampNano && entry.timestampNano ≤ endNano

@[simp] theorem postings_empty (term : Bytes) : empty.postings term = [] := by
  simp [postings, empty]

theorem postings_add
    (index : MemoryIndex)
    (term other : Bytes)
    (entry : PostingEntry) :
    (index.add term entry).postings other =
      if term = other then index.postings other ++ [entry]
      else index.postings other := by
  simp only [postings, add, Std.TreeMap.getD_insert,
    Std.LawfulEqOrd.compare_eq_iff_eq]
  split
  next same => rw [same]
  next => rfl

theorem query_eq_filter
    (index : MemoryIndex)
    (term : Bytes)
    (startNano endNano : Int64) :
    index.query term startNano endNano =
      (index.postings term).filter fun entry =>
        startNano ≤ entry.timestampNano && entry.timestampNano ≤ endNano := by
  rw [query, postings, Std.TreeMap.getD_eq_getD_getElem?]
  cases index.terms[term]? <;> rfl

theorem mem_query
    {index : MemoryIndex}
    {term : Bytes}
    {startNano endNano : Int64}
    {entry : PostingEntry} :
    entry ∈ index.query term startNano endNano ↔
      entry ∈ index.postings term ∧ startNano ≤ entry.timestampNano ∧
        entry.timestampNano ≤ endNano := by
  rw [query_eq_filter, List.mem_filter, Bool.and_eq_true, decide_eq_true_eq,
    decide_eq_true_eq]

end MemoryIndex
end Search
end Chronolog
