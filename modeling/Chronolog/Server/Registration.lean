import Chronolog.Pipeline.TokenSeams
import Chronolog.Server.Contents

/-!
# Registration of an item

The loop registers the term keys of an item one by one.  Tokens hold no NUL byte,
so every key decodes to its token, and tokens are listed once, so every token of
the item gets one posting.
-/

namespace Chronolog
namespace Server

open Pipeline Search Storage Utf8

variable {unicode : UnicodeTables}

/-! ## The keys of an item -/

/-- The posting of an item. -/
def posting (arrival : Arrival) : PostingEntry where
  timestampNano := arrival.now
  streamID := arrival.streamID
  offset := 0
  length := 0

theorem termKeys_eq_map_indexKey (arrival : Arrival) :
    (arrival.item unicode).termKeys =
      (arrival.tokens unicode).map (recordID arrival).indexKey :=
  arrival.item_termKeys unicode

theorem registerKey_indexKey
    (memIndex : MemoryIndex)
    {arrival : Arrival}
    {term : Bytes}
    (token : term ∈ arrival.tokens unicode) :
    registerKey memIndex ((recordID arrival).indexKey term) =
      memIndex.add term (posting arrival) := by
  rw [registerKey, decodeIndexKey_termKey token]
  rfl

/-- Terms listed once get one posting each. -/
theorem postings_foldl_add
    (memIndex : MemoryIndex)
    {terms : List Bytes}
    (distinct : terms.Nodup)
    (entry : PostingEntry)
    (term : Bytes) :
    (terms.foldl (fun memIndex term => memIndex.add term entry) memIndex).postings term =
      memIndex.postings term ++ if term ∈ terms then [entry] else [] := by
  induction terms generalizing memIndex with
  | nil => simp
  | cons first terms inductionHypothesis =>
      obtain ⟨fresh, later⟩ := List.nodup_cons.mp distinct
      rw [List.foldl_cons, inductionHypothesis _ later, MemoryIndex.postings_add]
      by_cases same : first = term
      · subst same
        rw [if_pos rfl, if_neg fresh, if_pos List.mem_cons_self, List.append_nil]
      · rw [if_neg same]
        simp only [List.mem_cons, Ne.symm same, false_or]

/-- An item adds one posting for each of its tokens. -/
theorem postings_foldl_registerKey
    (memIndex : MemoryIndex)
    (arrival : Arrival)
    (term : Bytes) :
    ((arrival.item unicode).termKeys.foldl registerKey memIndex).postings term =
      memIndex.postings term ++
        if term ∈ arrival.tokens unicode then [posting arrival] else [] := by
  have added : ∀ terms : List Bytes, (∀ term ∈ terms, term ∈ arrival.tokens unicode) →
      ∀ memIndex : MemoryIndex,
        (terms.map (recordID arrival).indexKey).foldl registerKey memIndex =
          terms.foldl (fun memIndex term => memIndex.add term (posting arrival))
            memIndex := by
    intro terms
    induction terms with
    | nil => exact fun _ _ => rfl
    | cons first terms inductionHypothesis =>
        intro tokens memIndex
        obtain ⟨token, later⟩ := List.forall_mem_cons.mp tokens
        rw [List.map_cons, List.foldl_cons, List.foldl_cons, registerKey_indexKey _ token]
        exact inductionHypothesis later _
  rw [termKeys_eq_map_indexKey, added _ (fun _ token => token), postings_foldl_add]
  exact nodup_tokenize _

/-! ## The iteration of the loop -/

variable (unicode) in
/-- The loop registers the keys that remain one by one. -/
theorem run_register
    (engine : Engine)
    {remaining : List Bytes}
    (point : engine.point = .registering remaining) :
    ∃ next, Transition.run (Engine.step unicode) engine
        (List.replicate remaining.length .register) = some next ∧
      next.point = .registering [] ∧
      next.memIndex = remaining.foldl registerKey engine.memIndex := by
  induction remaining generalizing engine with
  | nil => exact ⟨engine, rfl, point, rfl⟩
  | cons idxKey remaining inductionHypothesis =>
      obtain ⟨next, reached, done, memIndex⟩ := inductionHypothesis
        { engine with
          batch := engine.batch ++ [(idxKey, [])]
          batchSize := engine.batchSize + 1
          memIndex := registerKey engine.memIndex idxKey
          point := .registering remaining } rfl
      refine ⟨next, ?_, done, memIndex⟩
      rw [List.length_cons, List.replicate_succ, Transition.run_cons, Engine.step, point]
      exact reached

/-- An item that is received is registered with one posting for each token. -/
theorem run_receive
    {engine : Engine}
    (idle : engine.point = .select)
    (arrival : Arrival) :
    ∃ next, Transition.run (Engine.step unicode) engine
        (.receive arrival ::
          List.replicate (arrival.tokens unicode).length .register) = some next ∧
      next.point = .registering [] ∧
      ∀ term, next.memIndex.postings term =
        engine.memIndex.postings term ++
          if term ∈ arrival.tokens unicode then [posting arrival] else [] := by
  obtain ⟨next, reached, done, memIndex⟩ := run_register unicode
    { engine with
      batch := engine.batch ++
        [((arrival.item unicode).logKey, (arrival.item unicode).logValue)]
      batchSize := engine.batchSize + 1
      point := .registering (arrival.item unicode).termKeys } rfl
  refine ⟨next, ?_, done, fun term => ?_⟩
  · have number : (arrival.item unicode).termKeys.length =
        (arrival.tokens unicode).length := by
      rw [termKeys_eq_map_indexKey, List.length_map]
    rw [Transition.run_cons, Engine.step, if_pos idle, ← number]
    exact reached
  · rw [memIndex, postings_foldl_registerKey]

/-- Texts are tokenized piece by piece around a separating byte; tokens are listed
once and hold no NUL byte; the term keys of an item decode to its tokens; and the
loop adds one posting for each of them to the memory index. -/
theorem tokens_compose
    (unicode : UnicodeTables)
    (before after payload : Bytes)
    (byte : UInt8)
    (ascii : IsAscii byte)
    (symbol : isAsciiWord byte = false)
    (arrival : Arrival)
    (engine : Engine)
    (idle : engine.point = .select) :
    tokenize unicode (before ++ byte :: after) =
        tokenize unicode before ++
          (tokenize unicode after).filter (fun term => term ∉ tokenize unicode before) ∧
      (tokenize unicode payload).Nodup ∧
      (∀ token ∈ tokenize unicode payload, (0x00 : UInt8) ∉ token) ∧
      (arrival.item unicode).termKeys.map decodeIndexKey =
        (arrival.tokens unicode).map
          (fun term => some (term, arrival.now, arrival.streamID)) ∧
      ∃ next, Transition.run (Engine.step unicode) engine
          (.receive arrival ::
            List.replicate (arrival.tokens unicode).length .register) = some next ∧
        next.point = .registering [] ∧
        ∀ term, next.memIndex.postings term =
          engine.memIndex.postings term ++
            if term ∈ arrival.tokens unicode then [posting arrival] else [] := by
  refine ⟨tokenize_append_separator before after ascii symbol, nodup_tokenize payload,
    fun _ token => zero_notMem_of_mem_tokenize token, ?_, run_receive idle arrival⟩
  rw [termKeys_eq_map_indexKey, List.map_map]
  exact List.map_congr_left fun term token => decodeIndexKey_termKey token

/-- The laws at a character cut off before a colon, and at an item with one token. -/
theorem tokens_compose_cut :
    tokenize asciiTables "go\x00 to".toUTF8.toList =
        ["go".toUTF8.toList, "to".toUTF8.toList] ∧
      tokenize asciiTables
          ([0x61, 0x62, 0xE2, 0x84] ++ 0x3A :: "ab cd".toUTF8.toList) =
        ["ab".toUTF8.toList, "cd".toUTF8.toList] ∧
      ∃ next, Transition.run (Engine.step asciiTables) (Engine.start ∅)
          (.receive helloItem :: List.replicate 1 .register) = some next ∧
        next.memIndex.postings "hello".toUTF8.toList = [posting helloItem] := by
  have laws := tokens_compose asciiTables [0x61, 0x62, 0xE2, 0x84] "ab cd".toUTF8.toList []
    0x3A (by decide) (by decide) helloItem (Engine.start ∅) rfl
  have tokens : helloItem.tokens asciiTables = ["hello".toUTF8.toList] := by decide +kernel
  obtain ⟨composed, _, _, _, next, reached, _, postings⟩ := laws
  refine ⟨by decide +kernel, ?_, next, ?_, ?_⟩
  · rw [composed]
    decide +kernel
  · rw [tokens] at reached
    exact reached
  · rw [postings, tokens, if_pos List.mem_cons_self, Engine.start,
      MemoryIndex.postings_empty, List.nil_append]

end Server
end Chronolog
