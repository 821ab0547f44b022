import Chronolog.Foundation.FirstOccurrence
import Chronolog.Foundation.Utf8

/-!
# Tokenization

A payload is split into maximal runs of letters and numbers; the runs of 2 to
64 bytes are lower-cased and kept once each, in order of first occurrence.  The
Unicode tables of the Go runtime enter through a structure that carries the
facts about them this development relies on.
-/

namespace Chronolog
namespace Pipeline

open Utf8

/-- The `unicode` tables of the runtime.  The fields state what is fixed by the
Unicode standard: the ASCII range, that the replacement character is a symbol,
and that simple lower-casing is idempotent and never yields NUL. -/
structure UnicodeTables where
  isLetter : Char → Bool
  isNumber : Char → Bool
  toLower : Char → Char
  isLetter_ascii : ∀ char, char.val < 128 → isLetter char = char.isAlpha
  isNumber_ascii : ∀ char, char.val < 128 → isNumber char = char.isDigit
  toLower_ascii : ∀ char, char.val < 128 → toLower char = char.toLower
  isLetter_replacement : isLetter replacement = false
  isNumber_replacement : isNumber replacement = false
  toLower_ne_nul : ∀ char, isLetter char ∨ isNumber char → toLower char ≠ '\x00'
  toLower_toLower : ∀ char, toLower (toLower char) = toLower char

/-- ASCII lower-casing does not produce another upper-case letter. -/
theorem toLower_toLower_ascii (char : Char) :
    char.toLower.toLower = char.toLower := by
  unfold Char.toLower
  split
  next upper =>
    rw [dif_neg]
    intro again
    have low := upper.1
    have high := upper.2
    have highAgain := again.2
    simp [UInt32.le_iff_toNat_le] at *
    omega
  next => rfl

/-- ASCII lower-casing of a letter or digit is not NUL. -/
theorem toLower_ne_nul_ascii
    {char : Char}
    (word : char.isAlpha ∨ char.isDigit) :
    char.toLower ≠ '\x00' := by
  intro equal
  have code := congrArg (fun char : Char => char.val.toNat) equal
  unfold Char.toLower at code
  have letter : char.isAlpha =
      (decide (char.val ≥ 'A'.val ∧ char.val ≤ 'Z'.val) ||
        (char.val ≥ 'a'.val && char.val ≤ 'z'.val)) :=
    rfl
  simp [letter, Char.isDigit, UInt32.le_iff_toNat_le] at word
  split at code
  next upper =>
    simp [UInt32.le_iff_toNat_le] at upper code
    omega
  next =>
    simp at code
    omega

/-- The tables restricted to ASCII; every other code point is a symbol. -/
def asciiTables : UnicodeTables where
  isLetter := Char.isAlpha
  isNumber := Char.isDigit
  toLower := Char.toLower
  isLetter_ascii _ _ := rfl
  isNumber_ascii _ _ := rfl
  toLower_ascii _ _ := rfl
  isLetter_replacement := by decide
  isNumber_replacement := by decide
  toLower_ne_nul _ word := toLower_ne_nul_ascii word
  toLower_toLower := toLower_toLower_ascii

variable (unicode : UnicodeTables)

/-- The separator test handed to `strings.FieldsFunc`. -/
def isSeparator (char : Char) : Bool :=
  !unicode.isLetter char && !unicode.isNumber char

/-- The loop of `strings.FieldsFunc`; `span` is the field being read, if any. -/
def fieldsLoop (separator : Char → Bool) :
    List Rune → Option Bytes → List Bytes
  | [], none => []
  | [], some span => [span]
  | rune :: rest, none =>
      if separator rune.char then fieldsLoop separator rest none
      else fieldsLoop separator rest (some rune.bytes)
  | rune :: rest, some span =>
      if separator rune.char then span :: fieldsLoop separator rest none
      else fieldsLoop separator rest (some (span ++ rune.bytes))

/-- `strings.FieldsFunc`: the maximal runs of code points that do not satisfy
the separator test. -/
def fieldsFunc (text : Bytes) (separator : Char → Bool) : List Bytes :=
  fieldsLoop separator (runes text) none

/-- `strings.ToLower` -/
def toLower (text : Bytes) : Bytes :=
  (runes text).flatMap fun rune => encode (unicode.toLower rune.char)

/-- One iteration of the loop over the words.  The source's `seen` map holds
exactly the terms appended so far. -/
def addToken (tokens : List Bytes) (word : Bytes) : List Bytes :=
  if word.length < 2 ∨ 64 < word.length then tokens
  else
    let term := toLower unicode word
    if term ∈ tokens then tokens else tokens ++ [term]

/-- `Tokenize` -/
def tokenize (payload : Bytes) : List Bytes :=
  (fieldsFunc payload (isSeparator unicode)).foldl (addToken unicode) []

/-! ## Words -/

/-- A maximal run of letters and numbers of a text, as its byte string. -/
def IsWord (text word : Bytes) : Prop :=
  ∃ before run after,
    runes text = before ++ run ++ after ∧
    run ≠ [] ∧
    (∀ rune ∈ run, isSeparator unicode rune.char = false) ∧
    (∀ rune, before.getLast? = some rune → isSeparator unicode rune.char = true) ∧
    (∀ rune, after.head? = some rune → isSeparator unicode rune.char = true) ∧
    word = run.flatMap Rune.bytes

/-- An open field extends over the following code points up to a separator. -/
theorem fieldsLoop_some
    (separator : Char → Bool)
    (run after : List Rune)
    (span : Bytes)
    (inside : ∀ rune ∈ run, separator rune.char = false)
    (stop : ∀ rune, after.head? = some rune → separator rune.char = true) :
    span ++ run.flatMap Rune.bytes ∈
      fieldsLoop separator (run ++ after) (some span) := by
  induction run generalizing span with
  | nil =>
      cases after with
      | nil => simp [fieldsLoop]
      | cons rune after =>
          simp [fieldsLoop, stop rune rfl]
  | cons rune run inductionHypothesis =>
      rw [List.cons_append, fieldsLoop, if_neg (by
        rw [inside rune List.mem_cons_self]
        decide), List.flatMap_cons, ← List.append_assoc]
      exact inductionHypothesis _ fun other member =>
        inside other (List.mem_cons_of_mem _ member)

/-- Every maximal run of non-separators is emitted as a field. -/
theorem mem_fieldsLoop
    (separator : Char → Bool)
    (before run after : List Rune)
    (open? : Option Bytes)
    (closed : before = [] → open? = none)
    (edge : ∀ rune, before.getLast? = some rune → separator rune.char = true)
    (nonempty : run ≠ [])
    (inside : ∀ rune ∈ run, separator rune.char = false)
    (stop : ∀ rune, after.head? = some rune → separator rune.char = true) :
    run.flatMap Rune.bytes ∈
      fieldsLoop separator (before ++ run ++ after) open? := by
  induction before generalizing open? with
  | nil =>
      obtain rfl := closed rfl
      cases run with
      | nil => exact absurd rfl nonempty
      | cons rune run =>
          rw [List.nil_append, List.cons_append, fieldsLoop, if_neg (by
            rw [inside rune List.mem_cons_self]
            decide), List.flatMap_cons]
          exact fieldsLoop_some separator run after rune.bytes
            (fun other member => inside other (List.mem_cons_of_mem _ member)) stop
  | cons rune before inductionHypothesis =>
      have laterEdge : ∀ other, before.getLast? = some other →
          separator other.char = true := by
        intro other last
        apply edge other
        rw [List.getLast?_cons, last]
        rfl
      have closes : before = [] → separator rune.char = true := by
        rintro rfl
        exact edge rune rfl
      rw [List.cons_append, List.cons_append]
      cases open? with
      | none =>
          rw [fieldsLoop]
          split
          next =>
            exact inductionHypothesis none (fun _ => rfl) laterEdge
          next continues =>
            exact inductionHypothesis _
              (fun empty => absurd (closes empty) continues) laterEdge
      | some span =>
          rw [fieldsLoop]
          split
          next =>
            exact List.mem_cons_of_mem _
              (inductionHypothesis none (fun _ => rfl) laterEdge)
          next continues =>
            exact inductionHypothesis _
              (fun empty => absurd (closes empty) continues) laterEdge

theorem mem_fieldsFunc_of_isWord
    {unicode : UnicodeTables}
    {text word : Bytes}
    (isWord : IsWord unicode text word) :
    word ∈ fieldsFunc text (isSeparator unicode) := by
  obtain ⟨before, run, after, split, nonempty, inside, edge, stop, rfl⟩ := isWord
  rw [fieldsFunc, split]
  exact mem_fieldsLoop _ before run after none (fun _ => rfl) edge nonempty
    inside stop

/-- A byte string put together from code points of a kind. -/
def Composed (kind : Rune → Prop) (bytes : Bytes) : Prop :=
  ∃ run : List Rune, (∀ rune ∈ run, kind rune) ∧ bytes = run.flatMap Rune.bytes

theorem Composed.append
    {kind : Rune → Prop}
    {span : Bytes}
    {rune : Rune}
    (composed : Composed kind span)
    (ofKind : kind rune) : Composed kind (span ++ rune.bytes) := by
  obtain ⟨run, allOfKind, rfl⟩ := composed
  refine ⟨run ++ [rune], ?_, by simp⟩
  exact List.forall_mem_append.mpr ⟨allOfKind, List.forall_mem_singleton.mpr ofKind⟩

/-- A field is put together from non-separators, if the open one is. -/
theorem composed_of_mem_fieldsLoop
    {separator : Char → Bool}
    {kind : Rune → Prop}
    {rest : List Rune}
    {open? : Option Bytes}
    {field : Bytes}
    (kept : ∀ rune ∈ rest, separator rune.char = false → kind rune)
    (opened : ∀ span, open? = some span → Composed kind span)
    (member : field ∈ fieldsLoop separator rest open?) : Composed kind field := by
  induction rest generalizing open? with
  | nil =>
      cases open? with
      | none => exact absurd member List.not_mem_nil
      | some span =>
          rw [fieldsLoop, List.mem_singleton] at member
          exact member ▸ opened span rfl
  | cons rune rest inductionHypothesis =>
      obtain ⟨here, later⟩ := List.forall_mem_cons.mp kept
      have closed : ∀ span, none = some span → Composed kind span :=
        fun span impossible => absurd impossible.symm (Option.some_ne_none span)
      cases open? with
      | none =>
          rw [fieldsLoop] at member
          split at member
          next => exact inductionHypothesis later closed member
          next continues =>
            apply inductionHypothesis later _ member
            rintro _ ⟨⟩
            exact ⟨[rune], List.forall_mem_singleton.mpr
              (here (Bool.eq_false_iff.mpr continues)), by simp⟩
      | some span =>
          rw [fieldsLoop] at member
          split at member
          next =>
            rcases List.mem_cons.mp member with rfl | after
            · exact opened field rfl
            · exact inductionHypothesis later closed after
          next continues =>
            apply inductionHypothesis later _ member
            rintro _ ⟨⟩
            exact (opened span rfl).append (here (Bool.eq_false_iff.mpr continues))

/-- Every field is the encoding of a nonempty run of letters and numbers. -/
theorem fieldsFunc_encoded
    {unicode : UnicodeTables}
    {text field : Bytes}
    (member : field ∈ fieldsFunc text (isSeparator unicode)) :
    ∃ run : List Char,
      (∀ char ∈ run, isSeparator unicode char = false) ∧
      field = run.flatMap encode := by
  obtain ⟨run, inside, concatenation⟩ : Composed
      (fun rune => rune ∈ runes text ∧ isSeparator unicode rune.char = false) field :=
    composed_of_mem_fieldsLoop (fun _ present kept => ⟨present, kept⟩)
      (fun _ impossible => absurd impossible.symm (Option.some_ne_none _)) member
  refine ⟨run.map Rune.char, ?_, ?_⟩
  · simp only [List.mem_map, forall_exists_index, and_imp,
      forall_apply_eq_imp_iff₂]
    exact fun rune present => (inside rune present).2
  · rw [concatenation, List.flatMap_map]
    apply List.flatMap_congr
    intro rune present
    apply bytes_eq_encode (inside rune present).1
    intro invalid
    have separates := (inside rune present).2
    rw [invalid, isSeparator, unicode.isLetter_replacement,
      unicode.isNumber_replacement] at separates
    exact absurd separates (by decide)

/-! ## Tokens -/

variable {unicode}

variable (unicode) in
/-- The lower-cased words of 2 to 64 bytes. -/
def terms (words : List Bytes) : List Bytes :=
  (words.filter fun word => 2 ≤ word.length ∧ word.length ≤ 64).map (toLower unicode)

theorem terms_append (before after : List Bytes) :
    terms unicode (before ++ after) = terms unicode before ++ terms unicode after := by
  rw [terms, List.filter_append, List.map_append]
  rfl

theorem foldl_addToken_eq_eraseDups (words : List Bytes) :
    words.foldl (addToken unicode) [] = (terms unicode words).eraseDups := by
  induction words using List.reverseRecOn with
  | nil => rfl
  | append_singleton words word inductionHypothesis =>
      rw [List.foldl_append, List.foldl_cons, List.foldl_nil, inductionHypothesis,
        terms_append, addToken]
      split
      next dropped =>
        have none : terms unicode [word] = [] := by
          rw [terms, List.filter_cons_of_neg (by simp; omega)]
          rfl
        rw [none, List.append_nil]
      next sized =>
        have one : terms unicode [word] = [toLower unicode word] := by
          rw [terms, List.filter_cons_of_pos (by simp; omega)]
          rfl
        rw [one, FirstOccurrence.eraseDups_concat]
        simp only [List.mem_eraseDups]

/-- The tokens are the lower-cased words of the right size without repetitions. -/
theorem tokenize_eq_eraseDups (payload : Bytes) :
    tokenize unicode payload =
      (terms unicode (fieldsFunc payload (isSeparator unicode))).eraseDups :=
  foldl_addToken_eq_eraseDups _

theorem mem_terms {words : List Bytes} {term : Bytes} :
    term ∈ terms unicode words ↔
      ∃ word ∈ words,
        2 ≤ word.length ∧ word.length ≤ 64 ∧ term = toLower unicode word := by
  simp only [terms, List.mem_map, List.mem_filter, decide_eq_true_eq, and_assoc,
    eq_comm (a := term)]

/-- The tokens are the lower-cased fields of 2 to 64 bytes. -/
theorem mem_tokenize {payload term : Bytes} :
    term ∈ tokenize unicode payload ↔
      ∃ word ∈ fieldsFunc payload (isSeparator unicode),
        2 ≤ word.length ∧ word.length ≤ 64 ∧ term = toLower unicode word := by
  rw [tokenize_eq_eraseDups, List.mem_eraseDups, mem_terms]

/-- No token is listed twice. -/
theorem nodup_tokenize (payload : Bytes) : (tokenize unicode payload).Nodup := by
  rw [tokenize_eq_eraseDups]
  exact FirstOccurrence.nodup_eraseDups _

/-- Lower-casing an encoded text lower-cases its code points. -/
theorem toLower_flatMap_encode (run : List Char) :
    toLower unicode (run.flatMap encode) =
      (run.map unicode.toLower).flatMap encode := by
  rw [toLower, runes_flatMap_encode, List.flatMap_map, List.flatMap_map]

/-- Words contain no NUL byte. -/
theorem zero_notMem_of_isWord
    {unicode : UnicodeTables}
    {text word : Bytes}
    (isWord : IsWord unicode text word) : (0x00 : UInt8) ∉ word := by
  obtain ⟨run, inside, rfl⟩ := fieldsFunc_encoded (mem_fieldsFunc_of_isWord isWord)
  rw [List.mem_flatMap]
  rintro ⟨char, present, zero⟩
  refine zero_notMem_encode ?_ zero
  rintro rfl
  have separates := inside _ present
  rw [isSeparator, unicode.isLetter_ascii _ (by decide),
    unicode.isNumber_ascii _ (by decide)] at separates
  exact absurd separates (by decide)

/-- Tokens contain no NUL byte. -/
theorem zero_notMem_of_mem_tokenize
    {payload term : Bytes}
    (member : term ∈ tokenize unicode payload) : (0x00 : UInt8) ∉ term := by
  obtain ⟨word, field, _, _, rfl⟩ := mem_tokenize.mp member
  obtain ⟨run, inside, rfl⟩ := fieldsFunc_encoded field
  rw [toLower_flatMap_encode, List.mem_flatMap]
  rintro ⟨lowered, present, zero⟩
  obtain ⟨char, source, rfl⟩ := List.mem_map.mp present
  refine zero_notMem_encode (unicode.toLower_ne_nul char ?_) zero
  have separates := inside char source
  rw [isSeparator, Bool.and_eq_false_iff] at separates
  simpa using separates

/-- Tokens are in lower case already. -/
theorem toLower_of_mem_tokenize
    {payload term : Bytes}
    (member : term ∈ tokenize unicode payload) :
    toLower unicode term = term := by
  obtain ⟨word, field, _, _, rfl⟩ := mem_tokenize.mp member
  obtain ⟨run, _, rfl⟩ := fieldsFunc_encoded field
  rw [toLower_flatMap_encode, toLower_flatMap_encode, List.map_map]
  congr 2
  funext char
  exact unicode.toLower_toLower char

/-- A word is a token as written exactly when it is in lower case and has 2 to
64 bytes. -/
theorem mem_tokenize_of_isWord
    {payload word : Bytes}
    (isWord : IsWord unicode payload word)
    (low : 2 ≤ word.length)
    (high : word.length ≤ 64) :
    word ∈ tokenize unicode payload ↔ toLower unicode word = word := by
  constructor
  · exact toLower_of_mem_tokenize
  · intro lowered
    exact mem_tokenize.mpr
      ⟨word, mem_fieldsFunc_of_isWord isWord, low, high, lowered.symm⟩

end Pipeline
end Chronolog
