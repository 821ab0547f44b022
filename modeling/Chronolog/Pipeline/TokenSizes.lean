import Chronolog.Pipeline.Tokenizer

/-!
# Sizes of tokens

The size test looks at a word as it was written, but its token is the word in
lower case, and some letters change their size with their case.  A token is as
long as the lower-case letters of its word together.
-/

namespace Chronolog
namespace Pipeline

open Utf8

variable {unicode : UnicodeTables}

/-! ## Fields are words -/

/-- A maximal run of code points that are no separators. -/
def IsRun (separator : Char → Bool) (text run : List Rune) : Prop :=
  ∃ before after,
    text = before ++ run ++ after ∧
    run ≠ [] ∧
    (∀ rune ∈ run, separator rune.char = false) ∧
    (∀ rune, before.getLast? = some rune → separator rune.char = true) ∧
    (∀ rune, after.head? = some rune → separator rune.char = true)

/-- Every field is a maximal run; `before` is what was read in front of the open
field. -/
theorem isRun_of_mem_fieldsLoop
    {separator : Char → Bool}
    (before inside : List Rune)
    {rest : List Rune}
    {open? : Option Bytes}
    {field : Bytes}
    (opened : open? = if inside = [] then none else some (inside.flatMap Rune.bytes))
    (edge : ∀ rune, before.getLast? = some rune → separator rune.char = true)
    (kept : ∀ rune ∈ inside, separator rune.char = false)
    (member : field ∈ fieldsLoop separator rest open?) :
    ∃ run, IsRun separator (before ++ inside ++ rest) run ∧
      field = run.flatMap Rune.bytes := by
  induction rest generalizing before inside open? with
  | nil =>
      subst opened
      split at member
      next => exact absurd member List.not_mem_nil
      next nonempty =>
        rw [fieldsLoop, List.mem_singleton] at member
        exact ⟨inside, ⟨before, [], rfl, nonempty, kept, edge,
          fun _ first => absurd first.symm (Option.some_ne_none _)⟩, member⟩
  | cons rune rest inductionHypothesis =>
      -- Behind a separator the next field starts with nothing open.
      have behind : separator rune.char = true → field ∈ fieldsLoop separator rest none →
          ∃ run, IsRun separator (before ++ inside ++ rune :: rest) run ∧
            field = run.flatMap Rune.bytes := by
        intro separates later
        have found := inductionHypothesis (before ++ inside ++ [rune]) []
          (if_pos rfl).symm (by simpa using separates) (by simp) later
        simpa using found
      -- The open field grows by one code point.
      have grows : separator rune.char = false →
          field ∈ fieldsLoop separator rest (some ((inside ++ [rune]).flatMap Rune.bytes)) →
          ∃ run, IsRun separator (before ++ inside ++ rune :: rest) run ∧
            field = run.flatMap Rune.bytes := by
        intro joins later
        have found := inductionHypothesis before (inside ++ [rune]) (by simp) edge
          (List.forall_mem_append.mpr ⟨kept, List.forall_mem_singleton.mpr joins⟩) later
        simpa using found
      subst opened
      split at member
      next empty =>
        rw [fieldsLoop] at member
        split at member
        next separates => exact behind separates member
        next joins =>
          refine grows (Bool.eq_false_iff.mpr joins) ?_
          rw [empty]
          simpa using member
      next nonempty =>
        rw [fieldsLoop] at member
        split at member
        next separates =>
          rcases List.mem_cons.mp member with rfl | later
          · refine ⟨inside, ⟨before, rune :: rest, rfl, nonempty, kept, edge, ?_⟩, rfl⟩
            rintro _ ⟨⟩
            exact separates
          · exact behind separates later
        next joins =>
          refine grows (Bool.eq_false_iff.mpr joins) ?_
          simpa using member

theorem isWord_of_mem_fieldsFunc
    {text word : Bytes}
    (member : word ∈ fieldsFunc text (isSeparator unicode)) :
    IsWord unicode text word := by
  obtain ⟨run, ⟨before, after, split, nonempty, kept, edge, stop⟩, rfl⟩ :=
    isRun_of_mem_fieldsLoop [] [] (if_pos rfl).symm nofun nofun member
  exact ⟨before, run, after, split, nonempty, kept, edge, stop, rfl⟩

/-- The words of a text are its fields. -/
theorem isWord_iff_mem_fieldsFunc {text word : Bytes} :
    IsWord unicode text word ↔ word ∈ fieldsFunc text (isSeparator unicode) :=
  ⟨mem_fieldsFunc_of_isWord, isWord_of_mem_fieldsFunc⟩

/-! ## Sizes in lower case -/

variable (unicode) in
/-- The bytes of some letters in lower case. -/
def lowerSize (run : List Char) : Nat :=
  (run.map fun char => (unicode.toLower char).utf8Size).sum

theorem length_toLower_encode (run : List Char) :
    (toLower unicode (run.flatMap encode)).length = lowerSize unicode run := by
  rw [toLower_flatMap_encode, List.length_flatMap, List.map_map, lowerSize]
  congr 1
  apply List.map_congr_left
  intro char _
  exact length_encode _

variable (unicode) in
/-- Every letter has a byte in lower case. -/
theorem length_le_lowerSize (run : List Char) : run.length ≤ lowerSize unicode run := by
  induction run with
  | nil => exact Nat.le_refl 0
  | cons char run inductionHypothesis =>
      have one := (unicode.toLower char).utf8Size_pos
      rw [lowerSize] at inductionHypothesis
      rw [lowerSize, List.map_cons, List.sum_cons, List.length_cons]
      omega

theorem two_le_utf8Size_iff (char : Char) : 2 ≤ char.utf8Size ↔ 128 ≤ char.val.toNat := by
  have bound : ∀ limit : UInt32, char.val ≤ limit ↔ char.val.toNat ≤ limit.toNat :=
    fun _ => UInt32.le_iff_toNat_le
  rw [Char.utf8Size]
  split
  next ascii =>
    rw [bound] at ascii
    have : char.val.toNat ≤ 127 := ascii
    omega
  next wide =>
    rw [bound] at wide
    have : ¬ char.val.toNat ≤ 127 := wide
    split
    · omega
    · split <;> omega

variable (unicode) in
/-- The sizes of the tokens of a payload are within the limits. -/
def TokensSized (payload : Bytes) : Prop :=
  ∀ term ∈ tokenize unicode payload, 2 ≤ term.length ∧ term.length ≤ 64

variable (unicode) in
/-- No word of a payload is a letter outside of ASCII with an ASCII lower case,
and no word of 2 to 64 bytes outgrows 64 bytes in lower case. -/
structure LowerCaseFits (payload : Bytes) : Prop where
  noShrunkLetter : ∀ char, IsWord unicode payload (encode char) → 128 ≤ char.val.toNat →
    128 ≤ (unicode.toLower char).val.toNat
  noGrownWord : ∀ run : List Char, IsWord unicode payload (run.flatMap encode) →
    2 ≤ (run.flatMap encode).length → (run.flatMap encode).length ≤ 64 →
      lowerSize unicode run ≤ 64

/-- A word other than a single letter keeps at least two bytes. -/
theorem two_le_lowerSize
    {payload : Bytes}
    {run : List Char}
    (fits : LowerCaseFits unicode payload)
    (isWord : IsWord unicode payload (run.flatMap encode))
    (low : 2 ≤ (run.flatMap encode).length) : 2 ≤ lowerSize unicode run := by
  match run with
  | [] => exact low
  | [char] =>
      rw [List.flatMap_singleton] at isWord low
      rw [length_encode, two_le_utf8Size_iff] at low
      have wide := (two_le_utf8Size_iff _).mpr (fits.noShrunkLetter char isWord low)
      rw [lowerSize, List.map_singleton, List.sum_singleton]
      exact wide
  | first :: second :: rest =>
      refine Nat.le_trans ?_ (length_le_lowerSize unicode _)
      rw [List.length_cons, List.length_cons]
      omega

/-- The tokens respect the size limits exactly when the words do so in lower
case. -/
theorem tokensSized_iff (unicode : UnicodeTables) (payload : Bytes) :
    TokensSized unicode payload ↔ LowerCaseFits unicode payload := by
  constructor
  · intro sized
    have tokenSize : ∀ run : List Char, IsWord unicode payload (run.flatMap encode) →
        2 ≤ (run.flatMap encode).length → (run.flatMap encode).length ≤ 64 →
          2 ≤ lowerSize unicode run ∧ lowerSize unicode run ≤ 64 := by
      intro run isWord low high
      rw [← length_toLower_encode]
      exact sized _ (mem_tokenize.mpr ⟨_, isWord_iff_mem_fieldsFunc.mp isWord, low, high, rfl⟩)
    refine ⟨fun char isWord wide => ?_, fun run isWord low high => ?_⟩
    · have single : [char].flatMap encode = encode char := List.flatMap_singleton _ _
      have size : (encode char).length = char.utf8Size := length_encode char
      have low := (tokenSize [char] (by rwa [single])
        (by rw [single, size]; exact (two_le_utf8Size_iff char).mpr wide)
        (by rw [single, size]; exact Nat.le_trans char.utf8Size_le_four (by decide))).1
      rw [lowerSize, List.map_singleton, List.sum_singleton] at low
      exact (two_le_utf8Size_iff _).mp low
    · exact (tokenSize run isWord low high).2
  · intro fits term member
    obtain ⟨word, field, low, high, rfl⟩ := mem_tokenize.mp member
    have isWord := isWord_iff_mem_fieldsFunc.mpr field
    obtain ⟨run, _, rfl⟩ := fieldsFunc_encoded field
    rw [length_toLower_encode]
    exact ⟨two_le_lowerSize fits isWord low, fits.noGrownWord run isWord low high⟩

/-! ## The Kelvin sign -/

/-- The ASCII tables and one more letter, U+212A, whose lower case is `k`. -/
def kelvinTables : UnicodeTables where
  isLetter char := char.isAlpha || char == '\u212A'
  isNumber := Char.isDigit
  toLower char := if char = '\u212A' then 'k' else char.toLower
  isLetter_ascii char ascii := by
    have other : (char == '\u212A') = false := by
      rw [beq_eq_false_iff_ne]
      rintro rfl
      exact absurd ascii (by decide)
    rw [other, Bool.or_false]
  isNumber_ascii := asciiTables.isNumber_ascii
  toLower_ascii char ascii := by
    rw [if_neg]
    rintro rfl
    exact absurd ascii (by decide)
  isLetter_replacement := by decide
  isNumber_replacement := asciiTables.isNumber_replacement
  toLower_ne_nul char word := by
    split
    next => decide
    next other =>
      apply toLower_ne_nul_ascii
      simpa [other] using word
  toLower_toLower char := by
    by_cases kelvin : char = '\u212A'
    · rw [if_pos kelvin]
      decide
    · rw [if_neg kelvin, if_neg, toLower_toLower_ascii]
      unfold Char.toLower
      split
      next upper =>
        intro same
        have code := congrArg (fun char : Char => char.val.toNat) same
        simp [UInt32.le_iff_toNat_le] at upper code
        omega
      next => exact kelvin

/-- A Kelvin sign alone has a token of one byte. -/
theorem kelvin_token_short :
    ¬ ∀ (unicode : UnicodeTables) (payload : Bytes), TokensSized unicode payload := by
  intro claim
  have token : [0x6B] ∈ tokenize kelvinTables [0xE2, 0x84, 0xAA] := by
    decide +kernel
  exact absurd (claim _ _ _ token).1 (by decide)

end Pipeline
end Chronolog
