import Mathlib.Data.List.Basic

/-!
# Texts divided at the leftmost matches

A pattern takes some symbols from the beginning of a text or does not match
there.  A text is divided at the leftmost matches, each found behind the one
before; splitting a text yields this division.  A test that goes on where its
last match ended still tells the matches from the gaps.
-/

/-- How much a pattern takes from the beginning of a text, where it matches. -/
abbrev TextPattern (α : Type*) := List α → Option Nat

namespace TextPattern

variable {α : Type*}

/-! ## Splitting and testing -/

/-- `split`, after skipping what belongs to the last match; `piece` is the current
gap as far as it was read, and `captures` are the groups of a match.  The pattern
does not match the empty text. -/
def splitFrom (pattern : TextPattern α) (captures : List α → List (List α)) :
    Nat → List α → List α → List (List α)
  | _, piece, [] => [piece]
  | skip + 1, piece, _ :: rest => splitFrom pattern captures skip piece rest
  | 0, piece, head :: rest =>
      match pattern (head :: rest) with
      | some size =>
          piece :: (captures ((head :: rest).take size) ++
            splitFrom pattern captures (size - 1) [] rest)
      | none => splitFrom pattern captures 0 (piece ++ [head]) rest

/-- The gaps between the matches, with the groups of the matches in between. -/
def split (pattern : TextPattern α) (captures : List α → List (List α))
    (text : List α) : List (List α) :=
  splitFrom pattern captures 0 [] text

/-- Where the first match in a text ends. -/
def firstEnd (pattern : TextPattern α) : List α → Option Nat
  | [] => pattern []
  | head :: rest =>
      match pattern (head :: rest) with
      | some size => some size
      | none => (firstEnd pattern rest).map Nat.succ

/-- `test` of a global pattern: whether it matches from `lastIndex` on, and the
`lastIndex` it leaves. -/
def test (pattern : TextPattern α) (lastIndex : Nat) (text : List α) : Bool × Nat :=
  if text.length < lastIndex then (false, 0)
  else
    match firstEnd pattern (text.drop lastIndex) with
    | some size => (true, lastIndex + size)
    | none => (false, 0)

/-! ## The division of a text -/

/-- A part of a text, marked or not. -/
structure Piece (α : Type*) where
  marked : Bool
  text : List α

/-- No match starts inside a gap. -/
def Silent (pattern : TextPattern α) (gap rest : List α) : Prop :=
  ∀ behind, behind <:+ gap → behind ≠ [] → pattern (behind ++ rest) = none

/-- The division of a text at its leftmost matches, which are marked: up to the
first match no match starts, and the search goes on behind it. -/
inductive Divided (pattern : TextPattern α) : List α → List (Piece α) → Prop
  | gap {gap : List α} (silent : Silent pattern gap []) :
      Divided pattern gap [⟨false, gap⟩]
  | hit {gap hit rest : List α} {division : List (Piece α)}
      (silent : Silent pattern gap (hit ++ rest))
      (matched : pattern (hit ++ rest) = some hit.length)
      (divided : Divided pattern rest division) :
      Divided pattern (gap ++ (hit ++ rest)) (⟨false, gap⟩ :: ⟨true, hit⟩ :: division)

/-- Pieces that are marked in turn. -/
def inTurn : Bool → List (List α) → List (Piece α)
  | _, [] => []
  | marked, text :: texts => ⟨marked, text⟩ :: inTurn (!marked) texts

/-- A pattern takes at least one symbol, and what it takes depends on nothing
behind it: a match stays one when the text is cut there or goes on. -/
structure Local (pattern : TextPattern α) : Prop where
  pos : ∀ {text size}, pattern text = some size → 0 < size
  le_length : ∀ {text size}, pattern text = some size → size ≤ text.length
  cut : ∀ {text size}, pattern text = some size → pattern (text.take size) = some size
  extend : ∀ {front} (rest : List α), pattern (front ++ rest) = none → pattern front = none

variable {pattern : TextPattern α} {gap hit text rest : List α}

theorem Local.nil (isLocal : pattern.Local) : pattern [] = none := by
  by_contra matched
  obtain ⟨size, found⟩ := Option.ne_none_iff_exists'.mp matched
  have pos := isLocal.pos found
  have bound := isLocal.le_length found
  exact absurd (Nat.lt_of_lt_of_le pos bound) (Nat.lt_irrefl 0)

theorem Local.hit_ne_nil
    (isLocal : pattern.Local)
    (matched : pattern text = some hit.length) : hit ≠ [] :=
  List.ne_nil_of_length_pos (isLocal.pos matched)

theorem silent_nil (pattern : TextPattern α) (rest : List α) : Silent pattern [] rest := by
  intro behind suffix nonempty
  exact absurd (List.suffix_nil.mp suffix) nonempty

/-- A gap grows by a symbol at which no match starts. -/
theorem Silent.concat
    {head : α}
    (silent : Silent pattern gap (head :: rest))
    (unmatched : pattern (head :: rest) = none) : Silent pattern (gap ++ [head]) rest := by
  intro behind suffix nonempty
  rcases List.suffix_concat_iff.mp suffix with empty | ⟨front, rfl, inGap⟩
  · exact absurd empty nonempty
  · rw [List.append_assoc, List.singleton_append]
    by_cases empty : front = []
    · rw [empty]
      exact unmatched
    · exact silent front inGap empty

/-- A gap holds no match on its own. -/
theorem Silent.alone
    (isLocal : pattern.Local)
    (silent : Silent pattern gap rest) : Silent pattern gap [] := by
  intro behind suffix nonempty
  rw [List.append_nil]
  exact isLocal.extend rest (silent behind suffix nonempty)

/-- The pieces make up the text. -/
theorem Divided.flatMap_text
    {division : List (Piece α)}
    (divided : Divided pattern text division) : division.flatMap Piece.text = text := by
  induction divided with
  | gap => exact List.flatMap_singleton _ _
  | hit _ _ _ inductionHypothesis =>
      rw [List.flatMap_cons, List.flatMap_cons, inductionHypothesis]

/-- A gap in front of a match is the same gap in front of another match. -/
theorem Silent.gap_eq
    {otherGap otherRest : List α}
    (same : gap ++ rest = otherGap ++ otherRest)
    (silent : Silent pattern gap rest)
    (otherSilent : Silent pattern otherGap otherRest)
    (matched : pattern rest ≠ none)
    (otherMatched : pattern otherRest ≠ none) : gap = otherGap := by
  rcases List.append_eq_append_iff.mp same with ⟨more, rfl, rfl⟩ | ⟨more, rfl, rfl⟩
  · by_cases empty : more = []
    · rw [empty, List.append_nil]
    · exact absurd (otherSilent more (List.suffix_append _ _) empty) matched
  · by_cases empty : more = []
    · rw [empty, List.append_nil]
    · exact absurd (silent more (List.suffix_append _ _) empty) otherMatched

/-- A text without a match, or one with a first match. -/
theorem Divided.cases_text
    {division : List (Piece α)}
    (divided : Divided pattern text division) :
    (division = [⟨false, text⟩] ∧ Silent pattern text []) ∨
      ∃ gap hit rest later,
        text = gap ++ (hit ++ rest) ∧
        division = ⟨false, gap⟩ :: ⟨true, hit⟩ :: later ∧
        Silent pattern gap (hit ++ rest) ∧
        pattern (hit ++ rest) = some hit.length ∧
        Divided pattern rest later := by
  cases divided with
  | gap silent => exact Or.inl ⟨rfl, silent⟩
  | hit silent matched divided =>
      exact Or.inr ⟨_, _, _, _, rfl, rfl, silent, matched, divided⟩

/-- Where a match starts the text is not silent. -/
theorem Silent.not_matched
    (silent : Silent pattern (gap ++ text) [])
    (nonempty : text ≠ []) : pattern text = none := by
  have unmatched := silent text (List.suffix_append _ _) nonempty
  rwa [List.append_nil] at unmatched

/-- A text has one division. -/
theorem Divided.unique
    (isLocal : pattern.Local)
    {division other : List (Piece α)}
    (divided : Divided pattern text division)
    (otherDivided : Divided pattern text other) : division = other := by
  induction divided generalizing other with
  | @gap gap silent =>
      rcases otherDivided.cases_text with
        ⟨rfl, _⟩ | ⟨otherGap, otherHit, otherRest, _, rfl, _, _, otherMatched, _⟩
      · rfl
      · have nonempty : otherHit ++ otherRest ≠ [] :=
          List.append_ne_nil_of_left_ne_nil (isLocal.hit_ne_nil otherMatched) _
        rw [silent.not_matched nonempty] at otherMatched
        exact nomatch otherMatched
  | @hit gap hit rest division silent matched divided inductionHypothesis =>
      rcases otherDivided.cases_text with
        ⟨_, otherSilent⟩ | ⟨otherGap, otherHit, otherRest, later, same, rfl, otherSilent,
          otherMatched, otherLater⟩
      · have nonempty : hit ++ rest ≠ [] :=
          List.append_ne_nil_of_left_ne_nil (isLocal.hit_ne_nil matched) _
        rw [otherSilent.not_matched nonempty] at matched
        exact nomatch matched
      · obtain rfl := Silent.gap_eq same silent otherSilent
          (by rw [matched]; exact Option.some_ne_none _)
          (by rw [otherMatched]; exact Option.some_ne_none _)
        have behind := List.append_cancel_left same
        have size : hit.length = otherHit.length := by
          rw [behind, otherMatched] at matched
          exact (Option.some.inj matched).symm
        obtain ⟨rfl, rfl⟩ := List.append_inj behind size
        rw [inductionHypothesis otherLater]

/-! ## Splitting -/

/-- The scan divides the rest of the text when the gap read so far is silent. -/
theorem divided_splitFrom
    (isLocal : pattern.Local)
    (skip : Nat)
    {piece text : List α}
    (silent : Silent pattern piece (text.drop skip)) :
    Divided pattern (piece ++ text.drop skip)
      (inTurn false (splitFrom pattern (fun hit => [hit]) skip piece text)) := by
  induction text generalizing skip piece with
  | nil =>
      have none : splitFrom pattern (fun hit => [hit]) skip piece [] = [piece] := by
        cases skip <;> rfl
      rw [List.drop_nil] at silent ⊢
      rw [none, List.append_nil]
      exact .gap silent
  | cons head rest inductionHypothesis =>
      cases skip with
      | succ skip => exact inductionHypothesis skip silent
      | zero =>
          rw [List.drop_zero] at silent ⊢
          rw [splitFrom]
          split
          next size matched =>
            -- The match is captured, and the next gap starts behind it.
            obtain ⟨size, rfl⟩ := Nat.exists_eq_add_one.mpr (isLocal.pos matched)
            have length : ((head :: rest).take (size + 1)).length = size + 1 :=
              List.length_take_of_le (isLocal.le_length matched)
            have cut : (head :: rest).take (size + 1) ++ rest.drop size = head :: rest :=
              List.take_append_drop (size + 1) (head :: rest)
            have later := inductionHypothesis size (silent_nil pattern (rest.drop size))
            rw [← cut] at silent matched
            have divided := Divided.hit silent (matched.trans (congrArg some length.symm)) later
            rw [cut] at divided
            exact divided
          next unmatched =>
            have grown := inductionHypothesis 0 (silent.concat unmatched)
            rwa [List.drop_zero, List.append_assoc] at grown

/-- What `split` returns, with the captured matches in every second place, is the
division of the text. -/
theorem divided_split (isLocal : pattern.Local) (text : List α) :
    Divided pattern text (inTurn false (split pattern (fun hit => [hit]) text)) :=
  divided_splitFrom isLocal 0 (silent_nil pattern text)

theorem map_text_inTurn (marked : Bool) (texts : List (List α)) :
    (inTurn marked texts).map Piece.text = texts := by
  induction texts generalizing marked with
  | nil => rfl
  | cons text texts inductionHypothesis =>
      rw [inTurn, List.map_cons, inductionHypothesis]

/-! ## Testing the pieces -/

theorem firstEnd_of_silent
    (isLocal : pattern.Local)
    (silent : Silent pattern text []) : firstEnd pattern text = none := by
  induction text with
  | nil => exact isLocal.nil
  | cons head rest inductionHypothesis =>
      have whole : Silent pattern ([] ++ head :: rest) [] := silent
      have here := whole.not_matched (List.cons_ne_nil _ _)
      have later : Silent pattern rest [] := fun behind suffix =>
        silent behind (suffix.trans (List.suffix_cons _ _))
      rw [firstEnd, here]
      dsimp only
      rw [inductionHypothesis later]
      rfl

/-- Wherever the last match ended, a gap does not match and the search starts
again. -/
theorem test_gap
    (isLocal : pattern.Local)
    (lastIndex : Nat)
    (silent : Silent pattern gap []) : test pattern lastIndex gap = (false, 0) := by
  have behind : Silent pattern (gap.drop lastIndex) [] := fun behind suffix =>
    silent behind (suffix.trans (List.drop_suffix _ _))
  rw [test, firstEnd_of_silent isLocal behind]
  split <;> rfl

/-- A match matches as a whole on its own. -/
theorem test_hit
    (isLocal : pattern.Local)
    (matched : pattern (hit ++ rest) = some hit.length) :
    test pattern 0 hit = (true, hit.length) := by
  have alone := isLocal.cut matched
  rw [List.take_left] at alone
  obtain ⟨head, tail, rfl⟩ := List.exists_cons_of_ne_nil (isLocal.hit_ne_nil matched)
  rw [test, if_neg (Nat.not_lt_zero _), List.drop_zero, firstEnd, alone]
  dsimp only
  rw [Nat.zero_add]

end TextPattern
