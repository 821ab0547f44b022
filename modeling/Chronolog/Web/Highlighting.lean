import Chronolog.Foundation.LeftmostMatches
import Chronolog.Web.App
import Mathlib.Data.List.Forall2

/-!
# Highlighted matches

The log viewer splits a message at the terms of the query and asks the same
pattern about every piece.  The pattern is global, so each answer depends on
where the match before it ended.  It marks the captured matches all the same,
because a gap sends it back to the start.
-/

namespace Chronolog
namespace Web

open TextPattern

/-! ## Code units -/

/-- A JavaScript string.  A dot of a pattern takes one code unit, which may be
half a character. -/
abbrev CodeUnits := List UInt16

/-- The code units of a text. -/
def codeUnits (text : Text) : CodeUnits :=
  text.flatMap fun char =>
    let code := char.toNat
    if code < 0x10000 then [UInt16.ofNat code]
    else
      [UInt16.ofNat (0xD800 + (code - 0x10000) / 0x400),
        UInt16.ofNat (0xDC00 + (code - 0x10000) % 0x400)]

/-- The character of a code unit, and U+0000 for a surrogate, which is no blank, no
line break and no part of a term either. -/
def unitChar (unit : UInt16) : Char := Char.ofNat unit.toNat

/-! ## The terms of a query -/

/-- `/\s+/` -/
def blanksRe : TextPattern UInt16 := fun text =>
  let blanks := text.takeWhile fun unit => isSpace (unitChar unit)
  if blanks = [] then none else some blanks.length

/-- `/[a-z0-9_\-.]/i` -/
def isTermUnit (unit : UInt16) : Bool :=
  isWord (unitChar unit) || unitChar unit == '-' || unitChar unit == '.'

/-- The plain terms of a query: what is left of its words, if it is long enough. -/
def plainTerms (query : CodeUnits) : List CodeUnits :=
  ((split blanksRe (fun _ => []) query).map fun word => word.filter isTermUnit).filter
    fun term => 2 < term.length

/-- What the flag `i` compares.  Terms are ASCII, and no other code unit folds to
an ASCII one. -/
def canonicalize (unit : UInt16) : UInt16 :=
  if 0x61 ≤ unit ∧ unit ≤ 0x7A then unit - 0x20 else unit

/-- A character of a term as a pattern: `.` takes anything but a line break. -/
def matchesUnit (expected unit : UInt16) : Bool :=
  if unitChar expected = '.' then !isLineTerminator (unitChar unit)
  else canonicalize expected == canonicalize unit

/-- A term as a pattern at the beginning of a text. -/
def matchesTerm : CodeUnits → CodeUnits → Bool
  | [], _ => true
  | _ :: _, [] => false
  | expected :: term, unit :: text => matchesUnit expected unit && matchesTerm term text

/-- `(…|…|…)`, the first term that matches preferred. -/
def regex (terms : List CodeUnits) : TextPattern UInt16 := fun text =>
  (terms.find? fun term => matchesTerm term text).map List.length

/-! ## Highlighting -/

/-- A child of the message cell: a text, or
`<mark key={i} className="match-highlight">`. -/
inductive Node
  | text (part : CodeUnits)
  | mark (key : Nat) (part : CodeUnits)
  deriving DecidableEq

/-- What `highlightText` returns: the text itself, or an array. -/
inductive Highlighted
  | plain (text : CodeUnits)
  | parts (nodes : List Node)
  deriving DecidableEq

/-- One piece after the other is tested, and the pattern keeps its `lastIndex`,
which `split` has left at zero. -/
def markParts (regex : TextPattern UInt16) (lastIndex i : Nat) : List CodeUnits → List Node
  | [] => []
  | part :: parts =>
      let (matched, next) := test regex lastIndex part
      (if matched then .mark i part else .text part) :: markParts regex next (i + 1) parts

/-- `highlightText` -/
def highlightText (text query : CodeUnits) : Highlighted :=
  if query = [] ∨ text = [] then .plain text
  else
    let terms := plainTerms query
    if terms = [] then .plain text
    else .parts (markParts (regex terms) 0 0 (split (regex terms) (fun hit => [hit]) text))

def Node.piece : Node → Piece UInt16
  | .text part => ⟨false, part⟩
  | .mark _ part => ⟨true, part⟩

/-- The pieces of what is shown. -/
def Highlighted.pieces : Highlighted → List (Piece UInt16)
  | .plain text => [⟨false, text⟩]
  | .parts nodes => nodes.map Node.piece

/-! ## The pattern of the terms -/

/-- A term matches one code unit after the other. -/
theorem matchesTerm_iff {term text : CodeUnits} :
    matchesTerm term text = true ↔
      ∃ front rest, text = front ++ rest ∧
        List.Forall₂ (fun expected unit => matchesUnit expected unit = true) term front := by
  induction term generalizing text with
  | nil => exact iff_of_true (by rw [matchesTerm]) ⟨[], text, rfl, .nil⟩
  | cons expected term inductionHypothesis =>
      cases text with
      | nil =>
          refine iff_of_false Bool.false_ne_true ?_
          rintro ⟨front, rest, empty, each⟩
          obtain ⟨rfl, _⟩ := List.append_eq_nil_iff.mp empty.symm
          exact nomatch each
      | cons unit text =>
          rw [matchesTerm, Bool.and_eq_true, inductionHypothesis]
          constructor
          · rintro ⟨here, front, rest, rfl, each⟩
            exact ⟨unit :: front, rest, rfl, .cons here each⟩
          · rintro ⟨front, rest, whole, each⟩
            cases each with
            | cons here each =>
                obtain ⟨rfl, rfl⟩ := List.cons.inj whole
                exact ⟨here, _, rest, rfl, each⟩

theorem length_le_of_matchesTerm
    {term text : CodeUnits}
    (matched : matchesTerm term text = true) : term.length ≤ text.length := by
  obtain ⟨front, rest, rfl, each⟩ := matchesTerm_iff.mp matched
  rw [each.length_eq, List.length_append]
  exact Nat.le_add_right _ _

theorem matchesTerm_append
    {term front : CodeUnits}
    (matched : matchesTerm term front = true)
    (rest : CodeUnits) : matchesTerm term (front ++ rest) = true := by
  obtain ⟨taken, behind, rfl, each⟩ := matchesTerm_iff.mp matched
  exact matchesTerm_iff.mpr ⟨taken, behind ++ rest, List.append_assoc _ _ _, each⟩

theorem matchesTerm_take
    {term text : CodeUnits}
    (matched : matchesTerm term text = true) :
    matchesTerm term (text.take term.length) = true := by
  obtain ⟨front, rest, rfl, each⟩ := matchesTerm_iff.mp matched
  rw [each.length_eq, List.take_left]
  exact matchesTerm_iff.mpr ⟨front, [], (List.append_nil _).symm, each⟩

/-- A term takes as many code units as it has, and looks at no others. -/
theorem local_regex
    {terms : List CodeUnits}
    (nonempty : ∀ term ∈ terms, term ≠ []) : (regex terms).Local where
  pos := by
    intro text size matched
    obtain ⟨term, found, rfl⟩ := Option.map_eq_some_iff.mp matched
    exact List.length_pos_iff.mpr (nonempty term (List.mem_of_find?_eq_some found))
  le_length := by
    intro text size matched
    obtain ⟨term, found, rfl⟩ := Option.map_eq_some_iff.mp matched
    exact length_le_of_matchesTerm (List.find?_eq_some_iff_append.mp found).1
  cut := by
    intro text size matched
    obtain ⟨term, found, rfl⟩ := Option.map_eq_some_iff.mp matched
    obtain ⟨here, before, after, split, earlier⟩ := List.find?_eq_some_iff_append.mp found
    have same : terms.find? (fun term' => matchesTerm term' (text.take term.length)) =
        some term := by
      refine List.find?_eq_some_iff_append.mpr
        ⟨matchesTerm_take here, before, after, split, fun other member => ?_⟩
      have unmatched := earlier other member
      rw [Bool.not_eq_true'] at unmatched ⊢
      by_contra short
      have long := matchesTerm_append (Bool.eq_true_of_not_eq_false short)
        (text.drop term.length)
      rw [List.take_append_drop, unmatched] at long
      exact Bool.false_ne_true long
    rw [regex, same]
    rfl
  extend := by
    intro front rest unmatched
    rw [regex, Option.map_eq_none_iff, List.find?_eq_none] at unmatched ⊢
    intro term member matched
    exact unmatched term member (matchesTerm_append matched rest)

theorem length_of_mem_plainTerms
    {query term : CodeUnits}
    (member : term ∈ plainTerms query) : 2 < term.length :=
  of_decide_eq_true (List.mem_filter.mp member).2

theorem local_regex_plainTerms (query : CodeUnits) : (regex (plainTerms query)).Local := by
  apply local_regex
  intro term member
  exact List.ne_nil_of_length_pos (Nat.zero_lt_of_lt (length_of_mem_plainTerms member))

/-! ## The marks -/

/-- Whatever `lastIndex` the tests start with, they mark the matches of a division:
a gap sets it to zero, where the match behind it is found. -/
theorem markParts_divided
    {pattern : TextPattern UInt16}
    (isLocal : pattern.Local)
    {text : CodeUnits}
    {division : List (Piece UInt16)}
    (divided : Divided pattern text division)
    (lastIndex i : Nat) :
    (markParts pattern lastIndex i (division.map Piece.text)).map Node.piece = division := by
  induction divided generalizing lastIndex i with
  | gap silent =>
      rw [List.map_singleton, markParts, test_gap isLocal lastIndex silent]
      rfl
  | hit silent matched _ inductionHypothesis =>
      rw [List.map_cons, List.map_cons, markParts,
        test_gap isLocal lastIndex (silent.alone isLocal)]
      dsimp only
      rw [markParts, test_hit isLocal matched]
      dsimp only
      rw [List.map_cons, List.map_cons, inductionHypothesis]
      rfl

/-- What is shown is the text divided at the leftmost matches of its terms. -/
theorem divided_highlightText (text query : CodeUnits) :
    Divided (regex (plainTerms query)) text (highlightText text query).pieces := by
  have isLocal := local_regex_plainTerms query
  have unmatched : plainTerms query = [] →
      Silent (regex (plainTerms query)) text [] := by
    intro none behind _ _
    rw [none]
    rfl
  rw [highlightText]
  split
  next nothing =>
    rcases nothing with rfl | rfl
    · exact .gap (unmatched rfl)
    · exact .gap (silent_nil _ _)
  next =>
    dsimp only
    split
    next none => exact .gap (unmatched none)
    next =>
      have divided := divided_split isLocal text
      have marks := markParts_divided isLocal divided 0 0
      rw [map_text_inTurn] at marks
      rw [Highlighted.pieces, marks]
      exact divided

/-- The message cells of the displayed rows. -/
def App.messageCells {Key : Type} (app : App Key) : List Highlighted :=
  app.displayed.map fun log => highlightText (codeUnits log.message) (codeUnits app.query)

/-- Whatever the query, the cells read as the messages. -/
theorem App.text_messageCells {Key : Type} (app : App Key) :
    (app.messageCells.map fun cell => cell.pieces.flatMap Piece.text) =
      app.displayed.map fun log => codeUnits log.message := by
  rw [App.messageCells, List.map_map]
  apply List.map_congr_left
  intro log _
  exact (divided_highlightText _ _).flatMap_text

/-- The pieces make up the text; the marked ones are those that `split` captured;
and they are the leftmost matches of the terms, each found behind the one before. -/
theorem highlightText_marks_matches (text query : CodeUnits) :
    (highlightText text query).pieces.flatMap Piece.text = text ∧
      (highlightText text query).pieces =
        inTurn false (split (regex (plainTerms query)) (fun hit => [hit]) text) ∧
      ∀ division, Divided (regex (plainTerms query)) text division ↔
        division = (highlightText text query).pieces := by
  have isLocal := local_regex_plainTerms query
  have divided := divided_highlightText text query
  refine ⟨divided.flatMap_text, divided.unique isLocal (divided_split isLocal text), ?_⟩
  intro division
  constructor
  · exact fun other => other.unique isLocal divided
  · rintro rfl
    exact divided

/-- Adjacent matches, a word that is too short, and a dot that takes half of a
character. -/
example :
    highlightText (codeUnits "TimeoutERR: ab😀".toList) (codeUnits "err OR timeout ab.".toList) =
      .parts
        [.text [], .mark 1 (codeUnits "Timeout".toList), .text [],
          .mark 3 (codeUnits "ERR".toList), .text (codeUnits ": ".toList),
          .mark 5 (codeUnits "ab".toList ++ [0xD83D]), .text [0xDE00]] := by
  decide +kernel

end Web
end Chronolog
