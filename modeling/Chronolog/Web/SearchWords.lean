import Chronolog.Web.App
import Chronolog.Web.QueryPrinting

/-!
# Words of a query

The term of a search and of the live tail is the first term behind a pipe, and
quoted terms are preferred to bare words there.  A query without a pipe has no
term, and a bare word in front of a quoted term is passed over.
-/

namespace Chronolog
namespace Web

open Matcher

/-! ## Written queries -/

/-- A character of a bare word. -/
def isBare (char : Char) : Bool :=
  isNonSpace char && char ∉ ['"', '\'', '|']

/-- A term as it is written behind the pipe. -/
inductive WrittenTerm
  | bare (word : Text)
  | quoted (text : Text)

namespace WrittenTerm

/-- What the term asks for. -/
def text : WrittenTerm → Text
  | bare word => word
  | quoted text => text

def print : WrittenTerm → Text
  | bare word => word
  | quoted text => inQuotes text

def isQuoted : WrittenTerm → Bool
  | bare _ => false
  | quoted _ => true

def WellWritten : WrittenTerm → Prop
  | bare word => word ≠ [] ∧ ∀ char ∈ word, isBare char = true
  | quoted text => text ≠ [] ∧ Quotable text

end WrittenTerm

/-- `OR` or `AND` with the blanks around it. -/
structure Joiner where
  before : Text
  word : Text
  after : Text

/-- Blanks on one line. -/
def Blanks (text : Text) : Prop :=
  text ≠ [] ∧ ∀ char ∈ text, isSpace char = true ∧ isLineTerminator char = false

namespace Joiner

def print (joiner : Joiner) : Text := joiner.before ++ (joiner.word ++ joiner.after)

/-- The operator is in either case, letter by letter. -/
structure WellWritten (joiner : Joiner) : Prop where
  before : Blanks joiner.before
  word : (∃ o ∈ ['O', 'o'], ∃ r ∈ ['R', 'r'], joiner.word = [o, r]) ∨
    ∃ a ∈ ['A', 'a'], ∃ n ∈ ['N', 'n'], ∃ d ∈ ['D', 'd'], joiner.word = [a, n, d]
  after : Blanks joiner.after

end Joiner

/-- The forms of a query: a word, a label block and a word, and a pipe with terms
behind it. -/
inductive WrittenQuery
  | single (word : Text)
  | labelled (block blanks word : Text)
  | piped (before blanks : Text) (first : WrittenTerm) (others : List (Joiner × WrittenTerm))

namespace WrittenQuery

/-- Terms with what joins them. -/
def printTerms (first : WrittenTerm) (others : List (Joiner × WrittenTerm)) : Text :=
  first.print ++ others.flatMap fun other => other.1.print ++ other.2.print

def text : WrittenQuery → Text
  | .single word => word
  | .labelled block blanks word => '\x7b' :: (block ++ '\x7d' :: (blanks ++ word))
  | .piped before blanks first others => before ++ '|' :: (blanks ++ printTerms first others)

/-- The term that is written first. -/
def firstTerm : WrittenQuery → Text
  | .single word => word
  | .labelled _ _ word => word
  | .piped _ _ first _ => first.text

/-- Words have no blanks, quotes and pipes; the only pipe that counts is the one
in front of the terms. -/
def WellWritten : WrittenQuery → Prop
  | .single word => (WrittenTerm.bare word).WellWritten
  | .labelled block blanks word =>
      '|' ∉ block ∧ (∀ char ∈ blanks, isSpace char = true) ∧
        (WrittenTerm.bare word).WellWritten
  | .piped before blanks first others =>
      '|' ∉ before ∧ (∀ char ∈ blanks, isSpace char = true) ∧ first.WellWritten ∧
        ∀ other ∈ others, other.1.WellWritten ∧ other.2.WellWritten

/-- The terms stand behind a pipe, and the first of the quoted ones, if there are
any, asks for the same as the first one. -/
def Served : WrittenQuery → Prop
  | .single _ => False
  | .labelled _ _ _ => False
  | .piped _ _ first others =>
      ∀ quoted, (first :: others.map Prod.snd).find? WrittenTerm.isQuoted = some quoted →
        quoted.text = first.text

end WrittenQuery

/-! ## What is sent -/

variable {Key : Type}

/-- The request of a search and the socket of the live tail ask for a term. -/
structure App.AsksFor (app : App Key) (term : Text) : Prop where
  search : ∀ timeRange now, ∃ search,
    (app.runQuery timeRange now).searches = app.searches ++ [search] ∧
      search.params.term = term
  live : app.isLive = true → ∃ socket,
    app.runLiveEffect.sockets = app.sockets ++ [socket] ∧ socket.term = term

/-- Both take the first term of the query. -/
theorem asksFor_iff (app : App Key) (term : Text) :
    app.AsksFor term ↔ (parseQuery app.query).primaryTerm = term := by
  constructor
  · intro asks
    obtain ⟨search, issued, same⟩ := asks.search 15 0
    rw [App.runQuery, List.append_cancel_left_eq, List.singleton_inj] at issued
    rw [← same, ← issued]
    rfl
  · intro same
    refine ⟨fun timeRange now => ⟨_, rfl, same⟩, fun live => ?_⟩
    refine ⟨{ effect := app.effects.length, term := (parseQuery app.query).primaryTerm,
              readyState := .connecting, closesOnOpen := false, listening := true,
              reportsErrors := true }, ?_, same⟩
    simp [App.runLiveEffect, App.connect, live]

/-! ## Reading the terms -/

theorem isBare_iff {char : Char} :
    isBare char = true ↔ isSpace char = false ∧ char ∉ ['"', '\'', '|'] := by
  rw [isBare, isNonSpace, Bool.and_eq_true, Bool.not_eq_true', decide_eq_true_eq]

theorem noQuote_bare
    {word : Text}
    (bare : ∀ char ∈ word, isBare char = true) : '"' ∉ word := by
  intro member
  exact (isBare_iff.mp (bare _ member)).2 (by decide)

theorem noPipe_bare
    {word : Text}
    (bare : ∀ char ∈ word, isBare char = true) : '|' ∉ word := by
  intro member
  exact (isBare_iff.mp (bare _ member)).2 (by decide)

theorem isSpace_of_isLineTerminator {char : Char} (breaks : isLineTerminator char = true) :
    isSpace char = true := by
  rw [isLineTerminator, decide_eq_true_eq] at breaks
  simp only [List.mem_cons, List.not_mem_nil, or_false] at breaks
  rcases breaks with rfl | rfl | rfl | rfl <;> rfl

/-- Without a pipe nothing is searched for. -/
theorem primaryTerm_of_noPipe
    {query : Text}
    (noPipe : '|' ∉ query) : (parseQuery query).primaryTerm = [] := by
  rw [parseQuery, search_pipeSection_of_noPipe noPipe]
  rfl

namespace Joiner

/-- An operator is written in letters. -/
theorem WellWritten.letters
    {joiner : Joiner}
    (written : joiner.WellWritten) :
    ∀ char ∈ joiner.word, isWord char = true := by
  rcases written.word with ⟨o, isO, r, isR, same⟩ | ⟨a, isA, n, isN, d, isD, same⟩
  · rw [same]
    simp only [List.mem_cons, List.not_mem_nil, or_false] at isO isR ⊢
    rintro char (rfl | rfl)
    · rcases isO with rfl | rfl <;> rfl
    · rcases isR with rfl | rfl <;> rfl
  · rw [same]
    simp only [List.mem_cons, List.not_mem_nil, or_false] at isA isN isD ⊢
    rintro char (rfl | rfl | rfl)
    · rcases isA with rfl | rfl <;> rfl
    · rcases isN with rfl | rfl <;> rfl
    · rcases isD with rfl | rfl <;> rfl

theorem WellWritten.noQuote
    {joiner : Joiner}
    (written : joiner.WellWritten) : '"' ∉ joiner.print := by
  rw [Joiner.print, List.mem_append, List.mem_append]
  rintro (before | word | after)
  · exact absurd (written.before.2 _ before).1 (by decide)
  · exact absurd (written.letters _ word) (by decide)
  · exact absurd (written.after.2 _ after).1 (by decide)

theorem WellWritten.oneLine
    {joiner : Joiner}
    (written : joiner.WellWritten) : OneLine joiner.print := by
  intro char member
  rw [Joiner.print, List.mem_append, List.mem_append] at member
  rcases member with before | word | after
  · exact (written.before.2 char before).2
  · exact isLineTerminator_of_isWord (written.letters char word)
  · exact (written.after.2 char after).2

theorem mem_anyCase {letter found : Char} {text left : Text} :
    (found, left) ∈ anyCase letter text ↔
      text = found :: left ∧ found ∈ [letter, letter.toLower] := by
  rw [anyCase, mem_one]
  simp

/-- An operator between blanks separates. -/
theorem WellWritten.separates
    {joiner : Joiner}
    (written : joiner.WellWritten)
    (rest : Text) : ∃ left, ((), left) ∈ operator (joiner.print ++ rest) := by
  refine ⟨rest, ?_⟩
  rw [Joiner.print, List.append_assoc, List.append_assoc]
  simp only [operator, mem_bind, mem_many1, mem_either, mem_anyCase, mem_pure]
  refine ⟨_, _, ⟨rfl, written.before.1, fun char member => (written.before.2 char member).1⟩,
    (), joiner.after ++ rest, ?_, _, _, ⟨rfl, written.after.1,
      fun char member => (written.after.2 char member).1⟩, trivial, rfl⟩
  rcases written.word with ⟨o, isO, r, isR, same⟩ | ⟨a, isA, n, isN, d, isD, same⟩
  · rw [same]
    exact Or.inl ⟨o, _, ⟨rfl, isO⟩, r, _, ⟨rfl, isR⟩, trivial, rfl⟩
  · rw [same]
    exact Or.inr ⟨a, _, ⟨rfl, isA⟩, n, _, ⟨rfl, isN⟩, d, _, ⟨rfl, isD⟩, trivial, rfl⟩

end Joiner

/-! ## Terms behind the pipe -/

theorem operator_eq_nil {first : Char} (ink : isSpace first = false) (rest : Text) :
    operator (first :: rest) = [] :=
  bind_eq_nil (many1_eq_nil ink rest)

/-- The first piece of a text goes up to the first blank. -/
theorem splitFrom_word
    {word : Text}
    (ink : ∀ char ∈ word, isSpace char = false)
    (piece rest : Text) :
    splitFrom operator 0 piece (word ++ rest) = splitFrom operator 0 (piece ++ word) rest := by
  induction word generalizing piece with
  | nil => rw [List.nil_append, List.append_nil]
  | cons head word inductionHypothesis =>
      obtain ⟨here, later⟩ := List.forall_mem_cons.mp ink
      rw [List.cons_append, splitFrom, operator_eq_nil here, List.head?_nil]
      dsimp only
      rw [inductionHypothesis later, List.append_assoc, List.singleton_append]

theorem splitFrom_joiner
    {joiner : Joiner}
    (written : joiner.WellWritten)
    (piece rest : Text) :
    ∃ pieces, splitFrom operator 0 piece (joiner.print ++ rest) = piece :: pieces := by
  obtain ⟨left, separates⟩ := written.separates rest
  cases text : joiner.print ++ rest with
  | nil =>
      rw [Joiner.print, List.append_assoc, List.append_eq_nil_iff] at text
      exact absurd text.1 written.before.1
  | cons head tail =>
      rw [text] at separates
      rw [splitFrom]
      cases first : (operator (head :: tail)).head? with
      | none =>
          rw [List.head?_eq_none_iff] at first
          rw [first] at separates
          exact absurd separates List.not_mem_nil
      | some way => exact ⟨_, rfl⟩

theorem trim_word
    {word : Text}
    (ink : ∀ char ∈ word, isSpace char = false) : trim word = word := by
  have whole : ∀ text : Text, (∀ char ∈ text, isSpace char = false) →
      text.dropWhile isSpace = text := by
    intro text ink
    rw [List.dropWhile_eq_self_iff]
    intro nonempty
    rw [ink _ (List.getElem_mem nonempty)]
    decide
  rw [trim, whole word ink, whole, List.reverse_reverse]
  exact fun char member => ink char (List.mem_reverse.mp member)

theorem stripQuotes_word
    {word : Text}
    (plain : ∀ char ∈ word, char ∉ ['"', '\'']) : stripQuotes word = word := by
  have noQuote : ∀ char : Option Char, (∀ found, char = some found → found ∈ word) →
      char.any (fun char => char == '"' || char == '\'') = false := by
    intro char inside
    cases char with
    | none => rfl
    | some char => simpa using plain char (inside char rfl)
  have start := noQuote word.head? fun _ found => List.mem_of_head? found
  have finish := noQuote word.getLast? fun _ found => List.mem_of_getLast? found
  simp only [stripQuotes, start, Bool.false_eq_true, if_false, finish]

namespace WrittenTerm

theorem searchAll_print
    {term : WrittenTerm}
    (written : term.WellWritten)
    (rest : Text) :
    searchAll quotedRe (term.print ++ rest) =
      (if term.isQuoted then [term.text] else []) ++ searchAll quotedRe rest := by
  cases term with
  | bare word => exact searchAll_quotedRe_gap (noQuote_bare written.2) rest
  | quoted text =>
      rw [print, inQuotes, List.cons_append, List.append_assoc, List.singleton_append,
        searchAll_quotedRe_quoted written.1 written.2.noQuote]
      rfl

theorem WellWritten.oneLine
    {term : WrittenTerm}
    (written : term.WellWritten) : OneLine term.print := by
  cases term with
  | bare word =>
      intro char member
      by_contra breaks
      have blank := isSpace_of_isLineTerminator (Bool.eq_true_of_not_eq_false breaks)
      rw [(isBare_iff.mp (written.2 char member)).1] at blank
      exact absurd blank (by decide)
  | quoted text => exact written.2.oneLine_inQuotes

/-- A term starts with something else than a blank. -/
theorem WellWritten.dropWhile_print
    {term : WrittenTerm}
    (written : term.WellWritten)
    (rest : Text) : (term.print ++ rest).dropWhile isSpace = term.print ++ rest := by
  cases term with
  | bare word =>
      obtain ⟨head, tail, rfl⟩ := List.exists_cons_of_ne_nil written.1
      apply List.dropWhile_cons_of_neg
      rw [(isBare_iff.mp (written.2 head List.mem_cons_self)).1]
      decide
  | quoted text => rfl

end WrittenTerm

namespace WrittenQuery

/-- The terms of a pipe section. -/
def terms (first : WrittenTerm) (others : List (Joiner × WrittenTerm)) : List WrittenTerm :=
  first :: others.map Prod.snd

section Piped

variable
  {first : WrittenTerm}
  {others : List (Joiner × WrittenTerm)}

/-- The quoted terms among the written ones are found. -/
theorem searchAll_printTerms
    (written : first.WellWritten)
    (othersWritten : ∀ other ∈ others, other.1.WellWritten ∧ other.2.WellWritten) :
    searchAll quotedRe (printTerms first others) =
      ((terms first others).filter WrittenTerm.isQuoted).map WrittenTerm.text := by
  have one : ∀ term : WrittenTerm, (if term.isQuoted then [term.text] else []) =
      ([term].filter WrittenTerm.isQuoted).map WrittenTerm.text := by
    rintro (word | text) <;> rfl
  have later : searchAll quotedRe
        (others.flatMap fun other => other.1.print ++ other.2.print) =
      ((others.map Prod.snd).filter WrittenTerm.isQuoted).map WrittenTerm.text := by
    induction others with
    | nil => rfl
    | cons other others inductionHypothesis =>
        obtain ⟨⟨joiner, term⟩, rest⟩ := List.forall_mem_cons.mp othersWritten
        rw [List.flatMap_cons, List.append_assoc, searchAll_quotedRe_gap joiner.noQuote,
          WrittenTerm.searchAll_print term, inductionHypothesis rest, one, List.map_cons,
          ← List.map_append, ← List.filter_append]
        rfl
  rw [printTerms, WrittenTerm.searchAll_print written, later, one, ← List.map_append,
    ← List.filter_append]
  rfl

theorem oneLine_printTerms
    (written : first.WellWritten)
    (othersWritten : ∀ other ∈ others, other.1.WellWritten ∧ other.2.WellWritten) :
    OneLine (printTerms first others) := by
  intro char member
  rw [printTerms, List.mem_append, List.mem_flatMap] at member
  rcases member with here | ⟨other, isOther, inside⟩
  · exact written.oneLine char here
  · obtain ⟨joiner, term⟩ := othersWritten other isOther
    rcases List.mem_append.mp inside with inJoiner | inTerm
    · exact joiner.oneLine char inJoiner
    · exact term.oneLine char inTerm

/-- Without quoted terms the first piece is the first word. -/
theorem parseTerms_words
    (written : first.WellWritten)
    (othersWritten : ∀ other ∈ others, other.1.WellWritten ∧ other.2.WellWritten)
    (noQuoted : (terms first others).filter WrittenTerm.isQuoted = []) :
    (parseTerms (printTerms first others)).headD [] = first.text := by
  cases first with
  | quoted text => exact absurd noQuoted (List.cons_ne_nil _ _)
  | bare word =>
      have ink : ∀ char ∈ word, isSpace char = false := fun char member =>
        (isBare_iff.mp (written.2 char member)).1
      have plain : ∀ char ∈ word, char ∉ ['"', '\''] := by
        intro char member quote
        refine (isBare_iff.mp (written.2 char member)).2 ?_
        simp only [List.mem_cons, List.not_mem_nil, or_false] at quote ⊢
        tauto
      obtain ⟨pieces, split⟩ : ∃ pieces,
          splitFrom operator 0 [] (printTerms (.bare word) others) = word :: pieces := by
        rw [printTerms, WrittenTerm.print, splitFrom_word ink, List.nil_append]
        cases others with
        | nil => exact ⟨[], rfl⟩
        | cons other others =>
            rw [List.flatMap_cons, List.append_assoc]
            exact splitFrom_joiner (othersWritten other List.mem_cons_self).1 _ _
      rw [parseTerms, searchAll_printTerms written othersWritten, noQuoted, List.map_nil]
      rw [if_pos rfl, split, List.map_cons, trim_word ink, stripQuotes_word plain,
        List.filter_cons_of_pos]
      · rfl
      · exact decide_eq_true written.1

/-- The term of a pipe section is the first quoted one or else the first word. -/
theorem primaryTerm_piped
    {before blanks : Text}
    (noPipe : '|' ∉ before)
    (blank : ∀ char ∈ blanks, isSpace char = true)
    (written : first.WellWritten)
    (othersWritten : ∀ other ∈ others, other.1.WellWritten ∧ other.2.WellWritten) :
    (parseQuery (piped before blanks first others).text).primaryTerm =
      (((terms first others).find? WrittenTerm.isQuoted).getD first).text := by
  have trimmed : (blanks ++ printTerms first others).dropWhile isSpace =
      printTerms first others := by
    rw [List.dropWhile_append_of_pos blank]
    exact written.dropWhile_print _
  have nonempty : printTerms first others ≠ [] := by
    rw [printTerms]
    cases first with
    | bare word => exact List.append_ne_nil_of_left_ne_nil written.1 _
    | quoted text => exact List.cons_ne_nil _ _
  have found : search pipeSection (piped before blanks first others).text =
      some (printTerms first others) := by
    rw [text, search_pipeSection noPipe, trimmed]
    · rwa [trimmed]
    · rw [trimmed]
      exact oneLine_printTerms written othersWritten
  have primary : (parseQuery (piped before blanks first others).text).primaryTerm =
      (parseTerms (printTerms first others)).headD [] := by
    rw [parseQuery, found]
  rw [primary]
  cases quoted : (terms first others).find? WrittenTerm.isQuoted with
  | none =>
      rw [← List.head?_filter, List.head?_eq_none_iff] at quoted
      exact parseTerms_words written othersWritten quoted
  | some term =>
      rw [← List.head?_filter] at quoted
      obtain ⟨rest, all⟩ := List.head?_eq_some_iff.mp quoted
      rw [parseTerms, searchAll_printTerms written othersWritten, all, List.map_cons]
      rfl

end Piped

/-- The search and the live tail ask for the first term of a query exactly when
the query is served. -/
theorem asksFor_firstTerm_iff
    (query : WrittenQuery)
    (written : query.WellWritten)
    (app : App Key)
    (shown : app.query = query.text) :
    app.AsksFor query.firstTerm ↔ query.Served := by
  rw [asksFor_iff, shown]
  have unserved : ∀ {word : Text}, (WrittenTerm.bare word).WellWritten → '|' ∉ query.text →
      (parseQuery query.text).primaryTerm ≠ word := by
    intro word isWord noPipe same
    rw [primaryTerm_of_noPipe noPipe] at same
    exact isWord.1 same.symm
  match query, written with
  | .single word, isWord =>
      exact iff_of_false (unserved isWord (noPipe_bare isWord.2)) id
  | .labelled block blanks word, ⟨noPipe, blank, isWord⟩ =>
      refine iff_of_false (unserved isWord ?_) id
      rw [text, List.mem_cons, List.mem_append, List.mem_cons, List.mem_append]
      rintro (opening | inBlock | closing | inBlanks | inWord)
      · exact absurd opening (by decide)
      · exact noPipe inBlock
      · exact absurd closing (by decide)
      · exact absurd (blank _ inBlanks) (by decide)
      · exact noPipe_bare isWord.2 inWord
  | .piped before blanks first others, ⟨noPipe, blank, isTerm, others'⟩ =>
      rw [primaryTerm_piped noPipe blank isTerm others', Served, firstTerm, terms]
      cases (first :: others.map Prod.snd).find? WrittenTerm.isQuoted with
      | none => exact iff_of_true rfl fun _ => nofun
      | some quoted =>
          constructor
          · rintro same _ ⟨⟩
            exact same
          · exact fun same => same quoted rfl

/-- A quoted term in front of a bare word. -/
def mixedQuery : WrittenQuery :=
  .piped [] [' '] (.quoted "error".toList) [(⟨[' '], ['O', 'R'], [' ']⟩, .bare "timeout".toList)]

theorem wellWritten_bare
    {word : Text}
    (nonempty : word ≠ [])
    (bare : word.all isBare = true) : (WrittenTerm.bare word).WellWritten :=
  ⟨nonempty, List.all_eq_true.mp bare⟩

theorem mixedQuery_wellWritten : mixedQuery.WellWritten := by
  have blanks : Blanks [' '] :=
    ⟨List.cons_ne_nil _ _, List.forall_mem_singleton.mpr (by decide)⟩
  refine ⟨by decide, List.forall_mem_singleton.mpr (by decide),
    ⟨by decide, quotable_of_all (by decide)⟩, List.forall_mem_singleton.mpr ⟨?_, ?_⟩⟩
  · exact ⟨blanks, Or.inl ⟨'O', by decide, 'R', by decide, rfl⟩, blanks⟩
  · exact wellWritten_bare (by decide) (by decide)

theorem asksFor_firstTerm_iff_mixed :
    (App.mount mixedQuery.text 15 true 0 : App Unit).AsksFor mixedQuery.firstTerm ↔
      mixedQuery.Served :=
  asksFor_firstTerm_iff mixedQuery mixedQuery_wellWritten _ rfl

/-- The word that is searched for when the address names none. -/
def timeoutQuery : WrittenQuery := .single "timeout".toList

/-- The word of the default query is not asked for. -/
theorem timeout_not_asked :
    ¬ ∀ (query : WrittenQuery) (app : App Unit),
      query.WellWritten → app.query = query.text → app.AsksFor query.firstTerm := by
  intro claim
  have asks := claim timeoutQuery (App.mount timeoutQuery.text 15 true 0)
    (wellWritten_bare (by decide) (by decide)) rfl
  rw [asksFor_iff] at asks
  revert asks
  decide +kernel

end WrittenQuery

end Web
end Chronolog
