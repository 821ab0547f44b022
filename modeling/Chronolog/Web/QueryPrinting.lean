import Chronolog.Web.QueryParser

/-!
# Printed queries

The query bar reads a query with three patterns that do not know of each other:
the label block ends at the first brace, the terms start at the first pipe, and
quotes are paired from there on.  A query printed from labels and terms reads
back unless a label value holds one of the two characters.
-/

namespace Chronolog
namespace Web

open Matcher

/-! ## Printing -/

/-- Texts with a separator between them. -/
def joined (separator : Text) : List Text → Text
  | [] => []
  | first :: rest => first ++ rest.flatMap fun text => separator ++ text

/-- A text in double quotes. -/
def inQuotes (text : Text) : Text := '"' :: (text ++ ['"'])

/-- `key="value"` -/
def printLabel (label : Label) : Text := label.key ++ '=' :: inQuotes label.value

/-- `, ` -/
def labelGap : Text := [',', ' ']

/-- What stands between the labels and the terms. -/
def sectionGap : Text := ['\x7d', ' ', '|', ' ']

/-- ` OR ` -/
def termGap : Text := [' ', 'O', 'R', ' ']

def printLabels (labels : List Label) : Text := joined labelGap (labels.map printLabel)

def printTerms (terms : List Text) : Text := joined termGap (terms.map inQuotes)

/-- The text of a query. -/
def printQuery (labels : List Label) (terms : List Text) : Text :=
  '\x7b' :: (printLabels labels ++ sectionGap ++ printTerms terms)

/-- The placeholder of the query bar. -/
example :
    printQuery [⟨"app".toList, "nginx".toList⟩, ⟨"env".toList, "prod".toList⟩]
        ["error".toList, "timeout".toList] =
      "\x7bapp=\"nginx\", env=\"prod\"\x7d | \"error\" OR \"timeout\"".toList := by
  decide +kernel

theorem flatMap_separator
    (separator : Text)
    {texts : List Text}
    (nonempty : texts ≠ []) :
    (texts.flatMap fun text => separator ++ text) = separator ++ joined separator texts := by
  cases texts with
  | nil => exact absurd rfl nonempty
  | cons first rest => rw [joined, List.flatMap_cons, List.append_assoc]

/-- What stands around one of the texts. -/
theorem joined_append_cons
    (separator : Text)
    (before : List Text)
    (text : Text)
    (after : List Text) :
    joined separator (before ++ text :: after) =
      (before.flatMap fun text => text ++ separator) ++ text ++
        after.flatMap fun text => separator ++ text := by
  induction before with
  | nil => rfl
  | cons first before inductionHypothesis =>
      rw [List.cons_append, joined, flatMap_separator separator (by simp),
        inductionHypothesis, List.flatMap_cons]
      simp only [List.append_assoc]

theorem of_mem_joined
    {separator : Text}
    {texts : List Text}
    {char : Char}
    (member : char ∈ joined separator texts) :
    char ∈ separator ∨ ∃ text ∈ texts, char ∈ text := by
  cases texts with
  | nil => exact absurd member List.not_mem_nil
  | cons first rest =>
      rw [joined, List.mem_append, List.mem_flatMap] at member
      rcases member with here | ⟨text, later, member⟩
      · exact Or.inr ⟨first, List.mem_cons_self, here⟩
      · rcases List.mem_append.mp member with gap | inside
        · exact Or.inl gap
        · exact Or.inr ⟨text, List.mem_cons_of_mem _ later, inside⟩

theorem mem_joined
    {separator text : Text}
    {texts : List Text}
    {char : Char}
    (present : text ∈ texts)
    (member : char ∈ text) : char ∈ joined separator texts := by
  obtain ⟨before, after, rfl⟩ := List.append_of_mem present
  rw [joined_append_cons]
  exact List.mem_append_left _ (List.mem_append_right _ member)

/-- A text that can stand in double quotes on one line. -/
def Quotable (text : Text) : Prop :=
  ∀ char ∈ text, char ≠ '"' ∧ isLineTerminator char = false

/-- A text without line breaks. -/
def OneLine (text : Text) : Prop :=
  ∀ char ∈ text, isLineTerminator char = false

theorem Quotable.noQuote {text : Text} (quotable : Quotable text) : '"' ∉ text :=
  fun quote => (quotable _ quote).1 rfl

/-! ## Quoted terms -/

theorem quotedRe_eq_nil {first : Char} (other : first ≠ '"') (rest : Text) :
    quotedRe (first :: rest) = [] :=
  bind_char_eq_nil other rest

theorem searchAll_quotedRe_gap
    {gap : Text}
    (noQuote : '"' ∉ gap)
    (rest : Text) : searchAll quotedRe (gap ++ rest) = searchAll quotedRe rest :=
  searchAll_append_of_silent
    (fun _ member rest => quotedRe_eq_nil (ne_of_mem_of_not_mem member noQuote) rest) rest

theorem searchAll_quotedRe_quoted
    {term : Text}
    (nonempty : term ≠ [])
    (noQuote : '"' ∉ term)
    (rest : Text) :
    searchAll quotedRe ('"' :: (term ++ '"' :: rest)) = term :: searchAll quotedRe rest := by
  have split : '"' :: (term ++ '"' :: rest) = ('"' :: (term ++ ['"'])) ++ rest := by simp
  have first : (quotedRe ('"' :: (term ++ '"' :: rest))).head? = some (term, rest) := by
    refine head?_bind (head?_char _ _) (head?_bind (head?_many1_run nonempty ?_ ?_)
      (head?_bind (head?_char _ _) rfl))
    · intro char member
      rw [bne_iff_ne]
      exact ne_of_mem_of_not_mem member noQuote
    · rintro _ ⟨⟩
      rfl
  rw [split] at first ⊢
  exact searchAll_of_head? (List.cons_ne_nil _ _) first

/-- Every quoted term takes up two quotes. -/
theorem two_mul_length_quoted_le (text : Text) :
    2 * (searchAll quotedRe text).length ≤ text.count '"' := by
  refine mul_length_searchAll_le (fun text value left member => ?_) text
  simp only [quotedRe, mem_bind, mem_pure, mem_char, mem_many1] at member
  obtain ⟨_, _, ⟨rfl, rfl⟩, _, _, ⟨rfl, _, _⟩, _, _, ⟨rfl, rfl⟩, rfl, rfl⟩ := member
  refine ⟨'"' :: (value ++ ['"']), by simp, List.cons_ne_nil _ _, ?_⟩
  rw [List.count_cons_self, List.count_append, List.count_singleton_self]
  omega

theorem searchAll_quotedRe_open
    {rest : Text}
    (noQuote : '"' ∉ rest) : searchAll quotedRe ('"' :: rest) = [] := by
  have bound := two_mul_length_quoted_le ('"' :: rest)
  rw [List.count_cons_self, List.count_eq_zero_of_not_mem noQuote] at bound
  exact List.eq_nil_of_length_eq_zero (by omega)

theorem noQuote_termGap : '"' ∉ termGap := by decide

/-- Printed terms are found as they are. -/
theorem searchAll_printTerms
    {terms : List Text}
    (printable : ∀ term ∈ terms, term ≠ [] ∧ '"' ∉ term) :
    searchAll quotedRe (printTerms terms) = terms := by
  induction terms with
  | nil => rfl
  | cons term terms inductionHypothesis =>
      obtain ⟨⟨nonempty, noQuote⟩, later⟩ := List.forall_mem_cons.mp printable
      rw [printTerms, List.map_cons, joined, inQuotes, List.cons_append, List.append_assoc,
        List.singleton_append, searchAll_quotedRe_quoted nonempty noQuote]
      congr 1
      cases terms with
      | nil => rfl
      | cons next terms =>
          rw [flatMap_separator termGap (by simp), searchAll_quotedRe_gap noQuote_termGap]
          exact inductionHypothesis later

/-- Behind an unpaired quote the terms found are what stands between the quoted
ones. -/
theorem searchAll_unpaired_terms
    {gap : Text}
    {terms : List Text}
    (nonempty : gap ≠ [])
    (noQuote : '"' ∉ gap)
    (someTerm : terms ≠ [])
    (printable : ∀ term ∈ terms, '"' ∉ term) :
    searchAll quotedRe ('"' :: (gap ++ printTerms terms)) =
      gap :: List.replicate (terms.length - 1) termGap := by
  induction terms generalizing gap with
  | nil => exact absurd rfl someTerm
  | cons term terms inductionHypothesis =>
      obtain ⟨noQuote', later⟩ := List.forall_mem_cons.mp printable
      rw [printTerms, List.map_cons, joined, inQuotes, List.cons_append, List.append_assoc,
        List.singleton_append, searchAll_quotedRe_quoted nonempty noQuote,
        searchAll_quotedRe_gap noQuote']
      congr 1
      cases terms with
      | nil => exact searchAll_quotedRe_open List.not_mem_nil
      | cons next terms =>
          rw [flatMap_separator termGap (by simp)]
          exact inductionHypothesis (by decide) noQuote_termGap (List.cons_ne_nil _ _) later

/-! ## The pipe -/

theorem pipeSection_eq_nil {first : Char} (other : first ≠ '|') (rest : Text) :
    pipeSection (first :: rest) = [] :=
  bind_char_eq_nil other rest

/-- The terms are read behind the first pipe. -/
theorem search_pipeSection
    {before rest : Text}
    (noPipe : '|' ∉ before)
    (nonempty : rest.dropWhile isSpace ≠ [])
    (oneLine : ∀ char ∈ rest.dropWhile isSpace, isLineTerminator char = false) :
    search pipeSection (before ++ '|' :: rest) = some (rest.dropWhile isSpace) := by
  rw [search_append_of_silent fun _ member rest =>
    pipeSection_eq_nil (ne_of_mem_of_not_mem member noPipe) rest]
  have whole : (many1 (fun char => !isLineTerminator char)
      (rest.dropWhile isSpace ++ [])).head? = some (rest.dropWhile isSpace, []) := by
    refine head?_many1_run nonempty (fun char member => ?_) (fun _ => nofun)
    rw [oneLine char member]
    rfl
  rw [List.append_nil] at whole
  have first : (pipeSection ('|' :: rest)).head? = some (rest.dropWhile isSpace, []) :=
    head?_bind (head?_char _ _) (head?_bind (head?_many _ _) (head?_bind whole
      (head?_bind (by rfl : (atEnd []).head? = some ((), [])) rfl)))
  rw [search_of_head? first]

theorem search_pipeSection_of_noPipe
    {text : Text}
    (noPipe : '|' ∉ text) : search pipeSection text = none := by
  have silent := search_append_of_silent (fun _ member rest =>
    pipeSection_eq_nil (ne_of_mem_of_not_mem member noPipe) rest) []
  rwa [List.append_nil] at silent

/-! ## Labels -/

theorem labelBlock_closed
    {block : Text}
    (noBrace : '\x7d' ∉ block)
    (rest : Text) :
    search labelBlock ('\x7b' :: (block ++ '\x7d' :: rest)) = some block := by
  have first : (labelBlock ('\x7b' :: (block ++ '\x7d' :: rest))).head? =
      some (block, rest) := by
    refine head?_bind (head?_char _ _) (head?_bind (head?_many_run ?_ ?_)
      (head?_bind (head?_char _ _) rfl))
    · intro char member
      rw [bne_iff_ne]
      exact ne_of_mem_of_not_mem member noBrace
    · rintro _ ⟨⟩
      rfl
  rw [search_of_head? first]

/-- A key that is a word. -/
def IsKey (key : Text) : Prop := key ≠ [] ∧ ∀ char ∈ key, isWord char = true

theorem IsKey.notMem
    {key : Text}
    {char : Char}
    (isKey : IsKey key)
    (symbol : isWord char = false) : char ∉ key := by
  intro member
  rw [isKey.2 char member] at symbol
  exact absurd symbol (by decide)

theorem labelRe_eq_nil {first : Char} (symbol : isWord first = false) (rest : Text) :
    labelRe (first :: rest) = [] :=
  bind_eq_nil (many1_eq_nil symbol rest)

/-- A printed label is found as it is. -/
theorem searchAll_labelRe_printLabel
    {label : Label}
    (isKey : IsKey label.key)
    (noQuote : '"' ∉ label.value)
    (rest : Text) :
    searchAll labelRe (printLabel label ++ rest) = label :: searchAll labelRe rest := by
  have split : printLabel label ++ rest =
      label.key ++ '=' :: '"' :: (label.value ++ '"' :: rest) := by
    simp [printLabel, inQuotes]
  refine searchAll_of_head? (by simp [printLabel]) ?_
  rw [split]
  refine head?_bind (head?_many1_run isKey.1 isKey.2 ?_) ?_
  · rintro _ ⟨⟩
    rfl
  · -- No blanks stand around the equals sign.
    refine head?_bind (rfl : _ = some ([], '=' :: '"' :: (label.value ++ '"' :: rest)))
      (head?_bind (head?_char _ _) (head?_bind
        (rfl : _ = some ([], '"' :: (label.value ++ '"' :: rest)))
        (head?_bind (head?_char _ _) (head?_bind (head?_many_run ?_ ?_)
          (head?_bind (head?_char _ _) rfl)))))
    · intro char member
      rw [bne_iff_ne]
      exact ne_of_mem_of_not_mem member noQuote
    · rintro _ ⟨⟩
      rfl

theorem searchAll_printLabels
    {labels : List Label}
    (printable : ∀ label ∈ labels, IsKey label.key ∧ '"' ∉ label.value) :
    searchAll labelRe (printLabels labels) = labels := by
  induction labels with
  | nil => rfl
  | cons label labels inductionHypothesis =>
      obtain ⟨⟨isKey, noQuote⟩, later⟩ := List.forall_mem_cons.mp printable
      rw [printLabels, List.map_cons, joined, searchAll_labelRe_printLabel isKey noQuote]
      congr 1
      cases labels with
      | nil => rfl
      | cons next labels =>
          rw [flatMap_separator labelGap (by simp), searchAll_append_of_silent]
          · exact inductionHypothesis later
          · have symbols : labelGap.all (fun char => !isWord char) = true := by decide
            intro char member rest
            refine labelRe_eq_nil ?_ rest
            simpa using List.all_eq_true.mp symbols char member

/-- Every label takes up two quotes. -/
theorem two_mul_length_labels_le (text : Text) :
    2 * (searchAll labelRe text).length ≤ text.count '"' := by
  refine mul_length_searchAll_le (fun text label left member => ?_) text
  simp only [labelRe, mem_bind, mem_pure, mem_char, mem_many1, mem_many] at member
  obtain ⟨key, _, ⟨rfl, _, _⟩, blanks, _, ⟨rfl, _⟩, _, _, ⟨rfl, rfl⟩, blanks', _, ⟨rfl, _⟩,
    _, _, ⟨rfl, rfl⟩, value, _, ⟨rfl, _⟩, _, _, ⟨rfl, rfl⟩, _, rfl⟩ := member
  refine ⟨key ++ blanks ++ '=' :: blanks' ++ '"' :: (value ++ ['"']), by simp, by simp, ?_⟩
  have closing : (value ++ ['"']).count '"' = value.count '"' + 1 := List.count_append
  rw [List.count_append, List.count_cons_self, closing]
  omega

/-- A printed label has two quotes. -/
theorem count_quote_printLabels
    {labels : List Label}
    (printable : ∀ label ∈ labels, IsKey label.key ∧ '"' ∉ label.value) :
    (printLabels labels).count '"' = 2 * labels.length := by
  have one : ∀ label ∈ labels, (printLabel label).count '"' = 2 := by
    intro label member
    obtain ⟨isKey, noQuote⟩ := printable label member
    rw [printLabel, inQuotes, List.count_append,
      List.count_eq_zero_of_not_mem (isKey.notMem rfl), List.count_cons_of_ne (by decide),
      List.count_cons_self, List.count_append, List.count_eq_zero_of_not_mem noQuote,
      List.count_singleton_self]
  clear printable
  induction labels with
  | nil => rfl
  | cons label labels inductionHypothesis =>
      obtain ⟨first, later⟩ := List.forall_mem_cons.mp one
      have rest := inductionHypothesis later
      rw [printLabels, List.map_cons, joined, List.count_append, first, List.length_cons]
      cases labels with
      | nil => rfl
      | cons next labels =>
          have gap : labelGap.count '"' = 0 := by decide
          rw [printLabels] at rest
          rw [flatMap_separator labelGap (by simp), List.count_append, gap, rest]
          omega

/-- Printed labels end with a quote. -/
theorem getLast?_printLabels
    {labels : List Label}
    (nonempty : labels ≠ []) : (printLabels labels).getLast? = some '"' := by
  obtain ⟨before, label, rfl⟩ :=
    (List.eq_nil_or_concat labels).resolve_left nonempty
  rw [printLabels, List.concat_eq_append, List.map_append, List.map_singleton,
    joined_append_cons, List.flatMap_nil, List.append_nil, printLabel, inQuotes]
  have split : label.key ++ '=' :: '"' :: (label.value ++ ['"']) =
      label.key ++ '=' :: '"' :: label.value ++ ['"'] := by
    simp
  rw [split, ← List.append_assoc, List.getLast?_concat]

/-- A block that was cut at a brace inside it has fewer labels. -/
theorem searchAll_cut_ne
    {labels : List Label}
    (printable : ∀ label ∈ labels, IsKey label.key ∧ '"' ∉ label.value)
    {block rest : Text}
    (cut : printLabels labels = block ++ '\x7d' :: rest) :
    searchAll labelRe block ≠ labels := by
  intro found
  have nonempty : labels ≠ [] := by
    rintro rfl
    exact absurd cut (by simp [printLabels, joined])
  have last := getLast?_printLabels nonempty
  have closing : '"' ∈ rest := by
    rw [cut, List.getLast?_append, List.getLast?_cons, Option.some_or, Option.some.injEq]
      at last
    cases behind : rest.getLast? with
    | none =>
        rw [behind] at last
        exact absurd last (by decide)
    | some final =>
        rw [behind, Option.getD_some] at last
        exact last ▸ List.mem_of_getLast? behind
  have total := count_quote_printLabels printable
  have bound := two_mul_length_labels_le block
  have one := List.count_pos_iff.mpr closing
  rw [cut, List.count_append, List.count_cons_of_ne (by decide)] at total
  rw [found] at bound
  omega

/-! ## Reading a printed query back -/

/-- Labels and terms that can be printed. -/
structure Printable (labels : List Label) (terms : List Text) : Prop where
  keys : ∀ label ∈ labels, IsKey label.key
  values : ∀ label ∈ labels, Quotable label.value
  someTerm : terms ≠ []
  terms : ∀ term ∈ terms, term ≠ [] ∧ Quotable term

/-- A printed query is read back as its labels and terms. -/
structure ReadsBack (labels : List Label) (terms : List Text) : Prop where
  sameLabels : (parseQuery (printQuery labels terms)).labels = labels
  sameTerms : (parseQuery (printQuery labels terms)).terms = terms
  firstTerm : some (parseQuery (printQuery labels terms)).primaryTerm = terms.head?

/-- No value holds a brace, and either none holds a pipe or the last one alone
does and the terms are what stands between quoted texts of a query. -/
structure Undisturbed (labels : List Label) (terms : List Text) : Prop where
  noBrace : ∀ label ∈ labels, '\x7d' ∉ label.value
  noPipe : (∀ label ∈ labels, '|' ∉ label.value) ∨
    ∃ before last, labels = before ++ [last] ∧
      (∀ label ∈ before, '|' ∉ label.value) ∧
      terms = sectionGap :: List.replicate (terms.length - 1) termGap

theorem labels_of_block
    {query block : Text}
    (found : search labelBlock query = some block) :
    (parseQuery query).labels = searchAll labelRe block := by
  rw [parseQuery, found]

theorem terms_of_quoted
    {query pipe : Text}
    (found : search pipeSection query = some pipe)
    (quoted : searchAll quotedRe pipe ≠ []) :
    (parseQuery query).terms = searchAll quotedRe pipe := by
  rw [parseQuery, found]
  exact if_neg quoted

/-- A symbol that is not printed around a value is in the value. -/
theorem mem_printLabel
    {label : Label}
    (isKey : IsKey label.key)
    {char : Char}
    (symbol : isWord char = false)
    (other : char ∉ ['=', '"']) :
    char ∈ printLabel label ↔ char ∈ label.value := by
  simp only [List.mem_cons, List.not_mem_nil, or_false, not_or] at other
  rw [printLabel, inQuotes, List.mem_append, List.mem_cons, List.mem_cons, List.mem_append,
    List.mem_singleton]
  constructor
  · rintro (inKey | equals | quote | inside | quote)
    · exact absurd inKey (isKey.notMem symbol)
    · exact absurd equals other.1
    · exact absurd quote other.2
    · exact inside
    · exact absurd quote other.2
  · exact fun inside => Or.inr (Or.inr (Or.inr (Or.inl inside)))

theorem mem_printLabels
    {labels : List Label}
    (keys : ∀ label ∈ labels, IsKey label.key)
    {char : Char}
    (symbol : isWord char = false)
    (other : char ∉ ['=', '"'])
    (noGap : char ∉ labelGap) :
    char ∈ printLabels labels ↔ ∃ label ∈ labels, char ∈ label.value := by
  constructor
  · intro member
    rcases of_mem_joined member with gap | ⟨text, present, inside⟩
    · exact absurd gap noGap
    · obtain ⟨label, isLabel, rfl⟩ := List.mem_map.mp present
      exact ⟨label, isLabel, (mem_printLabel (keys label isLabel) symbol other).mp inside⟩
  · rintro ⟨label, isLabel, inside⟩
    exact mem_joined (List.mem_map_of_mem isLabel)
      ((mem_printLabel (keys label isLabel) symbol other).mpr inside)

/-- The labels are read back exactly when no value holds a closing brace. -/
theorem labels_printQuery
    {labels : List Label}
    {terms : List Text}
    (printable : Printable labels terms) :
    (parseQuery (printQuery labels terms)).labels = labels ↔
      ∀ label ∈ labels, '\x7d' ∉ label.value := by
  have quotes : ∀ label ∈ labels, IsKey label.key ∧ '"' ∉ label.value :=
    fun label member => ⟨printable.keys label member, (printable.values label member).noQuote⟩
  have inValue : '\x7d' ∈ printLabels labels ↔ ∃ label ∈ labels, '\x7d' ∈ label.value :=
    mem_printLabels printable.keys rfl (by decide) (by decide)
  constructor
  · intro back label member brace
    obtain ⟨block, rest, cut, noBrace⟩ :=
      List.eq_append_cons_of_mem (inValue.mpr ⟨label, member, brace⟩)
    have found : search labelBlock (printQuery labels terms) = some block := by
      rw [printQuery, cut, List.append_assoc, List.append_assoc, List.cons_append]
      exact labelBlock_closed noBrace _
    rw [labels_of_block found] at back
    exact searchAll_cut_ne quotes cut back
  · intro noBrace
    have found : search labelBlock (printQuery labels terms) = some (printLabels labels) := by
      rw [printQuery, List.append_assoc]
      refine labelBlock_closed (fun brace => ?_) _
      obtain ⟨label, member, inside⟩ := inValue.mp brace
      exact noBrace label member inside
    rw [labels_of_block found, searchAll_printLabels quotes]

theorem isLineTerminator_of_isWord {char : Char} (word : isWord char = true) :
    isLineTerminator char = false := by
  by_contra breaks
  rw [Bool.not_eq_false, isLineTerminator, decide_eq_true_eq] at breaks
  simp only [List.mem_cons, List.not_mem_nil, or_false] at breaks
  rcases breaks with rfl | rfl | rfl | rfl <;> exact absurd word (by decide)

theorem oneLine_of_all
    {text : Text}
    (all : text.all (fun char => !isLineTerminator char) = true) : OneLine text :=
  fun char member => by simpa using List.all_eq_true.mp all char member

theorem oneLine_joined
    {separator : Text}
    {texts : List Text}
    (gap : OneLine separator)
    (lines : ∀ text ∈ texts, OneLine text) : OneLine (joined separator texts) := by
  intro char member
  rcases of_mem_joined member with inGap | ⟨text, present, inside⟩
  · exact gap char inGap
  · exact lines text present char inside

theorem Quotable.oneLine_inQuotes {text : Text} (quotable : Quotable text) :
    OneLine (inQuotes text) := by
  intro char member
  rw [inQuotes, List.mem_cons, List.mem_append, List.mem_singleton] at member
  rcases member with rfl | inside | rfl
  · rfl
  · exact (quotable char inside).2
  · rfl

/-- A printed query is one line. -/
theorem oneLine_printQuery
    {labels : List Label}
    {terms : List Text}
    (printable : Printable labels terms) : OneLine (printQuery labels terms) := by
  intro char member
  rw [printQuery, List.mem_cons, List.mem_append, List.mem_append] at member
  rcases member with rfl | (inLabels | inGap) | inTerms
  · rfl
  · refine oneLine_joined (oneLine_of_all (by decide)) (fun text present => ?_) char inLabels
    obtain ⟨label, isLabel, rfl⟩ := List.mem_map.mp present
    intro char member
    rw [printLabel, List.mem_append, List.mem_cons] at member
    rcases member with inKey | rfl | inValue
    · exact isLineTerminator_of_isWord ((printable.keys label isLabel).2 char inKey)
    · rfl
    · exact (printable.values label isLabel).oneLine_inQuotes char inValue
  · exact oneLine_of_all (by decide) char inGap
  · refine oneLine_joined (oneLine_of_all (by decide)) (fun text present => ?_) char inTerms
    obtain ⟨term, isTerm, rfl⟩ := List.mem_map.mp present
    exact (printable.terms term isTerm).2.oneLine_inQuotes

/-- Where no value holds a pipe the terms are read back. -/
theorem terms_of_noPipe
    {labels : List Label}
    {terms : List Text}
    (printable : Printable labels terms)
    (noPipe : ∀ label ∈ labels, '|' ∉ label.value) :
    (parseQuery (printQuery labels terms)).terms = terms := by
  have split : printQuery labels terms =
      '\x7b' :: (printLabels labels ++ ['\x7d', ' ']) ++ '|' :: ' ' :: printTerms terms := by
    simp [printQuery, sectionGap]
  have back := searchAll_printTerms fun term member =>
    ⟨(printable.terms term member).1, (printable.terms term member).2.noQuote⟩
  obtain ⟨term, others, rfl⟩ := List.exists_cons_of_ne_nil printable.someTerm
  have start : (' ' :: printTerms (term :: others)).dropWhile isSpace =
      printTerms (term :: others) := rfl
  have found : search pipeSection (printQuery labels (term :: others)) =
      some (printTerms (term :: others)) := by
    have oneLine := oneLine_printQuery printable
    rw [split] at oneLine ⊢
    rw [search_pipeSection, start]
    · intro pipe
      rw [List.mem_cons, List.mem_append,
        mem_printLabels printable.keys rfl (by decide) (by decide)] at pipe
      rcases pipe with brace | ⟨label, member, inside⟩ | gap
      · exact absurd brace (by decide)
      · exact noPipe label member inside
      · exact absurd gap (by decide)
    · rw [start]
      exact List.cons_ne_nil _ _
    · rw [start]
      exact fun char member => oneLine char (by simp [member])
  rw [terms_of_quoted found, back]
  rw [back]
  exact List.cons_ne_nil _ _

/-- What is found between the quotes when the first of them closes a value. -/
theorem searchAll_unpaired_labels
    {labels : List Label}
    {terms : List Text}
    (keys : ∀ label ∈ labels, IsKey label.key ∧ '"' ∉ label.value)
    (someTerm : terms ≠ [])
    (printable : ∀ term ∈ terms, '"' ∉ term) :
    searchAll quotedRe
        ('"' :: ((labels.map printLabel).flatMap (fun text => labelGap ++ text) ++
          (sectionGap ++ printTerms terms))) =
      labels.map (fun label => labelGap ++ label.key ++ ['=']) ++
        sectionGap :: List.replicate (terms.length - 1) termGap := by
  induction labels with
  | nil => exact searchAll_unpaired_terms (by decide) (by decide) someTerm printable
  | cons label labels inductionHypothesis =>
      obtain ⟨⟨isKey, noQuote⟩, later⟩ := List.forall_mem_cons.mp keys
      have split : ∀ rest : Text, '"' :: (labelGap ++ printLabel label ++ rest) =
          '"' :: ((labelGap ++ label.key ++ ['=']) ++ '"' :: (label.value ++ '"' :: rest)) := by
        intro rest
        simp [printLabel, inQuotes]
      rw [List.map_cons, List.flatMap_cons, List.append_assoc, split,
        searchAll_quotedRe_quoted, searchAll_quotedRe_gap noQuote, inductionHypothesis later]
      · rfl
      · simp
      · rw [List.mem_append, List.mem_append]
        rintro ((gap | inKey) | equals)
        · exact absurd gap (by decide)
        · exact isKey.notMem rfl inKey
        · exact absurd equals (by decide)

/-- Where a value holds the first pipe the terms found are what stands between
the quoted texts behind it. -/
theorem terms_of_pipe
    {before after : List Label}
    {label : Label}
    {terms : List Text}
    (printable : Printable (before ++ label :: after) terms)
    (noPipe : ∀ label ∈ before, '|' ∉ label.value)
    (pipe : '|' ∈ label.value) :
    (parseQuery (printQuery (before ++ label :: after) terms)).terms =
      after.map (fun label => labelGap ++ label.key ++ ['=']) ++
        sectionGap :: List.replicate (terms.length - 1) termGap := by
  obtain ⟨front, back, value, noPipe'⟩ := List.eq_append_cons_of_mem pipe
  have isLabel : label ∈ before ++ label :: after := by simp
  have isKey := printable.keys label isLabel
  have noQuote := (printable.values label isLabel).noQuote
  have split : printQuery (before ++ label :: after) terms =
      ('\x7b' :: ((before.map printLabel).flatMap fun text => text ++ labelGap) ++
          label.key ++ ['=', '"'] ++ front) ++
        '|' :: (back ++ '"' ::
          (((after.map printLabel).flatMap fun text => labelGap ++ text) ++
            (sectionGap ++ printTerms terms))) := by
    rw [printQuery, printLabels, List.map_append, List.map_cons, joined_append_cons]
    simp [printLabel, inQuotes, value]
  generalize trail : '"' :: (((after.map printLabel).flatMap fun text => labelGap ++ text) ++
    (sectionGap ++ printTerms terms)) = quoted at split
  have trimmed : (back ++ quoted).dropWhile isSpace = back.dropWhile isSpace ++ quoted := by
    have stop : quoted.dropWhile isSpace = quoted := by
      rw [← trail]
      rfl
    rw [List.dropWhile_append, stop]
    split
    next empty => rw [List.isEmpty_iff.mp empty, List.nil_append]
    next => rfl
  have found : search pipeSection (printQuery (before ++ label :: after) terms) =
      some (back.dropWhile isSpace ++ quoted) := by
    have oneLine := oneLine_printQuery printable
    rw [split] at oneLine ⊢
    rw [search_pipeSection, trimmed]
    · simp only [List.mem_append, List.mem_cons, List.mem_flatMap, List.mem_map,
        List.not_mem_nil, or_false]
      rintro ((((brace | ⟨_, ⟨other, isBefore, rfl⟩, inLabel | gap⟩) | inKey) |
        equals | quote) | inFront)
      · exact absurd brace (by decide)
      · have isOther : other ∈ before ++ label :: after := List.mem_append_left _ isBefore
        rw [mem_printLabel (printable.keys other isOther) rfl (by decide)] at inLabel
        exact noPipe other isBefore inLabel
      · exact absurd gap (by decide)
      · exact isKey.notMem rfl inKey
      · exact absurd equals (by decide)
      · exact absurd quote (by decide)
      · exact noPipe' inFront
    · rw [trimmed, ← trail]
      simp
    · intro char member
      have inRest := (List.dropWhile_sublist _).subset member
      exact oneLine char
        (List.mem_append_right _ (List.mem_cons_of_mem _ inRest))
  have unpaired : searchAll quotedRe (back.dropWhile isSpace ++ quoted) =
      after.map (fun label => labelGap ++ label.key ++ ['=']) ++
        sectionGap :: List.replicate (terms.length - 1) termGap := by
    rw [searchAll_quotedRe_gap, ← trail]
    · refine searchAll_unpaired_labels (fun other isAfter => ?_) printable.someTerm
        fun term isTerm => (printable.terms term isTerm).2.noQuote
      have isOther : other ∈ before ++ label :: after := by simp [isAfter]
      exact ⟨printable.keys other isOther, (printable.values other isOther).noQuote⟩
    · intro quote
      apply noQuote
      rw [value]
      exact List.mem_append_right _
        (List.mem_cons_of_mem _ ((List.dropWhile_sublist _).subset quote))
  rw [terms_of_quoted found, unpaired]
  rw [unpaired]
  simp

/-- A printed query reads back exactly when it is undisturbed. -/
theorem readsBack_iff
    (labels : List Label)
    (terms : List Text)
    (printable : Printable labels terms) :
    ReadsBack labels terms ↔ Undisturbed labels terms := by
  constructor
  · intro back
    refine ⟨(labels_printQuery printable).mp back.sameLabels, ?_⟩
    by_cases noPipe : ∀ label ∈ labels, '|' ∉ label.value
    · exact Or.inl noPipe
    · right
      -- the first label whose value holds a pipe
      have some_pipe : ∃ label, labels.find? (fun label => '|' ∈ label.value) = some label := by
        rw [← Option.isSome_iff_exists, List.find?_isSome]
        simpa using noPipe
      obtain ⟨label, found⟩ := some_pipe
      obtain ⟨pipe, before, after, rfl, earlier⟩ := List.find?_eq_some_iff_append.mp found
      rw [decide_eq_true_eq] at pipe
      have noPipe' : ∀ label ∈ before, '|' ∉ label.value := by simpa using earlier
      have terms_eq := (terms_of_pipe printable noPipe' pipe).symm.trans back.sameTerms
      have lengths := congrArg List.length terms_eq
      have some_term := List.length_pos_iff.mpr printable.someTerm
      simp only [List.length_append, List.length_map, List.length_cons,
        List.length_replicate] at lengths
      have last : after = [] := List.eq_nil_of_length_eq_zero (by omega)
      rw [last] at terms_eq ⊢
      exact ⟨before, label, rfl, noPipe', terms_eq.symm⟩
  · rintro ⟨noBrace, undisturbed⟩
    have sameTerms : (parseQuery (printQuery labels terms)).terms = terms := by
      by_cases noPipe : ∀ label ∈ labels, '|' ∉ label.value
      · exact terms_of_noPipe printable noPipe
      · obtain ⟨before, last, rfl, noPipe', shape⟩ := undisturbed.resolve_left noPipe
        have pipe : '|' ∈ last.value := by
          by_contra absent
          apply noPipe
          intro label member
          rcases List.mem_append.mp member with isBefore | isLast
          · exact noPipe' label isBefore
          · rw [List.mem_singleton.mp isLast]
            exact absent
        have found := terms_of_pipe printable noPipe' pipe
        rw [found]
        exact shape.symm
    refine ⟨(labels_printQuery printable).mpr noBrace, sameTerms, ?_⟩
    have first : (parseQuery (printQuery labels terms)).primaryTerm =
        (parseQuery (printQuery labels terms)).terms.headD [] := rfl
    rw [first, sameTerms]
    obtain ⟨term, others, rfl⟩ := List.exists_cons_of_ne_nil printable.someTerm
    rfl

theorem quotable_of_all
    {text : Text}
    (all : text.all (fun char => char != '"' && !isLineTerminator char) = true) :
    Quotable text :=
  fun char member => by simpa using List.all_eq_true.mp all char member

/-- One label and one term. -/
theorem printable_single
    {key value term : Text}
    (isKey : key ≠ [] ∧ key.all isWord = true)
    (valueQuotable : Quotable value)
    (nonempty : term ≠ [])
    (termQuotable : Quotable term) : Printable [⟨key, value⟩] [term] where
  keys := List.forall_mem_singleton.mpr ⟨isKey.1, List.all_eq_true.mp isKey.2⟩
  values := List.forall_mem_singleton.mpr valueQuotable
  someTerm := List.cons_ne_nil _ _
  terms := List.forall_mem_singleton.mpr ⟨nonempty, termQuotable⟩

theorem readsBack_iff_nginx :
    ReadsBack [⟨"app".toList, "a=b".toList⟩] ["x|y".toList] ↔
      Undisturbed [⟨"app".toList, "a=b".toList⟩] ["x|y".toList] :=
  readsBack_iff _ _ (printable_single (by decide) (quotable_of_all (by decide)) (by decide)
    (quotable_of_all (by decide)))

/-- A pipe in a value is taken for the one in front of the terms. -/
theorem pipe_in_value_misread :
    ¬ ∀ (labels : List Label) (terms : List Text),
      Printable labels terms → ReadsBack labels terms := by
  intro claim
  have back := claim [⟨"app".toList, "a|b".toList⟩] ["error".toList]
    (printable_single (by decide) (quotable_of_all (by decide)) (by decide)
      (quotable_of_all (by decide)))
  have first := back.sameTerms
  revert first
  decide +kernel

end Web
end Chronolog
