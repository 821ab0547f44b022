import Mathlib.Data.List.TakeWhile

/-!
# Backtracking matchers

A matcher lists the ways it matches the beginning of a text, in the order in
which a backtracking regular expression engine tries them, each with what it
captures and the text that is left.  Matchers are sequenced by a monad; the
first way of a whole pattern is its match.
-/

/-- The matches at the beginning of a text, the preferred one first. -/
def Matcher (α : Type) : Type := List Char → List (α × List Char)

namespace Matcher

variable {α β : Type}

instance : Monad Matcher where
  pure value := fun text => [(value, text)]
  bind first next := fun text => (first text).flatMap fun way => next way.1 way.2

/-- Alternatives, the left one preferred. -/
def either (left right : Matcher α) : Matcher α := fun text => left text ++ right text

/-- One character of a class. -/
def one (accept : Char → Bool) : Matcher Char
  | [] => []
  | char :: rest => if accept char then [(char, rest)] else []

/-- A given character. -/
def char (expected : Char) : Matcher Char := one fun char => char == expected

/-- The end of the text. -/
def atEnd : Matcher Unit
  | [] => [((), [])]
  | _ :: _ => []

/-- Any number of characters of a class, as many as possible. -/
def many (accept : Char → Bool) : Matcher (List Char)
  | [] => [([], [])]
  | char :: rest =>
      if accept char then
        (many accept rest).map (fun way => (char :: way.1, way.2)) ++ [([], char :: rest)]
      else [([], char :: rest)]

/-- Any number of characters of a class, as few as possible. -/
def manyLazy (accept : Char → Bool) : Matcher (List Char)
  | [] => [([], [])]
  | char :: rest =>
      if accept char then
        ([], char :: rest) :: (manyLazy accept rest).map fun way => (char :: way.1, way.2)
      else [([], char :: rest)]

/-- At least one character of a class, as many as possible. -/
def many1 (accept : Char → Bool) : Matcher (List Char) := do
  let head ← one accept
  let tail ← many accept
  return head :: tail

/-- At least one character of a class, as few as possible. -/
def many1Lazy (accept : Char → Bool) : Matcher (List Char) := do
  let head ← one accept
  let tail ← manyLazy accept
  return head :: tail

/-- A match or, if that leads nowhere, none. -/
def optional (inner : Matcher α) : Matcher (Option α) :=
  either (do return some (← inner)) (pure none)

/-- The match at the beginning of a text. -/
def exec (matcher : Matcher α) (text : List Char) : Option α :=
  (matcher text).head?.map Prod.fst

/-- The leftmost match in a text. -/
def search (matcher : Matcher α) : List Char → Option α
  | [] => exec matcher []
  | char :: rest => (exec matcher (char :: rest)).or (search matcher rest)

/-- All matches in a text from left to right, after skipping characters that
belong to the last one.  The matcher does not match the empty text. -/
def searchAllFrom (matcher : Matcher α) : Nat → List Char → List α
  | _, [] => []
  | skip + 1, _ :: rest => searchAllFrom matcher skip rest
  | 0, char :: rest =>
      match (matcher (char :: rest)).head? with
      | some (value, left) =>
          value :: searchAllFrom matcher (rest.length - left.length) rest
      | none => searchAllFrom matcher 0 rest

/-- All matches in a text from left to right. -/
def searchAll (matcher : Matcher α) (text : List Char) : List α :=
  searchAllFrom matcher 0 text

/-! ## The ways of a pattern -/

variable {text left : List Char}

theorem mem_pure {value other : α} :
    (other, left) ∈ (pure value : Matcher α) text ↔ other = value ∧ left = text := by
  change (other, left) ∈ [(value, text)] ↔ _
  rw [List.mem_singleton, Prod.mk.injEq]

theorem mem_bind {first : Matcher α} {next : α → Matcher β} {value : β} :
    (value, left) ∈ (first >>= next) text ↔
      ∃ found middle, (found, middle) ∈ first text ∧ (value, left) ∈ next found middle := by
  change (value, left) ∈ (first text).flatMap _ ↔ _
  simp only [List.mem_flatMap, Prod.exists]

theorem mem_either {first second : Matcher α} {value : α} :
    (value, left) ∈ either first second text ↔
      (value, left) ∈ first text ∨ (value, left) ∈ second text :=
  List.mem_append

theorem mem_one {accept : Char → Bool} {found : Char} :
    (found, left) ∈ one accept text ↔ text = found :: left ∧ accept found = true := by
  cases text with
  | nil => simp [one]
  | cons head rest =>
      by_cases accepted : accept head = true
      · simp only [one, if_pos accepted, List.mem_singleton, Prod.mk.injEq, List.cons.injEq]
        constructor
        · rintro ⟨rfl, rfl⟩
          exact ⟨⟨rfl, rfl⟩, accepted⟩
        · rintro ⟨⟨rfl, rfl⟩, _⟩
          exact ⟨rfl, rfl⟩
      · simp only [one, if_neg accepted, List.not_mem_nil, List.cons.injEq, false_iff]
        rintro ⟨⟨rfl, _⟩, accepted'⟩
        exact accepted accepted'

theorem mem_char {expected found : Char} :
    (found, left) ∈ char expected text ↔ text = expected :: left ∧ found = expected := by
  rw [char, mem_one, beq_iff_eq]
  constructor
  · rintro ⟨rfl, rfl⟩
    exact ⟨rfl, rfl⟩
  · rintro ⟨rfl, rfl⟩
    exact ⟨rfl, rfl⟩

theorem mem_atEnd {found : Unit} : (found, left) ∈ atEnd text ↔ text = [] ∧ left = [] := by
  cases text <;> simp [atEnd]

/-- Repetitions, greedy or not, find every run of characters of the class. -/
theorem mem_many {accept : Char → Bool} {run : List Char} :
    (run, left) ∈ many accept text ↔
      text = run ++ left ∧ ∀ char ∈ run, accept char = true := by
  induction text generalizing run left with
  | nil =>
      rw [many, List.mem_singleton, Prod.mk.injEq, @eq_comm _ [], List.append_eq_nil_iff]
      refine (and_iff_left_of_imp ?_).symm
      rintro ⟨rfl, _⟩
      exact fun _ member => absurd member List.not_mem_nil
  | cons head rest inductionHypothesis =>
      have longer : (run, left) ∈ (many accept rest).map (fun way => (head :: way.1, way.2)) ↔
          ∃ tail, run = head :: tail ∧ rest = tail ++ left ∧
            ∀ char ∈ tail, accept char = true := by
        simp only [List.mem_map, Prod.exists, Prod.mk.injEq, inductionHypothesis]
        constructor
        · rintro ⟨tail, _, inside, rfl, rfl⟩
          exact ⟨tail, rfl, inside⟩
        · rintro ⟨tail, rfl, inside⟩
          exact ⟨tail, left, inside, rfl, rfl⟩
      by_cases accepted : accept head = true
      · rw [many, if_pos accepted, List.mem_append, longer, List.mem_singleton, Prod.mk.injEq]
        cases run with
        | nil => simp [@eq_comm _ left]
        | cons first run =>
            rw [List.cons_append, List.cons.injEq, List.forall_mem_cons]
            constructor
            · rintro (⟨tail, same, split, inside⟩ | ⟨impossible, _⟩)
              · obtain ⟨rfl, rfl⟩ := List.cons.inj same
                exact ⟨⟨rfl, split⟩, accepted, inside⟩
              · exact absurd impossible (List.cons_ne_nil _ _)
            · rintro ⟨⟨rfl, split⟩, _, inside⟩
              exact Or.inl ⟨run, rfl, split, inside⟩
      · rw [many, if_neg accepted, List.mem_singleton, Prod.mk.injEq]
        cases run with
        | nil => simp [@eq_comm _ left]
        | cons first run =>
            rw [List.cons_append, List.cons.injEq, List.forall_mem_cons]
            refine iff_of_false (fun impossible => List.cons_ne_nil _ _ impossible.1) ?_
            rintro ⟨⟨rfl, _⟩, accepted', _⟩
            exact accepted accepted'

theorem mem_manyLazy {accept : Char → Bool} {run : List Char} :
    (run, left) ∈ manyLazy accept text ↔ (run, left) ∈ many accept text := by
  induction text generalizing run left with
  | nil => rfl
  | cons head rest inductionHypothesis =>
      rw [manyLazy, many]
      split
      · rw [List.mem_cons, List.mem_append, List.mem_singleton, or_comm]
        refine or_congr ?_ Iff.rfl
        simp only [List.mem_map, Prod.exists, inductionHypothesis]
      · rfl

theorem mem_many1 {accept : Char → Bool} {run : List Char} :
    (run, left) ∈ many1 accept text ↔
      text = run ++ left ∧ run ≠ [] ∧ ∀ char ∈ run, accept char = true := by
  simp only [many1, mem_bind, mem_pure, mem_one, mem_many]
  constructor
  · rintro ⟨head, _, ⟨rfl, accepted⟩, tail, _, ⟨rfl, inside⟩, rfl, rfl⟩
    exact ⟨rfl, List.cons_ne_nil _ _, List.forall_mem_cons.mpr ⟨accepted, inside⟩⟩
  · rintro ⟨rfl, nonempty, inside⟩
    cases run with
    | nil => exact absurd rfl nonempty
    | cons head tail =>
        obtain ⟨accepted, inside⟩ := List.forall_mem_cons.mp inside
        exact ⟨head, tail ++ left, ⟨rfl, accepted⟩, tail, left, ⟨rfl, inside⟩, rfl, rfl⟩

theorem mem_many1Lazy {accept : Char → Bool} {run : List Char} :
    (run, left) ∈ many1Lazy accept text ↔ (run, left) ∈ many1 accept text := by
  simp only [many1, many1Lazy, mem_bind, mem_manyLazy]

theorem mem_optional {inner : Matcher α} {found : Option α} :
    (found, left) ∈ optional inner text ↔
      (∃ value, found = some value ∧ (value, left) ∈ inner text) ∨
        found = none ∧ left = text := by
  simp only [optional, mem_either, mem_bind, mem_pure]
  constructor
  · rintro (⟨value, _, member, rfl, rfl⟩ | absent)
    · exact Or.inl ⟨value, rfl, member⟩
    · exact Or.inr absent
  · rintro (⟨value, rfl, member⟩ | absent)
    · exact Or.inl ⟨value, left, member, rfl, rfl⟩
    · exact Or.inr absent

/-! ## Patterns that do not match -/

theorem bind_eq_nil
    {first : Matcher α}
    {next : α → Matcher β}
    (nothing : first text = []) : (first >>= next) text = [] := by
  change (first text).flatMap _ = []
  rw [nothing]
  rfl

/-- A pattern that starts with a given character matches at no other. -/
theorem bind_char_eq_nil
    {expected first : Char}
    {next : Char → Matcher β}
    (other : first ≠ expected)
    (rest : List Char) : (char expected >>= next) (first :: rest) = [] := by
  apply bind_eq_nil
  rw [char, one, if_neg (by simpa using other)]

theorem many1_eq_nil
    {accept : Char → Bool}
    {first : Char}
    (refused : accept first = false)
    (rest : List Char) : many1 accept (first :: rest) = [] := by
  apply bind_eq_nil
  rw [one, if_neg (by rw [refused]; decide)]

/-! ## The preferred way -/

/-- The preferred way of a sequence, when the preferred way of its first part
leads on. -/
theorem head?_bind
    {first : Matcher α}
    {next : α → Matcher β}
    {found : α}
    {middle : List Char}
    {way : β × List Char}
    (here : (first text).head? = some (found, middle))
    (there : (next found middle).head? = some way) :
    ((first >>= next) text).head? = some way := by
  change ((first text).flatMap _).head? = _
  obtain ⟨others, split⟩ := List.head?_eq_some_iff.mp here
  rw [split, List.flatMap_cons, List.head?_append, there, Option.some_or]

/-- A greedy repetition prefers the whole run. -/
theorem head?_many (accept : Char → Bool) (text : List Char) :
    (many accept text).head? = some (text.takeWhile accept, text.dropWhile accept) := by
  induction text with
  | nil => rfl
  | cons head rest inductionHypothesis =>
      by_cases accepted : accept head = true
      · rw [many, if_pos accepted, List.takeWhile_cons_of_pos accepted,
          List.dropWhile_cons_of_pos accepted, List.head?_append, List.head?_map,
          inductionHypothesis]
        rfl
      · rw [many, if_neg accepted, List.takeWhile_cons_of_neg accepted,
          List.dropWhile_cons_of_neg accepted]
        rfl

theorem head?_many1
    {accept : Char → Bool}
    {text : List Char}
    (nonempty : text.takeWhile accept ≠ []) :
    (many1 accept text).head? = some (text.takeWhile accept, text.dropWhile accept) := by
  cases text with
  | nil => exact absurd rfl nonempty
  | cons head rest =>
      have accepted : accept head = true := by
        by_contra refused
        exact nonempty (List.takeWhile_cons_of_neg refused)
      rw [List.takeWhile_cons_of_pos accepted, List.dropWhile_cons_of_pos accepted]
      have first : (one accept (head :: rest)).head? = some (head, rest) := by
        rw [one, if_pos accepted]
        rfl
      exact head?_bind first (head?_bind (head?_many accept rest) rfl)

theorem head?_char (expected : Char) (rest : List Char) :
    (char expected (expected :: rest)).head? = some (expected, rest) := by
  rw [char, one, if_pos (beq_self_eq_true expected)]
  rfl

/-- A greedy repetition takes a run up to a character of another class. -/
theorem head?_many_run
    {accept : Char → Bool}
    {run rest : List Char}
    (inside : ∀ char ∈ run, accept char = true)
    (stop : ∀ char, rest.head? = some char → accept char = false) :
    (many accept (run ++ rest)).head? = some (run, rest) := by
  have before : rest.takeWhile accept = [] := by
    cases rest with
    | nil => rfl
    | cons next rest =>
        exact List.takeWhile_cons_of_neg (Bool.eq_false_iff.mp (stop next rfl))
  have behind : rest.dropWhile accept = rest := by
    cases rest with
    | nil => rfl
    | cons next rest =>
        exact List.dropWhile_cons_of_neg (Bool.eq_false_iff.mp (stop next rfl))
  rw [head?_many, List.takeWhile_append_of_pos inside, List.dropWhile_append_of_pos inside,
    before, behind, List.append_nil]

theorem head?_many1_run
    {accept : Char → Bool}
    {run rest : List Char}
    (nonempty : run ≠ [])
    (inside : ∀ char ∈ run, accept char = true)
    (stop : ∀ char, rest.head? = some char → accept char = false) :
    (many1 accept (run ++ rest)).head? = some (run, rest) := by
  cases run with
  | nil => exact absurd rfl nonempty
  | cons head tail =>
      obtain ⟨accepted, later⟩ := List.forall_mem_cons.mp inside
      have first : (one accept (head :: tail ++ rest)).head? = some (head, tail ++ rest) := by
        rw [List.cons_append, one, if_pos accepted]
        rfl
      exact head?_bind first (head?_bind (head?_many_run later stop) rfl)

/-- An option that does not match is skipped. -/
theorem head?_optional_of_none
    {inner : Matcher α}
    (nothing : inner text = []) : (optional inner text).head? = some (none, text) := by
  have skipped : optional inner text =
      (inner >>= fun value => pure (some value)) text ++ [(none, text)] := rfl
  rw [skipped, bind_eq_nil nothing]
  rfl

theorem exec_eq_none_iff {matcher : Matcher α} {text : List Char} :
    exec matcher text = none ↔ matcher text = [] := by
  rw [exec, Option.map_eq_none_iff, List.head?_eq_none_iff]

/-- A match is one of the ways of the pattern. -/
theorem mem_of_exec
    {matcher : Matcher α}
    {value : α}
    (matched : exec matcher text = some value) : ∃ left, (value, left) ∈ matcher text := by
  obtain ⟨way, first, rfl⟩ := Option.map_eq_some_iff.mp matched
  exact ⟨way.2, List.mem_of_head? first⟩

/-! ## Searching -/

theorem search_of_head?
    {matcher : Matcher α}
    {way : α × List Char}
    (first : (matcher text).head? = some way) : search matcher text = some way.1 := by
  have matched : exec matcher text = some way.1 := by
    rw [exec, first]
    rfl
  cases text with
  | nil => exact matched
  | cons head rest => rw [search, matched, Option.some_or]

/-- Characters at which a pattern does not match are passed over. -/
theorem search_append_of_silent
    {matcher : Matcher α}
    {gap : List Char}
    (silent : ∀ char ∈ gap, ∀ rest, matcher (char :: rest) = [])
    (rest : List Char) : search matcher (gap ++ rest) = search matcher rest := by
  induction gap with
  | nil => rfl
  | cons head gap inductionHypothesis =>
      obtain ⟨here, later⟩ := List.forall_mem_cons.mp silent
      rw [List.cons_append, search, exec_eq_none_iff.mpr (here _), Option.none_or]
      exact inductionHypothesis later

theorem searchAllFrom_eq_searchAll_drop
    (matcher : Matcher α)
    (skip : Nat)
    (text : List Char) :
    searchAllFrom matcher skip text = searchAll matcher (text.drop skip) := by
  induction text generalizing skip with
  | nil => cases skip <;> rfl
  | cons head rest inductionHypothesis =>
      cases skip with
      | zero => rfl
      | succ skip => exact inductionHypothesis skip

theorem searchAll_append_of_silent
    {matcher : Matcher α}
    {gap : List Char}
    (silent : ∀ char ∈ gap, ∀ rest, matcher (char :: rest) = [])
    (rest : List Char) : searchAll matcher (gap ++ rest) = searchAll matcher rest := by
  induction gap with
  | nil => rfl
  | cons head gap inductionHypothesis =>
      obtain ⟨here, later⟩ := List.forall_mem_cons.mp silent
      rw [List.cons_append, searchAll, searchAllFrom, here, List.head?_nil]
      exact inductionHypothesis later

/-- The matches from a match on. -/
theorem searchAll_of_head?
    {matcher : Matcher α}
    {value : α}
    {consumed : List Char}
    (nonempty : consumed ≠ [])
    (first : (matcher (consumed ++ left)).head? = some (value, left)) :
    searchAll matcher (consumed ++ left) = value :: searchAll matcher left := by
  cases consumed with
  | nil => exact absurd rfl nonempty
  | cons head tail =>
      rw [List.cons_append] at first ⊢
      rw [searchAll, searchAllFrom, first]
      dsimp only
      have behind : (tail ++ left).length - left.length = tail.length := by
        rw [List.length_append]
        omega
      rw [searchAllFrom_eq_searchAll_drop, behind, List.drop_left]

/-- When every match takes up some copies of a character, a text has only so many
matches. -/
theorem mul_length_searchAll_le
    {matcher : Matcher α}
    {mark : Char}
    {uses : Nat}
    (used : ∀ text value left, (value, left) ∈ matcher text →
      ∃ consumed, text = consumed ++ left ∧ consumed ≠ [] ∧ uses ≤ consumed.count mark)
    (text : List Char) : uses * (searchAll matcher text).length ≤ text.count mark := by
  suffices general : ∀ skip,
      uses * (searchAllFrom matcher skip text).length ≤ (text.drop skip).count mark from
    general 0
  induction text with
  | nil => exact fun skip => by cases skip <;> exact Nat.zero_le _
  | cons head rest inductionHypothesis =>
      intro skip
      cases skip with
      | succ skip => exact inductionHypothesis skip
      | zero =>
          rw [searchAllFrom]
          split
          next value left first =>
            obtain ⟨consumed, split, nonempty, marked⟩ :=
              used _ _ _ (List.mem_of_head? first)
            obtain ⟨tail, rfl, rfl⟩ :=
              (List.cons_eq_append_iff.mp split).resolve_left fun empty => nonempty empty.1
            have later := inductionHypothesis ((tail ++ left).length - left.length)
            rw [List.length_append, Nat.add_sub_cancel, List.drop_left] at later
            rw [List.drop_zero, ← List.cons_append, List.count_append, List.length_cons,
              Nat.mul_succ, List.length_append, Nat.add_sub_cancel]
            omega
          next =>
            refine Nat.le_trans (inductionHypothesis 0) ?_
            rw [List.drop_zero, List.drop_zero]
            exact List.count_le_count_cons

/-! ## Runs of a class -/

/-- A nonempty run of characters of a class. -/
structure Run (accept : Char → Bool) (run : List Char) : Prop where
  nonempty : run ≠ []
  inside : ∀ char ∈ run, accept char = true

/-- No character is in both classes. -/
def Apart (accept other : Char → Bool) : Prop :=
  ∀ char, other char = true → accept char = false

variable {accept other : Char → Bool} {run following rest : List Char}

/-- Whether a text is a run can be computed. -/
theorem Run.of_all (nonempty : run ≠ []) (all : run.all accept = true) : Run accept run :=
  ⟨nonempty, List.all_eq_true.mp all⟩

theorem mem_many1_iff_run :
    (run, left) ∈ many1 accept text ↔ text = run ++ left ∧ Run accept run := by
  rw [mem_many1]
  constructor
  · rintro ⟨split, nonempty, inside⟩
    exact ⟨split, nonempty, inside⟩
  · rintro ⟨split, nonempty, inside⟩
    exact ⟨split, nonempty, inside⟩

/-- The first character behind a run that another run follows. -/
theorem Run.stop
    (apart : Apart accept other)
    (follows : Run other following)
    (rest : List Char) :
    ∀ char, (following ++ rest).head? = some char → accept char = false := by
  intro char first
  cases following with
  | nil => exact absurd rfl follows.nonempty
  | cons head tail =>
      obtain rfl := Option.some.inj first
      exact apart head (follows.inside head List.mem_cons_self)

/-- A greedy repetition takes a run up to a run of another class. -/
theorem Run.head?_bind
    {next : List Char → Matcher β}
    {way : β × List Char}
    (runs : Run accept run)
    (stop : ∀ char, rest.head? = some char → accept char = false)
    (there : (next run rest).head? = some way) :
    ((many1 accept >>= next) (run ++ rest)).head? = some way :=
  Matcher.head?_bind (head?_many1_run runs.nonempty runs.inside stop) there

/-- A run and what follows divide into the longest run and the rest. -/
theorem Run.exists_longest
    (runs : Run accept run)
    (rest : List Char) :
    ∃ longest behind, run ++ rest = longest ++ behind ∧ Run accept longest ∧
      ∀ char, behind.head? = some char → accept char = false := by
  refine ⟨run ++ rest.takeWhile accept, rest.dropWhile accept, ?_, ⟨?_, ?_⟩, ?_⟩
  · rw [List.append_assoc, List.takeWhile_append_dropWhile]
  · exact fun empty => runs.nonempty (List.append_eq_nil_iff.mp empty).1
  · intro char member
    rcases List.mem_append.mp member with first | second
    · exact runs.inside char first
    · exact List.mem_takeWhile_imp second
  · intro char first
    have stopped := List.head?_dropWhile_not accept rest
    rw [first] at stopped
    exact stopped

theorem Run.dropWhile
    (runs : Run accept run)
    (stop : ∀ char, rest.head? = some char → accept char = false) :
    (run ++ rest).dropWhile accept = rest := by
  rw [List.dropWhile_append_of_pos runs.inside]
  cases rest with
  | nil => rfl
  | cons head tail => exact List.dropWhile_cons_of_neg (by simp [stop head rfl])

theorem Run.takeWhile
    (runs : Run accept run)
    (stop : ∀ char, rest.head? = some char → accept char = false) :
    (run ++ rest).takeWhile accept = run := by
  rw [List.takeWhile_append_of_pos runs.inside]
  cases rest with
  | nil => exact List.append_nil run
  | cons head tail =>
      rw [List.takeWhile_cons_of_neg (by simp [stop head rfl]), List.append_nil]

/-- A text has one longest run at its beginning. -/
theorem run_unique
    {first second behind : List Char}
    (same : first ++ rest = second ++ behind)
    (inside : ∀ char ∈ first, accept char = true)
    (others : ∀ char ∈ second, accept char = true)
    (stop : ∀ char, rest.head? = some char → accept char = false)
    (otherStop : ∀ char, behind.head? = some char → accept char = false) :
    first = second := by
  have taken := head?_many_run inside stop
  rw [same, head?_many_run others otherStop] at taken
  exact (congrArg Prod.fst (Option.some.inj taken)).symm

theorem Apart.symm (apart : Apart accept other) : Apart other accept := by
  intro char accepted
  rw [Bool.eq_false_iff]
  intro also
  rw [apart char also] at accepted
  exact Bool.false_ne_true accepted

/-- An option that matches is taken. -/
theorem head?_optional_of_head?
    {inner : Matcher α}
    {value : α}
    (first : (inner text).head? = some (value, left)) :
    (optional inner text).head? = some (some value, left) := by
  have taken : ((inner >>= fun value => pure (some value)) text).head? =
      some (some value, left) := head?_bind first rfl
  change ((inner >>= fun value => pure (some value)) text ++ [(none, text)]).head? = _
  rw [List.head?_append, taken]
  rfl

theorem head?_many_all (text : List Char) :
    (many (fun _ => true) text).head? = some (text, []) := by
  have stop : ∀ char, ([] : List Char).head? = some char → (fun _ => true) char = false :=
    fun char first => absurd first.symm (Option.some_ne_none char)
  have whole := head?_many_run (fun char (_ : char ∈ text) => rfl) stop
  rwa [List.append_nil] at whole

/-- A lazy repetition takes the shortest run from which the rest of the pattern
matches. -/
theorem head?_bind_manyLazy
    {next : List Char → Matcher β}
    {way : β × List Char}
    (inside : ∀ char ∈ run, accept char = true)
    (there : (next run rest).head? = some way)
    (shorter : ∀ front back, run = front ++ back → back ≠ [] →
      next front (back ++ rest) = []) :
    ((manyLazy accept >>= next) (run ++ rest)).head? = some way := by
  induction run generalizing next with
  | nil =>
      have first : (manyLazy accept rest).head? = some ([], rest) := by
        cases rest with
        | nil => rfl
        | cons head tail =>
            unfold manyLazy
            split <;> rfl
      exact Matcher.head?_bind first there
  | cons head tail inductionHypothesis =>
      obtain ⟨accepted, later⟩ := List.forall_mem_cons.mp inside
      have nothing : next [] (head :: (tail ++ rest)) = [] :=
        shorter [] (head :: tail) rfl (List.cons_ne_nil head tail)
      have rest_ways :
          (manyLazy accept >>= next) (head :: tail ++ rest) =
            (manyLazy accept >>= fun run => next (head :: run)) (tail ++ rest) := by
        change (manyLazy accept (head :: (tail ++ rest))).flatMap _ =
          (manyLazy accept (tail ++ rest)).flatMap _
        rw [manyLazy, if_pos accepted, List.flatMap_cons, nothing, List.nil_append,
          List.flatMap_map]
      rw [rest_ways]
      apply inductionHypothesis later there
      intro front back split nonempty
      apply shorter (head :: front) back
      · rw [split, List.cons_append]
      · exact nonempty

theorem Run.head?_bind_many1Lazy
    {next : List Char → Matcher β}
    {way : β × List Char}
    (runs : Run accept run)
    (there : (next run rest).head? = some way)
    (shorter : ∀ front back, run = front ++ back → front ≠ [] → back ≠ [] →
      next front (back ++ rest) = []) :
    ((many1Lazy accept >>= next) (run ++ rest)).head? = some way := by
  cases run with
  | nil => exact absurd rfl runs.nonempty
  | cons head tail =>
      obtain ⟨accepted, later⟩ := List.forall_mem_cons.mp runs.inside
      have first : many1Lazy accept (head :: tail ++ rest) =
          (manyLazy accept (tail ++ rest)).map fun way => (head :: way.1, way.2) := by
        change (one accept (head :: (tail ++ rest))).flatMap _ = _
        rw [one, if_pos accepted, List.flatMap_singleton]
        exact List.map_eq_flatMap.symm
      have ways :
          (many1Lazy accept >>= next) (head :: tail ++ rest) =
            (manyLazy accept >>= fun run => next (head :: run)) (tail ++ rest) := by
        change (many1Lazy accept (head :: tail ++ rest)).flatMap _ = _
        rw [first, List.flatMap_map]
        rfl
      rw [ways]
      apply head?_bind_manyLazy later there
      intro front back split nonempty
      apply shorter (head :: front) back
      · rw [split, List.cons_append]
      · exact List.cons_ne_nil head front
      · exact nonempty

end Matcher
