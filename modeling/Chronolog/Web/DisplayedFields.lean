import Chronolog.Web.QueryParser
import Mathlib.Data.List.Infix

/-!
# What a displayed log says

The host, the application and the level that `normalizeLogEntry` reads off a
message.  A message that starts with `APP:` is never taken for a syslog line
whose application is `APP`, because both syslog patterns want a word without a
colon before the first blank.
-/

namespace Chronolog
namespace Web

open Matcher

/-! ## The syslog patterns -/

/-- What both syslog patterns have in common: a first word in which no colon
occurs, and groups from behind it. -/
structure FitsTag (message : Text) (groups : SyslogMatch) : Prop where
  tag : ∃ tag space, '<' :: (tag ++ [space]) <+: message ∧
    isSpace space = true ∧ ':' ∉ tag
  host_shorter : groups.host.length < message.length
  app_word : ∀ char ∈ groups.app, isNonSpace char = true

theorem exists_head_of_many1
    {accept : Char → Bool}
    {run : Text}
    (nonempty : run ≠ [])
    (inside : ∀ char ∈ run, accept char = true) :
    ∃ head tail, run = head :: tail ∧ accept head = true := by
  cases run with
  | nil => exact absurd rfl nonempty
  | cons head tail => exact ⟨head, tail, rfl, inside head List.mem_cons_self⟩

theorem colon_notMem_digits
    {digits : Text}
    (inside : ∀ char ∈ digits, char.isDigit = true) : ':' ∉ digits :=
  fun member => absurd (inside ':' member) (by decide)

theorem colon_notMem_word
    {word : Text}
    (inside : ∀ char ∈ word, isWord char = true) : ':' ∉ word :=
  fun member => absurd (inside ':' member) (by decide)

theorem fitsTag_of_mem_r5424
    {message left : Text}
    {groups : SyslogMatch}
    (way : (groups, left) ∈ r5424 message) : FitsTag message groups := by
  simp only [r5424, mem_bind, mem_char, mem_many1, mem_many, mem_atEnd, mem_pure] at way
  obtain ⟨_, _, ⟨opened, _⟩, pri, _, ⟨priority, _, digits⟩, _, _, ⟨closed, _⟩,
    _, _, ⟨version, _⟩, way⟩ := way
  obtain ⟨blanks, behind, ⟨pause, blanksNonempty, blank⟩, stamp, _, ⟨stampSplit, _⟩,
    gap, _, ⟨gapSplit, _⟩, host, _, ⟨hostSplit, _⟩, way⟩ := way
  obtain ⟨_, _, _, app, _, ⟨_, _, appWord⟩, way⟩ := way
  obtain ⟨_, _, _, pid, _, _, _, _, _, _, _, _, _, _, _, _, _, _, _, _, _, text, _, _,
    _, _, _, rfl, _⟩ := way
  obtain ⟨space, tail, rfl, isBlank⟩ := exists_head_of_many1 blanksNonempty blank
  subst opened priority closed version pause
  refine ⟨⟨pri ++ ['>', '1'], space, ?_, isBlank, ?_⟩, ?_, appWord⟩
  · simp
  · rw [List.mem_append, not_or]
    exact ⟨colon_notMem_digits digits, by decide⟩
  · have within : host.length ≤ behind.length := by
      rw [stampSplit, gapSplit, hostSplit]
      simp only [List.length_append]
      omega
    simp only [List.length_cons, List.length_append]
    omega

theorem fitsTag_of_mem_r3164
    {message left : Text}
    {groups : SyslogMatch}
    (way : (groups, left) ∈ r3164 message) : FitsTag message groups := by
  simp only [r3164, mem_bind, mem_char, mem_many1, mem_many1Lazy, mem_many, mem_atEnd,
    mem_pure] at way
  obtain ⟨_, _, ⟨opened, _⟩, pri, _, ⟨priority, _, digits⟩, _, _, ⟨closed, _⟩,
    month, _, ⟨name, _, word⟩, way⟩ := way
  obtain ⟨blanks, behind, ⟨pause, blanksNonempty, blank⟩, day, _, ⟨daySplit, _⟩,
    gap, _, ⟨gapSplit, _⟩, time, _, ⟨timeSplit, _⟩, space, _, ⟨spaceSplit, _⟩,
    host, _, ⟨hostSplit, _⟩, way⟩ := way
  obtain ⟨_, _, _, app, _, ⟨_, _, appWord⟩, way⟩ := way
  obtain ⟨pid, _, _, _, _, _, _, _, _, text, _, _, _, _, _, rfl, _⟩ := way
  obtain ⟨space, tail, rfl, isBlank⟩ := exists_head_of_many1 blanksNonempty blank
  subst opened priority closed name pause
  refine ⟨⟨pri ++ '>' :: month, space, ?_, isBlank, ?_⟩, ?_, appWord⟩
  · simp
  · rw [List.mem_append, List.mem_cons, not_or, not_or]
    exact ⟨colon_notMem_digits digits, by decide, colon_notMem_word word⟩
  · have within : host.length ≤ behind.length := by
      rw [daySplit, gapSplit, timeSplit, spaceSplit, hostSplit]
      simp only [List.length_append]
      omega
    simp only [List.length_cons, List.length_append]
    omega

/-- Two symbols in one text are the same one, or one stands before the other. -/
theorem same_or_mem_of_append_cons_eq
    {front back behind rest : Text}
    {first second : Char}
    (same : front ++ first :: behind = back ++ second :: rest) :
    first = second ∨ first ∈ back ∨ second ∈ front := by
  rcases List.append_eq_append_iff.mp same with ⟨gap, rfl, split⟩ | ⟨gap, rfl, split⟩
  · cases gap with
    | nil => exact Or.inl (List.cons.inj split).1
    | cons head gap =>
        obtain ⟨rfl, _⟩ := List.cons.inj split
        exact Or.inr (Or.inl (by simp))
  · cases gap with
    | nil => exact Or.inl (List.cons.inj split).1.symm
    | cons head gap =>
        obtain ⟨rfl, _⟩ := List.cons.inj split
        exact Or.inr (Or.inr (by simp))

/-- A word before a colon is not the application of a syslog line. -/
theorem FitsTag.not_prefix
    {message app rest : Text}
    {groups : SyslogMatch}
    (fits : FitsTag message groups)
    (word : ∀ char ∈ app, isNonSpace char = true) :
    ¬ message <+: app ++ ':' :: rest := by
  intro before
  obtain ⟨tag, space, start, isBlank, noColon⟩ := fits.tag
  obtain ⟨tail, whole⟩ := start.trans before
  rw [← List.cons_append, List.append_assoc, List.singleton_append] at whole
  rcases same_or_mem_of_append_cons_eq whole with rfl | inApp | member
  · exact absurd isBlank (by decide)
  · have nonSpace := word space inApp
    rw [isNonSpace, isBlank] at nonSpace
    exact absurd nonSpace (by decide)
  · rcases List.mem_cons.mp member with impossible | inTag
    · exact absurd impossible (by decide)
    · exact noColon inTag

/-! ## The fields of a displayed log -/

variable (builtins : Builtins) (newDate dateNow index : Int) (entry : RawEntry)

/-- A message is displayed as a syslog line, or neither pattern matches. -/
theorem normalizeLogEntry_cases :
    (∃ groups, FitsTag entry.message groups ∧
      ((normalizeLogEntry builtins newDate dateNow entry index).host = groups.host ∨
        (normalizeLogEntry builtins newDate dateNow entry index).host = "unknown".toList) ∧
      ((normalizeLogEntry builtins newDate dateNow entry index).app = groups.app ∨
        (normalizeLogEntry builtins newDate dateNow entry index).app = "syslog".toList)) ∨
    exec r5424 entry.message = none ∧ exec r3164 entry.message = none := by
  cases first : exec r5424 entry.message with
  | some groups =>
      obtain ⟨left, way⟩ := mem_of_exec first
      refine Or.inl ⟨groups, fitsTag_of_mem_r5424 way, ?_⟩
      simp only [normalizeLogEntry, first]
      constructor <;> split <;> simp
  | none =>
      cases second : exec r3164 entry.message with
      | some groups =>
          obtain ⟨left, way⟩ := mem_of_exec second
          refine Or.inl ⟨groups, fitsTag_of_mem_r3164 way, ?_⟩
          simp only [normalizeLogEntry, first, second]
          exact ⟨Or.inl trivial, Or.inl trivial⟩
      | none => exact Or.inr ⟨rfl, rfl⟩

/-- A message that is no syslog line is read for keywords, a leading bracket
and a second word. -/
theorem normalizeLogEntry_plain
    (first : exec r5424 entry.message = none)
    (second : exec r3164 entry.message = none) :
    (normalizeLogEntry builtins newDate dateNow entry index).level =
        detectLevel (builtins.toLowerCase entry.message) ∧
      (normalizeLogEntry builtins newDate dateNow entry index).app =
        (exec appMatch entry.message).getD (orElse entry.app "engine".toList) ∧
      (normalizeLogEntry builtins newDate dateNow entry index).host =
        orElse entry.host ((exec hostMatch entry.message).getD "unknown".toList) := by
  simp only [normalizeLogEntry, first, second, and_self]

/-! ### The host -/

theorem exec_hostMatch_shorter
    {message host : Text}
    (matched : exec hostMatch message = some host) : host.length < message.length := by
  obtain ⟨left, way⟩ := mem_of_exec matched
  simp only [hostMatch, mem_bind, mem_optional, mem_char, mem_many1] at way
  obtain ⟨_, _, beginning, word, _, ⟨rfl, wordNonempty, _⟩, blanks, _, ⟨rfl, _⟩, rfl, _⟩ := way
  have word_pos := List.length_pos_iff.mpr wordNonempty
  rcases beginning with ⟨_, _, _, _, ⟨rfl, _⟩, _, _, ⟨rfl, _⟩, rfl, _⟩ | ⟨_, rfl⟩
  · simp only [List.length_cons, List.length_append]
    omega
  · simp only [List.length_append]
    omega

/-- A host that was read off the message is shorter than the message. -/
theorem host_shorter (noHost : entry.host = []) :
    (normalizeLogEntry builtins newDate dateNow entry index).host = "unknown".toList ∨
      (normalizeLogEntry builtins newDate dateNow entry index).host.length <
        entry.message.length := by
  rcases normalizeLogEntry_cases builtins newDate dateNow index entry with
    ⟨groups, fits, shown | shown, _⟩ | ⟨first, second⟩
  · rw [shown]
    exact Or.inr fits.host_shorter
  · exact Or.inl shown
  · obtain ⟨_, _, host⟩ :=
      normalizeLogEntry_plain builtins newDate dateNow index entry first second
    rw [host, orElse, if_pos noHost]
    cases matched : exec hostMatch entry.message with
    | none => exact Or.inl rfl
    | some host => exact Or.inr (exec_hostMatch_shorter matched)

/-- The first word of a text, or the host of a text without words. -/
def firstWord (text : Text) : Text :=
  orElse ((text.dropWhile isSpace).takeWhile isNonSpace) "unknown".toList

theorem optional_pri_of_no_bracket
    {message : Text}
    (noBracket : message.head? ≠ some '<') :
    (do
      let _ ← char '<'
      let _ ← many1 Char.isDigit
      char '>' : Matcher Char) message = [] := by
  cases message with
  | nil => rfl
  | cons head rest => exact bind_char_eq_nil (fun bracket => noBracket (by rw [bracket]; rfl)) rest

/-- A message without a second word names no host. -/
theorem exec_hostMatch_eq_none
    {message : Text}
    (noBracket : message.head? ≠ some '<')
    (noWord :
      ((message.dropWhile isNonSpace).dropWhile isSpace).takeWhile isNonSpace = []) :
    exec hostMatch message = none := by
  rw [exec_eq_none_iff, List.eq_nil_iff_forall_not_mem]
  rintro ⟨host, left⟩ way
  simp only [hostMatch, mem_bind, mem_optional, mem_char, mem_many1] at way
  obtain ⟨_, _, beginning, first, _, ⟨rfl, _, firstWord⟩, blanks, _,
    ⟨rfl, blanksNonempty, blank⟩, rfl, hostNonempty, hostWord⟩ := way
  rcases beginning with ⟨_, _, _, _, ⟨rfl, _⟩, _⟩ | ⟨_, rfl⟩
  · exact noBracket rfl
  · obtain ⟨space, tail, rfl, isBlank⟩ := exists_head_of_many1 blanksNonempty blank
    obtain ⟨letter, end', rfl, isLetter⟩ := exists_head_of_many1 hostNonempty hostWord
    have notWord : isNonSpace space = false := by rw [isNonSpace, isBlank]; rfl
    have notBlank : isSpace letter = false := by
      rw [isNonSpace] at isLetter
      exact Bool.not_eq_true' _ |>.mp isLetter
    rw [List.dropWhile_append_of_pos firstWord, List.cons_append,
      List.dropWhile_cons_of_neg (by rw [notWord]; decide), ← List.cons_append,
      List.dropWhile_append_of_pos blank, List.cons_append,
      List.dropWhile_cons_of_neg (by rw [notBlank]; decide),
      List.takeWhile_cons_of_pos isLetter] at noWord
    exact List.cons_ne_nil _ _ noWord

/-- What follows the first word starts with a blank, unless nothing follows. -/
theorem blanks_ne_nil
    {message : Text}
    (more : message.dropWhile isNonSpace ≠ []) :
    (message.dropWhile isNonSpace).takeWhile isSpace ≠ [] := by
  intro empty
  cases rest : message.dropWhile isNonSpace with
  | nil => exact more rest
  | cons head tail =>
      have notWord : isNonSpace head = false := by
        have first := List.head?_dropWhile_not isNonSpace message
        rw [rest] at first
        exact first
      have isBlank : isSpace head = true := by
        rw [isNonSpace] at notWord
        exact Bool.not_eq_false' _ |>.mp notWord
      rw [rest, List.takeWhile_cons_of_pos isBlank] at empty
      exact List.cons_ne_nil _ _ empty

/-- The host read off a message that starts with a word is its second word. -/
theorem hostMatch_eq_firstWord
    {message : Text}
    (noBracket : message.head? ≠ some '<')
    (starts : ∀ char, message.head? = some char → isNonSpace char = true) :
    (exec hostMatch message).getD "unknown".toList =
      firstWord (message.dropWhile isNonSpace) := by
  have skipped := head?_optional_of_none (optional_pri_of_no_bracket noBracket)
  by_cases word : ((message.dropWhile isNonSpace).dropWhile isSpace).takeWhile isNonSpace = []
  · rw [exec_hostMatch_eq_none noBracket word, firstWord, word]
    rfl
  · have wordStarts : message.takeWhile isNonSpace ≠ [] := by
      intro empty
      cases message with
      | nil => exact word rfl
      | cons head rest =>
          rw [List.takeWhile_cons_of_pos (starts head rfl)] at empty
          exact List.cons_ne_nil _ _ empty
    have blanks : (message.dropWhile isNonSpace).takeWhile isSpace ≠ [] := by
      apply blanks_ne_nil
      intro nothing
      rw [nothing] at word
      exact word rfl
    have preferred : (hostMatch message).head? =
        some (((message.dropWhile isNonSpace).dropWhile isSpace).takeWhile isNonSpace,
          ((message.dropWhile isNonSpace).dropWhile isSpace).dropWhile isNonSpace) := by
      refine head?_bind skipped ?_
      refine head?_bind (head?_many1 wordStarts) ?_
      refine head?_bind (head?_many1 blanks) ?_
      exact head?_many1 word
    have matched := congrArg (Option.map Prod.fst) preferred
    change exec hostMatch message = some _ at matched
    rw [matched, firstWord, orElse, if_neg word]
    rfl

/-! ### The application -/

/-- A leading bracket does not enclose the word before the first colon. -/
theorem exec_appMatch_ne
    {message app rest : Text}
    (before : message <+: app ++ ':' :: rest) : exec appMatch message ≠ some app := by
  intro matched
  obtain ⟨left, way⟩ := mem_of_exec matched
  simp only [appMatch, mem_bind, mem_char, mem_many1, mem_pure] at way
  obtain ⟨_, _, ⟨rfl, _⟩, _, _, ⟨rfl, _, _⟩, _, _, ⟨rfl, _⟩, rfl, rfl⟩ := way
  have shifted : '[' :: app = app ++ [':'] := by
    have left : '[' :: app <+: app ++ ':' :: rest :=
      (List.prefix_append ('[' :: app) (']' :: left)).trans before
    have right : app ++ [':'] <+: app ++ ':' :: rest := by
      simp
    exact (List.prefix_of_prefix_length_le left right (by simp)).eq_of_length (by simp)
  have count := congrArg (List.count '[') shifted
  rw [List.count_cons_self, List.count_append] at count
  exact absurd count (by simp)

/-- The application that is displayed for a message that starts with `APP:` is
`APP` only when that is the default. -/
theorem app_eq_engine
    {app rest : Text}
    (noApp : entry.app = [])
    (before : entry.message <+: app ++ ':' :: rest)
    (shown : (normalizeLogEntry builtins newDate dateNow entry index).app = app) :
    app = "engine".toList := by
  rcases normalizeLogEntry_cases builtins newDate dateNow index entry with
    ⟨groups, fits, _, same | same⟩ | ⟨first, second⟩
  · rw [shown] at same
    exact absurd before (fits.not_prefix (same ▸ fits.app_word))
  · rw [shown] at same
    have word : "syslog".toList.all isNonSpace = true := by decide
    exact absurd before (fits.not_prefix (same ▸ List.all_eq_true.mp word))
  · obtain ⟨_, named, _⟩ :=
      normalizeLogEntry_plain builtins newDate dateNow index entry first second
    rw [named, orElse, if_pos noApp] at shown
    cases matched : exec appMatch entry.message with
    | none =>
        rw [matched] at shown
        exact shown.symm
    | some found =>
        rw [matched, Option.getD_some] at shown
        exact absurd (shown ▸ matched) (exec_appMatch_ne before)

/-- What is displayed for a message that starts with a letter other than the two
brackets. -/
theorem normalizeLogEntry_word
    (noApp : entry.app = [])
    (noHost : entry.host = [])
    (noBracket : entry.message.head? ≠ some '<')
    (noSquare : entry.message.head? ≠ some '[')
    (starts : ∀ char, entry.message.head? = some char → isNonSpace char = true) :
    (normalizeLogEntry builtins newDate dateNow entry index).level =
        detectLevel (builtins.toLowerCase entry.message) ∧
      (normalizeLogEntry builtins newDate dateNow entry index).app = "engine".toList ∧
      (normalizeLogEntry builtins newDate dateNow entry index).host =
        firstWord (entry.message.dropWhile isNonSpace) := by
  have noTag : ∀ groups, ¬ FitsTag entry.message groups := by
    intro groups fits
    obtain ⟨tag, space, ⟨tail, same⟩, _⟩ := fits.tag
    rw [← same] at noBracket
    exact noBracket rfl
  have first : exec r5424 entry.message = none := by
    rw [exec_eq_none_iff, List.eq_nil_iff_forall_not_mem]
    exact fun way member => noTag way.1 (fitsTag_of_mem_r5424 member)
  have second : exec r3164 entry.message = none := by
    rw [exec_eq_none_iff, List.eq_nil_iff_forall_not_mem]
    exact fun way member => noTag way.1 (fitsTag_of_mem_r3164 member)
  have third : exec appMatch entry.message = none := by
    rw [exec_eq_none_iff, List.eq_nil_iff_forall_not_mem]
    rintro ⟨app, left⟩ way
    simp only [appMatch, mem_bind, mem_char] at way
    obtain ⟨_, _, ⟨same, _⟩, _⟩ := way
    rw [same] at noSquare
    exact noSquare rfl
  obtain ⟨level, app, host⟩ :=
    normalizeLogEntry_plain builtins newDate dateNow index entry first second
  refine ⟨level, ?_, ?_⟩
  · rw [app, third, Option.getD_none, orElse, if_pos noApp]
  · rw [host, orElse, if_pos noHost, hostMatch_eq_firstWord noBracket starts]

/-! ### The level -/

theorem includes_iff {text keyword : Text} :
    includes text keyword = true ↔ keyword <:+: text := by
  simp only [includes, List.any_eq_true, List.mem_tails, List.isPrefixOf_iff_prefix,
    List.infix_iff_prefix_suffix, and_comm]

/-- Levels from the most severe one on. -/
def Level.rank : Level → Nat
  | .critical => 0
  | .error => 1
  | .warn => 2
  | .info => 3
  | .debug => 4
  | .trace => 5

/-- Whether a keyword of a level occurs in a text. -/
def Mentions (text : Text) (level : Level) : Prop :=
  ∃ keyword, (keyword, level) ∈ sevKeywords ∧ keyword <:+: text

/-- The most severe level a text mentions; a text that mentions none is
informational. -/
def MostSevere (text : Text) (level : Level) : Prop :=
  (Mentions text level ∧ ∀ other, other.rank < level.rank → ¬ Mentions text other) ∨
    level = .info ∧ ∀ other, ¬ Mentions text other

theorem sevKeywords_sorted :
    sevKeywords.Pairwise fun first second => first.2.rank ≤ second.2.rank := by
  decide

/-- The keyword loop finds the most severe level. -/
theorem mostSevere_detectLevel (text : Text) : MostSevere text (detectLevel text) := by
  unfold detectLevel
  split
  next keyword found =>
    rw [List.find?_eq_some_iff_append] at found
    obtain ⟨occurs, before, after, split, earlier⟩ := found
    have member : keyword ∈ sevKeywords := by
      rw [split]
      simp
    refine Or.inl ⟨⟨keyword.1, member, includes_iff.mp occurs⟩, ?_⟩
    rintro other severer ⟨otherKeyword, present, inside⟩
    have sorted := sevKeywords_sorted
    rw [split, List.pairwise_append, List.pairwise_cons] at sorted
    rw [split, List.mem_append, List.mem_cons] at present
    rcases present with inBefore | rfl | inAfter
    · have missing := earlier _ inBefore
      rw [includes_iff.mpr inside] at missing
      exact absurd missing (by decide)
    · exact absurd severer (Nat.lt_irrefl _)
    · exact absurd (sorted.2.1.1 _ inAfter) (Nat.not_le.mpr severer)
  next nothing =>
    refine Or.inr ⟨rfl, ?_⟩
    rintro other ⟨keyword, member, inside⟩
    have missing := List.find?_eq_none.mp nothing _ member
    exact missing (includes_iff.mpr inside)

theorem Level.rank_injective {first second : Level} (same : first.rank = second.rank) :
    first = second := by
  cases first <;> cases second <;> first | rfl | exact absurd same (by decide)

/-- A text has one most severe level. -/
theorem MostSevere.unique
    {text : Text}
    {first second : Level}
    (left : MostSevere text first)
    (right : MostSevere text second) : first = second := by
  rcases left with ⟨mentioned, severest⟩ | ⟨rfl, none⟩
  · rcases right with ⟨mentioned', severest'⟩ | ⟨_, none⟩
    · rcases Nat.lt_trichotomy first.rank second.rank with less | same | more
      · exact absurd mentioned (severest' first less)
      · exact Level.rank_injective same
      · exact absurd mentioned' (severest second more)
    · exact absurd mentioned (none first)
  · rcases right with ⟨mentioned', _⟩ | ⟨rfl, _⟩
    · exact absurd mentioned' (none second)
    · rfl

theorem detectLevel_eq_iff {text : Text} {level : Level} :
    detectLevel text = level ↔ MostSevere text level := by
  constructor
  · rintro rfl
    exact mostSevere_detectLevel text
  · exact (mostSevere_detectLevel text).unique

end Web
end Chronolog
