import Chronolog.Web.DisplayedFields

/-!
# The lines that the syslog patterns read

The display tries two patterns on a message, for RFC 5424 and for RFC 3164.  Their
parts are words between blanks, so the matcher has one way to divide a line, up to the
blanks in front of the message: a pattern matches exactly the lines of its form, and
finds their parts.
-/

namespace Chronolog
namespace Web

open Decimal Matcher

/-! ## Character classes -/

theorem apart_space_nonSpace : Apart isSpace isNonSpace :=
  fun char nonSpace => (Bool.not_eq_true' (isSpace char)).mp nonSpace

theorem apart_nonSpace_space : Apart isNonSpace isSpace := by
  intro char space
  rw [isNonSpace, space]
  rfl

theorem toNat_lt_of_isWord {char : Char} (word : isWord char = true) : char.toNat < 128 := by
  simp only [isWord, Char.isDigit, Bool.or_eq_true, Bool.and_eq_true, decide_eq_true_eq,
    beq_iff_eq] at word
  rcases word with ((⟨_, high⟩ | ⟨_, high⟩) | ⟨_, high⟩) | rfl
  · exact Nat.lt_of_le_of_lt high (by decide)
  · exact Nat.lt_of_le_of_lt high (by decide)
  · exact Nat.lt_of_le_of_lt high (by decide)
  · decide

theorem apart_space_word : Apart isSpace isWord := by
  intro char word
  have ascii := toNat_lt_of_isWord word
  rw [Bool.eq_false_iff]
  intro space
  simp only [isSpace, List.mem_cons, List.not_mem_nil, or_false, Bool.or_eq_true,
    Bool.and_eq_true, decide_eq_true_eq] at space
  rcases space with blank | ⟨low, _⟩
  · rcases blank with rfl | rfl | rfl | rfl | rfl | rfl | rfl | rfl | rfl | rfl | rfl | rfl |
      rfl | rfl <;> exact absurd word (by decide)
  · have above : 0x2000 ≤ char.toNat := low
    omega

/-- The characters of a time of day. -/
def isTimeChar (char : Char) : Bool := char.isDigit || char == ':'

/-! ## Fields -/

/-- Blanks and a word behind them. -/
structure Field (accept : Char → Bool) where
  blanks : Text
  word : Text
  blank : Run isSpace blanks
  runs : Run accept word

namespace Field

variable {accept other : Char → Bool} {rest : Text}

def text (field : Field accept) : Text := field.blanks ++ field.word

theorem stop
    (apart : Apart other isSpace)
    (field : Field accept)
    (rest : Text) :
    ∀ char, (field.text ++ rest).head? = some char → other char = false := by
  unfold text
  rw [List.append_assoc]
  exact field.blank.stop apart _

/-- A field is read whole, up to a character that is not of its word. -/
theorem head?_bind
    {β : Type}
    {next : Text → Matcher β}
    {way : β × Text}
    (apart : Apart isSpace accept)
    (field : Field accept)
    (stop : ∀ char, rest.head? = some char → accept char = false)
    (there : (next field.word rest).head? = some way) :
    ((many1 isSpace >>= fun _ => many1 accept >>= next) (field.text ++ rest)).head? =
      some way := by
  unfold text
  rw [List.append_assoc]
  apply field.blank.head?_bind (field.runs.stop apart rest)
  exact field.runs.head?_bind stop there

/-- The ways into a field. -/
theorem mem_bind
    {β : Type}
    {next : Text → Matcher β}
    {value : β}
    {left text : Text} :
    (value, left) ∈ (many1 isSpace >>= fun _ => many1 accept >>= next) text ↔
      ∃ (field : Field accept) (rest : Text), text = field.text ++ rest ∧
        (value, left) ∈ next field.word rest := by
  simp only [Matcher.mem_bind, mem_many1_iff_run]
  constructor
  · rintro ⟨blanks, _, ⟨rfl, blank⟩, word, rest, ⟨rfl, runs⟩, way⟩
    exact ⟨{ blanks, word, blank, runs }, rest, (List.append_assoc _ _ _).symm, way⟩
  · rintro ⟨field, rest, rfl, way⟩
    exact ⟨field.blanks, field.word ++ rest, ⟨List.append_assoc _ _ _, field.blank⟩,
      field.word, rest, ⟨rfl, field.runs⟩, way⟩

end Field

/-! ## The priority -/

/-- The ways into a pattern that begins with a priority. -/
theorem mem_priority
    {β : Type}
    {next : Text → Matcher β}
    {value : β}
    {left text : Text} :
    (value, left) ∈ (char '<' >>= fun _ => many1 Char.isDigit >>= fun pri =>
        char '>' >>= fun _ => next pri) text ↔
      ∃ pri rest, text = '<' :: (pri ++ '>' :: rest) ∧ Run Char.isDigit pri ∧
        (value, left) ∈ next pri rest := by
  simp only [mem_bind, mem_char, mem_many1_iff_run]
  constructor
  · rintro ⟨_, _, ⟨rfl, rfl⟩, pri, _, ⟨rfl, digits⟩, _, rest, ⟨rfl, rfl⟩, way⟩
    exact ⟨pri, rest, rfl, digits, way⟩
  · rintro ⟨pri, rest, rfl, digits, way⟩
    exact ⟨'<', _, ⟨rfl, rfl⟩, pri, _, ⟨rfl, digits⟩, '>', rest, ⟨rfl, rfl⟩, way⟩

/-- A priority is read whole. -/
theorem head?_priority
    {β : Type}
    {next : Text → Matcher β}
    {way : β × Text}
    {pri rest : Text}
    (digits : Run Char.isDigit pri)
    (there : (next pri rest).head? = some way) :
    ((char '<' >>= fun _ => many1 Char.isDigit >>= fun pri => char '>' >>= fun _ => next pri)
      ('<' :: (pri ++ '>' :: rest))).head? = some way := by
  apply head?_bind (head?_char '<' _)
  apply digits.head?_bind
  · intro char first
    obtain rfl := Option.some.inj first
    rfl
  · exact head?_bind (head?_char '>' rest) there

/-! ## RFC 5424 -/

/-- A line of RFC 5424 as the display takes it: six words behind the version, blanks
and the message, which takes in the structured data from its first blank on. -/
structure Line5424 where
  pri : Text
  stamp : Field isNonSpace
  host : Field isNonSpace
  app : Field isNonSpace
  pid : Field isNonSpace
  msgid : Field isNonSpace
  data : Field isNonSpace
  blanks : Text
  message : Text
  digits : Run Char.isDigit pri
  blank : Run isSpace blanks
  message_start : ∀ char, message.head? = some char → isSpace char = false

namespace Line5424

def text (line : Line5424) : Text :=
  '<' :: (line.pri ++ '>' :: '1' :: (line.stamp.text ++ (line.host.text ++
    (line.app.text ++ (line.pid.text ++ (line.msgid.text ++ (line.data.text ++
      (line.blanks ++ line.message))))))))

def groups (line : Line5424) : SyslogMatch where
  pri := line.pri
  host := line.host.word
  app := line.app.word
  pid := line.pid.word
  message := line.message

/-- The preferred way through a line finds its parts. -/
theorem head?_r5424 (line : Line5424) : (r5424 line.text).head? = some (line.groups, []) := by
  unfold r5424 text
  apply head?_priority line.digits
  apply head?_bind (head?_char '1' _)
  apply line.stamp.head?_bind apart_space_nonSpace (line.host.stop apart_nonSpace_space _)
  apply line.host.head?_bind apart_space_nonSpace (line.app.stop apart_nonSpace_space _)
  apply line.app.head?_bind apart_space_nonSpace (line.pid.stop apart_nonSpace_space _)
  apply line.pid.head?_bind apart_space_nonSpace (line.msgid.stop apart_nonSpace_space _)
  apply line.msgid.head?_bind apart_space_nonSpace (line.data.stop apart_nonSpace_space _)
  apply line.data.head?_bind apart_space_nonSpace (line.blank.stop apart_nonSpace_space _)
  apply line.blank.head?_bind line.message_start
  exact head?_bind (head?_many_all line.message) rfl

theorem exec_text (line : Line5424) : exec r5424 line.text = some line.groups := by
  rw [exec, line.head?_r5424]
  rfl

end Line5424

/-- The pattern matches exactly the lines of RFC 5424, and finds their parts. -/
theorem exec_r5424_iff {text : Text} {groups : SyslogMatch} :
    exec r5424 text = some groups ↔
      ∃ line : Line5424, line.text = text ∧ line.groups = groups := by
  constructor
  · intro matched
    obtain ⟨left, way⟩ := mem_of_exec matched
    rw [r5424, mem_priority] at way
    obtain ⟨pri, _, rfl, digits, way⟩ := way
    rw [mem_bind] at way
    obtain ⟨_, _, version, way⟩ := way
    obtain ⟨rfl, _⟩ := mem_char.mp version
    simp only [Field.mem_bind] at way
    obtain ⟨stamp, _, rfl, host, _, rfl, app, _, rfl, pid, _, rfl, msgid, _, rfl, data, _, rfl,
      way⟩ := way
    rw [mem_bind] at way
    obtain ⟨blanks, message, gap, _⟩ := way
    obtain ⟨rfl, blank⟩ := mem_many1_iff_run.mp gap
    -- the message of another way may begin with blanks
    obtain ⟨blanks, message, same, blank, message_start⟩ := blank.exists_longest message
    rw [same] at matched ⊢
    let line : Line5424 :=
      { pri, stamp, host, app, pid, msgid, data, blanks, message, digits, blank, message_start }
    exact ⟨line, rfl, Option.some.inj (line.exec_text.symm.trans matched)⟩
  · rintro ⟨line, rfl, rfl⟩
    exact line.exec_text

/-! ## RFC 3164 -/

/-- The tag of a line: an application, and its process if one is named. -/
structure Tag where
  app : Text
  pid : Option Text
  runs : Run isNonSpace app
  digits : ∀ process ∈ pid, Run Char.isDigit process
  whole : pid = none → ∀ front process, Run isNonSpace front → Run Char.isDigit process →
    app ≠ front ++ '[' :: (process ++ [']'])

namespace Tag

/-- The text behind the application. -/
def bracket (tag : Tag) : Text :=
  match tag.pid with
  | some process => '[' :: (process ++ [']'])
  | none => []

def text (tag : Tag) : Text := tag.app ++ tag.bracket

/-- Every word is one tag. -/
theorem exists_text {word : Text} (runs : Run isNonSpace word) :
    ∃ tag : Tag, tag.text = word := by
  by_cases named : ∃ front process, Run isNonSpace front ∧ Run Char.isDigit process ∧
      word = front ++ '[' :: (process ++ [']'])
  · obtain ⟨front, process, frontRuns, digits, rfl⟩ := named
    let tag : Tag :=
      { app := front
        pid := some process
        runs := frontRuns
        digits := fun other same => Option.some.inj same ▸ digits
        whole := fun none => absurd none (Option.some_ne_none process) }
    exact ⟨tag, rfl⟩
  · let tag : Tag :=
      { app := word
        pid := none
        runs
        digits := fun process none => absurd none.symm (Option.some_ne_none process)
        whole := fun _ front process frontRuns digits same =>
          named ⟨front, process, frontRuns, digits, same⟩ }
    exact ⟨tag, List.append_nil word⟩

end Tag

theorem isWord_of_isDigit {char : Char} (digit : char.isDigit = true) : isWord char = true := by
  rw [isWord, digit]
  rfl

theorem apart_space_digit : Apart isSpace Char.isDigit :=
  fun char digit => apart_space_word char (isWord_of_isDigit digit)

theorem apart_space_timeChar : Apart isSpace isTimeChar := by
  intro char timeChar
  rcases (Bool.or_eq_true _ _).mp timeChar with digit | colon
  · exact apart_space_digit char digit
  · rw [beq_iff_eq.mp colon]
    decide

theorem isNonSpace_of_isDigit {char : Char} (digit : char.isDigit = true) :
    isNonSpace char = true := by
  rw [isNonSpace, apart_space_digit char digit]
  rfl

/-- The ways through the process of a tag. -/
theorem mem_pidBracket {pid left text : Text} :
    (pid, left) ∈ pidBracket text ↔
      Run Char.isDigit pid ∧ text = '[' :: (pid ++ ']' :: left) ∨ pid = ['-'] ∧ text = left := by
  unfold pidBracket
  simp only [mem_bind, mem_optional, mem_char, mem_many1_iff_run, mem_pure]
  constructor
  · rintro ⟨found, _, named | ⟨rfl, rfl⟩, rfl, rfl⟩
    · obtain ⟨digits, rfl, _, _, ⟨rfl, rfl⟩, _, _, ⟨rfl, runs⟩, _, _, ⟨rfl, rfl⟩, rfl, rfl⟩ :=
        named
      exact Or.inl ⟨runs, rfl⟩
    · exact Or.inr ⟨rfl, rfl⟩
  · rintro (⟨runs, rfl⟩ | ⟨rfl, rfl⟩)
    · exact ⟨some pid, left, Or.inl ⟨pid, rfl, '[', _, ⟨rfl, rfl⟩, pid, _, ⟨rfl, runs⟩, ']', left,
        ⟨rfl, rfl⟩, rfl, rfl⟩, rfl, rfl⟩
    · exact ⟨none, text, Or.inr ⟨rfl, rfl⟩, rfl, rfl⟩

namespace Tag

variable (tag : Tag)

/-- The process as the display names it. -/
def process : Text := tag.pid.getD ['-']

theorem nonSpace_bracket : ∀ char ∈ tag.bracket, isNonSpace char = true := by
  intro char member
  unfold bracket at member
  split at member
  next process named =>
    rw [List.mem_cons, List.mem_append, List.mem_singleton] at member
    rcases member with rfl | digit | rfl
    · decide
    · exact isNonSpace_of_isDigit ((tag.digits process named).inside char digit)
    · decide
  next => exact absurd member List.not_mem_nil

theorem runs_text : Run isNonSpace tag.text := by
  refine ⟨fun empty => tag.runs.nonempty (List.append_eq_nil_iff.mp empty).1, ?_⟩
  intro char member
  rcases List.mem_append.mp member with word | bracket
  · exact tag.runs.inside char word
  · exact tag.nonSpace_bracket char bracket

/-- Whatever way leads through a tag, there is one of this text. -/
theorem exists_of_way
    {app pid behind rest : Text}
    (word : Run isNonSpace app)
    (bracket : Run Char.isDigit pid ∧ behind = '[' :: (pid ++ ']' :: rest) ∨
      pid = ['-'] ∧ behind = rest) :
    ∃ tag : Tag, app ++ behind = tag.text ++ rest := by
  rcases bracket with ⟨digits, rfl⟩ | ⟨_, rfl⟩
  · let tag : Tag :=
      { app
        pid := some pid
        runs := word
        digits := fun other same => Option.some.inj same ▸ digits
        whole := fun none => absurd none (Option.some_ne_none pid) }
    exact ⟨tag, by simp [tag, text, Tag.bracket]⟩
  · obtain ⟨tag, rfl⟩ := exists_text word
    exact ⟨tag, rfl⟩

/-- The bracket is taken whole. -/
theorem head?_pidBracket (rest : Text) :
    (pidBracket (tag.bracket ++ ':' :: rest)).head? = some (tag.process, ':' :: rest) := by
  unfold pidBracket bracket process
  cases named : tag.pid with
  | some process =>
      have digits := tag.digits process named
      have stop : ∀ char, (']' :: ':' :: rest).head? = some char → char.isDigit = false := by
        intro char first
        obtain rfl := Option.some.inj first
        rfl
      have taken : ((char '[' >>= fun _ => many1 Char.isDigit >>= fun digits =>
          char ']' >>= fun _ => pure digits) ('[' :: (process ++ ']' :: ':' :: rest))).head? =
            some (process, ':' :: rest) := by
        apply head?_bind (head?_char '[' _)
        apply digits.head?_bind stop
        exact head?_bind (head?_char ']' _) rfl
      have same : '[' :: (process ++ [']']) ++ ':' :: rest =
          '[' :: (process ++ ']' :: ':' :: rest) := by
        simp
      dsimp only
      rw [same]
      exact head?_bind (head?_optional_of_head? taken) rfl
  | none =>
      have nothing : (char '[' >>= fun _ => many1 Char.isDigit >>= fun digits =>
          char ']' >>= fun _ => pure digits) (':' :: rest) = [] :=
        bind_char_eq_nil (by decide) rest
      exact head?_bind (head?_optional_of_none nothing) rfl

/-- No shorter application is followed by a process and a colon. -/
theorem shorter_eq_nil
    {β : Type}
    {next : Text → Text → Matcher β}
    {blanks front back : Text}
    (blank : Run isSpace blanks)
    (rest : Text)
    (split : tag.app = front ++ back)
    (frontNonempty : front ≠ [])
    (backNonempty : back ≠ []) :
    (pidBracket >>= fun pid => char ':' >>= fun _ => many1 isSpace >>= fun _ => next front pid)
      (back ++ (tag.bracket ++ ':' :: (blanks ++ rest))) = [] := by
  rw [List.eq_nil_iff_forall_not_mem]
  rintro ⟨value, left⟩ way
  simp only [mem_bind, mem_char, mem_many1_iff_run] at way
  obtain ⟨pid, _, process, _, _, ⟨rfl, _⟩, spaces, behind, ⟨rfl, space⟩, _⟩ := way
  have inApp : ∀ char ∈ front ++ back, isNonSpace char = true := split ▸ tag.runs.inside
  have nonSpace : ∀ char ∈ back ++ tag.bracket ++ [':'], isNonSpace char = true := by
    intro char member
    rw [List.mem_append, List.mem_append, List.mem_singleton] at member
    rcases member with (word | bracket) | rfl
    · exact inApp char (List.mem_append_right front word)
    · exact tag.nonSpace_bracket char bracket
    · decide
  have stop := blank.stop apart_nonSpace_space rest
  have otherStop := space.stop apart_nonSpace_space behind
  rcases mem_pidBracket.mp process with ⟨digits, same⟩ | ⟨_, same⟩
  · have others : ∀ char ∈ '[' :: (pid ++ [']']) ++ [':'], isNonSpace char = true := by
      intro char member
      rw [List.mem_append, List.mem_cons, List.mem_append, List.mem_singleton,
        List.mem_singleton] at member
      rcases member with (rfl | digit | rfl) | rfl
      · decide
      · exact isNonSpace_of_isDigit (digits.inside char digit)
      · decide
      · decide
    have whole : back ++ tag.bracket ++ [':'] = '[' :: (pid ++ [']']) ++ [':'] :=
      run_unique (by simpa using same) nonSpace others stop otherStop
    have bracketed : back ++ tag.bracket = '[' :: (pid ++ [']']) :=
      List.append_cancel_right whole
    cases named : tag.pid with
    | none =>
        rw [bracket, named] at bracketed
        dsimp only at bracketed
        rw [List.append_nil] at bracketed
        have frontRuns : Run isNonSpace front :=
          ⟨frontNonempty, fun char member => inApp char (List.mem_append_left back member)⟩
        exact tag.whole named front pid frontRuns digits (bracketed ▸ split)
    | some process =>
        rw [bracket, named] at bracketed
        cases back with
        | nil => exact backNonempty rfl
        | cons head tail =>
            obtain ⟨_, inside⟩ := List.cons.inj bracketed
            have member : '[' ∈ pid ++ [']'] := by
              rw [← inside]
              exact List.mem_append_right tail List.mem_cons_self
            rcases List.mem_append.mp member with digit | last
            · exact absurd (digits.inside '[' digit) (by decide)
            · exact absurd (List.mem_singleton.mp last) (by decide)
  · have colon : ∀ char ∈ [':'], isNonSpace char = true := by
      intro char member
      rw [List.mem_singleton.mp member]
      decide
    have whole : back ++ tag.bracket ++ [':'] = [':'] :=
      run_unique (by simpa using same) nonSpace colon stop otherStop
    have lengths := congrArg List.length whole
    have positive := List.length_pos_iff.mpr backNonempty
    simp only [List.length_append, List.length_singleton] at lengths
    omega

/-- A tag is read as its application and its process. -/
theorem head?_bind
    {β : Type}
    {next : Text → Text → Matcher β}
    {way : β × Text}
    {blanks rest : Text}
    (blank : Run isSpace blanks)
    (start : ∀ char, rest.head? = some char → isSpace char = false)
    (there : (next tag.app tag.process rest).head? = some way) :
    ((many1Lazy isNonSpace >>= fun app => pidBracket >>= fun pid => char ':' >>= fun _ =>
        many1 isSpace >>= fun _ => next app pid)
      (tag.text ++ ':' :: (blanks ++ rest))).head? = some way := by
  unfold text
  rw [List.append_assoc]
  apply tag.runs.head?_bind_many1Lazy
  · apply Matcher.head?_bind (tag.head?_pidBracket _)
    apply Matcher.head?_bind (head?_char ':' _)
    exact blank.head?_bind start there
  · intro front back split frontNonempty backNonempty
    exact tag.shorter_eq_nil blank rest split frontNonempty backNonempty

end Tag

/-- A line of RFC 3164 as the display takes it: a month, a day, a time, a host and a
tag with a colon behind it, blanks and the message. -/
structure Line3164 where
  pri : Text
  month : Text
  day : Field Char.isDigit
  time : Field isTimeChar
  host : Field isNonSpace
  gap : Text
  tag : Tag
  blanks : Text
  message : Text
  digits : Run Char.isDigit pri
  named : Run isWord month
  gap_blank : Run isSpace gap
  blank : Run isSpace blanks
  message_start : ∀ char, message.head? = some char → isSpace char = false

namespace Line3164

def text (line : Line3164) : Text :=
  '<' :: (line.pri ++ '>' :: (line.month ++ (line.day.text ++ (line.time.text ++
    (line.host.text ++ (line.gap ++ (line.tag.text ++ ':' :: (line.blanks ++ line.message))))))))

def groups (line : Line3164) : SyslogMatch where
  pri := line.pri
  host := line.host.word
  app := line.tag.app
  pid := line.tag.process
  message := line.message

theorem head?_r3164 (line : Line3164) : (r3164 line.text).head? = some (line.groups, []) := by
  unfold r3164 text
  apply head?_priority line.digits
  apply line.named.head?_bind (line.day.stop apart_space_word.symm _)
  apply line.day.head?_bind apart_space_digit (line.time.stop apart_space_digit.symm _)
  apply line.time.head?_bind apart_space_timeChar (line.host.stop apart_space_timeChar.symm _)
  apply line.host.head?_bind apart_space_nonSpace (line.gap_blank.stop apart_nonSpace_space _)
  apply line.gap_blank.head?_bind (line.tag.runs_text.stop apart_space_nonSpace _)
  apply line.tag.head?_bind line.blank line.message_start
  exact head?_bind (head?_many_all line.message) rfl

theorem exec_text (line : Line3164) : exec r3164 line.text = some line.groups := by
  rw [exec, line.head?_r3164]
  rfl

end Line3164

/-- The pattern matches exactly the lines of RFC 3164, and finds their parts. -/
theorem exec_r3164_iff {text : Text} {groups : SyslogMatch} :
    exec r3164 text = some groups ↔
      ∃ line : Line3164, line.text = text ∧ line.groups = groups := by
  constructor
  · intro matched
    obtain ⟨left, way⟩ := mem_of_exec matched
    rw [r3164, mem_priority] at way
    obtain ⟨pri, _, rfl, digits, way⟩ := way
    rw [mem_bind] at way
    obtain ⟨month, _, name, way⟩ := way
    obtain ⟨rfl, named⟩ := mem_many1_iff_run.mp name
    simp only [Field.mem_bind] at way
    obtain ⟨day, _, rfl, time, _, rfl, host, _, rfl, way⟩ := way
    simp only [mem_bind, mem_many1_iff_run, mem_many1Lazy, mem_pidBracket, mem_char] at way
    obtain ⟨gap, _, ⟨rfl, gap_blank⟩, app, _, ⟨rfl, word⟩, pid, _, bracket, _, _, ⟨rfl, _⟩,
      blanks, message, ⟨rfl, blank⟩, _⟩ := way
    obtain ⟨tag, tagged⟩ := Tag.exists_of_way word bracket
    -- the message of another way may begin with blanks
    obtain ⟨blanks, message, same, blank, message_start⟩ := blank.exists_longest message
    rw [tagged, same] at matched ⊢
    let line : Line3164 :=
      { pri, month, day, time, host, gap, tag, blanks, message, digits, named, gap_blank, blank,
        message_start }
    exact ⟨line, rfl, Option.some.inj (line.exec_text.symm.trans matched)⟩
  · rintro ⟨line, rfl, rfl⟩
    exact line.exec_text

/-! ## The display -/

theorem exec_r5424_eq_none_iff {message : Text} :
    exec r5424 message = none ↔ ∀ line : Line5424, line.text ≠ message := by
  rw [Option.eq_none_iff_forall_ne_some]
  constructor
  · exact fun none line same => none line.groups (exec_r5424_iff.mpr ⟨line, same, rfl⟩)
  · intro unread groups matched
    obtain ⟨line, same, _⟩ := exec_r5424_iff.mp matched
    exact unread line same

theorem exec_r3164_eq_none_iff {message : Text} :
    exec r3164 message = none ↔ ∀ line : Line3164, line.text ≠ message := by
  rw [Option.eq_none_iff_forall_ne_some]
  constructor
  · exact fun none line same => none line.groups (exec_r3164_iff.mpr ⟨line, same, rfl⟩)
  · intro unread groups matched
    obtain ⟨line, same, _⟩ := exec_r3164_iff.mp matched
    exact unread line same

/-- A line of RFC 3164 is none of RFC 5424, unless its month is written `1`. -/
theorem Line3164.text_ne
    (line : Line3164)
    (month : line.month ≠ ['1'])
    (other : Line5424) : other.text ≠ line.text := by
  intro same
  have priStop : ∀ (rest : Text) (char : Char),
      ('>' :: rest).head? = some char → char.isDigit = false := by
    intro rest char first
    obtain rfl := Option.some.inj first
    rfl
  obtain ⟨_, rest⟩ := List.cons.inj same
  have pri := run_unique rest other.digits.inside line.digits.inside (priStop _) (priStop _)
  rw [pri] at rest
  obtain ⟨_, version⟩ := List.cons.inj (List.append_cancel_left rest)
  have one : ∀ char ∈ ['1'], isWord char = true := by
    intro char member
    rw [List.mem_singleton.mp member]
    decide
  have first : ['1'] = line.month :=
    run_unique version one line.named.inside (other.stamp.stop apart_space_word.symm _)
      (line.day.stop apart_space_word.symm _)
  exact month first.symm

/-- A displayed log has the parts of a syslog line. -/
structure ShowsLine
    (log : DisplayLog)
    (pri : Nat)
    (host app pid message : Text) : Prop where
  level : log.level = priToSev.getD (pri % 8) .info
  host : log.host = host
  app : log.app = app
  message : log.message = message
  process : log.metadata.lookup "pid".toList = some (.text pid)
  facility : log.metadata.lookup "facility".toList = some (.number (.finite (pri / 8 : Nat)))

/-- A priority that a double can hold is read as it is. -/
theorem parseInt_of_lt {digits : Text} (small : digitsValue digits < 2 ^ 53) :
    parseInt digits = .finite (digitsValue digits) := by
  have fits : (digitsValue digits).log2 ≤ 52 := by
    rcases Nat.eq_zero_or_pos (digitsValue digits) with zero | positive
    · rw [zero]
      decide
    · exact Nat.le_of_lt_succ ((Nat.log2_lt (Nat.pos_iff_ne_zero.mp positive)).mpr small)
  rw [parseInt, Binary64.roundNat_of_log2_le fits]
  exact if_pos (small.trans (by decide +kernel))

section Display

variable (builtins : Builtins) (newDate dateNow index : Int) (entry : RawEntry)

theorem showsLine_5424
    {line : Line5424}
    (read : line.text = entry.message)
    (small : digitsValue line.pri < 2 ^ 53) :
    ShowsLine (normalizeLogEntry builtins newDate dateNow entry index) (digitsValue line.pri)
      (if line.host.word = ['-'] then "unknown".toList else line.host.word)
      (if line.app.word = ['-'] then "syslog".toList else line.app.word)
      line.pid.word line.message := by
  have matched : exec r5424 entry.message = some line.groups := read ▸ line.exec_text
  have number : parseInt line.groups.pri = .finite (digitsValue line.pri) := parseInt_of_lt small
  unfold normalizeLogEntry
  simp only [matched]
  rw [number]
  exact ⟨rfl, rfl, rfl, rfl, rfl, rfl⟩

theorem showsLine_3164
    {line : Line3164}
    (read : line.text = entry.message)
    (month : line.month ≠ ['1'])
    (small : digitsValue line.pri < 2 ^ 53) :
    ShowsLine (normalizeLogEntry builtins newDate dateNow entry index) (digitsValue line.pri)
      line.host.word line.tag.app line.tag.process line.message := by
  have unmatched : exec r5424 entry.message = none :=
    exec_r5424_eq_none_iff.mpr (read ▸ line.text_ne month)
  have matched : exec r3164 entry.message = some line.groups := read ▸ line.exec_text
  have number : parseInt line.groups.pri = .finite (digitsValue line.pri) := parseInt_of_lt small
  unfold normalizeLogEntry
  simp only [unmatched, matched]
  rw [number]
  exact ⟨rfl, rfl, rfl, rfl, rfl, rfl⟩

end Display

/-- A message that is a line of RFC 5424 is displayed with its host, application,
process, message and the level and facility of its priority; so is one of RFC 3164; and
a message that is neither is displayed as it is, with the level of its keywords. -/
theorem normalizeLogEntry_lines
    (builtins : Builtins)
    (newDate dateNow index : Int)
    (entry : RawEntry) :
    let log := normalizeLogEntry builtins newDate dateNow entry index
    (∀ line : Line5424, line.text = entry.message → digitsValue line.pri < 2 ^ 53 →
      ShowsLine log (digitsValue line.pri)
        (if line.host.word = ['-'] then "unknown".toList else line.host.word)
        (if line.app.word = ['-'] then "syslog".toList else line.app.word)
        line.pid.word line.message) ∧
    (∀ line : Line3164, line.text = entry.message → line.month ≠ ['1'] →
      digitsValue line.pri < 2 ^ 53 →
      ShowsLine log (digitsValue line.pri) line.host.word line.tag.app line.tag.process
        line.message) ∧
    ((∀ line : Line5424, line.text ≠ entry.message) →
      (∀ line : Line3164, line.text ≠ entry.message) →
      log.message = entry.message ∧
        log.level = detectLevel (builtins.toLowerCase entry.message)) := by
  intro log
  refine ⟨fun line => showsLine_5424 builtins newDate dateNow index entry,
    fun line => showsLine_3164 builtins newDate dateNow index entry, ?_⟩
  intro no5424 no3164
  have first := exec_r5424_eq_none_iff.mpr no5424
  have second := exec_r3164_eq_none_iff.mpr no3164
  have plain := normalizeLogEntry_plain builtins newDate dateNow index entry first second
  refine ⟨?_, plain.1⟩
  simp only [log, normalizeLogEntry, first, second]

/-- A word behind one blank. -/
def Field.spaced {accept : Char → Bool} (word : Text) (runs : Run accept word) : Field accept where
  blanks := [' ']
  word := word
  blank := .of_all (by decide) (by decide)
  runs := runs

/-- A line of local facility 4 about a timeout. -/
def nginxLine : Line5424 where
  pri := "165".toList
  stamp := .spaced "2003-10-11T22:14:15Z".toList (.of_all (by decide) (by decide))
  host := .spaced "web-1".toList (.of_all (by decide) (by decide))
  app := .spaced "nginx".toList (.of_all (by decide) (by decide))
  pid := .spaced "8710".toList (.of_all (by decide) (by decide))
  msgid := .spaced "ID47".toList (.of_all (by decide) (by decide))
  data := .spaced "-".toList (.of_all (by decide) (by decide))
  blanks := [' ']
  message := "upstream timeout".toList
  digits := .of_all (by decide) (by decide)
  blank := .of_all (by decide) (by decide)
  message_start := by
    intro char first
    obtain rfl := Option.some.inj first
    decide

theorem normalizeLogEntry_lines_nginxLine :
    nginxLine.text =
      "<165>1 2003-10-11T22:14:15Z web-1 nginx 8710 ID47 - upstream timeout".toList ∧
    ShowsLine
      (normalizeLogEntry asciiBuiltins 0 0
        { timestampNano := none, message := nginxLine.text, id := [], timestamp := [], app := [],
          host := [], env := [], metadata := [] } 0)
      165 "web-1".toList "nginx".toList "8710".toList "upstream timeout".toList := by
  refine ⟨by decide, ?_⟩
  exact (normalizeLogEntry_lines asciiBuiltins 0 0 0 _).1 nginxLine rfl (by decide)

end Web
end Chronolog
