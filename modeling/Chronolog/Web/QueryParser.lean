import Chronolog.Foundation.Backtracking
import Chronolog.Foundation.Binary64
import Chronolog.Foundation.TextReaders

/-!
# The query parser of the browser

`queryParser.js`: reading the query bar, turning a log entry of a response into
what is displayed, and the label filters.  Texts are lists of characters.  Each
regular expression is a backtracking matcher under the name of the variable its
match is assigned to.
-/

namespace Chronolog
namespace Web

/-- A JavaScript string without lone surrogates. -/
abbrev Text := List Char

/-- A number that is an integer, or too large for a double. -/
inductive Number
  | finite (value : Int)
  | infinity
  deriving DecidableEq

/-- What the code takes from the JavaScript library: the case tables, the
printing of numbers, and the text of a property that every object has. -/
structure Builtins where
  toLowerCase : Text → Text
  numberToString : Number → Text
  inherited : Text → Option Text

/-- Lower-casing and numbers as texts, as far as ASCII goes. -/
def asciiBuiltins : Builtins where
  toLowerCase := List.map Char.toLower
  numberToString
    | .finite value => (toString value).toList
    | .infinity => "Infinity".toList
  inherited _ := none

/-! ## Character classes -/

/-- `\s` -/
def isSpace (char : Char) : Bool :=
  char ∈ ['\t', '\n', '\x0B', '\x0C', '\r', ' ', '\u00A0', '\u1680', '\u2028', '\u2029',
    '\u202F', '\u205F', '\u3000', '\uFEFF'] || ('\u2000' ≤ char && char ≤ '\u200A')

/-- `\S` -/
def isNonSpace (char : Char) : Bool := !isSpace char

/-- `\w`; the class of `\d` is `Char.isDigit`. -/
def isWord (char : Char) : Bool :=
  char.isDigit || ('a' ≤ char && char ≤ 'z') || ('A' ≤ char && char ≤ 'Z') || char == '_'

/-- What `.` does not match. -/
def isLineTerminator (char : Char) : Bool :=
  char ∈ ['\n', '\r', '\u2028', '\u2029']

/-- A letter in either case, as under the flag `i`. -/
def anyCase (letter : Char) : Matcher Char :=
  Matcher.one fun char => char == letter || char == letter.toLower

/-! ## The query bar -/

/-- One `key="value"` of a label selector. -/
structure Label where
  key : Text
  value : Text
  deriving DecidableEq

/-- What `parseQuery` returns. -/
structure ParsedQuery where
  labels : List Label
  terms : List Text
  primaryTerm : Text
  raw : Text
  deriving DecidableEq

section Patterns

open Matcher

/-- `/\x7b([^\x7d]*)\x7d/` -/
def labelBlock : Matcher Text := do
  let _ ← char '\x7b'
  let block ← many fun char => char != '\x7d'
  let _ ← char '\x7d'
  return block

/-- `/(\w+)\s*=\s*"([^"]*)"/` -/
def labelRe : Matcher Label := do
  let key ← many1 isWord
  let _ ← many isSpace
  let _ ← char '='
  let _ ← many isSpace
  let _ ← char '"'
  let value ← many fun char => char != '"'
  let _ ← char '"'
  return { key, value }

/-- `/\|\s*(.+)$/` -/
def pipeSection : Matcher Text := do
  let _ ← char '|'
  let _ ← many isSpace
  let terms ← many1 fun char => !isLineTerminator char
  atEnd
  return terms

/-- `/"([^"]+)"/` -/
def quotedRe : Matcher Text := do
  let _ ← char '"'
  let term ← many1 fun char => char != '"'
  let _ ← char '"'
  return term

/-- `/\s+(?:OR|AND)\s+/i` -/
def operator : Matcher Unit := do
  let _ ← many1 isSpace
  either
    (do let _ ← anyCase 'O'; let _ ← anyCase 'R')
    (do let _ ← anyCase 'A'; let _ ← anyCase 'N'; let _ ← anyCase 'D')
  let _ ← many1 isSpace

end Patterns

/-- `String.prototype.split`, after skipping what belongs to the last separator;
`piece` is the current piece as far as it was read. -/
def splitFrom (separator : Matcher Unit) : Nat → Text → Text → List Text
  | _, piece, [] => [piece]
  | skip + 1, piece, _ :: rest => splitFrom separator skip piece rest
  | 0, piece, char :: rest =>
      match (separator (char :: rest)).head? with
      | some (_, left) => piece :: splitFrom separator (rest.length - left.length) [] rest
      | none => splitFrom separator 0 (piece ++ [char]) rest

/-- `trim` -/
def trim (text : Text) : Text :=
  ((text.dropWhile isSpace).reverse.dropWhile isSpace).reverse

/-- `replace(/^["']|["']$/g, '')` -/
def stripQuotes (text : Text) : Text :=
  let isQuote := fun char : Char => char == '"' || char == '\''
  let text := if text.head?.any isQuote then text.tail else text
  if text.getLast?.any isQuote then text.dropLast else text

/-- The terms after the pipe: the quoted ones, or else the words between the
operators. -/
def parseTerms (pipe : Text) : List Text :=
  let quoted := Matcher.searchAll quotedRe pipe
  if quoted = [] then
    ((splitFrom operator 0 [] pipe).map fun word => stripQuotes (trim word)).filter
      fun word => word ≠ []
  else quoted

/-- `parseQuery` -/
def parseQuery (queryStr : Text) : ParsedQuery :=
  let labels :=
    match Matcher.search labelBlock queryStr with
    | some block => Matcher.searchAll labelRe block
    | none => []
  let terms :=
    match Matcher.search pipeSection queryStr with
    | some pipe => parseTerms pipe
    | none => []
  { labels, terms, primaryTerm := terms.headD [], raw := queryStr }

/-- The example of the source. -/
example :
    parseQuery "\x7bapp=\"nginx\", env=\"prod\"\x7d | \"error\" OR \"timeout\"".toList =
      { labels := [⟨"app".toList, "nginx".toList⟩, ⟨"env".toList, "prod".toList⟩]
        terms := ["error".toList, "timeout".toList]
        primaryTerm := "error".toList
        raw := "\x7bapp=\"nginx\", env=\"prod\"\x7d | \"error\" OR \"timeout\"".toList } := by
  decide +kernel

/-! ## Log entries -/

/-- Severity levels -/
inductive Level
  | critical
  | error
  | warn
  | info
  | debug
  | trace
  deriving DecidableEq

/-- `SEV_KEYWORDS` -/
def sevKeywords : List (Text × Level) :=
  [("critical".toList, .critical), ("fatal".toList, .critical),
    ("error".toList, .error), ("err".toList, .error),
    ("warn".toList, .warn), ("warning".toList, .warn),
    ("debug".toList, .debug), ("dbg".toList, .debug),
    ("trace".toList, .trace)]

/-- `PRI_TO_SEV` -/
def priToSev : List Level :=
  [.critical, .critical, .critical, .error, .warn, .info, .info, .debug]

/-- A raw log entry.  A text that is absent is empty; `timestampNano` is the
number its text spells. -/
structure RawEntry where
  timestampNano : Option Int
  message : Text
  id : Text
  timestamp : Text
  app : Text
  host : Text
  env : Text
  metadata : List (Text × Text)

/-- A timestamp that was given, or the ISO text of a number of milliseconds. -/
inductive Timestamp
  | given (text : Text)
  | iso (ms : Int)
  deriving DecidableEq

/-- The values of `meta` -/
inductive MetaValue
  | text (value : Text)
  | number (value : Number)
  deriving DecidableEq

/-- A displayed log -/
structure DisplayLog where
  id : Text
  timestamp : Timestamp
  level : Level
  host : Text
  app : Text
  env : Text
  message : Text
  metadata : List (Text × MetaValue)
  deriving DecidableEq

/-- `text || otherwise` -/
def orElse (text otherwise : Text) : Text :=
  if text = [] then otherwise else text

/-- `parseInt` of a text of decimal digits -/
def parseInt (digits : Text) : Number :=
  let rounded := Binary64.roundNat (Decimal.digitsValue digits)
  if rounded < 2 ^ 1024 then .finite rounded else .infinity

/-- `PRI_TO_SEV[number & 7] ?? 'INFO'` -/
def priLevel : Number → Level
  | .finite value => priToSev.getD (value % 8).toNat .info
  | .infinity => priToSev.getD 0 .info

/-- `Math.floor(number / 8)` -/
def facilityOf : Number → Number
  | .finite value => .finite (value / 8)
  | .infinity => .infinity

/-- The groups of a syslog line. -/
structure SyslogMatch where
  pri : Text
  host : Text
  app : Text
  pid : Text
  message : Text

section Patterns

open Matcher

/-- `/^<(\d+)>1\s+\S+\s+(\S+)\s+(\S+)\s+(\S+)\s+\S+\s+\S+\s+([\s\S]*)$/` -/
def r5424 : Matcher SyslogMatch := do
  let _ ← char '<'
  let pri ← many1 Char.isDigit
  let _ ← char '>'
  let _ ← char '1'
  let _ ← many1 isSpace
  let _ ← many1 isNonSpace
  let _ ← many1 isSpace
  let host ← many1 isNonSpace
  let _ ← many1 isSpace
  let app ← many1 isNonSpace
  let _ ← many1 isSpace
  let pid ← many1 isNonSpace
  let _ ← many1 isSpace
  let _ ← many1 isNonSpace
  let _ ← many1 isSpace
  let _ ← many1 isNonSpace
  let _ ← many1 isSpace
  let message ← many fun _ => true
  atEnd
  return { pri, host, app, pid, message }

/-- `(?:\[(\d+)\])?`, with `-` for a process that is not named -/
def pidBracket : Matcher Text := do
  let pid ← optional do
    let _ ← char '['
    let digits ← many1 Char.isDigit
    let _ ← char ']'
    return digits
  return pid.getD ['-']

/-- `/^<(\d+)>\w+\s+\d+\s+[\d:]+\s+(\S+)\s+(\S+?)(?:\[(\d+)\])?:\s+([\s\S]*)$/` -/
def r3164 : Matcher SyslogMatch := do
  let _ ← char '<'
  let pri ← many1 Char.isDigit
  let _ ← char '>'
  let _ ← many1 isWord
  let _ ← many1 isSpace
  let _ ← many1 Char.isDigit
  let _ ← many1 isSpace
  let _ ← many1 fun char => char.isDigit || char == ':'
  let _ ← many1 isSpace
  let host ← many1 isNonSpace
  let _ ← many1 isSpace
  let app ← many1Lazy isNonSpace
  let pid ← pidBracket
  let _ ← char ':'
  let _ ← many1 isSpace
  let message ← many fun _ => true
  atEnd
  return { pri, host, app, pid, message }

/-- `/^\[([^\]]+)\]/` -/
def appMatch : Matcher Text := do
  let _ ← char '['
  let app ← many1 fun char => char != ']'
  let _ ← char ']'
  return app

/-- `/^(?:<\d+>)?\S+\s+(\S+)/` -/
def hostMatch : Matcher Text := do
  let _ ← optional do
    let _ ← char '<'
    let _ ← many1 Char.isDigit
    char '>'
  let _ ← many1 isNonSpace
  let _ ← many1 isSpace
  many1 isNonSpace

end Patterns

/-- `text.includes(keyword)` -/
def includes (text keyword : Text) : Bool :=
  text.tails.any fun suffix => keyword.isPrefixOf suffix

/-- The keyword loop: the level of the first keyword that occurs in a text. -/
def detectLevel (lower : Text) : Level :=
  match sevKeywords.find? fun keyword => includes lower keyword.1 with
  | some keyword => keyword.2
  | none => .info

/-- `normalizeLogEntry`.  `newDate` and `dateNow` are its two readings of the
clock. -/
def normalizeLogEntry
    (builtins : Builtins)
    (newDate dateNow : Int)
    (entry : RawEntry)
    (index : Int) : DisplayLog :=
  let tsNano := entry.timestampNano.map Binary64.round
  let timestamp :=
    match tsNano with
    | none | some 0 =>
        if entry.timestamp = [] then Timestamp.iso newDate else .given entry.timestamp
    | some nano => .iso (Binary64.floorDiv nano 1000000)
  let rawMsg := entry.message
  let id := orElse entry.id
    ("grpc-".toList ++ builtins.numberToString (.finite (tsNano.getD dateNow)) ++
      '-' :: builtins.numberToString (.finite index))
  match Matcher.exec r5424 rawMsg with
  | some groups =>
      { id, timestamp
        level := priLevel (parseInt groups.pri)
        host := if groups.host = ['-'] then "unknown".toList else groups.host
        app := if groups.app = ['-'] then "syslog".toList else groups.app
        env := "prod".toList
        message := groups.message
        metadata :=
          [("pid".toList, .text groups.pid),
            ("facility".toList, .number (facilityOf (parseInt groups.pri))),
            ("raw".toList, .text rawMsg)] }
  | none =>
  match Matcher.exec r3164 rawMsg with
  | some groups =>
      { id, timestamp
        level := priLevel (parseInt groups.pri)
        host := groups.host
        app := groups.app
        env := "prod".toList
        message := groups.message
        metadata :=
          [("pid".toList, .text groups.pid),
            ("facility".toList, .number (facilityOf (parseInt groups.pri))),
            ("raw".toList, .text rawMsg)] }
  | none =>
      { id, timestamp
        level := detectLevel (builtins.toLowerCase rawMsg)
        app := (Matcher.exec appMatch rawMsg).getD (orElse entry.app "engine".toList)
        host := orElse entry.host ((Matcher.exec hostMatch rawMsg).getD "unknown".toList)
        env := orElse entry.env "prod".toList
        message := rawMsg
        -- a later property of the same name replaces `raw`
        metadata := entry.metadata.map (fun property => (property.1, .text property.2)) ++
          [("raw".toList, .text rawMsg)] }

/-- `String(log.meta?.[key] ?? '')` -/
def metaText (builtins : Builtins) (log : DisplayLog) (key : Text) : Text :=
  match log.metadata.lookup key with
  | some (.text value) => value
  | some (.number value) => builtins.numberToString value
  | none => (builtins.inherited key).getD []

/-- Whether a log satisfies one label selector. -/
def satisfies (builtins : Builtins) (log : DisplayLog) (label : Label) : Bool :=
  if label.key = "host".toList then log.host = label.value
  else if label.key = "app".toList then log.app = label.value
  else if label.key = "env".toList then log.env = label.value
  else metaText builtins log label.key = label.value

/-- `applyLabelFilters` -/
def applyLabelFilters
    (builtins : Builtins)
    (logs : List DisplayLog)
    (labels : List Label) : List DisplayLog :=
  if labels = [] then logs
  else logs.filter fun log => labels.all (satisfies builtins log)

end Web
end Chronolog
