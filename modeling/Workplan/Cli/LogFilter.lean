import Workplan.Text.Blank

/-!
# Which log events are shown

A directive says which events are shown.  A count of flags on the command line decides,
then silence, then the configuration.

A directive is a list of parts with commas between them.  A part is a level, a
target, or both with `=` between them; brackets behind a target hold a span and, in
braces, its fields.
-/

namespace Workplan.LogFilter

/-- The directive for a count of verbosity flags. -/
def ofVerbosity : Nat → String
  | 0 => "warn"
  | 1 => "info"
  | 2 => "debug"
  | _ => "trace"

/-- The directive for what the command line and the configuration say. -/
def choose (verbosity : Nat) (quiet : Bool) (configured : Option String) : String :=
  match verbosity, quiet, configured with
  | 0, true, _ => "error"
  | 0, false, some directive => directive
  | n, _, _ => ofVerbosity n

/-- Why a directive is refused. -/
inductive FilterError where
  | malformed
  | unknownLevel
deriving DecidableEq

/-- The wording of a refusal. -/
def FilterError.message : FilterError → String
  | malformed => "invalid filter directive"
  | unknownLevel =>
    "error parsing level filter: expected one of \"off\", \"error\", \"warn\", \"info\", \"debug\", \"trace\", or a number 0-5"

/-- Whether a text names a level: a word in any case, or a number up to five. -/
def isLevel (cs : List Char) : Bool :=
  let digits := match cs with
    | '+' :: rest => rest
    | cs => cs
  ["off", "error", "warn", "info", "debug", "trace"].contains
    (String.ofList (cs.map Char.toLower))
    || (digits.all Char.isDigit && (Text.natOfDigits? 10 digits).any (· ≤ 5))

/-- Whether a part may begin with a character. -/
def mayBegin (c : Char) : Bool :=
  c == '-' || c == ':' || c == '_' || c.isAlphanum || (128 ≤ c.toNat && !Text.isBlank c)

/-- Where reading a part stands. -/
inductive Position where
  | start
  | target
  | span
  /-- Inside a field, of which there is something or nothing so far. -/
  | field (isEmpty : Bool)
  | fields
  | closed
  /-- Behind an equals sign; the level begins after that many characters. -/
  | level (start : Nat)

/-- Reads a part, of which some characters have been read, up to its end.  Blanks
around a part are skipped when it is read, but they count when its level is looked up
in `whole`. -/
def readPart (whole : List Char) :
    (done : Nat) → Position → List Char → Except FilterError Unit
  | _, .target, [] => .ok ()
  | _, .closed, [] => .ok ()
  | _, .level start, [] =>
    let text := whole.drop start
    if text.isEmpty || isLevel text then .ok () else .error .unknownLevel
  | _, _, [] => .error .malformed
  | n, .start, c :: rest =>
    if c == '[' then readPart whole (n + 1) .span rest
    else if mayBegin c then readPart whole (n + 1) .target rest
    else .error .malformed
  | n, .target, c :: rest =>
    if c == '=' then readPart whole (n + 1) (.level (n + 1)) rest
    else if c == '[' then readPart whole (n + 1) .span rest
    else readPart whole (n + 1) .target rest
  | n, .span, c :: rest =>
    if c == ']' then readPart whole (n + 1) .closed rest
    else if c == '\x7b' then readPart whole (n + 1) (.field true) rest
    else readPart whole (n + 1) .span rest
  | n, .field isEmpty, c :: rest =>
    if c == '\x7d' then
      (if isEmpty then .error .malformed else readPart whole (n + 1) .fields rest)
    else readPart whole (n + 1) (.field false) rest
  | n, .fields, c :: rest =>
    if c == ']' then readPart whole (n + 1) .closed rest else .error .malformed
  | n, .closed, c :: rest =>
    if c == '=' then readPart whole (n + 1) (.level (n + 1)) rest else .error .malformed
  | n, .level start, _ :: rest => readPart whole (n + 1) (.level start) rest

/-- Checks all parts of a directive; empty parts do not count. -/
def check (directive : String) : Except FilterError Unit :=
  ((directive.splitOn ",").filter (!·.isEmpty)).forM fun part =>
    readPart part.toList 0 .start (Text.trimBlanks part.toList)

end Workplan.LogFilter
