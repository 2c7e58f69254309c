import Workplan.Yaml.Cursor
import Workplan.Yaml.Resolution

/-!
# Layout of values

A value as YAML in block style: two columns of indentation for each level, lists in the
column of the key they belong to, empty collections in brackets, and lines of any length.
A text is written in the first of these forms that reads back as the same text: as a block
of lines, if it holds a line feed, plain, in single quotes, in double quotes.
-/

namespace Workplan.Yaml

/-! ## What a text allows -/

/-- Characters that may be written as they are. -/
def isPrintable (c : Char) : Bool :=
  let n := c.toNat
  n == 0x0A || (0x20 ≤ n && n ≤ 0x7E) || (0xA0 ≤ n && n ≤ 0xD7FF)
    || (0xE000 ≤ n && n ≤ 0xFFFD && n != 0xFEFF) || 0x10000 ≤ n

/-- Whether two neighbours with the given properties occur. -/
def hasNeighbours (p q : Char → Bool) : List Char → Bool
  | a :: b :: rest => (p a && q b) || hasNeighbours p q (b :: rest)
  | _ => false

def isSpace (c : Char) : Bool := c == ' '

/-- Whether a `:` in front of a gap, or a `#` behind one, occurs behind the first
character. -/
def hasInnerIndicator : List Char → Bool
  | a :: b :: rest =>
    (b == ':' && atGapOrEnd rest) || (b == '#' && (isGap a || isBreak a))
      || hasInnerIndicator (b :: rest)
  | _ => false

/-- Whether a text starts like something other than a scalar. -/
def startsLikeOther : List Char → Bool
  | '-' :: '-' :: '-' :: _ => true
  | '.' :: '.' :: '.' :: _ => true
  | c :: rest =>
    "#,[]\x7b\x7d&*!|>'\"%@\x60".toList.contains c ||
      ("?:-".toList.contains c && atGapOrEnd rest)
  | [] => false

/-- Whether a space or break stands at an end of a text. -/
def hasLooseEnd (cs : List Char) : Bool :=
  (cs.head?.any fun c => isSpace c || isBreak c) ||
    (cs.getLast?.any fun c => isSpace c || isBreak c)

/-- Whether a text may be written plain. -/
def allowsPlain (cs : List Char) : Bool :=
  cs.all isPrintable && !cs.any isBreak && !hasLooseEnd cs && !startsLikeOther cs
    && !hasInnerIndicator cs

/-- Whether a text may be written in single quotes. -/
def allowsSingle (cs : List Char) : Bool :=
  cs.all isPrintable && !hasNeighbours isBreak isSpace cs &&
    !hasNeighbours isSpace isBreak cs

/-- Whether a text may be written as a block of lines. -/
def allowsBlock (cs : List Char) : Bool :=
  cs.all isPrintable && !hasNeighbours isSpace isBreak cs && !(cs.getLast?.any isSpace)

/-- Whether a plain scalar with this text would be a text. -/
def readsAsText (s : String) : Bool :=
  match resolve s with
  | .ok (.text _) => !hasLeadingZero s
  | _ => false

/-- The forms of a text. -/
inductive Form where
  | plain
  | single
  | double
  | block
deriving DecidableEq

/-- The form of a text. -/
def formOf (s : String) : Form :=
  let cs := s.toList
  if cs.contains '\n' then (if allowsBlock cs then .block else .double)
  else if readsAsText s && allowsPlain cs then .plain
  else if allowsSingle cs then .single
  else .double

/-! ## Scalars -/

/-- Columns of blanks. -/
def blanks (n : Nat) : List Char :=
  List.replicate n ' '

/-- A text whose lines after a break are indented. -/
def indented (indent : Nat) (encode : Char → List Char) : Bool → List Char → List Char
  | _, [] => []
  | broken, c :: rest =>
    if isBreak c then c :: indented indent encode true rest
    else (if broken then blanks indent else []) ++ encode c ++
      indented indent encode false rest

/-- A text in single quotes. -/
def singleQuoted (indent : Nat) (cs : List Char) : List Char :=
  let ending := if cs.getLast?.any isBreak then blanks indent else []
  '\'' :: (indented indent (fun c => if c = '\'' then ['\'', '\''] else [c]) false cs
    ++ ending ++ ['\''])

/-- A number in upper-case hexadecimal digits, filled up with zeros. -/
def hexUpper (width n : Nat) : List Char :=
  let ds := (Nat.toDigits 16 n).map Char.toUpper
  List.replicate (width - ds.length) '0' ++ ds

/-- The written form of a character in double quotes. -/
def escapeChar (c : Char) : List Char :=
  match c with
  | '\x00' => ['\\', '0']
  | '\x07' => ['\\', 'a']
  | '\x08' => ['\\', 'b']
  | '\t' => ['\\', 't']
  | '\n' => ['\\', 'n']
  | '\x0b' => ['\\', 'v']
  | '\x0c' => ['\\', 'f']
  | '\r' => ['\\', 'r']
  | '\x1b' => ['\\', 'e']
  | '"' => ['\\', '"']
  | '\\' => ['\\', '\\']
  | '\u0085' => ['\\', 'N']
  | '\u2028' => ['\\', 'L']
  | '\u2029' => ['\\', 'P']
  | c =>
    if isPrintable c then [c]
    else if c.toNat ≤ 0xFF then '\\' :: 'x' :: hexUpper 2 c.toNat
    else if c.toNat ≤ 0xFFFF then '\\' :: 'u' :: hexUpper 4 c.toNat
    else '\\' :: 'U' :: hexUpper 8 c.toNat

/-- A text in double quotes. -/
def doubleQuoted (cs : List Char) : List Char :=
  '"' :: (cs.flatMap escapeChar ++ ['"'])

/-- The hint at the indentation of a block, where the first line would hide it. -/
def blockHint (cs : List Char) : List Char :=
  if cs.head?.any (fun c => isSpace c || isBreak c) then ['2'] else []

/-- The sign that says what becomes of the last breaks of a block. -/
def chompSign (cs : List Char) : List Char :=
  match cs.reverse with
  | [] => ['-']
  | [c] => if isBreak c then ['+'] else ['-']
  | c :: d :: _ => if !isBreak c then ['-'] else if isBreak d then ['+'] else []

/-- A text as a block of lines: the sign, the indentation if the first line would hide it,
what becomes of the last breaks, and the lines.  The block ends behind a break. -/
def blockOfLines (indent : Nat) (cs : List Char) : List Char :=
  let ending := if cs.getLast?.any isBreak then [] else ['\n']
  '|' :: (blockHint cs ++ chompSign cs ++ '\n' ::
    (indented indent (fun c => [c]) true cs ++ ending))

/-- A text, up to and with the end of its last line.  The indentation is that of
further lines. -/
def textLines (indent : Nat) (s : String) : List Char :=
  let cs := s.toList
  match formOf s with
  | .plain => cs ++ ['\n']
  | .single => singleQuoted indent cs ++ ['\n']
  | .double => doubleQuoted cs ++ ['\n']
  | .block => blockOfLines indent cs

/-- A name in front of a colon on one line. -/
def shortKey (s : String) : List Char :=
  let cs := s.toList
  match formOf s with
  | .plain => cs
  | .single => singleQuoted 0 cs
  | _ => doubleQuoted cs

/-- Whether a name may stand in front of a colon on one line. -/
def isShortKey (s : String) : Bool :=
  !s.toList.any isBreak && s.utf8ByteSize ≤ 128

/-- A number, truth value or null. -/
def atomChars : Json → List Char
  | .bool true => ['t', 'r', 'u', 'e']
  | .bool false => ['f', 'a', 'l', 's', 'e']
  | .int n => (toString n.val).toList
  | .double d => (Double.text false d).toList
  | _ => ['n', 'u', 'l', 'l']

/-! ## Collections -/

mutual

/-- A value behind its key or sign, to the end of its last line, in a collection of the
given indentation. -/
def valueLines (indent : Nat) (afterKey : Bool) : Json → List Char
  | .str s => ' ' :: textLines (indent + 2) s
  | .arr [] => [' ', '[', ']', '\n']
  | .arr items =>
    if afterKey then '\n' :: itemLines indent false items
    else ' ' :: itemLines (indent + 2) true items
  | .obj [] => [' ', '\x7b', '\x7d', '\n']
  | .obj fields =>
    if afterKey then '\n' :: fieldLines (indent + 2) false fields
    else ' ' :: fieldLines (indent + 2) true fields
  | v => ' ' :: (atomChars v ++ ['\n'])

/-- The entries of a list.  `started` tells that the first line is already indented. -/
def itemLines (indent : Nat) (started : Bool) : List Json → List Char
  | [] => []
  | v :: rest =>
    (if started then [] else blanks indent) ++ '-' :: (valueLines indent false v
      ++ itemLines indent false rest)

/-- The entries of a table.  `started` tells that the first line is already indented. -/
def fieldLines (indent : Nat) (started : Bool) : List (String × Json) → List Char
  | [] => []
  | (name, v) :: rest =>
    let entry :=
      if isShortKey name then shortKey name ++ ':' :: valueLines indent true v
      -- A name that does not fit in front of a colon gets a line of its own.
      else '?' :: ' ' :: (textLines (indent + 2) name
        ++ blanks indent ++ ':' :: valueLines indent false v)
    (if started then [] else blanks indent) ++ entry ++ fieldLines indent false rest

end

/-- A value as a document. -/
def print (v : Json) : String :=
  String.ofList <|
    match v with
    -- At the top no key stands in front, so that what would separate the value from it
    -- is dropped.
    | .arr (_ :: _) => (valueLines 0 true v).drop 1
    | .obj fields =>
      if fields.isEmpty then ['\x7b', '\x7d', '\n'] else fieldLines 0 false fields
    | v => (valueLines 0 true v).drop 1

end Workplan.Yaml
