import Workplan.Text.Blank
import Workplan.Yaml.Cursor

/-!
# Written scalars

How the three ways to write a scalar read: quoted, as a block of lines, and plain.  Each
reader starts at the first character of the scalar and answers with its text and the place
behind it; `none` stands for a text that is not well formed.
-/

namespace Workplan.Yaml

/-! ## Quoted scalars -/

/-- The character of an escape of one letter. -/
def escapedChar? : Char → Option Char
  | '0' => some '\x00'
  | 'a' => some '\x07'
  | 'b' => some '\x08'
  | 't' => some '\t'
  | '\t' => some '\t'
  | 'n' => some '\n'
  | 'v' => some '\x0b'
  | 'f' => some '\x0c'
  | 'r' => some '\r'
  | 'e' => some '\x1b'
  | ' ' => some ' '
  | '"' => some '"'
  | '/' => some '/'
  | '\\' => some '\\'
  | 'N' => some '\u0085'
  | '_' => some '\u00a0'
  | 'L' => some '\u2028'
  | 'P' => some '\u2029'
  | _ => none

/-- Number of digits of a numbered escape. -/
def escapeLength? : Char → Option Nat
  | 'x' => some 2
  | 'u' => some 4
  | 'U' => some 8
  | _ => none

/-- The character with a number, unless the number is that of no character. -/
def charOfNumber? (n : Nat) : Option Char :=
  if n < 0xD800 ∨ (0xDFFF < n ∧ n < 0x110000) then some (Char.ofNat n) else none

/-- The words of a quoted scalar up to a gap or the closing quote.  Answers with the
characters in reverse order and whether an escaped line break was passed. -/
def quotedWords (single : Bool) :
    Nat → List Char → Cursor → Option (List Char × Bool × Cursor)
  | 0, _, _ => none
  | fuel + 1, acc, c =>
    match c.rest with
    | [] => some (acc, false, c)
    | '\'' :: rest =>
      if single then
        match rest with
        -- A quote that is meant itself is written twice.
        | '\'' :: _ => quotedWords single fuel ('\'' :: acc) (c.skip 2)
        | _ => some (acc, false, c)
      else quotedWords single fuel ('\'' :: acc) (c.skip 1)
    | '"' :: _ =>
      if single then quotedWords single fuel ('"' :: acc) (c.skip 1)
      else some (acc, false, c)
    | '\\' :: rest =>
      if single then quotedWords single fuel ('\\' :: acc) (c.skip 1)
      else
        match rest with
        | [] => none
        | e :: digits =>
          -- An escaped break joins two lines, without a space between them.
          if isBreak e then some (acc, true, (c.skip 1).skipBreak)
          else
            match escapedChar? e, escapeLength? e with
            | some ch, _ => quotedWords single fuel (ch :: acc) (c.skip 2)
            | none, none => none
            | none, some n =>
              if digits.length < n then none
              else
                match (Text.natOfDigits? 16 (digits.take n)).bind charOfNumber? with
                | some ch => quotedWords single fuel (ch :: acc) (c.skip (n + 2))
                | none => none
    | ch :: _ =>
      if isGap ch || isBreak ch then some (acc, false, c)
      else quotedWords single fuel (ch :: acc) (c.skip 1)

/-- The rest of a quoted scalar, word by word. -/
def quotedRest (single : Bool) : Nat → List Char → Cursor → Option (List Char × Cursor)
  | 0, _, _ => none
  | fuel + 1, acc, c =>
    -- The text or the document ends before the scalar is closed.
    if c.atBoundary || c.rest.isEmpty then none
    else do
      let (acc, broken, c) ← quotedWords single (c.rest.length + 1) acc c
      if c.rest.head? == some (if single then '\'' else '"') then some (acc, c.skip 1)
      else
        let (g, c) ← c.gap none c.rest.length (Gap.empty broken)
        quotedRest single fuel (g.text.reverse ++ acc) c

/-- A quoted scalar, from its opening quote on. -/
def readQuoted (single : Bool) (c : Cursor) : Option (String × Cursor) := do
  let (acc, next) ← quotedRest single (c.rest.length + 1) [] (c.skip 1)
  return (String.ofList acc.reverse, next)

/-! ## Blocks of lines -/

/-- What becomes of the line breaks at the end of a block. -/
inductive Chomp where
  | strip
  | clip
  | keep
deriving DecidableEq

/-- The indicators behind the sign of a block: what becomes of its last breaks, and its
indentation, in either order. -/
def blockHeader (c : Cursor) : Option (Chomp × Nat × Cursor) :=
  let chomp? : Char → Option Chomp
    | '+' => some .keep
    | '-' => some .strip
    | _ => none
  let digit? (ch : Char) : Option Nat := Text.decimalDigit? ch
  match c.rest with
  | [] => some (.clip, 0, c)
  | a :: rest =>
    match chomp? a, digit? a with
    | some chomp, _ =>
      match rest.head?.bind digit? with
      | some 0 => none
      | some n => some (chomp, n, c.skip 2)
      | none => some (chomp, 0, c.skip 1)
    | none, some 0 => none
    | none, some n =>
      match rest.head?.bind chomp? with
      | some chomp => some (chomp, n, c.skip 2)
      | none => some (.clip, n, c.skip 1)
    | none, none => some (.clip, 0, c)

/-- Blank lines of a block.  While the indentation is not known, the deepest blank line
counts; a tab in the indentation is refused.  Answers with the breaks and the deepest
column seen. -/
def blockBreaks (indent : Nat) :
    Nat → List Char → Nat → Cursor → Option (List Char × Nat × Cursor)
  | 0, breaks, deepest, c => some (breaks, deepest, c)
  | fuel + 1, breaks, deepest, c =>
    let spaces := (c.rest.takeWhile (· == ' ')).length
    -- Of a known indentation no more is taken: further blanks belong to the text.
    let c := c.skip (if indent = 0 then spaces else min spaces (indent - c.column))
    let deepest := max deepest c.column
    if (indent = 0 ∨ c.column < indent) ∧ c.rest.head? = some '\t' then none
    else
      match c.lineBreak? with
      | some (b, next) => blockBreaks indent fuel (breaks ++ [b]) deepest next
      | none => some (breaks, deepest, c)

/-- The lines of a block of known indentation.  `first` is the break before the current
line, and `blank` tells whether the line before it started with a blank. -/
def blockLines (literal : Bool) (indent : Nat) :
    Nat → List Char → Bool → List Char → List Char → Cursor →
      Option (List Char × List Char × List Char × Cursor)
  | 0, acc, _, first, further, c => some (acc, first, further, c)
  | fuel + 1, acc, blank, first, further, c =>
    if c.column == indent && !c.rest.isEmpty then do
      let startsBlank := c.rest.head?.any isGap
      -- A break is folded between two lines that both start with text.
      let joined :=
        if !literal && first.head? == some '\n' && !blank && !startsBlank then
          if further.isEmpty then [' '] else further
        else first ++ further
      let (line, c) := c.span fun ch => !isBreak ch
      let acc := line.reverse ++ (joined.reverse ++ acc)
      let (first, c) := match c.lineBreak? with
        | some (b, next) => ([b], next)
        | none => ([], c)
      let (further, _, c) ← blockBreaks indent (c.rest.length + 1) [] 0 c
      blockLines literal indent fuel acc startsBlank first further c
    else some (acc, first, further, c)

/-- A block, from its sign on, inside a collection of the given indentation (none
at the top). -/
def readBlock (literal : Bool) (parent : Option Nat) (c : Cursor) :
    Option (String × Cursor) := do
  let (chomp, explicit, c) ← blockHeader (c.skip 1)
  let c := c.skipWhile isGap
  let c := if c.rest.head? == some '#' then c.skipWhile (fun ch => !isBreak ch) else c
  if !atBreakOrEnd c.rest then none
  else
    let c := c.skipBreak
    let least := parent.elim 0 (· + 1)
    let given := if explicit = 0 then 0 else parent.getD 0 + explicit
    let (further, deepest, c) ← blockBreaks given (c.rest.length + 1) [] 0 c
    -- Without a number in the header, the indentation is that of the deepest line up to
    -- the first with text.
    let indent := if given = 0 then max 1 (max deepest least) else given
    let (acc, first, further, c) ←
      blockLines literal indent (c.rest.length + 1) [] false [] further c
    let ending := match chomp with
      | .strip => []
      | .clip => first
      | .keep => first ++ further
    return (String.ofList (acc.reverse ++ ending), c)

/-! ## Plain scalars -/

/-- A plain scalar up to a gap, or up to what ends it.  Inside brackets, a colon in front
of another sign of the brackets is refused. -/
def plainWord (flow : Bool) : List Char → Option (List Char)
  | [] => some []
  | ch :: rest =>
    if isGap ch || isBreak ch then some []
    else if ch == ':' && flow && rest.head?.any (",?[]\x7b\x7d".toList.contains ·) then none
    else if ch == ':' && atGapOrEnd rest then some []
    else if flow && ",[]\x7b\x7d".toList.contains ch then some []
    else (plainWord flow rest).map (ch :: ·)

/-- The rest of a plain scalar, word by word.  Answers also with whether it ended
behind a break. -/
def plainRest (flow : Bool) (indent : Nat) :
    Nat → List Char → Gap → Cursor → Option (List Char × Bool × Cursor)
  | 0, acc, g, c => some (acc, g.broken, c)
  | fuel + 1, acc, g, c =>
    -- Behind a gap a `#` starts a comment.
    if c.atBoundary || c.rest.head? == some '#' then some (acc, g.broken, c)
    else do
      let word ← plainWord flow c.rest
      -- A gap is joined only in front of a word, so that one at the end is no part of
      -- the scalar.
      let (acc, g) :=
        if word.isEmpty then (acc, g)
        else (word.reverse ++ (g.text.reverse ++ acc), Gap.empty false)
      let c := c.skip word.length
      if !(c.rest.head?.any fun ch => isGap ch || isBreak ch) then some (acc, g.broken, c)
      else
        let (g, c) ← c.gap (some indent) c.rest.length g
        if !flow && c.column < indent then some (acc, g.broken, c)
        else plainRest flow indent fuel acc g c

/-- A plain scalar inside a collection of the given indentation; the answer tells also
whether it ended behind a line break. -/
def readPlain (flow : Bool) (indent : Nat) (c : Cursor) :
    Option (String × Bool × Cursor) := do
  let (acc, broken, next) ← plainRest flow indent (c.rest.length + 1) [] (Gap.empty false) c
  return (String.ofList acc.reverse, broken, next)

end Workplan.Yaml
