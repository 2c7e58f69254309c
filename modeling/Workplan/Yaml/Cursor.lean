/-!
# Cursors

A place in a YAML text: what is left of it, and the line and column reached.  Columns count
characters from the last line break, because indentation is structure in this notation.
-/

namespace Workplan.Yaml

/-! ## Characters -/

/-- Characters that a text may hold at all. -/
def isAllowed (c : Char) : Bool :=
  let n := c.toNat
  n == 0x09 || n == 0x0A || n == 0x0D || (0x20 ≤ n && n ≤ 0x7E) || n == 0x85
    || (0xA0 ≤ n && n ≤ 0xD7FF) || (0xE000 ≤ n && n ≤ 0xFFFD) || 0x10000 ≤ n

/-- The characters that end a line. -/
def isBreak (c : Char) : Bool :=
  c == '\n' || c == '\r' || c == '\u0085' || c == '\u2028' || c == '\u2029'

/-- Spaces and tabs. -/
def isGap (c : Char) : Bool :=
  c == ' ' || c == '\t'

/-- The characters of names: letters, digits, `_` and `-`, of ASCII only. -/
def isWord (c : Char) : Bool :=
  c.isAlphanum || c == '_' || c == '-'

/-- Whether a text is at its end, at a line break or at a space or tab. -/
def atGapOrEnd : List Char → Bool
  | [] => true
  | c :: _ => isGap c || isBreak c

/-- Whether a text is at its end or at a line break. -/
def atBreakOrEnd : List Char → Bool
  | [] => true
  | c :: _ => isBreak c

/-! ## Cursors -/

/-- What is left of a text, and the place reached. -/
structure Cursor where
  rest : List Char
  index : Nat
  line : Nat
  column : Nat

namespace Cursor

/-- The start of a text.  A byte order mark in front of everything is no part
of the text. -/
def start (cs : List Char) : Cursor :=
  match cs with
  | '\ufeff' :: rest => ⟨rest, 0, 0, 0⟩
  | cs => ⟨cs, 0, 0, 0⟩

/-- Moves over characters of one line. -/
def skip (n : Nat) (c : Cursor) : Cursor :=
  { c with rest := c.rest.drop n, index := c.index + n, column := c.column + n }

/-- Takes the characters of one line that have a property. -/
def span (p : Char → Bool) (c : Cursor) : List Char × Cursor :=
  let taken := c.rest.takeWhile p
  (taken, c.skip taken.length)

/-- Moves over the characters that have a property. -/
def skipWhile (p : Char → Bool) (c : Cursor) : Cursor :=
  (c.span p).2

/-- Moves over a line break and says what it reads as: the separators of lines and of
paragraphs stay what they are, every other break is a line feed. -/
def lineBreak? (c : Cursor) : Option (Char × Cursor) :=
  let next (n : Nat) : Cursor :=
    { rest := c.rest.drop n, index := c.index + n, line := c.line + 1, column := 0 }
  match c.rest with
  | '\r' :: '\n' :: _ => some ('\n', next 2)
  | '\n' :: _ => some ('\n', next 1)
  | '\r' :: _ => some ('\n', next 1)
  | '\u0085' :: _ => some ('\n', next 1)
  | '\u2028' :: _ => some ('\u2028', next 1)
  | '\u2029' :: _ => some ('\u2029', next 1)
  | _ => none

/-- Moves over a line break, if there is one. -/
def skipBreak (c : Cursor) : Cursor :=
  match c.lineBreak? with
  | some (_, next) => next
  | none => c

/-- Whether the cursor is at the three characters that divide documents, at the
start of a line. -/
def atMarker (mark : Char) (c : Cursor) : Bool :=
  c.column == 0 &&
    match c.rest with
    | a :: b :: d :: rest => a == mark && b == mark && d == mark && atGapOrEnd rest
    | _ => false

/-- Whether the cursor is where a document starts or ends. -/
def atBoundary (c : Cursor) : Bool :=
  c.atMarker '-' || c.atMarker '.'

end Cursor

/-! ## Gaps

What stands between two words of a scalar: blanks on one line, or line breaks with the
blanks around them.  A single line feed reads as a space, further breaks as themselves. -/

/-- A gap: blanks before the first break, then the breaks. -/
structure Gap where
  blanks : List Char
  /-- Whether there was a break. -/
  broken : Bool
  first : List Char
  further : List Char

namespace Gap

/-- A gap without anything in it. -/
def empty (broken : Bool) : Gap := ⟨[], broken, [], []⟩

/-- What a gap reads as. -/
def text (g : Gap) : List Char :=
  if g.broken then
    -- The first break folds the line: alone it reads as a space, and in front of others
    -- as nothing.
    if g.first.head? == some '\n' then (if g.further.isEmpty then [' '] else g.further)
    else g.first ++ g.further
  else g.blanks

end Gap

/-- Reads a gap.  Behind a break, a tab left of the given column is refused.  The fuel
bounds the number of characters. -/
def Cursor.gap (indent : Option Nat) : Nat → Gap → Cursor → Option (Gap × Cursor)
  | 0, g, c => some (g, c)
  | fuel + 1, g, c =>
    match c.lineBreak? with
    | some (b, next) =>
      if g.broken then gap indent fuel { g with further := g.further ++ [b] } next
      -- Blanks in front of the first break do not count.
      else gap indent fuel ⟨[], true, [b], []⟩ next
    | none =>
      match c.rest with
      | [] => some (g, c)
      | ch :: _ =>
        if isGap ch then
          if g.broken then
            if ch == '\t' && indent.any (c.column < ·) then none
            else gap indent fuel g (c.skip 1)
          else gap indent fuel { g with blanks := g.blanks ++ [ch] } (c.skip 1)
        else some (g, c)

end Workplan.Yaml
