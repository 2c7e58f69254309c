import Workplan.Yaml.Scalars
import Workplan.Yaml.Token
import Workplan.Text.Utf8

/-!
# Token sequences

The tokens of a whole text, by one pass over its characters.  Two things look back: a `:`
turns what stands before it on its line into a key, so that a key token is put in front of
it, and a column left of the current indentation closes the collections that are deeper.

`Token.sequence?` answers `none` for a text that is not well formed.
-/

namespace Workplan.Yaml

/-- A token that may turn out to be the start of a key.  It must become one if it stands
where only a key can. -/
structure KeyCandidate where
  required : Bool
  position : Nat
  index : Nat
  line : Nat
  column : Nat

/-- How far a pass over a text has come. -/
structure Pass where
  cursor : Cursor
  /-- The tokens so far, last first. -/
  tokens : List Token
  count : Nat
  /-- The columns of the open block collections, innermost first. -/
  indents : List Nat
  /-- The key candidates of the open brackets, innermost first. -/
  outerKeys : List (Option KeyCandidate)
  keyCandidate : Option KeyCandidate
  /-- Whether a key may start here. -/
  keyAllowed : Bool

namespace Pass

/-- Whether the pass is inside brackets. -/
def inFlow (p : Pass) : Bool :=
  !p.outerKeys.isEmpty

/-- Adds a token at the end. -/
def push (t : Token) (p : Pass) : Pass :=
  { p with tokens := t :: p.tokens, count := p.count + 1 }

/-- Puts a token in front of the one at a position. -/
def insert (position : Nat) (t : Token) (p : Pass) : Pass :=
  { p with tokens := p.tokens.insertIdx (p.count - position) t, count := p.count + 1 }

/-- Opens a block collection at a column right of the current indentation. -/
def openBlock (column : Nat) (position : Option Nat) (t : Token) (p : Pass) : Pass :=
  if p.inFlow then p
  else if p.indents.head?.any (column ≤ ·) then p
  else
    let p := { p with indents := column :: p.indents }
    -- A table starts in front of its first key, which has been read already.
    match position with
    | none => p.push t
    | some n => p.insert n t

/-- Closes the block collections right of a column; without a column, all of them. -/
def closeIndents (column : Option Nat) : List Nat → Pass → Pass
  | [], p => { p with indents := [] }
  | i :: rest, p =>
    if column.all (· < i) then closeIndents column rest (p.push .blockEnd)
    else { p with indents := i :: rest }

/-- Closes the block collections right of a column; without a column, all of them. -/
def closeBlocks (column : Option Nat) (p : Pass) : Pass :=
  if p.inFlow then p else closeIndents column p.indents p

/-- Gives up the key candidate; one that is required may not be given up. -/
def dropKey (p : Pass) : Option Pass :=
  if p.keyCandidate.any (·.required) then none else some { p with keyCandidate := none }

/-- Makes the next token a key candidate, if a key may start here. -/
def saveKey (p : Pass) : Option Pass :=
  if p.keyAllowed then do
    let c := p.cursor
    let p ← p.dropKey
    some { p with keyCandidate := some {
      -- What starts in the column of the innermost block collection must turn out to be
      -- a key of it.
      required := !p.inFlow && p.indents.head? == some c.column
      position := p.count
      index := c.index
      line := c.line
      column := c.column } }
  else some p

/-- Whether the key candidate is still near enough: on this line, not more than 1024
characters ago. -/
def keyInReach (p : Pass) (k : KeyCandidate) : Bool :=
  k.line == p.cursor.line && p.cursor.index ≤ k.index + 1024

/-! ## Names and tags -/

/-- The name of an anchor or alias, from its sign on. -/
def readName (c : Cursor) : Option (String × Cursor) :=
  let (name, next) := (c.skip 1).span isWord
  if name.isEmpty then none
  else if atGapOrEnd next.rest || next.rest.head?.any
    ("?:,]\x7d%@\x60".toList.contains ·) then
    some (String.ofList name, next)
  else none

/-- The handle of a tag: `!`, `!!` or `!name!`.  Without a closing sign it is only the
first part of a tag, which a directive does not allow. -/
def readHandle (directive : Bool) (c : Cursor) : Option (List Char × Cursor) :=
  if c.rest.head? != some '!' then none
  else
    let (name, next) := (c.skip 1).span isWord
    if next.rest.head? == some '!' then some ('!' :: (name ++ ['!']), next.skip 1)
    else if directive && !name.isEmpty then none
    else some ('!' :: name, next)

/-- The bytes of escapes `%XX` that make up one character. -/
private def escapedBytes : List Char → Option (List UInt8 × Nat)
  | '%' :: a :: b :: rest => do
    let first ← Text.natOfDigits? 16 [a, b]
    let more ← if first < 0x80 then some 0
      else if 0xC0 ≤ first ∧ first < 0xE0 then some 1
      else if 0xE0 ≤ first ∧ first < 0xF0 then some 2
      else if 0xF0 ≤ first ∧ first < 0xF8 then some 3
      else none
    let rec follow : Nat → List Char → Option (List UInt8)
      | 0, _ => some []
      | n + 1, '%' :: x :: y :: rest => do
        let v ← Text.natOfDigits? 16 [x, y]
        if 0x80 ≤ v ∧ v < 0xC0 then return UInt8.ofNat v :: (← follow n rest) else none
      | _ + 1, _ => none
    let bytes ← follow more rest
    return (UInt8.ofNat first :: bytes, 3 * (more + 1))
  | _ => none

/-- The characters of a tag.  Between angle brackets, commas and square brackets are
allowed too. -/
private def isTagChar (verbatim : Bool) (ch : Char) : Bool :=
  isWord ch || ";/?:@&=+$.!~*'()".toList.contains ch ||
    (verbatim && ",[]".toList.contains ch)

/-- The rest of a tag.  The fuel bounds the number of characters. -/
private def tagChars (verbatim : Bool) :
    Nat → List Char → Nat → Cursor → Option (List Char × Nat × Cursor)
  | 0, acc, taken, c => some (acc, taken, c)
  | fuel + 1, acc, taken, c =>
    match c.rest with
    | [] => some (acc, taken, c)
    | ch :: _ =>
      if ch == '%' then do
        let (bytes, n) ← escapedBytes c.rest
        tagChars verbatim fuel ((Text.Utf8.decodeLossy bytes).toList.reverse ++ acc)
          (taken + 1) (c.skip n)
      else if isTagChar verbatim ch then
        tagChars verbatim fuel (ch :: acc) (taken + 1) (c.skip 1)
      else some (acc, taken, c)

/-- The rest of a tag behind a first part, which must not both be empty. -/
private def readTagChars (verbatim : Bool) (head : List Char) (c : Cursor) :
    Option (List Char × Cursor) := do
  let (acc, taken, next) ← tagChars verbatim (c.rest.length + 1) [] 0 c
  if head.length + taken = 0 then none
  else return (head.drop 1 ++ acc.reverse, next)

/-- A tag, from its sign on: handle and suffix. -/
def readTag (flow : Bool) (c : Cursor) : Option (String × String × Cursor) := do
  let (handle, suffix, next) ←
    match c.rest with
    | '!' :: '<' :: _ => do
      let (suffix, next) ← readTagChars true [] (c.skip 2)
      if next.rest.head? == some '>' then some ([], suffix, next.skip 1) else none
    | _ => do
      let (handle, next) ← readHandle false c
      -- With a closing sign the first part is a handle; without one the suffix
      -- begins in it.
      if handle.length > 1 && handle.getLast? == some '!' then do
        let (suffix, next) ← readTagChars false [] next
        some (handle, suffix, next)
      else do
        let (suffix, next) ← readTagChars false handle next
        if suffix.isEmpty then some ([], ['!'], next) else some (['!'], suffix, next)
  if atGapOrEnd next.rest || (flow && next.rest.head? == some ',') then
    some (String.ofList handle, String.ofList suffix, next)
  else none

/-! ## Directives -/

/-- A number of at most nine digits. -/
private def readNumber (c : Cursor) : Option (Nat × Cursor) := do
  let (digits, next) := c.span Char.isDigit
  if 9 < digits.length then none
  else
    let n ← Text.natOfDigits? 10 digits
    return (n, next)

/-- A directive, from its sign to the end of its line. -/
def readDirective (c : Cursor) : Option (Token × Cursor) := do
  let (name, next) := (c.skip 1).span isWord
  if name.isEmpty || !atGapOrEnd next.rest then none
  else
    let (token, next) ←
      if name == "YAML".toList then do
        let (major, next) ← readNumber (next.skipWhile isGap)
        if next.rest.head? != some '.' then none
        else
          let (minor, next) ← readNumber (next.skip 1)
          some (Token.version major minor, next)
      else if name == "TAG".toList then do
        let (handle, next) ← readHandle true (next.skipWhile isGap)
        if !next.rest.head?.any isGap then none
        else
          let (expansion, next) ← readTagChars true [] (next.skipWhile isGap)
          if !atGapOrEnd next.rest then none
          else some (Token.tagPrefix (String.ofList handle) (String.ofList expansion), next)
      else none
    let next := next.skipWhile isGap
    let next := if next.rest.head? == some '#' then next.skipWhile (fun ch => !isBreak ch)
      else next
    if atBreakOrEnd next.rest then some (token, next.skipBreak) else none

/-! ## One token -/

/-- Moves to the next token, over blanks, comments and line breaks.  A break outside
brackets allows a key to start.  The fuel bounds the number of lines. -/
def toNextToken : Nat → Pass → Pass
  | 0, p => p
  | fuel + 1, p =>
    let c := p.cursor
    let c := if c.column == 0 && c.rest.head? == some '\ufeff' then c.skip 1 else c
    -- Where a key may start, blanks are indentation, and a tab cannot be that.
    let c := c.skipWhile fun ch => ch == ' ' || (ch == '\t' && (p.inFlow || !p.keyAllowed))
    let c := if c.rest.head? == some '#' then c.skipWhile (fun ch => !isBreak ch) else c
    match c.lineBreak? with
    | none => { p with cursor := c }
    | some (_, next) =>
      toNextToken fuel { p with cursor := next, keyAllowed := p.keyAllowed || !p.inFlow }

/-- Takes a token of `n` characters. -/
def take (n : Nat) (t : Token) (p : Pass) : Pass :=
  { (p.push t) with cursor := p.cursor.skip n }

/-- An opening bracket. -/
def openFlow (t : Token) (p : Pass) : Option Pass := do
  let p ← p.saveKey
  some (take 1 t { p with
    outerKeys := p.keyCandidate :: p.outerKeys, keyCandidate := none, keyAllowed := true })

/-- A closing bracket. -/
def closeFlow (t : Token) (p : Pass) : Option Pass := do
  let p ← p.dropKey
  -- What stood in front of the bracket may still become a key, brackets and all.
  let p := match p.outerKeys with
    | [] => p
    | k :: rest => { p with keyCandidate := k, outerKeys := rest }
  some (take 1 t { p with keyAllowed := false })

/-- The sign of a list entry. -/
def blockEntry (p : Pass) : Option Pass := do
  if !p.inFlow && !p.keyAllowed then none
  else
    let p := p.openBlock p.cursor.column none .blockListStart
    let p ← p.dropKey
    some (take 1 .blockEntry { p with keyAllowed := true })

/-- The sign of a key. -/
def explicitKey (p : Pass) : Option Pass := do
  if !p.inFlow && !p.keyAllowed then none
  else
    let p := p.openBlock p.cursor.column none .blockTableStart
    let p ← p.dropKey
    -- Behind the sign another key may start, but not inside brackets.
    some (take 1 .key { p with keyAllowed := !p.inFlow })

/-- The sign of a value.  What stands before it on the line becomes the key. -/
def valueSign (p : Pass) : Option Pass :=
  match p.keyCandidate.filter p.keyInReach with
  | some k =>
    -- The tokens of the key have been taken already, so the marks in front of it are
    -- put in late.
    let p :=
      (p.insert k.position .key).openBlock k.column (some k.position) .blockTableStart
    some (take 1 .value { p with keyCandidate := none, keyAllowed := false })
  | none =>
    if p.keyCandidate.any (·.required) then none
    -- Without anything in front of it, the colon belongs to an explicit key or to
    -- an empty one.
    else if p.inFlow then
      some (take 1 .value { p with keyCandidate := none, keyAllowed := false })
    else if p.keyAllowed then
      let p := p.openBlock p.cursor.column none .blockTableStart
      some (take 1 .value { p with keyCandidate := none, keyAllowed := true })
    else none

/-- A token read by a reader, which may start a key. -/
def keyToken (read : Cursor → Option (Token × Bool × Cursor)) (p : Pass) : Option Pass := do
  let p ← p.saveKey
  let (t, keyAllowed, next) ← read p.cursor
  some { (p.push t) with cursor := next, keyAllowed }

/-- A directive or a document boundary: everything open is closed first. -/
def topLevel (read : Cursor → Option (Token × Cursor)) (p : Pass) : Option Pass := do
  let p ← (p.closeBlocks none).dropKey
  let (t, next) ← read p.cursor
  some { (p.push t) with cursor := next, keyAllowed := false }

/-- A block of lines. -/
def blockScalar (literal : Bool) (p : Pass) : Option Pass := do
  let p ← p.dropKey
  let (text, next) ← readBlock literal p.indents.head? p.cursor
  some { (p.push (.scalar text .quoted)) with cursor := next, keyAllowed := true }

/-- Whether a plain scalar may start here. -/
def startsPlain (flow : Bool) : List Char → Bool
  | [] => false
  | ch :: rest =>
    if ch == '-' then !(rest.head?.any isGap)
    else if ch == '?' || ch == ':' then !flow && !atGapOrEnd rest
    else !(isGap ch || isBreak ch || ",[]\x7b\x7d#&*!|>'\"%@\x60".toList.contains ch)

/-- Reads the token at the cursor. -/
def readToken (p : Pass) : Option Pass :=
  let flow := p.inFlow
  let c := p.cursor
  let boundary (t : Token) : Option Pass := topLevel (fun c => some (t, c.skip 3)) p
  match c.rest with
  | [] => none
  | ch :: rest =>
    if c.column == 0 && ch == '%' then topLevel readDirective p
    else if c.atMarker '-' then boundary .documentStart
    else if c.atMarker '.' then boundary .documentEnd
    else if ch == '[' then openFlow .flowListStart p
    else if ch == '\x7b' then openFlow .flowTableStart p
    else if ch == ']' then closeFlow .flowListEnd p
    else if ch == '\x7d' then closeFlow .flowTableEnd p
    else if ch == ',' then do
      let p ← p.dropKey
      some (take 1 .flowEntry { p with keyAllowed := true })
    -- Outside brackets these three are signs only in front of a gap; else a plain scalar
    -- may start with them.
    else if ch == '-' && atGapOrEnd rest then blockEntry p
    else if ch == '?' && (flow || atGapOrEnd rest) then explicitKey p
    else if ch == ':' && (flow || atGapOrEnd rest) then valueSign p
    else if ch == '*' then
      keyToken (fun c => (readName c).map fun (n, next) => (.reference n, false, next)) p
    else if ch == '&' then
      keyToken (fun c => (readName c).map fun (n, next) => (.anchor n, false, next)) p
    else if ch == '!' then
      keyToken (fun c => (readTag flow c).map fun (h, s, next) => (.tag h s, false, next)) p
    else if ch == '|' && !flow then blockScalar true p
    else if ch == '>' && !flow then blockScalar false p
    else if ch == '\'' || ch == '"' then
      keyToken (fun c =>
        (readQuoted (ch == '\'') c).map fun (s, next) => (.scalar s .quoted, false, next)) p
    else if startsPlain flow c.rest then
      let indent := p.indents.head?.elim 0 (· + 1)
      keyToken (fun c =>
        (readPlain flow indent c).map fun (s, broken, next) =>
          (.scalar s .plain, broken, next)) p
    else none

/-- Reads tokens to the end of the text.  The fuel bounds the number of tokens. -/
def toEnd : Nat → Pass → Option Pass
  | 0, _ => none
  | fuel + 1, p =>
    let p := toNextToken (p.cursor.rest.length + 1) p
    -- What starts further left than the open collections ends them.
    let p := p.closeBlocks (some p.cursor.column)
    if p.cursor.rest.isEmpty then (p.closeBlocks none).dropKey
    else do
      let p ← readToken p
      toEnd fuel p

end Pass

/-- The tokens of a text. -/
def Token.sequence? (text : String) : Option (List Token) :=
  let cursor := Cursor.start text.toList
  if !cursor.rest.all isAllowed then none
  else
    (Pass.toEnd (cursor.rest.length + 2) {
      cursor, tokens := [], count := 0, indents := [], outerKeys := [], keyCandidate := none
      keyAllowed := true }).map fun p => p.tokens.reverse

end Workplan.Yaml
