import Workplan.Text.Blank
import Workplan.Toml.Basic

/-!
# Reading TOML

A strict reader of TOML 1.0.  Each function starts at the first character of what it
reads and answers with the result and the characters behind it; `none` stands for a text
that is no TOML document.
-/

namespace Workplan.Toml.Reader

/-! ## Characters -/

/-- Spaces and tabs. -/
def isGap (c : Char) : Bool := c == ' ' || c == '\t'

/-- Drops spaces and tabs. -/
def skipGap (cs : List Char) : List Char := cs.dropWhile isGap

/-- Moves over a line break. -/
def lineBreak? : List Char → Option (List Char)
  | '\n' :: rest => some rest
  | '\r' :: '\n' :: rest => some rest
  | _ => none

/-- Characters that may stand in comments and texts: no controls except the tab. -/
def isPrintable (c : Char) : Bool :=
  c == '\t' || (0x20 ≤ c.toNat && c.toNat ≤ 0x7E) || 0x80 ≤ c.toNat

/-- Drops a comment. -/
def skipComment : List Char → List Char
  | '#' :: rest => rest.dropWhile isPrintable
  | cs => cs

/-- Drops spaces, tabs, comments and line breaks.  The fuel bounds the
number of lines. -/
def skipLines : Nat → List Char → List Char
  | 0, cs => cs
  | fuel + 1, cs =>
    let cs := skipComment (skipGap cs)
    match lineBreak? cs with
    | some rest => skipLines fuel rest
    | none => cs

/-- The end of a line: nothing more, or a line break, behind spaces and a comment. -/
def lineEnd (cs : List Char) : Option (List Char) :=
  match skipComment (skipGap cs) with
  | [] => some []
  | cs => lineBreak? cs

/-! ## Texts -/

/-- The character of a number, unless it is half of a pair or too large. -/
def charOfNumber? (n : Nat) : Option Char :=
  if n < 0xD800 ∨ (0xDFFF < n ∧ n < 0x110000) then some (Char.ofNat n) else none

/-- The character of an escape, behind the backslash. -/
def escape : List Char → Option (Char × List Char)
  | 'b' :: rest => some ('\x08', rest)
  | 't' :: rest => some ('\t', rest)
  | 'n' :: rest => some ('\n', rest)
  | 'f' :: rest => some ('\x0c', rest)
  | 'r' :: rest => some ('\r', rest)
  | '"' :: rest => some ('"', rest)
  | '\\' :: rest => some ('\\', rest)
  | 'u' :: rest => do
    if rest.length < 4 then none
    else
      let c ← (Text.natOfDigits? 16 (rest.take 4)).bind charOfNumber?
      some (c, rest.drop 4)
  | 'U' :: rest => do
    if rest.length < 8 then none
    else
      let c ← (Text.natOfDigits? 16 (rest.take 8)).bind charOfNumber?
      some (c, rest.drop 8)
  | _ => none

/-- The rest of a text on one line with escapes, behind its quote. -/
def basic : Nat → List Char → List Char → Option (String × List Char)
  | 0, _, _ => none
  | fuel + 1, acc, cs =>
    match cs with
    | '"' :: rest => some (String.ofList acc.reverse, rest)
    | '\\' :: rest => do
      let (c, rest) ← escape rest
      basic fuel (c :: acc) rest
    | c :: rest => if isPrintable c then basic fuel (c :: acc) rest else none
    | [] => none

/-- The rest of a text on one line without escapes, behind its quote. -/
def literal (cs : List Char) : Option (String × List Char) :=
  let body := cs.takeWhile fun c => c != '\'' && isPrintable c
  match cs.drop body.length with
  | '\'' :: rest => some (String.ofList body, rest)
  | _ => none

/-- Drops spaces, tabs and line breaks. -/
def skipFold : List Char → List Char
  | ' ' :: rest => skipFold rest
  | '\t' :: rest => skipFold rest
  | '\n' :: rest => skipFold rest
  | '\r' :: '\n' :: rest => skipFold rest
  | cs => cs

/-- The rest of a text of several lines, behind its quotes.  Two quotes may stand inside
it, also in front of the closing ones.  A backslash at the end of a line drops all white
space that follows. -/
def multiline (quote : Char) (escapes : Bool) :
    Nat → List Char → List Char → Option (String × List Char)
  | 0, _, _ => none
  | fuel + 1, acc, cs =>
    match cs with
    | [] => none
    | c :: rest =>
      if c == quote then
        let n := (cs.takeWhile (· == quote)).length
        -- The last three of a run of quotes close the text, and at most two can stand
        -- in front of them.
        if n < 3 then multiline quote escapes fuel (quote :: acc) rest
        else if 5 < n then none
        else some (String.ofList (List.replicate (n - 3) quote ++ acc).reverse,
          cs.drop n)
      else if c == '\\' && escapes then
        match lineBreak? (skipGap rest) with
        | some after => multiline quote escapes fuel acc (skipFold after)
        | none => do
          let (c, rest) ← escape rest
          multiline quote escapes fuel (c :: acc) rest
      else
        match lineBreak? cs with
        | some rest => multiline quote escapes fuel ('\n' :: acc) rest
        | none =>
          if isPrintable c then multiline quote escapes fuel (c :: acc) rest else none

/-- A text in any of the four kinds of quotes. -/
def text (cs : List Char) : Option (String × List Char) :=
  let fuel := cs.length + 1
  -- A break right behind the opening quotes is no part of the text.
  let opened (rest : List Char) : List Char := (lineBreak? rest).getD rest
  match cs with
  | '"' :: '"' :: '"' :: rest => multiline '"' true fuel [] (opened rest)
  | '\'' :: '\'' :: '\'' :: rest => multiline '\'' false fuel [] (opened rest)
  | '"' :: rest => basic fuel [] rest
  | '\'' :: rest => literal rest
  | _ => none

/-! ## Keys -/

/-- The characters of keys without quotes. -/
def isBareKey (c : Char) : Bool := c.isAlphanum || c == '_' || c == '-'

/-- One key. -/
def simpleKey (cs : List Char) : Option (String × List Char) :=
  match cs with
  | '"' :: rest => basic (cs.length + 1) [] rest
  | '\'' :: rest => literal rest
  | cs =>
    let body := cs.takeWhile isBareKey
    if body.isEmpty then none else some (String.ofList body, cs.drop body.length)

/-- Keys with dots between them, the last one apart.  The fuel bounds the number of
keys. -/
def dottedKey :
    Nat → List String → List Char → Option (List String × String × List Char)
  | 0, _, _ => none
  | fuel + 1, acc, cs => do
    let (key, rest) ← simpleKey (skipGap cs)
    match skipGap rest with
    | '.' :: rest => dottedKey fuel (key :: acc) rest
    | rest => some (acc.reverse, key, rest)

/-! ## Numbers -/

/-- Digits with single underscores between them. -/
def digits (isDigit : Char → Bool) (cs : List Char) : Option (List Char × List Char) :=
  let body := cs.takeWhile fun c => isDigit c || c == '_'
  if body.head?.any isDigit && body.getLast?.any isDigit
      && !(body.zip (body.drop 1)).any (fun (a, b) => a == '_' && b == '_') then
    some (body.filter (· != '_'), cs.drop body.length)
  else none

/-- An integer with a base in front. -/
def based (base : Nat) (isDigit : Char → Bool) (cs : List Char) :
    Option (Item × List Char) := do
  let (ds, rest) ← digits isDigit cs
  let n ← Text.natOfDigits? base ds
  if n < 0x8000000000000000 then
    let w ← WordInt.ofInt? n
    some (.int w, rest)
  else none

/-- The order of magnitude of a number, behind its sign `e`. -/
def order (cs : List Char) : Option (Int × List Char) :=
  match cs with
  | '-' :: rest => do
    let (ds, rest) ← digits Char.isDigit rest
    let n ← Text.natOfDigits? 10 ds
    some (-(n : Int), rest)
  | '+' :: rest => do
    let (ds, rest) ← digits Char.isDigit rest
    let n ← Text.natOfDigits? 10 ds
    some ((n : Int), rest)
  | cs => do
    let (ds, rest) ← digits Char.isDigit cs
    let n ← Text.natOfDigits? 10 ds
    some ((n : Int), rest)

/-- The double nearest to a decimal number.  A number above all doubles is refused,
while a number below all of them is infinite. -/
def float (negative : Bool) (ds : List Char) (exponent : Int) : Option Item := do
  let n ← Text.natOfDigits? 10 ds
  match Double.ofDecimal? negative n exponent with
  | some d => some (.float (.finite d))
  | none => if negative then some (.float (.infinite true)) else none

/-- An integer in decimal notation, if it fits a signed word. -/
def integer (negative : Bool) (ds : List Char) : Option Item := do
  let n ← Text.natOfDigits? 10 ds
  let v : Int := if negative then -(n : Int) else n
  if v < 0x8000000000000000 then
    let w ← WordInt.ofInt? v
    some (.int w)
  else none

/-- The digits behind a point, if there is one. -/
def fraction? (cs : List Char) : Option (Option (List Char) × List Char) :=
  match cs with
  | '.' :: rest => (digits Char.isDigit rest).map fun (ds, rest) => (some ds, rest)
  | rest => some (none, rest)

/-- A decimal number, behind its digits. -/
def decimalEnd (negative : Bool) (whole : List Char) (fraction : Option (List Char))
    (cs : List Char) :
    Option (Item × List Char) :=
  let ds := fraction.getD []
  match cs with
  | 'e' :: rest | 'E' :: rest => do
    let (e, rest) ← order rest
    let item ← float negative (whole ++ ds) (e - ds.length)
    some (item, rest)
  | rest =>
    let item := if fraction.isSome then
      float negative (whole ++ ds) (-(ds.length : Int)) else integer negative whole
    item.map (·, rest)

/-- A decimal number, behind its sign. -/
def decimal (negative : Bool) (cs : List Char) : Option (Item × List Char) := do
  let (whole, rest) ← digits Char.isDigit cs
  -- A number may not be filled up with zeros.
  if 1 < whole.length && whole.head? == some '0' then none
  else
    let (fraction, rest) ← fraction? rest
    decimalEnd negative whole fraction rest

/-- A number in decimal notation or a special one, behind its sign. -/
def signed (negative : Bool) (cs : List Char) : Option (Item × List Char) :=
  match cs with
  | 'i' :: 'n' :: 'f' :: rest => some (.float (.infinite negative), rest)
  | 'n' :: 'a' :: 'n' :: rest => some (.float .nan, rest)
  | cs => decimal negative cs

/-- The digits of base 16. -/
def isHexadecimal (c : Char) : Bool := (Text.hexDigit? c).isSome

/-- The digits of base 8. -/
def isOctal (c : Char) : Bool := '0' ≤ c && c ≤ '7'

/-- The digits of base 2. -/
def isBinary (c : Char) : Bool := c == '0' || c == '1'

/-- A number. -/
def number (cs : List Char) : Option (Item × List Char) :=
  match cs with
  | '0' :: 'x' :: rest => based 16 isHexadecimal rest
  | '0' :: 'o' :: rest => based 8 isOctal rest
  | '0' :: 'b' :: rest => based 2 isBinary rest
  | '+' :: rest => signed false rest
  | '-' :: rest => signed true rest
  | cs => signed false cs

/-! ## Dates and times -/

/-- A number of exactly `n` digits inside bounds. -/
def field (n low high : Nat) (cs : List Char) : Option (Nat × List Char) := do
  let ds := cs.take n
  if ds.length = n ∧ ds.all Char.isDigit then
    let v ← Text.natOfDigits? 10 ds
    if low ≤ v ∧ v ≤ high then some (v, cs.drop n) else none
  else none

/-- Number of days of a month. -/
def daysIn (year month : Nat) : Nat :=
  if month = 2 then
    (if year % 4 = 0 ∧ (year % 100 ≠ 0 ∨ year % 400 = 0) then 29 else 28)
  else if month = 4 ∨ month = 6 ∨ month = 9 ∨ month = 11 then 30
  else 31

/-- Moves over a character. -/
def sign (c : Char) : List Char → Option (List Char)
  | a :: rest => if a = c then some rest else none
  | [] => none

/-- A date. -/
def date (cs : List Char) : Option (List Char) := do
  let (year, cs) ← field 4 0 9999 cs
  let cs ← sign '-' cs
  let (month, cs) ← field 2 1 12 cs
  let cs ← sign '-' cs
  let (_, cs) ← field 2 1 (daysIn year month) cs
  some cs

/-- Hours, minutes and seconds. -/
def clock (cs : List Char) : Option (List Char) := do
  let (_, cs) ← field 2 0 23 cs
  let cs ← sign ':' cs
  let (_, cs) ← field 2 0 59 cs
  let cs ← sign ':' cs
  -- The sixtieth second is a leap second.
  let (_, cs) ← field 2 0 60 cs
  some cs

/-- A time of day. -/
def time (cs : List Char) : Option (List Char) := do
  match ← clock cs with
  | '.' :: rest =>
    if rest.head?.any Char.isDigit then some (rest.dropWhile Char.isDigit) else none
  | cs => some cs

/-- The offset of a time. -/
def offset (cs : List Char) : Option (List Char) :=
  match cs with
  | 'Z' :: rest => some rest
  | 'z' :: rest => some rest
  | c :: rest =>
    if c = '+' ∨ c = '-' then do
      let (_, rest) ← field 2 0 23 rest
      let rest ← sign ':' rest
      let (_, rest) ← field 2 0 59 rest
      some rest
    else none
  | [] => none

/-- A time of day with its offset, if it has one. -/
def offsetTime (cs : List Char) : Option (List Char) :=
  (time cs).map fun rest => (offset rest).getD rest

/-- Moves over a date, a time, or both. -/
def skipMoment (cs : List Char) : Option (List Char) :=
  match date cs with
  | none => time cs
  | some rest =>
    match rest with
    | 'T' :: more => offsetTime more
    | 't' :: more => offsetTime more
    -- A blank may separate date and time, but it may also just end the date.
    | ' ' :: more => some ((offsetTime more).getD rest)
    | rest => some rest

/-- A date, a time, or both. -/
def moment (cs : List Char) : Option (Item × List Char) :=
  (skipMoment cs).map fun rest =>
    (.moment (String.ofList (cs.take (cs.length - rest.length))), rest)

/-- Whether a text looks like a date or a time. -/
def startsMoment (cs : List Char) : Bool :=
  let n := (cs.takeWhile Char.isDigit).length
  (n == 4 && (cs.drop 4).head? == some '-') || (n == 2 && (cs.drop 2).head? == some ':')

/-! ## Values -/

mutual

/-- A value.  The fuel bounds nesting and the number of items. -/
def value : Nat → List Char → Option (Item × List Char)
  | 0, _ => none
  | fuel + 1, cs =>
    match cs with
    | 't' :: 'r' :: 'u' :: 'e' :: rest => some (.bool true, rest)
    | 'f' :: 'a' :: 'l' :: 's' :: 'e' :: rest => some (.bool false, rest)
    | '[' :: rest => array fuel [] rest
    | '\x7b' :: rest =>
      match skipGap rest with
      | '\x7d' :: rest => some (.inline [], rest)
      | rest => inlineTable fuel [] rest
    | '"' :: _ => (text cs).map fun (s, rest) => (.text s, rest)
    | '\'' :: _ => (text cs).map fun (s, rest) => (.text s, rest)
    -- A date or time begins like a number.
    | cs => if startsMoment cs then moment cs else number cs

/-- The rest of an array, behind its bracket or a comma. -/
def array : Nat → List Item → List Char → Option (Item × List Char)
  | 0, _, _ => none
  | fuel + 1, acc, cs =>
    match skipLines (cs.length + 1) cs with
    -- A comma may stand in front of the closing bracket.
    | ']' :: rest => some (.list acc.reverse, rest)
    | cs => do
      let (item, rest) ← value fuel cs
      match skipLines (rest.length + 1) rest with
      | ',' :: rest => array fuel (item :: acc) rest
      | ']' :: rest => some (.list (item :: acc).reverse, rest)
      | _ => none

/-- The rest of a table in braces, behind its brace or a comma. -/
def inlineTable : Nat → Entries → List Char → Option (Item × List Char)
  | 0, _, _ => none
  | fuel + 1, es, cs => do
    let (path, key, rest) ← dottedKey (cs.length + 1) [] cs
    match rest with
    | '=' :: rest =>
      let (item, rest) ← value fuel (skipGap rest)
      let es ← Entries.define path key item es
      match skipGap rest with
      | ',' :: rest => inlineTable fuel es rest
      | '\x7d' :: rest => some (.inline es, rest)
      | _ => none
    | _ => none

end

/-! ## Documents -/

/-- A header, behind its bracket. -/
def header (further : Bool) (es : Entries) (cs : List Char) :
    Option (List String × Entries × List Char) := do
  let (path, key, rest) ← dottedKey (cs.length + 1) [] cs
  let rest ← sign ']' rest
  let rest ← if further then sign ']' rest else some rest
  let es ← if further then es.openFurther path key else es.openTable path key
  some (path ++ [key], es, rest)

/-- A statement: a header or a key with its value.  The path is that of the table
which is open. -/
def statement (current : List String) (es : Entries) (cs : List Char) :
    Option (List String × Entries × List Char) :=
  match cs with
  | '[' :: '[' :: rest => header true es rest
  | '[' :: rest => header false es rest
  | cs => do
    let (path, key, rest) ← dottedKey (cs.length + 1) [] cs
    let rest ← sign '=' rest
    let (item, rest) ← value (rest.length + 2) (skipGap rest)
    let es ← es.defineUnder current path key item
    some (current, es, rest)

/-- The lines of a document.  The fuel bounds their number. -/
def lines : Nat → List String → Entries → List Char → Option Entries
  | 0, _, _, _ => none
  | fuel + 1, current, es, cs =>
    match skipLines (cs.length + 1) cs with
    | [] => some es
    | cs => do
      let (current, es, rest) ← statement current es cs
      lines fuel current es (← lineEnd rest)

end Reader

/-- The table that a text describes.  A byte order mark in front is no part of it. -/
def parse? (s : String) : Option Entries :=
  let cs := match s.toList with
    | '\ufeff' :: rest => rest
    | cs => cs
  Reader.lines (cs.length + 2) [] [] cs

end Workplan.Toml
