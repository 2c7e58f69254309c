import Workplan.Double.Scaled
import Workplan.Json.Basic
import Workplan.Text.Blank

/-!
# Reading values

A strict reader of the compact or any other layout.  A number without fraction and
exponent that fits a word is an integer, every other number is a double (`-0` too, since
no integer keeps its sign), made from its digits by scaling.  Each function returns what
it read and the characters behind it.
-/

namespace Workplan.Json.Reader

/-- Drops the white space of the format. -/
def skipSpace (cs : List Char) : List Char :=
  cs.dropWhile fun c => c == ' ' || c == '\n' || c == '\r' || c == '\t'

/-- Value of exactly four hexadecimal digits. -/
def hex4 : List Char → Option (Nat × List Char)
  | a :: b :: c :: d :: rest => (Text.natOfDigits? 16 [a, b, c, d]).map (·, rest)
  | _ => none

/-- The character of a numbered escape; two halves of a pair make one character. -/
def numbered (cs : List Char) : Option (Char × List Char) := do
  let (n, rest) ← hex4 cs
  if 0xD800 ≤ n ∧ n < 0xDC00 then
    match rest with
    | '\\' :: 'u' :: rest =>
      let (m, rest) ← hex4 rest
      if 0xDC00 ≤ m ∧ m < 0xE000 then
        some (Char.ofNat (0x10000 + (n - 0xD800) * 0x400 + (m - 0xDC00)), rest)
      else none
    | _ => none
  else if 0xDC00 ≤ n ∧ n < 0xE000 then none
  else some (Char.ofNat n, rest)

/-- The rest of a string, behind its opening quote.  The fuel bounds the number of
characters. -/
def stringBody : Nat → List Char → List Char → Option (String × List Char)
  | 0, _, _ => none
  | fuel + 1, acc, cs =>
    match cs with
    | '"' :: rest => some (String.ofList acc.reverse, rest)
    | '\\' :: 'u' :: rest => do
      let (c, rest) ← numbered rest
      stringBody fuel (c :: acc) rest
    | '\\' :: e :: rest =>
      match e with
      | '"' => stringBody fuel ('"' :: acc) rest
      | '\\' => stringBody fuel ('\\' :: acc) rest
      | '/' => stringBody fuel ('/' :: acc) rest
      | 'b' => stringBody fuel ('\x08' :: acc) rest
      | 'f' => stringBody fuel ('\x0c' :: acc) rest
      | 'n' => stringBody fuel ('\n' :: acc) rest
      | 'r' => stringBody fuel ('\r' :: acc) rest
      | 't' => stringBody fuel ('\t' :: acc) rest
      | _ => none
    | c :: rest => if c.toNat < 0x20 then none else stringBody fuel (c :: acc) rest
    | [] => none

private def takeDigits (cs : List Char) : List Char × List Char :=
  (cs.takeWhile Char.isDigit, cs.dropWhile Char.isDigit)

private def digitValue (c : Char) : Nat :=
  c.toNat - '0'.toNat

/-- A number. -/
private def number (cs : List Char) : Option (Json × List Char) := do
  let (negative, cs) := match cs with
    | '-' :: rest => (true, rest)
    | _ => (false, cs)
  let (whole, cs) := takeDigits cs
  if whole.isEmpty || (whole.length > 1 && whole.head? == some '0') then none
  else
    let (fraction, hasFraction, cs) ← match cs with
      | '.' :: rest =>
        let (ds, rest) := takeDigits rest
        if ds.isEmpty then none else some (ds, true, rest)
      | _ => some ([], false, cs)
    let (order, hasOrder, cs) ← match cs with
      | e :: rest =>
        if e = 'e' ∨ e = 'E' then
          let (down, rest) := match rest with
            | '-' :: rest => (true, rest)
            | '+' :: rest => (false, rest)
            | _ => (false, rest)
          let (ds, rest) := takeDigits rest
          match Text.natOfDigits? 10 ds with
          | none => none
          | some n => some (if down then -(n : Int) else (n : Int), true, rest)
        else some (0, false, cs)
      | [] => some (0, false, cs)
    let n ← Text.natOfDigits? 10 whole
    let asDouble : Option (Json × List Char) := do
      let d ← Double.ofDigits? negative (whole.map digitValue)
          (fraction.map digitValue) order
      some (.double d, cs)
    if hasFraction || hasOrder || (negative && n == 0) then asDouble
    else
      match WordInt.ofInt? (if negative then -(n : Int) else n) with
      | some w => some (.int w, cs)
      | none => asDouble

mutual

/-- A value.  The fuel bounds nesting and the number of items. -/
def value : Nat → List Char → Option (Json × List Char)
  | 0, _ => none
  | fuel + 1, cs =>
    match skipSpace cs with
    | 'n' :: 'u' :: 'l' :: 'l' :: rest => some (.null, rest)
    | 't' :: 'r' :: 'u' :: 'e' :: rest => some (.bool true, rest)
    | 'f' :: 'a' :: 'l' :: 's' :: 'e' :: rest => some (.bool false, rest)
    | '"' :: rest => do
      let (s, rest) ← stringBody (rest.length + 1) [] rest
      some (.str s, rest)
    | '[' :: rest =>
      match skipSpace rest with
      | ']' :: rest => some (.arr [], rest)
      | _ => items fuel [] rest
    | '\x7b' :: rest =>
      match skipSpace rest with
      | '\x7d' :: rest => some (.obj [], rest)
      | _ => fields fuel [] rest
    | cs => number cs

/-- The rest of an array, behind its bracket or a comma. -/
def items : Nat → List Json → List Char → Option (Json × List Char)
  | 0, _, _ => none
  | fuel + 1, acc, cs => do
    let (v, rest) ← value fuel cs
    match skipSpace rest with
    | ',' :: rest => items fuel (v :: acc) rest
    | ']' :: rest => some (.arr (v :: acc).reverse, rest)
    | _ => none

/-- The rest of an object, behind its brace or a comma. -/
def fields : Nat → List (String × Json) → List Char → Option (Json × List Char)
  | 0, _, _ => none
  | fuel + 1, acc, cs =>
    match skipSpace cs with
    | '"' :: rest => do
      let (name, rest) ← stringBody (rest.length + 1) [] rest
      match skipSpace rest with
      | ':' :: rest =>
        let (v, rest) ← value fuel rest
        match skipSpace rest with
        | ',' :: rest => fields fuel ((name, v) :: acc) rest
        | '\x7d' :: rest => some (.ofEntries ((name, v) :: acc).reverse, rest)
        | _ => none
      | _ => none
    | _ => none

end

end Reader

/-- The value that a whole text denotes. -/
def parse? (s : String) : Option Json :=
  let cs := s.toList
  match Reader.value (cs.length + 1) cs with
  | some (v, rest) => if (Reader.skipSpace rest).isEmpty then some v else none
  | none => none

end Workplan.Json
