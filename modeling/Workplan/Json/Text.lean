import Workplan.Json.Basic
import Workplan.Double.Decimal

/-!
# Text of values

Two layouts: `compact`, without any space, and `pretty`, with one item on each line and
two spaces of indentation for each level.  `render` is how a value enters a template or
the input of a command: a string stands for itself, anything else for its compact text.
-/

namespace Workplan.Json

/-- A control character as a numbered escape of four digits. -/
def controlEscape (c : Char) : List Char :=
  let ds := Nat.toDigits 16 c.toNat
  '\\' :: 'u' :: (List.replicate (4 - ds.length) '0' ++ ds)

/-- The written form of one character of a string. -/
def escapeChar (c : Char) : List Char :=
  if c = '"' then ['\\', '"']
  else if c = '\\' then ['\\', '\\']
  else if c = '\x08' then ['\\', 'b']
  else if c = '\x0c' then ['\\', 'f']
  else if c = '\n' then ['\\', 'n']
  else if c = '\r' then ['\\', 'r']
  else if c = '\t' then ['\\', 't']
  else if c.toNat < 0x20 then controlEscape c
  else [c]

/-- A string in quotes. -/
def quote (s : String) : List Char :=
  '"' :: (s.toList.flatMap escapeChar ++ ['"'])

/-- Decimal text of an integer. -/
def intChars (n : Int) : List Char :=
  if n < 0 then '-' :: Nat.toDigits 10 n.natAbs else Nat.toDigits 10 n.natAbs

/-- Text of a double, with the sign of a positive exponent. -/
def doubleChars (d : Double) : List Char :=
  (Double.text true d).toList

mutual

/-- Compact text. -/
def compactChars : Json → List Char
  | null => ['n', 'u', 'l', 'l']
  | bool true => ['t', 'r', 'u', 'e']
  | bool false => ['f', 'a', 'l', 's', 'e']
  | int n => intChars n.val
  | double d => doubleChars d
  | str s => quote s
  | arr items => '[' :: (compactItems items ++ [']'])
  | obj fields => '\x7b' :: (compactFields fields ++ ['\x7d'])

def compactItems : List Json → List Char
  | [] => []
  | [v] => compactChars v
  | v :: rest => compactChars v ++ ',' :: compactItems rest

def compactFields : List (String × Json) → List Char
  | [] => []
  | [(n, v)] => quote n ++ ':' :: compactChars v
  | (n, v) :: rest => quote n ++ ':' :: (compactChars v ++ ',' :: compactFields rest)

end

/-- Compact text. -/
def compact (v : Json) : String :=
  String.ofList (compactChars v)

/-- A line break and the indentation of a level. -/
private def newLine (level : Nat) : List Char :=
  '\n' :: List.replicate (2 * level) ' '

mutual

/-- Text with one item on each line, inside the given level of nesting. -/
def prettyChars (level : Nat) : Json → List Char
  | arr [] => ['[', ']']
  | arr items => '[' :: (prettyItems (level + 1) items ++ newLine level ++ [']'])
  | obj [] => ['\x7b', '\x7d']
  | obj fields => '\x7b' :: (prettyFields (level + 1) fields ++ newLine level ++ ['\x7d'])
  | v => compactChars v

def prettyItems (level : Nat) : List Json → List Char
  | [] => []
  | [v] => newLine level ++ prettyChars level v
  | v :: rest => newLine level ++ prettyChars level v ++ ',' :: prettyItems level rest

def prettyFields (level : Nat) : List (String × Json) → List Char
  | [] => []
  | [(n, v)] => newLine level ++ quote n ++ ':' :: ' ' :: prettyChars level v
  | (n, v) :: rest =>
    newLine level ++ quote n ++ ':' :: ' ' ::
      (prettyChars level v ++ ',' :: prettyFields level rest)

end

/-- Text with one item on each line. -/
def pretty (v : Json) : String :=
  String.ofList (prettyChars 0 v)

/-- A string as it is, any other value as compact text. -/
def render : Json → String
  | str s => s
  | v => compact v

end Workplan.Json
