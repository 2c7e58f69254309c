/-!
# Blank characters

A character is *blank* when it has the Unicode property `White_Space`.  Trimming drops
blanks from both ends of a text, and a text made of blanks only counts as empty wherever a
plan is validated.
-/

namespace Workplan.Text

/-- The characters of the Unicode property `White_Space`. -/
def isBlank (c : Char) : Bool :=
  let n := c.toNat
  (9 ≤ n && n ≤ 13) || n == 0x20 || n == 0x85 || n == 0xA0 || n == 0x1680
    || (0x2000 ≤ n && n ≤ 0x200A) || n == 0x2028 || n == 0x2029 ||
      n == 0x202F || n == 0x205F
    || n == 0x3000

/-- Drops blanks from both ends of a list of characters. -/
def trimBlanks (cs : List Char) : List Char :=
  ((cs.dropWhile isBlank).reverse.dropWhile isBlank).reverse

/-- Drops blanks from both ends of a text. -/
def trim (s : String) : String :=
  String.ofList (trimBlanks s.toList)

/-- A text without any character that is not blank. -/
def isAllBlank (s : String) : Bool :=
  s.toList.all isBlank

/-- Text of a list of texts, one separator between neighbours. -/
def joinWith (sep : String) : List String → String
  | [] => ""
  | [s] => s
  | s :: rest => s ++ sep ++ joinWith sep rest

/-- The lines of a text: a final line break starts no further line, and a carriage return
before a line feed belongs to the break. -/
def lines (s : String) : List String :=
  let pieces := s.splitOn "\n"
  let pieces := if pieces.getLast? == some "" then pieces.dropLast else pieces
  pieces.map fun p =>
    if p.toList.getLast? == some '\r' then String.ofList p.toList.dropLast else p

/-- The value of a hexadecimal digit. -/
def hexDigit? (c : Char) : Option Nat :=
  if '0' ≤ c ∧ c ≤ '9' then some (c.toNat - '0'.toNat)
  else if 'a' ≤ c ∧ c ≤ 'f' then some (c.toNat - 'a'.toNat + 10)
  else if 'A' ≤ c ∧ c ≤ 'F' then some (c.toNat - 'A'.toNat + 10)
  else none

/-- The value of a decimal digit. -/
def decimalDigit? (c : Char) : Option Nat :=
  if '0' ≤ c ∧ c ≤ '9' then some (c.toNat - '0'.toNat) else none

/-- The number a nonempty list of digits denotes in a base; `none` for a character that is
no digit of the base or for the empty list. -/
def natOfDigits? (base : Nat) (cs : List Char) : Option Nat :=
  match cs with
  | [] => none
  | _ => cs.foldlM (fun acc c =>
      match hexDigit? c with
      | some d => if d < base then some (acc * base + d) else none
      | none => none) 0

end Workplan.Text
