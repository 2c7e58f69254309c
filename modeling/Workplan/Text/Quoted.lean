import Workplan.Text.Blank
import Workplan.Text.Glyph

/-!
# Quoted text

The form in which messages and log fields show a text: between double quotes, with
the quote, the backslash, the usual controls and every character without a glyph of
its own escaped.
-/

namespace Workplan.Text.Quoted

/-- The written form of one character. -/
def encodeChar (c : Char) : List Char :=
  match c with
  | '\x00' => ['\\', '0']
  | '\t' => ['\\', 't']
  | '\n' => ['\\', 'n']
  | '\r' => ['\\', 'r']
  | '"' => ['\\', '"']
  | '\\' => ['\\', '\\']
  | c =>
    if Glyph.isMissing c then
      '\\' :: 'u' :: '\x7b' :: (Nat.toDigits 16 c.toNat ++ ['\x7d'])
    else [c]

/-- A text in quotes. -/
def encode (s : String) : String :=
  String.ofList ('"' :: (s.toList.flatMap encodeChar ++ ['"']))

/-- A list of texts, each in quotes. -/
def encodeList (ss : List String) : String :=
  "[" ++ joinWith ", " (ss.map encode) ++ "]"

/-- An optional text, in quotes when it is there. -/
def encodeOption : Option String → String
  | none => "None"
  | some s => "Some(" ++ encode s ++ ")"

end Workplan.Text.Quoted
