/-!
# Templates

A template is a text with placeholders, and filling it replaces every placeholder by
one text.  The template is read once from left to right: text that was filled in is
not read again.
-/

namespace Workplan.Template

/-- What stands for the input in a template. -/
def placeholder : List Char :=
  ['\x7b', '\x7b', 'i', 'n', 'p', 'u', 't', '\x7d', '\x7d']

/-- Replaces every placeholder in a list of characters. -/
def fillChars (value : List Char) : List Char → List Char
  | '\x7b' :: '\x7b' :: 'i' :: 'n' :: 'p' :: 'u' :: 't' :: '\x7d' :: '\x7d' :: rest =>
    value ++ fillChars value rest
  | c :: rest => c :: fillChars value rest
  | [] => []

/-- Replaces every placeholder in a template. -/
def fill (template value : String) : String :=
  String.ofList (fillChars value.toList template.toList)

end Workplan.Template
