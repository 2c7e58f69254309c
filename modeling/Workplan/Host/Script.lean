/-!
# Shell scripts

The part of the shell's language that is understood here: commands of words, joined by
`;`, line breaks, `&&`, `||` and `|`, with quotes, parameters such as `$0`, `"$@"` and
`$name`, assignments, and output sent elsewhere.
-/

namespace Workplan.Host

/-- A piece of a word. -/
inductive Piece where
  | text (chars : List Char)
  /-- A parameter; inside quotes it is not split at blanks. -/
  | parameter (name : String) (quoted : Bool)

/-- Where output is sent. -/
inductive Redirect where
  | outToErr
  | errToOut
  | discardOut
  | discardErr

/-- What separates commands. -/
inductive Connective where
  | always
  | ifGood
  | ifBad

/-- The tokens of a script. -/
inductive ShellToken where
  | word (pieces : List Piece)
  | redirect (r : Redirect)
  | pipe
  | connective (c : Connective)

/-- One command. -/
structure SimpleCommand where
  words : List (List Piece)
  redirects : List Redirect

/-- Commands joined by pipes, and when they are carried out. -/
structure Pipeline where
  connective : Connective
  commands : List SimpleCommand

namespace Script

/-- Whether a character may stand in a parameter's name. -/
def isNameChar (c : Char) : Bool :=
  c.isAlphanum || c == '_'

/-- The parameter at the front, after the dollar sign, and what follows it. -/
def parameter? : List Char → Option (String × List Char)
  | [] => none
  | c :: rest =>
    if c.isDigit || ['@', '*', '#', '?', '$'].contains c then
      some (String.singleton c, rest)
    else if c == '\x7b' then
      match rest.dropWhile isNameChar with
      | '\x7d' :: after => some (String.ofList (rest.takeWhile isNameChar), after)
      | _ => none
    else if isNameChar c then
      some (String.ofList (c :: rest.takeWhile isNameChar), rest.dropWhile isNameChar)
    else none

/-- Adds a character to the last piece of a word that is written from its end. -/
def addChar (c : Char) : List Piece → List Piece
  | .text cs :: rest => .text (cs ++ [c]) :: rest
  | pieces => .text [c] :: pieces

/-- Where reading a script stands: outside quotes, inside single quotes or inside
double quotes. -/
inductive Quoting where
  | outside
  | single
  | double
deriving DecidableEq

/-- Reads a script as tokens; `word` holds the pieces of the word being read, the last
piece first.  There are none for a script whose quotes do not close. -/
def tokens : (fuel : Nat) → Quoting → (word : Option (List Piece)) → List Char →
    Option (List ShellToken)
  | 0, _, _, _ => none
  | fuel + 1, quoting, word, cs =>
    let close (rest : Option (List ShellToken)) : Option (List ShellToken) :=
      match word with
      | none => rest
      | some pieces => rest.map (.word pieces.reverse :: ·)
    let emit (t : ShellToken) (rest : List Char) : Option (List ShellToken) :=
      close ((tokens fuel .outside none rest).map (t :: ·))
    let current := word.getD []
    match quoting, cs with
    | .outside, [] => close (some [])
    | _, [] => none
    | .single, '\'' :: rest => tokens fuel .outside (some current) rest
    | .single, c :: rest => tokens fuel .single (some (addChar c current)) rest
    | .double, '"' :: rest => tokens fuel .outside (some current) rest
    | .double, '\\' :: c :: rest =>
      if ['"', '\\', '$', '\x60'].contains c then
        tokens fuel .double (some (addChar c current)) rest
      else tokens fuel .double (some (addChar c (addChar '\\' current))) rest
    | .double, '$' :: rest =>
      match parameter? rest with
      | some (name, after) =>
        tokens fuel .double (some (.parameter name true :: current)) after
      | none => tokens fuel .double (some (addChar '$' current)) rest
    | .double, c :: rest => tokens fuel .double (some (addChar c current)) rest
    | .outside, '\'' :: rest => tokens fuel .single (some (addEmpty current)) rest
    | .outside, '"' :: rest => tokens fuel .double (some (addEmpty current)) rest
    | .outside, '\\' :: c :: rest => tokens fuel .outside (some (addChar c current)) rest
    | .outside, '$' :: rest =>
      match parameter? rest with
      | some (name, after) =>
        tokens fuel .outside (some (.parameter name false :: current)) after
      | none => tokens fuel .outside (some (addChar '$' current)) rest
    | .outside, '&' :: '&' :: rest => emit (.connective .ifGood) rest
    | .outside, '|' :: '|' :: rest => emit (.connective .ifBad) rest
    | .outside, '|' :: rest => emit .pipe rest
    | .outside, ';' :: rest => emit (.connective .always) rest
    | .outside, '\n' :: rest => emit (.connective .always) rest
    | .outside, '2' :: '>' :: '&' :: '1' :: rest => emit (.redirect .errToOut) rest
    | .outside, '1' :: '>' :: '&' :: '2' :: rest => emit (.redirect .outToErr) rest
    | .outside, '>' :: '&' :: '2' :: rest => emit (.redirect .outToErr) rest
    | .outside, '2' :: '>' :: '/' :: 'd' :: 'e' :: 'v' :: '/' :: 'n' :: 'u' :: 'l' :: 'l' :: rest =>
      emit (.redirect .discardErr) rest
    | .outside, '>' :: rest =>
      match rest.dropWhile (· == ' ') with
      | '/' :: 'd' :: 'e' :: 'v' :: '/' :: 'n' :: 'u' :: 'l' :: 'l' :: after =>
        emit (.redirect .discardOut) after
      | _ => none
    | .outside, c :: rest =>
      if c == ' ' || c == '\t' then close (tokens fuel .outside none rest)
      else if c == '#' && word.isNone then
        tokens fuel .outside none (rest.dropWhile (· != '\n'))
      else tokens fuel .outside (some (addChar c current)) rest
where
  /-- Makes sure that a quoted word is a word even when it is empty. -/
  addEmpty (pieces : List Piece) : List Piece :=
    if pieces.isEmpty then [.text []] else pieces

/-- Puts tokens together: the pipelines, given the connective before the first one and the
commands that have been read of it. -/
def pipelines : Connective → (done : List SimpleCommand) → (now : SimpleCommand) →
    List ShellToken →
    List Pipeline
  | c, done, now, [] => [⟨c, done ++ [now]⟩]
  | c, done, now, .word w :: rest =>
    pipelines c done { now with words := now.words ++ [w] } rest
  | c, done, now, .redirect r :: rest =>
    pipelines c done { now with redirects := now.redirects ++ [r] } rest
  | c, done, now, .pipe :: rest => pipelines c (done ++ [now]) ⟨[], []⟩ rest
  | c, done, now, .connective next :: rest =>
    ⟨c, done ++ [now]⟩ :: pipelines next [] ⟨[], []⟩ rest

/-- The pipelines of a script. -/
def ofText? (script : String) : Option (List Pipeline) :=
  (tokens (script.length + 1) .outside none script.toList).map
    (pipelines .always [] ⟨[], []⟩)

end Script
end Workplan.Host
