import Workplan.Host.Script
import Workplan.Host.Tools
import Workplan.Engine.World

/-!
# The built-in host

Carries out commands without an operating system: the standard tools, and a shell that
joins them.  A program that is none of these cannot be started.
-/

namespace Workplan.Host

/-- Where a shell stands while it carries out a script. -/
structure ShellState where
  stdin : List UInt8
  out : List UInt8 := []
  err : List UInt8 := []
  /-- The status of the last command. -/
  code : Nat := 0
  /-- How the shell ended, once it has. -/
  ended : Option ExitStatus := none
  /-- The name of the shell, and what it was given after the script. -/
  positional : List String
  bindings : List (String × String) := []

/-- What stands for the shell's own process number. -/
def processNumber : String := "100"

namespace ShellState

/-- The values of a parameter: several for all positional ones, else one. -/
def values (s : ShellState) (name : String) : List String :=
  if name == "@" || name == "*" then s.positional.tail
  else if name == "#" then [toString s.positional.tail.length]
  else if name == "?" then [toString s.code]
  else if name == "$" then [processNumber]
  else
    match name.toNat? with
    | some n => [(s.positional[n]?).getD ""]
    | none => [(s.bindings.lookup name).getD ""]

/-- Joins two lists of words where the last word of one and the first word of the
other touch. -/
def touch : List String → List String → List String
  | [], more => more
  | [w], m :: more => (w ++ m) :: more
  | [w], [] => [w]
  | w :: rest, more => w :: touch rest more

/-- The words that a word stands for. -/
def expand (s : ShellState) (word : List Piece) : List String :=
  word.foldl (fun done piece =>
    match piece with
    | .text cs => touch done [String.ofList cs]
    | .parameter name quoted =>
      let values := s.values name
      touch done (if quoted then
        (if name == "*" then [Text.joinWith " " values] else values)
        else (values.flatMap fun v => v.splitOn " ").filter (!·.isEmpty))) []

/-- An assignment, if a word is one. -/
def assignment? (s : ShellState) : List Piece → Option (String × String)
  | .text cs :: rest =>
    match cs.dropWhile Script.isNameChar with
    | '=' :: value =>
      let name := cs.takeWhile Script.isNameChar
      if name.isEmpty || (name.head?.any Char.isDigit) then none
      else some (String.ofList name,
        Text.joinWith " " (s.expand (.text value :: rest)))
    | _ => none
  | _ => none

/-- What a command wrote, sent where its redirections say: to the output, and to the
complaints. -/
def route (redirects : List Redirect) (out err : List UInt8) : List UInt8 × List UInt8 :=
  let (outTo, errTo) := redirects.foldl (fun (o, e) r =>
    match r with
    | .outToErr => (e, e)
    | .errToOut => (o, o)
    | .discardOut => (none, e)
    | .discardErr => (o, none)) (some true, some false)
  ((if outTo == some true then out else []) ++ (if errTo == some true then err else []),
    (if outTo == some false then out else []) ++ (if errTo == some false then err else []))

/-- Takes over what a command did. -/
def absorb (s : ShellState) (redirects : List Redirect) (e : Effect) : ShellState :=
  let (out, err) := route redirects e.out e.err
  { s with stdin := e.rest, out := s.out ++ out, err := s.err ++ err, code := e.code }

/-- The signals that can be asked for by name. -/
def signalNumbers : List (String × Nat) :=
  [("HUP", 1), ("INT", 2), ("QUIT", 3), ("ABRT", 6), ("KILL", 9),
    ("USR1", 10), ("SEGV", 11), ("USR2", 12), ("PIPE", 13), ("ALRM", 14), ("TERM", 15)]

/-- The signal that an option names or gives by number. -/
def signal? (option : String) : Option Nat :=
  match option.toList with
  | '-' :: name =>
    let name := String.ofList name
    match signalNumbers.lookup name with
    | some n => some n
    | none => name.toNat?
  | _ => none

/-- Reads one line of the input into the named parameters: a word each, and what is left
into the last one.  It goes well only if the line ends. -/
def readLine (s : ShellState) (names : List String) : ShellState :=
  let line := Text.Utf8.decodeLossy (s.stdin.takeWhile (· != 10))
  let rest := s.stdin.dropWhile (· != 10)
  { s with
    stdin := rest.tail
    bindings := assign names (line.toList.dropWhile (· == ' ')) ++ s.bindings
    code := if rest.isEmpty then 1 else 0 }
where
  assign : List String → List Char → List (String × String)
    | [], _ => []
    | [name], cs => [(name, String.ofList (cs.reverse.dropWhile (· == ' ')).reverse)]
    | name :: more, cs =>
      (name, String.ofList (cs.takeWhile (· != ' ')))
        :: assign more ((cs.dropWhile (· != ' ')).dropWhile (· == ' '))

end ShellState

/-- The complaint that there is no such command. -/
def notFound (name : String) (stdin : List UInt8) : Effect :=
  { code := 127, err := Text.Utf8.encode ("sh: 1: " ++ name ++ ": not found\n"),
    rest := stdin }

/-- The name of a tool without the directory that holds it. -/
def baseName (program : String) : String :=
  (["/bin/", "/usr/bin/"].findSome? fun dir =>
    if program.startsWith dir then some (String.ofList (program.toList.drop dir.length))
    else none).getD
    program

/-- What is left of a shell that has carried out its script. -/
def ShellState.exit (s : ShellState) : Exit :=
  ⟨s.ended.getD (.code s.code), s.out, s.err⟩

/-- A way to carry out a shell with its arguments and its input. -/
abbrev SubShell := List String → List UInt8 → Exit

/-- One command in a shell. -/
def runCommand (sub : SubShell) (s : ShellState) (c : SimpleCommand) : ShellState :=
  match (c.words.head?).bind s.assignment?, c.words.flatMap s.expand with
  | some assignment, _ => { s with bindings := assignment :: s.bindings, code := 0 }
  | none, [] => s
  | none, name :: args =>
    if name == "exit" then
      { s with ended := some (.code (((args.head?.bind String.toNat?).getD s.code) % 256)) }
    else if name == "kill" && args.getLast? == some processNumber then
      { s with ended := some (.signal ((args.head?.bind ShellState.signal?).getD 15)) }
    else if name == ":" then { s with code := 0 }
    else if name == "read" then s.readLine (args.filter (· != "-r"))
    else if name == "echo" then s.absorb c.redirects (echoEscaped args s.stdin)
    else if baseName name == "sh" then
      let e := sub args s.stdin
      let code := match e.status with
        | .code n => n
        | .signal n => 128 + n
      s.absorb c.redirects { code, out := e.stdout, err := e.stderr, rest := [] }
    else
      match tools.lookup (baseName name) with
      | some tool => s.absorb c.redirects (tool args s.stdin)
      | none => s.absorb c.redirects (notFound name s.stdin)

/-- Commands joined by pipes: each reads what the one before it wrote, and none of them
changes the shell that joins them. -/
def runPipe (sub : SubShell) (s : ShellState) : List SimpleCommand → ShellState
  | [] => s
  | [c] =>
    let e := runCommand sub { s with out := [], err := [] } c
    let code := match e.ended with
      | some (.code n) => n
      | _ => e.code
    { s with out := s.out ++ e.out, err := s.err ++ e.err, code }
  | c :: rest =>
    let e := runCommand sub { s with out := [], err := [] } c
    runPipe sub { s with stdin := e.out, err := s.err ++ e.err } rest

/-- Whether a pipeline is carried out. -/
def Connective.isDue (code : Nat) : Connective → Bool
  | always => true
  | ifGood => code == 0
  | ifBad => code != 0

/-- Pipelines one after another, as long as the shell has not ended. -/
def runAll (sub : SubShell) (s : ShellState) : List Pipeline → ShellState
  | [] => s
  | p :: rest =>
    if s.ended.isSome then s
    else if p.connective.isDue s.code then
      match p.commands with
      | [c] => runAll sub (runCommand sub s c) rest
      | commands => runAll sub { runPipe sub s commands with stdin := [] } rest
    else runAll sub s rest

/-- A shell with its arguments and its input.  The counter bounds how deep shells
start shells. -/
def runShell : (depth : Nat) → SubShell
  | 0, _, _ => ⟨.code 127, [], []⟩
  | depth + 1, args, stdin =>
    let run (script : String) (positional : List String) (stdin : List UInt8) : Exit :=
      match Script.ofText? script with
      | none =>
        ⟨.code 2, [],
          Text.Utf8.encode "sh: 1: Syntax error: Unterminated quoted string\n"⟩
      | some pipelines => (runAll (runShell depth) { stdin, positional } pipelines).exit
    match args with
    | "-c" :: script :: [] => run script ["sh"] stdin
    | "-c" :: script :: name :: more => run script (name :: more) stdin
    | [] => run (Text.Utf8.decodeLossy stdin) ["sh"] []
    | path :: _ =>
      ⟨.code 2, [], Text.Utf8.encode ("sh: 0: cannot open " ++ path ++ ": No such file\n")⟩

/-- Why a program that is no tool cannot be started. -/
def startError (program : String) : String :=
  if program.utf8ByteSize > 255 && !program.toList.contains '/' then
    "File name too long (os error 36)"
  else if program.toList.contains '/' || program == "." || program == ".." then
    match placeOf program with
    | .missing =>
      if ["/etc/passwd", "/etc/hostname", "/etc/hosts"].contains program then
        "Permission denied (os error 13)"
      else "No such file or directory (os error 2)"
    | _ => "Permission denied (os error 13)"
  else "No such file or directory (os error 2)"

/-- Carries out the commands that are built in. -/
def builtin : Host := fun command stdin =>
  if (command.program :: command.args).any fun s => s.toList.contains '\x00' then
    .refused "nul byte found in provided data"
  else
    let bytes := Text.Utf8.encode stdin
    let name := baseName command.program
    if name == "sh" then .exited (runShell 8 command.args bytes)
    else
      match tools.lookup name with
      | some tool =>
        let e := tool command.args bytes
        .exited ⟨.code e.code, e.out, e.err⟩
      | none => .refused (startError command.program)

end Workplan.Host
