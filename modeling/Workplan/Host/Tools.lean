import Workplan.Executor.Task
import Workplan.Text.Blank
import Workplan.Text.Utf8

/-!
# Standard tools

The programs that are at hand without an operating system: `cat`, `echo`, `head`,
`printf`, `test`, `tr`, `wc` and a few that do nothing.  A tool turns its arguments and
its input into output, complaints, a status, and the input that it has left unread.
-/

namespace Workplan.Host

/-- What a tool did. -/
structure Effect where
  code : Nat := 0
  out : List UInt8 := []
  err : List UInt8 := []
  /-- The input that was not read. -/
  rest : List UInt8

/-- A tool, from its arguments and its input. -/
abbrev Tool := List String → List UInt8 → Effect

/-- What there is under a path. -/
inductive Place where
  | file (content : List UInt8)
  | directory
  | missing

/-- The few paths that tools can be pointed at. -/
def placeOf (path : String) : Place :=
  if path == "/dev/null" then .file []
  else if ["/", ".", "..", "/bin", "/dev", "/etc", "/tmp", "/usr", "/usr/bin"].contains path
  then .directory
  else .missing

/-- A complaint of a tool about a path. -/
def complaint (tool path reason : String) : List UInt8 :=
  Text.Utf8.encode (tool ++ ": " ++ path ++ ": " ++ reason ++ "\n")

/-! ## Files in, bytes out -/

/-- Copies files, or the input where a file is given as a dash. -/
def cat : Tool := fun args stdin =>
  (if args.isEmpty then ["-"] else args).foldl (fun e path =>
    if path == "-" then { e with out := e.out ++ e.rest, rest := [] }
    else
      match placeOf path with
      | .file content => { e with out := e.out ++ content }
      | .directory =>
        { e with code := 1, err := e.err ++ complaint "cat" path "Is a directory" }
      | .missing =>
        { e with
          code := 1, err := e.err ++ complaint "cat" path "No such file or directory" })
    { rest := stdin }

/-- The first lines of some bytes. -/
def firstLines : Nat → List UInt8 → List UInt8
  | _, [] => []
  | 0, _ => []
  | n + 1, b :: rest => b :: firstLines (if b == 10 then n else n + 1) rest

/-- Copies the beginning of the input: some bytes, or some lines. -/
def head : Tool := fun args stdin =>
  match args with
  | ["-c", n, "/dev/zero"] => { out := List.replicate (n.toNat?.getD 0) 0, rest := stdin }
  | ["-c", n] => { out := stdin.take (n.toNat?.getD 0), rest := [] }
  | ["-n", n] => { out := firstLines (n.toNat?.getD 0) stdin, rest := [] }
  | _ => { out := firstLines 10 stdin, rest := [] }

/-- The number of words among some bytes. -/
def countWords (bytes : List UInt8) : Nat :=
  let isGap (b : UInt8) : Bool := b == 32 || (9 ≤ b && b ≤ 13)
  (bytes.foldl (fun (count, inWord) b =>
    if isGap b then (count, false)
    else (if inWord then count else count + 1, true)) (0, false)).1

/-- Counts lines, words and bytes of the input. -/
def wc : Tool := fun args stdin =>
  let linesCount := stdin.countP (· == 10)
  let padded (n : Nat) : String :=
    let s := toString n
    String.ofList (List.replicate (7 - s.length) ' ') ++ s
  let text :=
    match args with
    | ["-c"] => toString stdin.length
    | ["-m"] => toString (Text.Utf8.decodeLossy stdin).length
    | ["-l"] => toString linesCount
    | ["-w"] => toString (countWords stdin)
    | _ =>
      padded linesCount ++ " " ++ padded (countWords stdin) ++ " " ++ padded stdin.length
  { out := Text.Utf8.encode (text ++ "\n"), rest := [] }

/-! ## Escapes -/

/-- The value of up to `n` octal digits at the front, and how many there are. -/
def octal : Nat → Nat → List Char → Nat × Nat
  | 0, acc, _ => (acc, 0)
  | _ + 1, acc, [] => (acc, 0)
  | n + 1, acc, c :: rest =>
    if '0' ≤ c ∧ c ≤ '7' then
      let (value, used) := octal n (acc * 8 + (c.toNat - '0'.toNat)) rest
      (value, used + 1)
    else (acc, 0)

/-- The byte that a letter after a backslash stands for. -/
def escapeByte? : Char → Option UInt8
  | 'a' => some 7
  | 'b' => some 8
  | 'f' => some 12
  | 'n' => some 10
  | 'r' => some 13
  | 't' => some 9
  | 'v' => some 11
  | '\\' => some 92
  | _ => none

/-- Bytes of a text in which a backslash begins an escape: a letter, or up to `digits` octal
digits. -/
def unescape (digits : Nat) : (skip : Nat) → List Char → List UInt8
  | _, [] => []
  | skip + 1, _ :: rest => unescape digits skip rest
  | 0, '\\' :: c :: rest =>
    match escapeByte? c with
    | some b => b :: unescape digits 1 (c :: rest)
    | none =>
      let (value, used) := octal digits 0 (c :: rest)
      if used = 0 then 92 :: unescape digits 0 (c :: rest)
      else UInt8.ofNat value :: unescape digits used (c :: rest)
  | 0, c :: rest => Text.Utf8.encode (String.singleton c) ++ unescape digits 0 rest

/-! ## Text out -/

/-- Writes its arguments with blanks between them and a line feed at the end. -/
def echo : Tool := fun args stdin =>
  match args with
  | "-n" :: args => { out := Text.Utf8.encode (Text.joinWith " " args), rest := stdin }
  | args => { out := Text.Utf8.encode (Text.joinWith " " args ++ "\n"), rest := stdin }

/-- Writes its arguments like `echo`, with their escapes replaced, as a shell does by
itself. -/
def echoEscaped : Tool := fun args stdin =>
  let (args, ending) : List String × List UInt8 :=
    match args with
    | "-n" :: args => (args, [])
    | args => (args, [10])
  { out := unescape 4 0 (Text.joinWith " " args).toList ++ ending, rest := stdin }

/-- The bytes of an argument under a directive of a format. -/
def directive (d : Char) (arg : String) : List UInt8 :=
  if d == 'b' then unescape 4 0 arg.toList
  else if d == 'd' || d == 'i' || d == 'u' then
    Text.Utf8.encode (if arg.isEmpty then "0" else arg)
  else if d == 'c' then Text.Utf8.encode (String.ofList (arg.toList.take 1))
  else Text.Utf8.encode arg

/-- One pass over a format: the bytes, and the arguments that are left.  The counter skips
characters that an escape has used. -/
def formatOnce : (skip : Nat) → List Char → List String → List UInt8 × List String
  | _, [], args => ([], args)
  | skip + 1, _ :: rest, args => formatOnce skip rest args
  | 0, '\\' :: c :: rest, args =>
    let (bytes, used) : List UInt8 × Nat :=
      match escapeByte? c with
      | some b => ([b], 1)
      | none =>
        let (value, used) := octal 3 0 (c :: rest)
        if used = 0 then ([92], 0) else ([UInt8.ofNat value], used)
    let (out, left) := formatOnce used (c :: rest) args
    (bytes ++ out, left)
  | 0, '%' :: d :: rest, args =>
    if d == '%' then
      let (out, left) := formatOnce 1 (d :: rest) args
      (37 :: out, left)
    else
      let (out, left) := formatOnce 1 (d :: rest) args.tail
      (directive d (args.head?.getD "") ++ out, left)
  | 0, c :: rest, args =>
    let (out, left) := formatOnce 0 rest args
    (Text.Utf8.encode (String.singleton c) ++ out, left)

/-- Passes over a format until no argument is left. -/
def formatAll (format : List Char) : (passes : Nat) → List String → List UInt8
  | 0, _ => []
  | passes + 1, args =>
    let (out, left) := formatOnce 0 format args
    if left.isEmpty || left.length == args.length then out
    else out ++ formatAll format passes left

/-- Writes its arguments under a format. -/
def printf : Tool := fun args stdin =>
  match args with
  | [] => { code := 2, err := Text.Utf8.encode "printf: missing operand\n", rest := stdin }
  | format :: args =>
    { out := formatAll format.toList (args.length + 1) args, rest := stdin }

/-! ## Substitution of bytes -/

/-- The named classes of `tr`. -/
def byteClass : String → List UInt8
  | "[:lower:]" => (List.range 26).map fun n => UInt8.ofNat (97 + n)
  | "[:upper:]" => (List.range 26).map fun n => UInt8.ofNat (65 + n)
  | "[:digit:]" => (List.range 10).map fun n => UInt8.ofNat (48 + n)
  | "[:space:]" => [9, 10, 11, 12, 13, 32]
  | s => unescape 3 0 s.toList

/-- Writes out the ranges in a set of bytes. -/
def expandRanges : List UInt8 → List UInt8
  | a :: 45 :: b :: rest =>
    (List.range (b.toNat + 1 - a.toNat)).map (fun n => UInt8.ofNat (a.toNat + n)) ++
      expandRanges rest
  | a :: rest => a :: expandRanges rest
  | [] => []

/-- The bytes of a set as `tr` is given it. -/
def byteSet (s : String) : List UInt8 :=
  expandRanges (byteClass s)

/-- The byte that stands for another one; the last byte of a short set stands for all
that follow. -/
def substitute (source target : List UInt8) (b : UInt8) : UInt8 :=
  match source.findIdx? (· == b) with
  | none => b
  | some i => (target[i]?).getD (target.getLast?.getD b)

/-- Substitutes bytes of its input, or deletes some of them. -/
def tr : Tool := fun args stdin =>
  match args with
  | ["-d", set] =>
    let set := byteSet set
    { out := stdin.filter (!set.contains ·), rest := [] }
  | [source, target] =>
    { out := stdin.map (substitute (byteSet source) (byteSet target)), rest := [] }
  | _ => { code := 1, err := Text.Utf8.encode "tr: missing operand\n", rest := stdin }

/-! ## Questions -/

/-- Compares two numbers under the name that `test` has for the comparison. -/
def compareNumbers? (relation : String) (a b : Int) : Option Bool :=
  match relation with
  | "-eq" => some (a == b)
  | "-ne" => some (a != b)
  | "-lt" => some (a < b)
  | "-le" => some (a ≤ b)
  | "-gt" => some (a > b)
  | "-ge" => some (a ≥ b)
  | _ => none

/-- The answer to a question that `test` is asked; `none` for one it does not understand. -/
def answer? : List String → Option Bool
  | [] => some false
  | ["!"] => some true
  | [a] => some (!a.isEmpty)
  | ["!", a] => some a.isEmpty
  | ["-n", a] => some (!a.isEmpty)
  | ["-z", a] => some a.isEmpty
  | ["-d", path] => some (match placeOf path with
    | .directory => true
    | _ => false)
  | ["-e", path] => some (match placeOf path with
    | .missing => false
    | _ => true)
  | [a, "=", b] => some (a == b)
  | [a, "!=", b] => some (a != b)
  | [a, relation, b] => do compareNumbers? relation (← a.toInt?) (← b.toInt?)
  | _ => none

/-- Answers a question by its status. -/
def test : Tool := fun args stdin =>
  match answer? args with
  | some true => { code := 0, rest := stdin }
  | some false => { code := 1, rest := stdin }
  | none =>
    { code := 2, err := Text.Utf8.encode "test: unexpected operator\n", rest := stdin }

/-- The same question between brackets. -/
def bracket : Tool := fun args stdin =>
  if args.getLast? == some "]" then test args.dropLast stdin
  else { code := 2, err := Text.Utf8.encode "[: missing ]\n", rest := stdin }

/-- A tool that only ends, with a status. -/
def quietly (code : Nat) : Tool := fun _ stdin =>
  { code, rest := stdin }

/-- All tools by name. -/
def tools : List (String × Tool) :=
  [("[", bracket), ("cat", cat), ("echo", echo), ("false", quietly 1), ("head", head),
    ("printf", printf), ("sleep", quietly 0), ("test", test), ("tr", tr),
    ("true", quietly 0), ("wc", wc)]

end Workplan.Host
