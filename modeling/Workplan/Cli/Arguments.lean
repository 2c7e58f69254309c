import Workplan.Text.Blank

/-!
# Command-line arguments

Arguments are read from left to right.  Options that concern the program as a whole
may stand before the subcommand and after it; those on the two sides are kept apart
until the end, and then the side after the subcommand wins.  An option with a value
takes the value behind `=`, or the next argument unless that is an option itself; such
a value, and a plain argument, is looked at only when the next option or plain
argument has been recognised.
-/

namespace Workplan.Cli

/-- Why arguments are not accepted, or why they ask for something else than a command. -/
inductive ArgumentError where
  /-- An option that may occur once occurs again. -/
  | conflict
  | displayHelp
  | displayVersion
  /-- There are no arguments at all. -/
  | displayHelpOnMissing
  | missingSubcommand
  | missingArgument
  | invalidSubcommand
  | unknownArgument
  /-- A value is missing, empty or none of the possible ones. -/
  | invalidValue
  /-- A value for an option that takes none. -/
  | tooManyValues
  /-- A value that is no number. -/
  | valueValidation
deriving DecidableEq

/-- The shells for which there are completions. -/
inductive CompletionShell where
  | bash
  | elvish
  | fish
  | powershell
  | zsh
deriving DecidableEq

namespace CompletionShell

/-- The name of a shell. -/
def name : CompletionShell → String
  | bash => "bash"
  | elvish => "elvish"
  | fish => "fish"
  | powershell => "powershell"
  | zsh => "zsh"

/-- The shell of a name. -/
def named? (s : String) : Option CompletionShell :=
  [bash, elvish, fish, powershell, zsh].find? fun shell => shell.name == s

end CompletionShell

/-- A subcommand with its own arguments. -/
inductive Subcommand where
  | run (plan : String) (showPlan : Bool)
  | loop (plan : String) (delayMs : Option UInt64)
  | validate (plan : String) (printYaml : Bool)
  | completions (shell : CompletionShell)
deriving DecidableEq

/-- What the arguments ask for. -/
structure Invocation where
  json : Bool
  quiet : Bool
  verbose : Nat
  config : Option String
  otel : Bool
  subcommand : Subcommand
deriving DecidableEq

/-! ## What may occur where -/

/-- The subcommands by kind. -/
inductive SubcommandKind where
  | run
  | loop
  | validate
  | completions
deriving DecidableEq

/-- The subcommand of a name. -/
def SubcommandKind.named? : String → Option SubcommandKind
  | "run" => some run
  | "loop" => some loop
  | "validate" => some validate
  | "completions" => some completions
  | _ => none

/-- Where an argument stands: before the subcommand, or after it. -/
inductive Place where
  | before
  | after (kind : SubcommandKind)
deriving DecidableEq

/-- An option without a value. -/
inductive Flag where
  | json
  | quiet
  | verbose
  | otel
  | showPlan
  | printYaml
  | help
  | version
deriving DecidableEq

/-- What takes a value: two options, and the argument that every subcommand needs. -/
inductive Slot where
  | config
  | delay
  | operand
deriving DecidableEq

/-- The option without a value that a name stands for at a place. -/
def Place.flag? (place : Place) : String → Option Flag
  | "json" => some .json
  | "quiet" => some .quiet
  | "verbose" => some .verbose
  | "otel" => some .otel
  | "help" => some .help
  | "version" => some .version
  | "show-plan" => if place = .after .run then some .showPlan else none
  | "print-yaml" => if place = .after .validate then some .printYaml else none
  | _ => none

/-- The option with a value that a name stands for at a place. -/
def Place.slot? (place : Place) : String → Option Slot
  | "config" => some .config
  | "delay-ms" => if place = .after .loop then some .delay else none
  | _ => none

/-- The option without a value that a single letter stands for. -/
def shortFlag? : Char → Option Flag
  | 'v' => some .verbose
  | 'h' => some .help
  | 'V' => some .version
  | _ => none

/-! ## Reading -/

/-- What has been given on one side of the subcommand. -/
structure Given where
  json : Bool := false
  quiet : Bool := false
  verbose : Nat := 0
  otel : Bool := false
  showPlan : Bool := false
  printYaml : Bool := false
  config : Option String := none
  delay : Option UInt64 := none
  operand : Option String := none

/-- How far the arguments of one side have been read. -/
structure Reading where
  given : Given := {}
  /-- What waits for its value, or has one that has not been looked at. -/
  pending : Option (Slot × Option String) := none
  /-- Whether a `--` has ended the options. -/
  plainOnly : Bool := false
  /-- Whether the argument that the subcommand needs has occurred. -/
  hasOperand : Bool := false

/-- The largest count of verbosity flags. -/
def verbosityLimit : Nat := 255

/-- An unsigned word in decimal digits, which a plus sign may precede. -/
def word? (s : String) : Option UInt64 :=
  let digits := match s.toList with
    | '+' :: rest => rest
    | cs => cs
  if digits.all Char.isDigit then
    match Text.natOfDigits? 10 digits with
    | some n => if n < 0x10000000000000000 then some (UInt64.ofNat n) else none
    | none => none
  else none

namespace Given

/-- Takes an option that may occur once. -/
def once (old : Bool) (new : Given) : Except ArgumentError Given :=
  if old then .error .conflict else .ok new

/-- Takes an option without a value. -/
def addFlag (g : Given) : Flag → Except ArgumentError Given
  | .json => once g.json { g with json := true }
  | .quiet => once g.quiet { g with quiet := true }
  -- Verbosity is the one option that may be repeated.
  | .verbose => .ok { g with verbose := min (g.verbose + 1) verbosityLimit }
  | .otel => once g.otel { g with otel := true }
  | .showPlan => once g.showPlan { g with showPlan := true }
  | .printYaml => once g.printYaml { g with printYaml := true }
  | .help => .error .displayHelp
  | .version => .error .displayVersion

/-- Takes a value. -/
def addValue (place : Place) (g : Given) (slot : Slot) (value : String) :
    Except ArgumentError Given :=
  match slot with
  | .config =>
    if g.config.isSome then .error .conflict
    else if value.isEmpty then .error .invalidValue
    else .ok { g with config := some value }
  | .delay =>
    if g.delay.isSome then .error .conflict
    else
      match word? value with
      | some ms => .ok { g with delay := some ms }
      | none => .error .valueValidation
  | .operand =>
    let isPossible :=
      if place = .after .completions then (CompletionShell.named? value).isSome
      else !value.isEmpty
    if isPossible then .ok { g with operand := some value } else .error .invalidValue

end Given

namespace Reading

/-- Looks at a value that has not been looked at. -/
def settle (place : Place) (r : Reading) : Except ArgumentError Reading :=
  match r.pending with
  | none => .ok r
  | some (_, none) => .error .invalidValue
  | some (slot, some value) =>
    return { r with given := ← r.given.addValue place slot value, pending := none }

/-- Whether an option waits for its value. -/
def isAwaiting (r : Reading) : Bool :=
  match r.pending with
  | some (_, none) => true
  | _ => false

/-- Reads an option without a value. -/
def readFlag (place : Place) (r : Reading) (f : Flag) : Except ArgumentError Reading := do
  let r ← r.settle place
  return { r with given := ← r.given.addFlag f }

/-- Reads an option by its name, with the value behind `=` if there is one. -/
def readLong (place : Place) (r : Reading) (name : String) (attached : Option String) :
    Except ArgumentError Reading :=
  match place.flag? name, place.slot? name, attached with
  | some _, _, some _ => .error .tooManyValues
  | some f, _, none => r.readFlag place f
  | none, some slot, some value => do
    let r ← r.settle place
    return { r with given := ← r.given.addValue place slot value }
  | none, some slot, none => do
    let r ← r.settle place
    return { r with pending := some (slot, none) }
  | none, none, _ => .error .unknownArgument

/-- Reads options given by single letters. -/
def readShort (place : Place) (r : Reading) : List Char → Except ArgumentError Reading
  | [] => .ok r
  | c :: rest =>
    match shortFlag? c with
    | some f => do (← r.readFlag place f).readShort place rest
    | none => .error .unknownArgument

/-- Reads an argument that is no option.  Before the subcommand there is no use for one. -/
def readPlain (place : Place) (r : Reading) (arg : String) : Except ArgumentError Reading :=
  match place with
  | .before =>
    if r.plainOnly && ((SubcommandKind.named? arg).isSome || arg == "help") then
      .error .unknownArgument
    else .error .invalidSubcommand
  | .after _ =>
    if r.hasOperand then .error .unknownArgument
    else do
      -- The argument itself is looked at later: when an option follows, or at the end.
      let r ← r.settle place
      return { r with pending := some (.operand, some arg), hasOperand := true }

/-- Splits a long option at its first `=`. -/
def splitLong (cs : List Char) : String × Option String :=
  match cs.dropWhile (· != '=') with
  | '=' :: value => (String.ofList (cs.takeWhile (· != '=')), some (String.ofList value))
  | _ => (String.ofList cs, none)

/-- Reads one argument that does not name a subcommand. -/
def readOne (place : Place) (r : Reading) (arg : String) : Except ArgumentError Reading :=
  if r.plainOnly then r.readPlain place arg
  else
    match arg.toList with
    | ['-', '-'] => .ok { r with plainOnly := true }
    | '-' :: '-' :: long =>
      let (name, attached) := splitLong long
      r.readLong place name attached
    | '-' :: c :: short => r.readShort place (c :: short)
    | _ =>
      -- An option that waits takes the argument as its value.
      match r.pending with
      | some (slot, none) => .ok { r with pending := some (slot, some arg) }
      | _ => r.readPlain place arg

/-- Whether an argument is looked at as the name of a subcommand. -/
def namesSubcommand (r : Reading) (arg : String) : Bool :=
  !r.plainOnly && !r.isAwaiting && ((SubcommandKind.named? arg).isSome || arg == "help")

/-- Reads the arguments before the subcommand: what they give, and the name of the
subcommand with the arguments behind it. -/
def readBefore (r : Reading) :
    List String → Except ArgumentError (Reading × Option (String × List String))
  | [] => .ok (r, none)
  | arg :: rest =>
    if r.namesSubcommand arg then .ok (r, some (arg, rest))
    else do (← r.readOne .before arg).readBefore rest

/-- Reads the arguments after the subcommand. -/
def readAfter (kind : SubcommandKind) (r : Reading) :
    List String → Except ArgumentError Reading
  | [] => .ok r
  | arg :: rest => do (← r.readOne (.after kind) arg).readAfter kind rest

/-- What is given on one side in the end.  A configuration file that is named nowhere on
this side may be named by a variable of the environment. -/
def finish (place : Place) (variable_ : Option String) (r : Reading) :
    Except ArgumentError Given := do
  let r ← r.settle place
  if r.given.config.isNone && variable_ == some "" then .error .invalidValue
  else return r.given

end Reading

/-! ## Putting both sides together -/

/-- The answer to `help`, with the names behind it. -/
def helpOn : List String → ArgumentError
  | [] => .displayHelp
  | [name] =>
    if (SubcommandKind.named? name).isSome || name == "help" then .displayHelp
    else .invalidSubcommand
  | _ => .invalidSubcommand

/-- The subcommand with what has been given after it. -/
def SubcommandKind.withGiven (kind : SubcommandKind) (g : Given) :
    Except ArgumentError Subcommand :=
  match g.operand with
  | none => .error .missingArgument
  | some operand =>
    match kind with
    | run => .ok (.run operand g.showPlan)
    | loop => .ok (.loop operand g.delay)
    | validate => .ok (.validate operand g.printYaml)
    | completions =>
      match CompletionShell.named? operand with
      | some shell => .ok (.completions shell)
      | none => .error .invalidValue

/-- Whether nothing at all has been given. -/
def Given.isNothing (g : Given) : Bool :=
  !g.json && !g.quiet && g.verbose == 0 && !g.otel && g.config.isNone

/-- What arguments ask for.  The variable of the environment may name a
configuration file. -/
def parse (variable_ : Option String) (args : List String) :
    Except ArgumentError Invocation := do
  let (outer, found) ← Reading.readBefore {} args
  match found with
  | none =>
    let outer ← outer.finish .before variable_
    if outer.isNothing && variable_.isNone then .error .displayHelpOnMissing
    else .error .missingSubcommand
  | some (name, rest) =>
    match SubcommandKind.named? name with
    | none => .error (helpOn rest)
    | some kind =>
      let inner ← (← Reading.readAfter kind {} rest).finish (.after kind) variable_
      let subcommand ← kind.withGiven inner
      -- The last value in front of the name is looked at only now.
      let outer ← outer.finish .before variable_
      return {
        json := outer.json || inner.json
        quiet := outer.quiet || inner.quiet
        -- Verbosity is taken from one side only, not summed up.
        verbose := if inner.verbose = 0 then outer.verbose else inner.verbose
        config := inner.config <|> outer.config <|> variable_
        otel := outer.otel || inner.otel
        subcommand }

end Workplan.Cli
