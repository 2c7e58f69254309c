import Workplan.Cli.Arguments
import Workplan.Cli.LogFilter
import Workplan.Cli.Report
import Workplan.Config.Loading

/-!
# The program

From arguments, files and the environment to what is printed and the status that the
program ends with: 0, or 1 when a command failed, or 2 when the arguments were not
accepted.
-/

namespace Workplan.Cli

/-- What the program finds around it. -/
structure Surroundings where
  /-- What is found under a path. -/
  file : String → FileContent
  /-- The directive that the environment gives for log events. -/
  logVariable : Option String
  /-- The configuration file that the environment names. -/
  configVariable : Option String
  /-- What launching a program comes to. -/
  host : Host
  /-- How long a loop goes on before it is interrupted. -/
  interruptAfter : Nat

/-- What a finished program leaves. -/
structure Ending where
  stdout : String := ""
  /-- The report of what went wrong. -/
  errorText : Option String := none
  status : Nat := 0

/-- The configuration file that is read when none is named. -/
def defaultConfig : String := "stepwise.toml"

/-- The status that goes with refused arguments; a request for help is no mistake. -/
def ArgumentError.status : ArgumentError → Nat
  | displayHelp => 0
  | displayVersion => 0
  | _ => 2

/-- The ending of a command. -/
def Printed.ending (p : Printed) : Ending :=
  match p.trouble with
  | none => { stdout := p.stdout }
  | some t => { stdout := p.stdout, errorText := some t.text, status := 1 }

/-- The directive that governs log events, if it is a good one.  A good directive of the
environment comes first, and then a bad one elsewhere does no harm. -/
def Surroundings.logFilter (s : Surroundings) (i : Invocation) (c : GlobalConfig) :
    Except LogFilter.FilterError String :=
  let chosen := LogFilter.choose i.verbose i.quiet c.logFilter
  match s.logVariable with
  | some directive =>
    match LogFilter.check directive with
    | .ok () => .ok directive
    | .error _ => (LogFilter.check chosen).map fun _ => chosen
  | none => (LogFilter.check chosen).map fun _ => chosen

/-- Carries out a subcommand. -/
def carryOut (s : Surroundings) (i : Invocation) (c : GlobalConfig) : Printed :=
  match i.subcommand with
  | .run plan showPlan => runPlan s.host plan (s.file plan) showPlan i.json i.quiet
  | .loop plan delayMs =>
    loopPlan s.host plan (s.file plan)
      (delayMs.getD c.loopDelayMs).toNat i.json i.quiet s.interruptAfter
  | .validate plan printYaml => validatePlan plan (s.file plan) printYaml i.json
  | .completions _ => {}

/-- Carries out what arguments ask for.  Completions need neither configuration nor
log events. -/
def execute (s : Surroundings) (args : List String) : Ending :=
  match parse s.configVariable args with
  | .error e => { status := e.status }
  | .ok i =>
    match i.subcommand with
    | .completions _ => {}
    | _ =>
      let config := GlobalConfig.load (s.file (i.config.getD defaultConfig))
      match s.logFilter i config with
      | .error e =>
        (Printed.mk "" (some ⟨"failed to initialize tracing: " ++ e.message, []⟩)).ending
      | .ok _ => (carryOut s i config).ending

end Workplan.Cli
