import Workplan.Cli.Program
import Workplan.Host.Shell

/-!
# Command line

The outermost layer: reads arguments, environment and files, and prints.  A loop goes on
until the process is ended from outside.
-/

open Workplan Workplan.Cli

namespace Workplan.Main

/-- What is found under a path. -/
def readPath (path : String) : IO FileContent := do
  try
    return .bytes (← IO.FS.readBinFile path).toList
  catch
    | .inappropriateType _ _ _ => return .directory
    | .noFileOrDirectory _ _ _ => return .missing
    | e => return .unreadable (toString e)

/-- The paths that a command reads. -/
def paths (i : Invocation) : List String :=
  i.config.getD defaultConfig :: match i.subcommand with
    | .run plan _ => [plan]
    | .loop plan _ => [plan]
    | .validate plan _ => [plan]
    | .completions _ => []

/-- What the program answers to a request for help. -/
def usage : String :=
  "Usage: workplan [--json] [--quiet] [-v] [--config FILE] [--otel] COMMAND\n\n"
    ++ "Commands:\n  run PLAN [--show-plan]\n  loop PLAN [--delay-ms MS]\n"
    ++ "  validate PLAN [--print-yaml]\n"

/-- The longest time in milliseconds that can be slept at once. -/
def longestSleep : Nat := 0xFFFFFFFF

/-- Sleeps for any time in milliseconds. -/
def sleepFor (ms : Nat) : IO Unit := do
  if ms ≤ longestSleep then IO.sleep ms.toUInt32
  else
    IO.sleep longestSleep.toUInt32
    sleepFor (ms - longestSleep)
termination_by ms
decreasing_by
  unfold longestSleep at *
  omega

/-- Runs a workflow again and again, with a pause after each run. -/
partial def repeatRuns (pause : Nat) (w : World) : IO Unit := do
  let w := w.runOnce .within
  sleepFor pause
  repeatRuns pause { w with journal := [] }

/-- Carries out a loop whose plan can be loaded; says whether it did. -/
def loopIfPossible (s : Surroundings) (i : Invocation) : IO Bool := do
  match i.subcommand with
  | .loop plan delayMs =>
    let config := GlobalConfig.load (s.file (i.config.getD defaultConfig))
    match s.logFilter i config, Workflow.loadFile plan (s.file plan) with
    | .ok _, .ok workflow =>
      let delay := (delayMs.getD config.loopDelayMs).toNat
      if !i.json && !i.quiet then IO.print (lines (loopOpening workflow.name delay))
      repeatRuns delay { host := s.host, workflow }
      return true
    | _, _ => return false
  | _ => return false

end Workplan.Main

open Workplan.Main

/-- The program. -/
def main (args : List String) : IO UInt32 := do
  let configVariable ← IO.getEnv "STEPWISE_CONFIG"
  let logVariable ← IO.getEnv "RUST_LOG"
  match parse configVariable args with
  | .error e =>
    if e = .displayHelp then IO.print usage
    else if e ≠ .displayVersion then IO.eprint usage
    return UInt32.ofNat e.status
  | .ok i =>
    let files ← (paths i).mapM fun path => do return (path, ← readPath path)
    let surroundings : Surroundings := {
      file := fun path => (files.lookup path).getD .missing
      logVariable, configVariable
      host := Host.builtin
      interruptAfter := 0 }
    if ← loopIfPossible surroundings i then return 0
    let ending := execute surroundings args
    IO.print ending.stdout
    IO.eprint (ending.errorText.getD "")
    return UInt32.ofNat ending.status
