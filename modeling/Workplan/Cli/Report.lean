import Workplan.Engine.Schedule
import Workplan.Plan.Printing
import Workplan.Workflow.Assembly

/-!
# What the commands print

Each command takes a plan file and says what it prints, and what went wrong if anything did.
-/

namespace Workplan.Cli

/-- What went wrong, and what caused it, the nearest cause first. -/
structure Trouble where
  what : String
  causes : List String

namespace Trouble

/-- All on one line. -/
def line (t : Trouble) : String :=
  Text.joinWith ": " (t.what :: t.causes)

/-- The lines of a cause, with a number if there are several causes. -/
private def causeText (number : Option Nat) (cause : String) : String :=
  let (first, more) := match number with
    | none => ("    ", "\n    ")
    | some n =>
      let digits := toString n
      (String.ofList (List.replicate (5 - digits.length) ' ') ++ digits ++ ": ",
        "\n       ")
  first ++ Text.joinWith more (cause.splitOn "\n")

/-- The report of the trouble. -/
def text (t : Trouble) : String :=
  let causes := match t.causes with
    | [] => []
    | [cause] => ["\n\nCaused by:", "\n" ++ causeText none cause]
    | causes =>
      "\n\nCaused by:" :: causes.zipIdx.map fun (cause, n) =>
        "\n" ++ causeText (some n) cause
  "Error: " ++ t.what ++ String.join causes ++ "\n"

end Trouble

/-- The messages of an error of loading, from the error itself down to what caused it. -/
def loadCauses (e : LoadError) : List String :=
  [e.message, match e with
    | .io _ error => error.message
    | .parse error => error.message
    | .invalid violation => violation.message]

/-- What a command printed, and the trouble that ended it. -/
structure Printed where
  stdout : String := ""
  trouble : Option Trouble := none

/-- Lines of output. -/
def lines (ls : List String) : String :=
  String.join (ls.map (· ++ "\n"))

/-- Lines set in from the margin. -/
def indented (ls : List String) : List String :=
  ls.map ("    " ++ ·)

/-- The listing of a workflow's steps, set in. -/
def planLines (w : Workflow) : List String :=
  indented (Text.lines (Step.listing w.steps))

/-! ## Running once -/

/-- The report of a run for people. -/
def outcomeLines (name : String) (o : Outcome) : List String :=
  ["", "  * Workflow '" ++ name ++ "' finished", "  Steps: " ++ toString o.steps, ""]
    ++ (match o.output with
        | some output => "  Output" :: indented (Text.lines output.pretty)
        | none => ["  (empty plan, no output)"])
    ++ (if o.store.isEmpty then []
        else "" :: "  Shared store" :: indented (o.store.entries.map fun (key, v) =>
          key ++ " = " ++ v.compact))
    ++ [""]

/-- The report of a run as a value. -/
def outcomeJson (name : String) (o : Outcome) : Json :=
  .ofEntries [
    ("final_output", o.output.getD .null), ("shared_store", o.store.snapshot),
    ("steps_executed", .ofCount o.steps), ("workflow", .str name)]

/-- What is printed before a run. -/
def shownPlan (w : Workflow) : List String :=
  "" :: ("  * Plan '" ++ w.name ++ "'") :: planLines w

/-- Runs the workflow of a plan file once. -/
def runPlan (host : Host) (path : String) (content : FileContent)
    (showPlan json quiet : Bool) :
    Printed :=
  match Workflow.loadFile path content with
  | .error e => { trouble := some ⟨"Failed to load plan " ++ path, loadCauses e⟩ }
  | .ok workflow =>
    let before := if showPlan && !json && !quiet then lines (shownPlan workflow) else ""
    match (World.runOnce { host, workflow } .never).progress with
    | .ended (.ok outcome) =>
      let after :=
        if json then lines [(outcomeJson workflow.name outcome).pretty]
        else if quiet then lines (outcome.output.map Json.render).toList
        else lines (outcomeLines workflow.name outcome)
      { stdout := before ++ after }
    | .ended (.error e) =>
      { stdout := before,
        trouble := some ⟨"Workflow '" ++ workflow.name ++ "' failed", [e.message]⟩ }
    | _ =>
      { stdout := before,
        trouble := some ⟨"Workflow '" ++ workflow.name ++ "' failed", []⟩ }

/-! ## Checking -/

/-- The report of a valid plan as a value. -/
def validJson (p : Plan) (w : Workflow) : Json :=
  .ofEntries [
    ("name", .str p.name), ("valid", .bool true), ("store_keys", .ofTexts p.seed.keys),
    ("steps",
      .arr (((p.steps.zip w.steps).zipIdx 1).map fun ((spec, step), index) => .ofEntries [
        ("index", .ofCount index), ("kind", .str spec.kind.name),
        ("description", .str step.description),
        ("executors", .ofTexts (spec.executors.map (·.kind.name)))]))]

/-- The report of a valid plan for people. -/
def validLines (p : Plan) (w : Workflow) : List String :=
  ["", "  ✓ Plan '" ++ p.name ++ "' is valid", "  Steps: " ++ toString p.steps.length]
    ++ (if p.seed.isEmpty then [] else ["  Store keys: " ++ Text.joinWith ", " p.seed.keys])
    ++ [""] ++ planLines w ++ [""]

/-- Checks a plan file without running it. -/
def validatePlan (path : String) (content : FileContent) (printYaml json : Bool) :
    Printed :=
  let trouble (causes : List String) : Printed :=
    { trouble := some ⟨"Plan " ++ path ++ " is invalid", causes⟩ }
  match Plan.loadFile path content with
  | .error e => trouble (loadCauses e)
  | .ok p =>
    match p.assemble with
    | .error v => trouble [v.message]
    | .ok w =>
      { stdout :=
          if printYaml then p.toYaml
          else if json then lines [(validJson p w).pretty]
          else lines (validLines p w) }

/-! ## Looping -/

/-- What is printed when a loop begins. -/
def loopOpening (name : String) (delayMs : Nat) : List String :=
  ["", "  * Looping workflow '" ++ name ++ "' every " ++ toString delayMs ++ "ms",
    "  Press Ctrl+C to stop"]

/-- What is printed when a loop has ended. -/
def loopClosing (iterations : Nat) : List String :=
  ["", "  Loop stopped after " ++ toString iterations ++ " iteration(s).", ""]

/-- Runs the workflow of a plan file again and again, until it is interrupted
after some time. -/
def loopPlan (host : Host) (path : String) (content : FileContent) (delayMs : Nat)
    (json quiet : Bool) (interruptAfter : Nat) : Printed :=
  match Workflow.loadFile path content with
  | .error e => { trouble := some ⟨"Failed to load plan " ++ path, loadCauses e⟩ }
  | .ok workflow =>
    let opening := if json || quiet then "" else lines (loopOpening workflow.name delayMs)
    let world := (World.startLoop { host, workflow } (some delayMs)).wait interruptAfter
    match world.stopLoop with
    | (.ok iterations, world) =>
      let closing :=
        if json then
          lines [(Json.ofEntries [
            ("workflow", .str workflow.name), ("iterations", .ofCount iterations),
            ("shared_store", world.workflow.store.snapshot)]).pretty]
        else if quiet then ""
        else lines (loopClosing iterations)
      { stdout := opening ++ closing }
    | (.error e, _) =>
      { stdout := opening
        trouble :=
          some ⟨"Loop for '" ++ workflow.name ++ "' did not stop cleanly", [e.message]⟩ }

end Workplan.Cli
