import Workplan.Document.Reading

/-!
# Configuration

Two records with a default for each field: what governs the program as a whole, and what a
single workflow is made from.  Both are read from a table or, where the notation allows
it, from a list of their fields in order; entries that no field asks for are ignored.
-/

namespace Workplan

open Document

/-- What governs the program as a whole. -/
structure GlobalConfig where
  /-- Pause between two iterations of a loop, in milliseconds. -/
  loopDelayMs : UInt64 := 1000
  /-- Whether spans are exported. -/
  otel : Bool := false
  /-- Which log events are shown when the command line does not say. -/
  logFilter : Option String := none
deriving DecidableEq

/-- What a workflow is made from. -/
structure WorkflowConfig where
  name : String := "workflow"
  prompt : Option String := none
deriving DecidableEq

namespace Document

/-- Reads a record whose fields all have defaults: a table, or a list of its
first fields. -/
def readDefaulted {σ : Type} (wanted : String) (names : List String)
    (read : (name : String) → Path → Document → Option (Except Failure σ)) (d : Document) :
    Except Failure (List (String × σ)) :=
  match d with
  | .list items => do
    let fields ← readPositions read 0 names items
    if names.length < items.length then
      failAt [] (.wrongLength items.length "fewer elements in array")
    else return fields
  | d => do readFields read [] [] (← readEntries [] wanted d)

end Document

namespace GlobalConfig

/-- A field, read. -/
inductive Field where
  | delay (ms : UInt64)
  | otel (on : Bool)
  | filter (directive : Option String)

/-- Reads the field of a name. -/
def readField (name : String) (path : Path) (d : Document) :
    Option (Except Failure Field) :=
  match name with
  | "loop_delay_ms" => some ((readWord path d).map .delay)
  | "otel" => some ((readBool path d).map .otel)
  | "log_filter" => some ((readOption (readText path) path d).map .filter)
  | _ => none

/-- The configuration with the fields that have been read, and defaults for the others. -/
def ofFields (fields : List (String × Field)) : GlobalConfig where
  loopDelayMs := match fields.lookup "loop_delay_ms" with
    | some (.delay ms) => ms
    | _ => 1000
  otel := match fields.lookup "otel" with
    | some (.otel on) => on
    | _ => false
  logFilter := match fields.lookup "log_filter" with
    | some (.filter directive) => directive
    | _ => none

/-- The configuration that a document describes. -/
def ofDocument (d : Document) : Except Failure GlobalConfig := do
  return ofFields (← readDefaulted "struct GlobalConfig" ["loop_delay_ms", "otel",
    "log_filter"] readField d)

/-- The configuration as a value; a field without a value is left out. -/
def toJson (c : GlobalConfig) : Json :=
  .ofEntries <|
    [("loop_delay_ms", Json.ofWord c.loopDelayMs), ("otel", .bool c.otel)]
      ++ (c.logFilter.map fun f => ("log_filter", Json.str f)).toList

end GlobalConfig

namespace WorkflowConfig

/-- A field, read. -/
inductive Field where
  | name (s : String)
  | prompt (s : Option String)

/-- Reads the field of a name. -/
def readField (name : String) (path : Path) (d : Document) :
    Option (Except Failure Field) :=
  match name with
  | "name" => some ((readText path d).map .name)
  | "prompt" => some ((readOption (readText path) path d).map .prompt)
  | _ => none

/-- The configuration that a document describes. -/
def ofDocument (d : Document) : Except Failure WorkflowConfig := do
  let fields ← readDefaulted "struct WorkflowConfig" ["name", "prompt"] readField d
  return {
    name := match fields.lookup "name" with
      | some (.name s) => s
      | _ => "workflow"
    prompt := match fields.lookup "prompt" with
      | some (.prompt p) => p
      | _ => none }

/-- The configuration as a value; a field without a value is left out. -/
def toJson (c : WorkflowConfig) : Json :=
  .ofEntries <| ("name", Json.str c.name) ::
    (c.prompt.map fun p => ("prompt", Json.str p)).toList

end WorkflowConfig
end Workplan
