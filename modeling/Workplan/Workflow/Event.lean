import Workplan.Json.Text
import Workplan.Plan.Basic
import Workplan.Text.Quoted

/-!
# Log events

What a workflow reports about itself while it is built and while it runs.  An event has a
level, a message and fields; a field without a value is left out.
-/

namespace Workplan

/-- How grave an event is. -/
inductive Level where
  | debug
  | info
  | warn
  | error
deriving DecidableEq

/-- The name of a level. -/
def Level.name : Level → String
  | debug => "DEBUG"
  | info => "INFO"
  | warn => "WARN"
  | error => "ERROR"

/-- The two sides on which a step may have a handler. -/
inductive Side where
  | onSuccess
  | onFail
deriving DecidableEq

/-- The name of a side in documents. -/
def Side.name : Side → String
  | onSuccess => "on_success"
  | onFail => "on_fail"

/-- A reported event. -/
inductive Event where
  | assembled (workflow : String) (steps storeKeys : Nat)
  | handlerDropped (side : Side) (workflow handler : String)
  | workflowState (workflow : String) (prompt : Option String) (steps : Nat)
      (keys : List String) (agents : Nat) (dispatcher : Option String)
  | planListing (workflow text : String)
  | emptyPlan
  | enteringStep (step : Nat) (kind : StepKind) (description : String) (input : Json)
  | cancelledBefore (step : Nat)
  | cancelledDuring (step : Nat)
  | fanningOut (count : Nat) (agent : String)
  | successHandler (step : Nat) (handler : String)
  | stepFailed (step : Nat) (kind : StepKind) (error : String)
  | failureHandled (step : Nat) (handler : String)
  | runComplete (steps : Nat)
  | launching (program : String) (args : List String)
  | loopStarted (workflow : String)
  | iterationFinished (workflow : String) (steps : Nat)
  | iterationFailed (workflow error : String)
  | loopStopped (workflow : String) (iterations : Nat)

namespace Event

/-- The level of an event. -/
def level : Event → Level
  | handlerDropped _ _ _ | emptyPlan | cancelledBefore _ | cancelledDuring _ => .warn
  | workflowState _ _ _ _ _ _ | planListing _ _ | failureHandled _ _ | loopStarted _
  | loopStopped _ _ => .info
  | stepFailed _ _ _ | iterationFailed _ _ => .error
  | _ => .debug

/-- The message of an event. -/
def message : Event → String
  | assembled _ _ _ => "workflow assembled"
  | handlerDropped side _ _ =>
    side.name ++ " called with no preceding step, handler dropped"
  | workflowState _ _ _ _ _ _ => "workflow state"
  | planListing _ text => "plan:\n" ++ text
  | emptyPlan => "execution plan is empty, nothing to run"
  | enteringStep _ _ _ _ => "entering step"
  | cancelledBefore _ => "run cancelled before step"
  | cancelledDuring _ => "run cancelled during step"
  | fanningOut _ _ => "fanning out"
  | successHandler _ _ => "running success handler"
  | stepFailed _ _ _ => "step failed"
  | failureHandled _ _ => "failure handled by on_fail"
  | runComplete _ => "run complete"
  | launching _ _ => "spawning command"
  | loopStarted _ => "loop started"
  | iterationFinished _ _ => "loop iteration finished"
  | iterationFailed _ _ => "loop iteration failed"
  | loopStopped _ _ => "loop stopped"

/-- The fields of an event. -/
def fields : Event → List (String × Json)
  | assembled workflow steps storeKeys =>
    [("workflow", .str workflow), ("steps", .ofCount steps),
      ("store_keys", .ofCount storeKeys)]
  | handlerDropped _ workflow handler =>
    [("workflow", .str workflow), ("handler", .str handler)]
  | workflowState workflow prompt steps keys agents dispatcher =>
    [("workflow", .str workflow), ("prompt", .str (Text.Quoted.encodeOption prompt)),
      ("steps", .ofCount steps), ("store_keys", .str (Text.Quoted.encodeList keys)),
      ("agents", .ofCount agents)] ++ (dispatcher.map fun d =>
        ("dispatcher", Json.str d)).toList
  | planListing workflow _ => [("workflow", .str workflow)]
  | emptyPlan => []
  | enteringStep step kind description input =>
    [("step", .ofCount step), ("kind", .str kind.name), ("description", .str description),
      ("input", .str input.compact)]
  | cancelledBefore step | cancelledDuring step => [("step", .ofCount step)]
  | fanningOut count agent => [("count", .ofCount count), ("agent", .str agent)]
  | successHandler step handler | failureHandled step handler =>
    [("step", .ofCount step), ("handler", .str handler)]
  | stepFailed step kind error =>
    [("step", .ofCount step), ("kind", .str kind.name), ("error", .str error)]
  | runComplete steps => [("steps", .ofCount steps)]
  | launching program args =>
    [("program", .str program), ("args", .str (Text.Quoted.encodeList args))]
  | loopStarted workflow => [("workflow", .str workflow)]
  | iterationFinished workflow steps =>
    [("workflow", .str workflow), ("steps", .ofCount steps)]
  | iterationFailed workflow error => [("workflow", .str workflow), ("error", .str error)]
  | loopStopped workflow iterations =>
    [("workflow", .str workflow), ("iterations", .ofCount iterations)]

/-- An event as a value. -/
def toJson (e : Event) : Json :=
  .ofEntries [
    ("level", .str e.level.name), ("message", .str e.message),
    ("fields", .ofEntries e.fields)]

end Event
end Workplan
