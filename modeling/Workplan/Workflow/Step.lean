import Workplan.Executor.Basic

/-!
# Steps

The steps that a workflow executes: like the steps of a plan document, but with executors
instead of their descriptions.  A handler is an executor too; it belongs to the step that
it is attached to.
-/

namespace Workplan

/-- Where an iterate step takes its items from. -/
inductive ItemSource where
  | items (values : List Json)
  /-- The array that the key stands for when the step begins. -/
  | storeKey (key : String)

/-- The wording of an item source. -/
def ItemSource.describe : ItemSource → String
  | items values => toString values.length ++ " items"
  | storeKey key => "store key '" ++ key ++ "'"

/-- What a step does. -/
inductive Action where
  /-- Sets the prompt, which becomes the output. -/
  | prompt (text : String)
  /-- Calls executors one after another, each on the output of the one before. -/
  | sequence (executors : List Executor)
  /-- Calls all executors at once on the input. -/
  | parallel (executors : List Executor)
  /-- Calls the agent at once on each item. -/
  | iterate (items : ItemSource) (agent : Executor)

namespace Action

/-- The kind of an action. -/
def kind : Action → StepKind
  | prompt _ => .prompt
  | sequence _ => .sequence
  | parallel _ => .parallel
  | iterate _ _ => .iterate

/-- The executors of an action, in order. -/
def executors : Action → List Executor
  | prompt _ => []
  | sequence es => es
  | parallel es => es
  | iterate _ agent => [agent]

/-- Names with a separator, or a note that there are none. -/
def listNames (sep : String) (executors : List Executor) : String :=
  if executors.isEmpty then "(none)" else Text.joinWith sep (executors.map (·.name))

/-- The description of a step that has been given none. -/
def describe : Action → String
  | prompt text => "prompt (" ++ toString text.length ++ " chars)"
  | sequence es => "sequence: " ++ listNames " -> " es
  | parallel es => "parallel: " ++ listNames ", " es
  | iterate items agent => "iterate over " ++ items.describe ++ " with " ++ agent.name

end Action

/-- A step. -/
structure Step where
  action : Action
  description : String
  onSuccess : Option Executor := none
  onFail : Option Executor := none

namespace Step

/-- The kind of a step. -/
def kind (s : Step) : StepKind :=
  s.action.kind

/-- The handlers of a step. -/
def handlers (s : Step) : List Executor :=
  s.onSuccess.toList ++ s.onFail.toList

/-- All executors of a step: the action's, then the handlers. -/
def executors (s : Step) : List Executor :=
  s.action.executors ++ s.handlers

/-- Puts a handler on one side of a step, in place of an earlier one. -/
def attach (side : Side) (handler : Executor) (s : Step) : Step :=
  match side with
  | .onSuccess => { s with onSuccess := some handler }
  | .onFail => { s with onFail := some handler }

/-- Puts a handler on the last of some steps. -/
def attachLast (side : Side) (handler : Executor) : List Step → List Step
  | [] => []
  | [s] => [s.attach side handler]
  | s :: rest => s :: attachLast side handler rest

/-- The line that shows a step with its number. -/
def line (number : Nat) (s : Step) : String :=
  toString number ++ ". [" ++ s.kind.name ++ "] " ++ s.description
    ++ (s.onSuccess.map fun h => " (on_success: " ++ h.name ++ ")").getD ""
    ++ (s.onFail.map fun h => " (on_fail: " ++ h.name ++ ")").getD ""

/-- The lines that show steps, numbered from one. -/
def listing (steps : List Step) : String :=
  if steps.isEmpty then "(empty plan)"
  else Text.joinWith "\n" ((steps.zipIdx 1).map fun (s, n) => s.line n)

end Step
end Workplan
