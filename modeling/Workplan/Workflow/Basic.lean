import Workplan.Config.Basic
import Workplan.Workflow.Step

/-!
# Workflows

A workflow has a name, a current prompt, a store of its own, its steps, and two records
that no run looks at: the registered agents and the dispatcher.  The handle on its store
can be given to executors at any time.  It is built by *edits*.  An edit that adds a step
appends it; a handler is attached to the step that is last at that moment, and dropped
when there is none.
-/

namespace Workplan

/-- A workflow. -/
structure Workflow where
  name : String
  prompt : Option String
  /-- The handle on its store. -/
  handle : StoreHandle := {}
  /-- What its store holds. -/
  store : Store := .empty
  steps : List Step := []
  agents : List Executor := []
  dispatcher : Option Executor := none

/-- One change made while a workflow is built. -/
inductive Edit where
  /-- Adds a step with a description of its own. -/
  | addStep (action : Action) (description : String)
  /-- Adds a step with the description that its action gives. -/
  | add (action : Action)
  /-- Attaches a handler to the last step. -/
  | attach (side : Side) (handler : Executor)
  /-- Writes an entry of the store. -/
  | write (key : String) (value : Json)
  /-- Records an agent. -/
  | registerAgent (agent : Executor)
  /-- Records the dispatcher, in place of an earlier one. -/
  | setDispatcher (executor : Executor)
  /-- Reports the state of the workflow and changes nothing. -/
  | report

namespace Workflow

/-- The workflow that a configuration asks for, without any step, and with a new store. -/
def ofConfig (c : WorkflowConfig) (handle : StoreHandle := {}) : Workflow :=
  { name := c.name, prompt := c.prompt, handle }

/-- The handlers of all steps, in order. -/
def handlers (w : Workflow) : List Executor :=
  w.steps.flatMap Step.handlers

/-- The executors of all steps, in order. -/
def executors (w : Workflow) : List Executor :=
  w.steps.flatMap Step.executors

/-- Appends a step. -/
def addStep (w : Workflow) (action : Action) (description : String) : Workflow :=
  { w with steps := w.steps ++ [{ action, description }] }

/-- The workflow after an edit. -/
def edit (w : Workflow) : Edit → Workflow
  | .addStep action description => w.addStep action description
  | .add action => w.addStep action action.describe
  | .attach side handler => { w with steps := Step.attachLast side handler w.steps }
  | .write key value => { w with store := w.store.set key value }
  | .registerAgent agent => { w with agents := w.agents ++ [agent] }
  | .setDispatcher executor => { w with dispatcher := some executor }
  | .report => w

/-- What an edit reports. -/
def editEvents (w : Workflow) : Edit → List Event
  | .attach side handler =>
    if w.steps.isEmpty then [.handlerDropped side w.name handler.name] else []
  | .report =>
    [.workflowState w.name w.prompt w.steps.length w.store.keys w.agents.length
        (w.dispatcher.map (·.name)),
      .planListing w.name (Step.listing w.steps)]
  | _ => []

/-- The workflow after several edits. -/
def editAll (w : Workflow) (edits : List Edit) : Workflow :=
  edits.foldl edit w

/-- The workflow at a glance. -/
def summary (w : Workflow) : Json :=
  .ofEntries [
    ("name", .str w.name),
    ("prompt", .ofOption w.prompt),
    ("store", w.store.snapshot),
    ("steps", .arr (w.steps.map fun s => .ofEntries [
      ("kind", .str s.kind.name),
      ("description", .str s.description),
      ("on_success", .ofOption (s.onSuccess.map (·.name))),
      ("on_fail", .ofOption (s.onFail.map (·.name)))])),
    ("agents", .ofTexts (w.agents.map (·.name))),
    ("dispatcher", .ofOption (w.dispatcher.map (·.name))),
    ("display", .str (Step.listing w.steps))]

end Workflow
end Workplan
