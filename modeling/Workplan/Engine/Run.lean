import Workplan.Workflow.Basic

/-!
# Runs

A *run* of a workflow as a tree of the actions that it takes, branching on the answers
that it gets: the result of a call, the results of a fan-out, the content of the store.
One value is threaded through the steps.  It starts as the prompt, each step turns it into
its output, and a handler may replace that output.

A step that goes well hands its output to its success handler; a step that fails, also in
its success handler, hands the text of its failure to its failure handler.  A failure that
no handler takes over ends the run.
-/

namespace Workplan

/-- What a finished run leaves: the output of its last step, the store as it was at the
end, and the number of steps.  A run without steps has no output. -/
structure Outcome where
  output : Option Json
  store : Store
  steps : Nat

/-- The actions of a run. -/
inductive Run where
  | finish (result : Except WorkflowError Outcome)
  /-- Begins a step, unless the run has been cancelled. -/
  | enter (step : Nat) (rest : Run)
  | log (event : Event) (rest : Run)
  | setPrompt (text : String) (rest : Run)
  | readStore (rest : Store → Run)
  /-- Calls an executor and waits for its result. -/
  | call (executor : Executor) (input : Json) (rest : Except ExecutorError Json → Run)
  /-- Starts all calls at once; goes on with the values of all calls, in the order of the
  calls, or with the first failure that is seen. -/
  | fanOut (calls : List (Executor × Json)) (rest : Except ExecutorError (List Json) → Run)

namespace Run

/-- Calls executors one after another, each on the value of the one before, up to the
first failure. -/
def chain (k : Except WorkflowError Json → Run) : List Executor → Json → Run
  | [], input => k (.ok input)
  | e :: rest, input => .call e input fun
    | .ok v => chain k rest v
    | .error error => k (.error (.executor error))

/-- Makes calls at once and collects their values in an array. -/
def gather (calls : List (Executor × Json)) (k : Except WorkflowError Json → Run) : Run :=
  .fanOut calls fun
    | .ok values => k (.ok (.arr values))
    | .error error => k (.error (.executor error))

end Run

namespace Step

/-- Calls the agent at once on each item. -/
def spread (items : List Json) (agent : Executor) (k : Except WorkflowError Json → Run) :
    Run :=
  .log (.fanningOut items.length agent.name)
    (Run.gather (items.map fun item => (agent, item)) k)

/-- The action of a step, without its handlers. -/
def dispatch (s : Step) (input : Json) (k : Except WorkflowError Json → Run) : Run :=
  match s.action with
  | .prompt text => .setPrompt text (k (.ok (.str text)))
  | .sequence executors => Run.chain k executors input
  | .parallel executors => Run.gather (executors.map fun e => (e, input)) k
  | .iterate (.items items) agent => spread items agent k
  | .iterate (.storeKey key) agent => .readStore fun store =>
    match store.get? key with
    | some (.arr items) => spread items agent k
    | some v => k (.error (.iterationSource key v.kindName))
    | none => k (.error (.iterationSource key "no value"))

/-- What becomes of a step that failed. -/
def recover (number : Nat) (s : Step) (k : Except WorkflowError Json → Run)
    (error : WorkflowError) :
    Run :=
  .log (.stepFailed number s.kind error.message) <|
    match s.onFail with
    | some handler =>
      if error.isAbsorbable then
        .log (.failureHandled number handler.name) <|
          .call handler (.str error.message) fun r => k (r.mapError .executor)
      else k (.error error)
    | none => k (.error error)

/-- What becomes of a step whose action went well. -/
def conclude (number : Nat) (s : Step) (k : Except WorkflowError Json → Run)
    (output : Json) : Run :=
  match s.onSuccess with
  | some handler =>
    .log (.successHandler number handler.name) <|
      .call handler output fun
        | .ok v => k (.ok v)
        | .error error => s.recover number k (.executor error)
  | none => k (.ok output)

/-- A step with its handlers. -/
def run (number : Nat) (s : Step) (input : Json) (k : Except WorkflowError Json → Run) :
    Run :=
  s.dispatch input fun
    | .ok output => s.conclude number k output
    | .error error => s.recover number k error

end Step

namespace Run

/-- Steps one after another, numbered from `number`, from the value that
enters the first. -/
def steps (total : Nat) : (number : Nat) → List Step → Json → Run
  | _, [], current =>
    .log (.runComplete total) <| .readStore fun store =>
      .finish (.ok ⟨some current, store, total⟩)
  | number, s :: rest, current =>
    .enter number <| .log (.enteringStep number s.kind s.description current) <|
      s.run number current fun
        | .ok v => steps total (number + 1) rest v
        | .error error => .finish (.error error)

end Run

namespace Workflow

/-- The value that enters the first step: the prompt, or null when there is none. -/
def firstInput (w : Workflow) : Json :=
  .ofOption w.prompt

/-- The next run of a workflow. -/
def nextRun (w : Workflow) : Run :=
  match w.steps with
  | [] => .log .emptyPlan <| .readStore fun store => .finish (.ok ⟨none, store, 0⟩)
  | steps => Run.steps steps.length 1 steps w.firstInput

end Workflow
end Workplan
