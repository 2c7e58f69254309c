import Workplan.Plan.Loading
import Workplan.Workflow.Basic

/-!
# Assembly

From a plan to the workflow that it describes: the store is seeded first, then each
step is added with its handlers.  The executors of a step's body are recorded as agents
just before the step is added.  Each executor gets a serial number of its own, and all
of them get the handle on the store, which is taken from the workflow while its store
is still empty.
-/

namespace Workplan

/-- Executors for descriptions, with consecutive serial numbers and one handle. -/
def ExecutorSpec.toExecutors (store : StoreHandle) (first : Nat) :
    List ExecutorSpec → List Executor
  | [] => []
  | spec :: rest => spec.toExecutor first store :: toExecutors store (first + 1) rest

namespace StepSpec

/-- The action of a step, with executors numbered from `first`; there is none for an
iterate step that has both items and a key, or neither. -/
def action? (store : StoreHandle) (first : Nat) (s : StepSpec) : Option Action :=
  match s.body with
  | .prompt text => some (.prompt text)
  | .sequence executors => some (.sequence (ExecutorSpec.toExecutors store first executors))
  | .parallel executors => some (.parallel (ExecutorSpec.toExecutors store first executors))
  | .iterate (some items) none agent =>
    some (.iterate (.items items) (agent.toExecutor first store))
  | .iterate none (some key) agent =>
    some (.iterate (.storeKey key) (agent.toExecutor first store))
  | .iterate _ _ _ => none

/-- The edits that add a step whose action is known; its handlers are numbered
after its body. -/
def edits (store : StoreHandle) (first : Nat) (s : StepSpec) (action : Action) :
    List Edit :=
  let second := first + s.bodyExecutors.length
  action.executors.map .registerAgent
    ++ [match s.description with
        | some description => .addStep action description
        | none => .add action]
    ++ (s.onSuccess.map fun h => Edit.attach .onSuccess (h.toExecutor second store)).toList
    ++ (s.onFail.map fun h =>
        Edit.attach .onFail
          (h.toExecutor (second + s.onSuccess.toList.length) store)).toList

end StepSpec

namespace Plan

/-- What a workflow is made from. -/
def config (p : Plan) : WorkflowConfig :=
  { name := p.name, prompt := p.prompt }

/-- Adds the steps of a plan to a workflow, numbering steps from `number` and executors
from `first`. -/
def addSteps (store : StoreHandle) (number first : Nat) (w : Workflow) :
    List StepSpec → Except Violation Workflow
  | [] => .ok w
  | s :: rest =>
    match s.action? store first with
    | none => .error (.iterateSource number)
    | some action =>
      addSteps store (number + 1) (first + s.executors.length)
        (w.editAll (s.edits store first action)) rest

/-- The workflow that a plan describes, with a new store on which there is a handle. -/
def assemble (p : Plan) (handle : StoreHandle := {}) : Except Violation Workflow :=
  match p.validate with
  | .error v => .error v
  | .ok () =>
    let workflow := Workflow.ofConfig p.config handle
    -- The handle is taken now, and stays a handle on the same store when that is seeded.
    let store := workflow.handle
    addSteps store 1 0
      (workflow.editAll (p.seed.entries.map fun e => .write e.1 e.2)) p.steps

end Plan

/-- What the assembly of a workflow reports. -/
def Workflow.assembledEvent (w : Workflow) : Event :=
  .assembled w.name w.steps.length w.store.size

/-- The workflow of the plan in a file. -/
def Workflow.loadFile (path : String) (content : FileContent) : Except LoadError Workflow :=
  match Plan.loadFile path content with
  | .error e => .error e
  | .ok p => (p.assemble).mapError .invalid

end Workplan
