import Workplan.Store
import Workplan.Text.Blank

/-!
# Plan documents

A plan is a workflow as data: its name, an optional first prompt, the entries its
store starts with, and its steps in order.  Executors are given by their kind and
its parameters.
-/

namespace Workplan

/-- The kinds of step. -/
inductive StepKind where
  | prompt
  | sequence
  | parallel
  | iterate
deriving DecidableEq

namespace StepKind

/-- The name of a kind in documents. -/
def name : StepKind → String
  | prompt => "prompt"
  | sequence => "sequence"
  | parallel => "parallel"
  | iterate => "iterate"

/-- All kinds by name, in the order in which messages list them. -/
def named : List (String × StepKind) :=
  [prompt, sequence, parallel, iterate].map fun k => (k.name, k)

end StepKind

/-- The kinds of executor that a plan can ask for. -/
inductive ExecutorKind where
  | echo
  | template
  | command
  | fail
  | sleep
  | storeSet
deriving DecidableEq

namespace ExecutorKind

/-- The name of a kind in documents. -/
def name : ExecutorKind → String
  | echo => "echo"
  | template => "template"
  | command => "command"
  | fail => "fail"
  | sleep => "sleep"
  | storeSet => "store_set"

/-- All kinds by name, in the order in which messages list them. -/
def named : List (String × ExecutorKind) :=
  [echo, template, command, fail, sleep, storeSet].map fun k => (k.name, k)

end ExecutorKind

/-- An executor as a plan describes it. -/
inductive ExecutorSpec where
  /-- Returns its input. -/
  | echo
  /-- Puts the input into a template. -/
  | template (template : String)
  /-- Runs a program on the input. -/
  | command (program : String) (args : List String)
  /-- Always fails. -/
  | fail (message : String)
  /-- Waits, then returns its input. -/
  | sleep (ms : UInt64)
  /-- Writes its input to the store and returns it. -/
  | storeSet (key : String)
deriving DecidableEq

namespace ExecutorSpec

/-- The kind of an executor. -/
def kind : ExecutorSpec → ExecutorKind
  | echo => .echo
  | template _ => .template
  | command _ _ => .command
  | fail _ => .fail
  | sleep _ => .sleep
  | storeSet _ => .storeSet

end ExecutorSpec

/-- What a step does, by kind. -/
inductive StepBody where
  | prompt (text : String)
  | sequence (executors : List ExecutorSpec)
  | parallel (executors : List ExecutorSpec)
  /-- One call of the agent for each of the items, or of the array under the key. -/
  | iterate (items : Option (List Json)) (key : Option String) (agent : ExecutorSpec)

/-- A step with its handlers. -/
structure StepSpec where
  description : Option String
  onSuccess : Option ExecutorSpec
  onFail : Option ExecutorSpec
  body : StepBody

namespace StepSpec

/-- The kind of a step. -/
def kind (s : StepSpec) : StepKind :=
  match s.body with
  | .prompt _ => .prompt
  | .sequence _ => .sequence
  | .parallel _ => .parallel
  | .iterate _ _ _ => .iterate

/-- The executors of the body, in order. -/
def bodyExecutors (s : StepSpec) : List ExecutorSpec :=
  match s.body with
  | .prompt _ => []
  | .sequence executors => executors
  | .parallel executors => executors
  | .iterate _ _ agent => [agent]

/-- All executors of a step: the body's, then the handlers. -/
def executors (s : StepSpec) : List ExecutorSpec :=
  s.bodyExecutors ++ s.onSuccess.toList ++ s.onFail.toList

end StepSpec

/-- A plan. -/
structure Plan where
  name : String
  prompt : Option String
  /-- Entries of the store before the first run. -/
  seed : Store
  steps : List StepSpec

end Workplan
