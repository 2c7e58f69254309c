import Workplan.Executor.Task
import Workplan.Executor.Template
import Workplan.Text.Utf8

/-!
# Executors

An executor has a name, for people to read, and answers each input with a task.  Its
serial number is its identity: two executors built from one description are
different executors.
-/

namespace Workplan

/-- A unit of work that a step calls. -/
structure Executor where
  serial : Nat
  name : String
  run : Json → Task

namespace Executor

/-- Whether two handles stand for one executor. -/
def same (a b : Executor) : Bool :=
  a.serial == b.serial

/-- The text that shows a handle to a programmer. -/
def debugText (e : Executor) : String :=
  "BoxExecutor \x7b name: " ++ Text.Quoted.encode e.name ++ " \x7d"

end Executor

namespace Command

/-- What a program that has ended means for the call: its trimmed output, or a failure
with its trimmed complaints. -/
def result (c : Command) (e : Exit) : Except ExecutorError Json :=
  if e.status.isSuccess then
    .ok (.str (Text.trim (Text.Utf8.decodeLossy e.stdout)))
  else
    .error
      (.failed ("command '" ++ c.program ++ "' exited with " ++ e.status.message ++ ": "
      ++ Text.trim (Text.Utf8.decodeLossy e.stderr)))

/-- Launches a program on the rendered input. -/
def task (c : Command) (input : Json) : Task :=
  .log (.launching c.program c.args) <|
    .launch c input.render fun
      | .refused reason => .fail (.io ("failed to spawn '" ++ c.program ++ "': " ++ reason))
      | .lost reason => .fail (.io reason)
      | .exited e => .finish (c.result e)

end Command

namespace ExecutorSpec

/-- The name of the executor that is described. -/
def executorName : ExecutorSpec → String
  | command program _ => "command:" ++ program
  | storeSet key => "store_set:" ++ key
  | spec => spec.kind.name

/-- What the executor that is described does with an input, if it holds a handle
on a store. -/
def task (store : StoreHandle) : ExecutorSpec → Json → Task
  | echo, input => .value input
  | template t, input => .value (.str (Template.fill t input.render))
  | command program args, input => Command.task ⟨program, args⟩ input
  | fail message, _ => .fail (.failed message)
  | sleep ms, input => .sleep ms.toNat (.value input)
  | storeSet key, input => .write store key input (.value input)

/-- The executor that is described.  It keeps the handle on a store that it is made with. -/
def toExecutor (spec : ExecutorSpec) (serial : Nat) (store : StoreHandle := {}) :
    Executor :=
  ⟨serial, spec.executorName, spec.task store⟩

end ExecutorSpec
end Workplan
