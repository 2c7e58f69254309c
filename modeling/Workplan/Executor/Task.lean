import Workplan.Executor.Error
import Workplan.Store
import Workplan.Workflow.Event

/-!
# Tasks

A *task* is what one executor call does, action by action: single reads and writes of
the stores on which the executor has a handle, waits, launched programs, and in the end
a value, a failure or a panic.  Each action is atomic; between two actions anything
else may happen.
-/

namespace Workplan

/-- A program to be launched. -/
structure Command where
  program : String
  args : List String
deriving DecidableEq

/-- How a program ended. -/
inductive ExitStatus where
  | code (value : Nat)
  | signal (number : Nat)
deriving DecidableEq

namespace ExitStatus

/-- Whether a program ended well. -/
def isSuccess (s : ExitStatus) : Bool :=
  s == code 0

/-- The names of the signals by number. -/
private def signalNames : List (Nat × String) :=
  [(1, "SIGHUP"), (2, "SIGINT"), (3, "SIGQUIT"), (4, "SIGILL"), (5, "SIGTRAP"),
    (6, "SIGABRT"), (7, "SIGBUS"), (8, "SIGFPE"), (9, "SIGKILL"), (10, "SIGUSR1"),
    (11, "SIGSEGV"), (12, "SIGUSR2"), (13, "SIGPIPE"), (14, "SIGALRM"), (15, "SIGTERM")]

/-- The wording of a status. -/
def message : ExitStatus → String
  | code value => "exit status: " ++ toString value
  | signal number =>
    "signal: " ++ toString number
      ++ ((signalNames.lookup number).map fun n => " (" ++ n ++ ")").getD ""

end ExitStatus

/-- What is left of a program that has ended. -/
structure Exit where
  status : ExitStatus
  stdout : List UInt8
  stderr : List UInt8

/-- What launching a program comes to. -/
inductive Launched where
  /-- It cannot be started, for a reason given in words. -/
  | refused (reason : String)
  /-- It ran, but what it has put out cannot be collected, for a reason given in words. -/
  | lost (reason : String)
  | exited (exit : Exit)

/-- Whether a program has been started. -/
def Launched.isStarted : Launched → Bool
  | refused _ => false
  | _ => true

/-- What one executor call does. -/
inductive Task where
  | finish (result : Except ExecutorError Json)
  /-- Panics, of which there is a report in words. -/
  | panic (report : String)
  /-- Reads one name of a store. -/
  | read (store : StoreHandle) (key : String) (next : Option Json → Task)
  /-- Writes one name of a store. -/
  | write (store : StoreHandle) (key : String) (value : Json) (next : Task)
  /-- Waits; no time at all passes for a wait of zero. -/
  | sleep (ms : Nat) (next : Task)
  /-- Launches a program on an input. -/
  | launch (command : Command) (stdin : String) (next : Launched → Task)
  /-- Cancels the run or loop that is going on. -/
  | cancel (next : Task)
  /-- Notes a call in the trace. -/
  | trace (name : String) (input : Json) (next : Task)
  /-- Reports an event. -/
  | log (event : Event) (next : Task)

namespace Task

/-- The task that ends at once with a value. -/
def value (v : Json) : Task :=
  finish (.ok v)

/-- The task that fails at once. -/
def fail (error : ExecutorError) : Task :=
  finish (.error error)

/-- Goes on with another task on the value that the first one ends with. -/
def andThen (k : Json → Task) : Task → Task
  | finish (.ok v) => k v
  | finish (.error e) => finish (.error e)
  | panic report => panic report
  | read store key next => read store key fun v => (next v).andThen k
  | write store key v next => write store key v (next.andThen k)
  | sleep ms next => sleep ms (next.andThen k)
  | launch command stdin next => launch command stdin fun r => (next r).andThen k
  | cancel next => cancel (next.andThen k)
  | trace name input next => trace name input (next.andThen k)
  | log event next => log event (next.andThen k)

end Task
end Workplan
