import Workplan.Engine.Run

/-!
# Worlds

A *world* is a workflow with everything that is going on around it: the clock, the calls
that have been started, the run in progress and the loop that repeats it, and a journal of
what has happened.  Calls that a fan-out starts live on their own; they may outlast the
step, and the run, that started them.  Executors may also hold handles on other stores
than the workflow's own; what these hold is part of the world.
-/

namespace Workplan

/-- How a call ended. -/
inductive CallEnd where
  | returned (result : Except ExecutorError Json)
  | panicked (report : String)

/-- What a waiting call waits for. -/
inductive Wait where
  /-- A time on the clock. -/
  | clock (time : Nat)
  /-- The end of a launched program. -/
  | program
  /-- Nothing any more: the launched program has ended. -/
  | nothing

/-- How far a call has come. -/
inductive Activity where
  | ready (task : Task)
  | waiting (for_ : Wait) (task : Task)
  | ended (result : CallEnd)

namespace Activity

/-- Whether a call has ended. -/
def isEnded : Activity → Bool
  | ended _ => true
  | _ => false

/-- Whether a call can act without waiting. -/
def isReady : Activity → Bool
  | ready _ => true
  | _ => false

/-- Whether a waiting call may go on. -/
def isDue (now : Nat) : Activity → Bool
  | waiting (.clock time) _ => time ≤ now
  | waiting .nothing _ => true
  | _ => false

/-- The time for which a call waits. -/
def timer? : Activity → Option Nat
  | waiting (.clock time) _ => some time
  | _ => none

/-- Whether a call waits for a program. -/
def awaitsProgram : Activity → Bool
  | waiting .program _ => true
  | _ => false

/-- A call that waited for a program which has now ended. -/
def released : Activity → Activity
  | waiting .program task => waiting .nothing task
  | a => a

end Activity

/-- A call that a fan-out has started. -/
structure Job where
  executor : Executor
  input : Json
  activity : Activity

/-- Whether what is going on can be cancelled, and whether it has been. -/
inductive Token where
  | absent
  | live
  | cancelled
deriving DecidableEq

/-- Cancels, where there is something to cancel. -/
def Token.cancel : Token → Token
  | absent => absent
  | _ => cancelled

/-- How far the run in progress has come.  `step` is the number of the step
that it is in. -/
inductive Progress where
  /-- No run has begun. -/
  | idle
  /-- The run takes its next action. -/
  | acting (step : Nat) (run : Run)
  /-- The run is inside an executor call of its own. -/
  | calling (step : Nat) (activity : Activity) (rest : Except ExecutorError Json → Run)
  /-- The run collects the results of started calls, the first of which is job number
  `first`.  While it is `awake` it takes one result after another; otherwise it waits. -/
  | joining (step : Nat) (awake : Bool) (first : Nat) (results : List (Option Json))
      (rest : Except ExecutorError (List Json) → Run)
  | ended (result : Except WorkflowError Outcome)
  /-- An executor panicked inside the run. -/
  | crashed (report : String)

/-- Whether a run has come to its end. -/
def Progress.isOver : Progress → Bool
  | ended _ => true
  | crashed _ => true
  | _ => false

/-- How far a loop has come. -/
inductive LoopPhase where
  | starting
  | running
  | counting
  /-- The pause between two runs; without a time it has no end. -/
  | resting (wake : Option Nat)
  | stopped
  /-- A run crashed, and the loop with it. -/
  | crashed (report : String)

/-- Whether a loop has come to its end. -/
def LoopPhase.isOver : LoopPhase → Bool
  | stopped => true
  | crashed _ => true
  | _ => false

/-- A loop: its pause, its counter, and how far it has come.  The counter begins again at
zero behind its last word. -/
structure Loop where
  pause : Option Nat
  counter : UInt64 := 0
  phase : LoopPhase := .starting

/-- The iterations that a loop shows. -/
def Loop.iterations (l : Loop) : Nat :=
  l.counter.toNat

/-- One thing that happened. -/
inductive Entry where
  | reported (event : Event)
  | traced (name : String) (input : Json)
  | called (executor : Executor) (input : Json)
  | stored (key : String) (value : Json)

/-- What launching a program comes to, from the command and its input. -/
abbrev Host := Command → String → Launched

/-- A workflow with everything that is going on around it. -/
structure World where
  host : Host
  workflow : Workflow
  now : Nat := 0
  token : Token := .absent
  jobs : List Job := []
  progress : Progress := .idle
  loop : Option Loop := none
  /-- What the stores hold that are not the workflow's. -/
  elsewhere : StoreHandle → Store := fun _ => .empty
  /-- What has happened, the latest first. -/
  journal : List Entry := []

namespace World

/-- Notes that something happened. -/
def note (w : World) (e : Entry) : World :=
  { w with journal := e :: w.journal }

/-- Reports an event. -/
def report (w : World) (e : Event) : World :=
  w.note (.reported e)

/-- What the store holds that a handle is on. -/
def storeAt (w : World) (store : StoreHandle) : Store :=
  if store = w.workflow.handle then w.workflow.store else w.elsewhere store

/-- Writes an entry of the store that a handle is on.  What is written to the workflow's
own store is noted. -/
def write (w : World) (store : StoreHandle) (key : String) (value : Json) : World :=
  if store = w.workflow.handle then
    { w with workflow := { w.workflow with store := w.workflow.store.set key value } }.note
      (.stored key value)
  else
    { w with elsewhere := fun other =>
        if other = store then (w.elsewhere store).set key value else w.elsewhere other }

/-- Whether what is going on has been cancelled. -/
def isCancelled (w : World) : Bool :=
  w.token == .cancelled

/-- The reported events, the earliest first. -/
def events (w : World) : List Event :=
  (w.journal.filterMap fun | .reported e => some e | _ => none).reverse

/-- The trace, the earliest call first. -/
def trace (w : World) : List (String × Json) :=
  (w.journal.filterMap fun | .traced name input => some (name, input) | _ => none).reverse

end World
end Workplan
