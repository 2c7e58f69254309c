import Workplan.Engine.Transition

/-!
# The orderly schedule

One schedule among all: whoever is acting goes on until it has to wait, a started call
that has not waited yet comes before one that has, the clock moves only when nobody
can act, and then to the next time for which anything is set.  Launched programs end
only when no such time is left.  The schedule is what a single thread with a clock of
its own would do.
-/

namespace Workplan

/-- Up to when a world goes on, and what is set for a time on the clock. -/
structure Watch where
  isDone : World → Bool
  /-- When the run or loop is cancelled. -/
  cancelAt : Option Nat := none
  /-- A time at which the clock has to stop. -/
  alarm : Option Nat := none

namespace World

/-- How far the loop has come, if there is one. -/
def loopPhase? (w : World) : Option LoopPhase :=
  w.loop.map fun l => l.phase

/-- The first started call whose result the run can take. -/
def collectable? (w : World) : Option Nat :=
  match w.progress with
  | .joining _ _ first results _ =>
    (List.range results.length).find? fun i =>
      (results[i]?.any (·.isNone)) && (w.jobEnd? (first + i)).isSome
  | _ => none

/-- What the run or loop does, if it need not wait. -/
def awakeChoice (w : World) : Option Choice :=
  match w.progress, w.loopPhase? with
  | _, some .starting => some .loop
  | _, some .counting => some .loop
  | .ended _, some .running => some .loop
  | .crashed _, some .running => some .loop
  | .acting _ _, _ => some .run
  | .calling _ (.ready _) _, _ => some .run
  | .calling _ (.ended _) _, _ => some .run
  | .joining _ true _ _ _, _ => some ((w.collectable?.map Choice.collect).getD .run)
  | _, _ => none

/-- The first started call of which something holds. -/
def findJob (w : World) (p : Activity → Bool) : Option Nat :=
  w.jobs.findIdx? fun j => p j.activity

/-- What ends the waiting of the run or loop, if anything does. -/
def wakeChoice (w : World) : Option Choice :=
  match w.progress, w.loopPhase? with
  | .calling _ a@(.waiting _ _) _, _ =>
    if w.isCancelled || a.isDue w.now then some .run else none
  | .joining _ false _ _ _, _ =>
    if w.isCancelled then some .run else w.collectable?.map Choice.collect
  | _, some (.resting wake) =>
    if w.isCancelled || wake.any (· ≤ w.now) then some .loop else none
  | _, _ => none

/-- The times for which anything is set. -/
def timers (w : World) (watch : Watch) : List Nat :=
  w.jobs.filterMap (·.activity.timer?)
    ++ (match w.progress with
        | .calling _ a _ => a.timer?.toList
        | _ => [])
    ++ (match w.loopPhase? with
        | some (.resting wake) => wake.toList
        | _ => [])
    -- A cancellation at a set time is still to come as long as the token is live.
    ++ (if w.token == .live then watch.cancelAt.toList else [])
    ++ watch.alarm.toList

/-- The time that passes until the next timer. -/
def nextPass (w : World) (watch : Watch) : Option Choice :=
  ((w.timers watch).filter (w.now < ·)).min?.map fun time => .pass (time - w.now)

/-- A launched program that ends. -/
def programChoice (w : World) : Option Choice :=
  match w.progress with
  | .calling _ (.waiting .program _) _ => some .exitOfRun
  | _ => (w.findJob (·.awaitsProgram)).map .exitOfJob

/-- What happens next; nothing, when all wait for ever. -/
def nextChoice (w : World) (watch : Watch) : Option Choice :=
  -- Who can act does so before anyone is woken, the clock moves only when nobody can act,
  -- and programs end last.
  w.awakeChoice
    <|> ((w.findJob (·.isReady)).map .job)
    <|> ((w.findJob (·.isDue w.now)).map .job)
    <|> w.wakeChoice
    <|> (if w.token == .live && watch.cancelAt.any (· ≤ w.now) then some .cancel else none)
    <|> w.nextPass watch
    <|> w.programChoice

/-- Goes on until the watch is over, nothing can happen any more, or the number of
choices is spent. -/
def settle (watch : Watch) : Nat → World → World
  | 0, w => w
  | fuel + 1, w =>
    if watch.isDone w then w
    else
      match (w.nextChoice watch).bind w.take with
      | none => w
      | some next => settle watch fuel next

/-- More choices than any of the worlds goes through that come to an end. -/
def patience : Nat := 10000000

/-- Lets time pass. -/
def wait (w : World) (ms : Nat) : World :=
  let time := w.now + ms
  w.settle { isDone := fun w => time ≤ w.now, alarm := some time } patience

end World

/-- How a single run may be cancelled. -/
inductive Cancellation where
  /-- Not at all. -/
  | never
  /-- By an executor. -/
  | within
  /-- Before it begins. -/
  | before
  /-- Some time after it begins. -/
  | after (ms : Nat)

namespace World

/-- Lets a run go on to its end. -/
def finishRun (w : World) (run : Run) (token : Token) (cancelAt : Option Nat) : World :=
  { w with token, progress := .acting 0 run }.settle
    { isDone := fun w => w.progress.isOver, cancelAt } patience

/-- Runs the workflow once. -/
def runOnce (w : World) (c : Cancellation) : World :=
  let run := w.workflow.nextRun
  match c with
  | .never => w.finishRun run .absent none
  | .within => w.finishRun run .live none
  | .before => w.finishRun run .cancelled none
  | .after ms => w.finishRun run .live (some (w.now + ms))

/-- Calls one executor, outside any run of the workflow. -/
def callOnce (w : World) (e : Executor) (input : Json) : World :=
  w.finishRun
    (.call e input fun
      | .ok v => .readStore fun store => .finish (.ok ⟨some v, store, 0⟩)
      | .error error => .finish (.error (.executor error)))
    .absent none

/-- Starts a loop. -/
def startLoop (w : World) (pause : Option Nat) : World :=
  { w with token := .live, loop := some { pause } }

/-- Cancels what is going on. -/
def cancelNow (w : World) : World :=
  { w with token := w.token.cancel }

/-- Whether there is no loop that still goes on. -/
def loopIsOver (w : World) : Bool :=
  w.loop.all (·.phase.isOver)

/-- Cancels the loop and waits for its end, for so many choices: the number of iterations,
or its failure.  To have lost patience is no end. -/
def stopWithin (w : World) (choices : Nat) : Except WorkflowError Nat × World :=
  let w := w.cancelNow.settle { isDone := loopIsOver } choices
  match w.loopEnd? with
  | some (.ok (counter, left)) => (.ok counter.toNat, left)
  | some (.error e) => (.error e, w)
  | none => (.error .cancelled, w)

/-- Cancels the loop and waits for its end. -/
def stopLoop (w : World) : Except WorkflowError Nat × World :=
  w.stopWithin patience

end World
end Workplan
