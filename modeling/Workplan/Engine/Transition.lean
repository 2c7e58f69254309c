import Workplan.Engine.World

/-!
# Transitions

How a world goes on.  What happens next is a *choice*: the run, one of the started calls
or the loop takes one small action, a launched program ends, someone cancels, or time
passes.  A choice that cannot be made in a world leads nowhere.  A schedule is a list of
choices, and whatever is claimed about all schedules is claimed about all lists.

A run looks at its cancellation at two places: before it begins a step, and whenever it
goes on after it had to wait inside a step.
-/

namespace Workplan

/-- What may happen next. -/
inductive Choice where
  /-- The run in progress acts. -/
  | run
  /-- The run in progress takes the result of one of its started calls,
  counted from zero. -/
  | collect (call : Nat)
  /-- A started call acts. -/
  | job (number : Nat)
  /-- The program ends that the run itself waits for. -/
  | exitOfRun
  /-- The program ends that a started call waits for. -/
  | exitOfJob (number : Nat)
  /-- The loop acts. -/
  | loop
  /-- The run or loop is cancelled from outside. -/
  | cancel
  /-- Time passes. -/
  | pass (ms : Nat)
deriving DecidableEq

namespace World

/-- One action of a task that is ready: how far the call has come then, and the world. -/
def perform (w : World) : Task → Activity × World
  | .finish result => (.ended (.returned result), w)
  | .panic report => (.ended (.panicked report), w)
  | .read store key next => (.ready (next ((w.storeAt store).get? key)), w)
  | .write store key value next => (.ready next, w.write store key value)
  -- Not to sleep at all is no wait, so that the run does not look at its cancellation.
  | .sleep ms next =>
    (if ms = 0 then .ready next else .waiting (.clock (w.now + ms)) next, w)
  | .launch command stdin next =>
    let launched := w.host command stdin
    -- What cannot be started is known at once.
    (if launched.isStarted then .waiting .program (next launched)
      else .ready (next launched), w)
  | .cancel next => (.ready next, { w with token := w.token.cancel })
  | .trace name input next => (.ready next, w.note (.traced name input))
  | .log event next => (.ready next, w.report event)

/-- One action of a call, if it can act. -/
def advance (w : World) : Activity → Option (Activity × World)
  | .ready task => some (w.perform task)
  | .waiting for_ task =>
    if (Activity.waiting for_ task).isDue w.now then some (.ready task, w) else none
  | .ended _ => none

/-- The same world with the run in progress at another place. -/
def goTo (w : World) (p : Progress) : World :=
  { w with progress := p }

/-- Ends the run because it was cancelled. -/
def endCancelled (w : World) (event : Event) : World :=
  (w.report event).goTo (.ended (.error .cancelled))

/-- Starts calls, as new jobs. -/
def start (w : World) (calls : List (Executor × Json)) : World :=
  { w with
    jobs := w.jobs ++ calls.map fun c => ⟨c.1, c.2, .ready (c.1.run c.2)⟩
    journal := (calls.map fun c => Entry.called c.1 c.2).reverse ++ w.journal }

/-- One action of the run, other than inside a call or among started calls. -/
def act (w : World) (step : Nat) : Run → World
  | .finish result => w.goTo (.ended result)
  | .enter number rest =>
    if w.isCancelled then w.endCancelled (.cancelledBefore number)
    else w.goTo (.acting number rest)
  | .log event rest => (w.report event).goTo (.acting step rest)
  | .setPrompt text rest =>
    { w with workflow := { w.workflow with prompt := some text } }.goTo (.acting step rest)
  | .readStore rest => w.goTo (.acting step (rest w.workflow.store))
  | .call executor input rest =>
    (w.note (.called executor input)).goTo
      (.calling step (.ready (executor.run input)) rest)
  | .fanOut calls rest =>
    (w.start calls).goTo (.joining step true w.jobs.length (calls.map fun _ => none) rest)

/-- The values of all calls, once they are all there. -/
def complete? (results : List (Option Json)) : Option (List Json) :=
  results.mapM id

/-- The next action of the run in progress. -/
def stepRun (w : World) : Option World :=
  match w.progress with
  | .acting step run => some (w.act step run)
  | .calling step (.ended (.returned result)) rest =>
    some (w.goTo (.acting step (rest result)))
  | .calling _ (.ended (.panicked report)) _ => some (w.goTo (.crashed report))
  | .calling step (.ready task) rest =>
    let (activity, w) := w.perform task
    some (w.goTo (.calling step activity rest))
  | .calling step (.waiting for_ task) rest =>
    if w.isCancelled then some (w.endCancelled (.cancelledDuring step))
    else if (Activity.waiting for_ task).isDue w.now then
      some (w.goTo (.calling step (.ready task) rest))
    else none
  -- Awake, the run looks for values before it waits.  Asleep, it is woken by results
  -- (`collect`) or else by its cancellation only.
  | .joining step true first results rest =>
    match complete? results with
    | some values => some (w.goTo (.acting step (rest (.ok values))))
    | none => some (w.goTo (.joining step false first results rest))
  | .joining step false _ _ _ =>
    if w.isCancelled then some (w.endCancelled (.cancelledDuring step)) else none
  | _ => none

/-- How the started call with a number ended, if it has. -/
def jobEnd? (w : World) (number : Nat) : Option CallEnd :=
  match w.jobs[number]? with
  | some ⟨_, _, .ended e⟩ => some e
  | _ => none

/-- Takes the result of a started call that has ended and has not been taken yet. -/
def collect (w : World) (call : Nat) : Option World :=
  match w.progress with
  | .joining step awake first results rest =>
    match results[call]?, w.jobEnd? (first + call) with
    | some none, some result =>
      -- A run that slept looks at its cancellation before it looks at the result
      -- that woke it.
      if !awake && w.isCancelled then some (w.endCancelled (.cancelledDuring step))
      else
        match result with
        | .returned (.ok v) =>
          some (w.goTo (.joining step true first (results.set call (some v)) rest))
        | .returned (.error e) => some (w.goTo (.acting step (rest (.error e))))
        | .panicked report =>
          some (w.goTo (.acting step (rest (.error (.panicked report)))))
    | _, _ => none
  | _ => none

/-- The same world with another activity of a started call. -/
def setActivity (w : World) (number : Nat) (job : Job) (activity : Activity) : World :=
  { w with jobs := w.jobs.set number { job with activity } }

/-- The next action of a started call. -/
def stepJob (w : World) (number : Nat) : Option World :=
  match w.jobs[number]? with
  | none => none
  | some job =>
    match w.advance job.activity with
    | none => none
    | some (activity, w) => some (w.setActivity number job activity)

/-- Begins a run of the workflow. -/
def begin (w : World) : World :=
  w.goTo (.acting 0 w.workflow.nextRun)

/-- The same world with the loop in another phase. -/
def loopTo (w : World) (l : Loop) (phase : LoopPhase) : World :=
  { w with loop := some { l with phase } }

/-- Ends the loop. -/
def endLoop (w : World) (l : Loop) : World :=
  (w.report (.loopStopped w.workflow.name l.iterations)).loopTo l .stopped

/-- The next action of the loop: it begins a run, counts a run that ended in any way but by
cancellation, and rests. -/
def stepLoop (w : World) : Option World :=
  match w.loop with
  | none => none
  | some l =>
    match l.phase with
    | .starting => some ((w.report (.loopStarted w.workflow.name)).begin.loopTo l .running)
    | .running =>
      match w.progress with
      | .ended (.ok outcome) =>
        some
          ((w.report (.iterationFinished w.workflow.name outcome.steps)).loopTo l
            .counting)
      -- A run that was cut short is not counted.
      | .ended (.error .cancelled) => some (w.endLoop l)
      | .ended (.error e) =>
        some ((w.report (.iterationFailed w.workflow.name e.message)).loopTo l .counting)
      | .crashed report => some (w.loopTo l (.crashed report))
      | _ => none
    | .counting =>
      some (w.loopTo { l with counter := l.counter + 1 }
        (.resting (l.pause.map (w.now + ·))))
    | .resting wake =>
      if w.isCancelled then some (w.endLoop l)
      else if wake.any (· ≤ w.now) then some (w.begin.loopTo l .running)
      else none
    | _ => none

/-- What is handed to whoever waits for the end of the loop, once it has come: the counter
and the world that the loop leaves, or its failure. -/
def loopEnd? (w : World) : Option (Except WorkflowError (UInt64 × World)) :=
  match w.loop with
  | some ⟨_, counter, .stopped⟩ => some (.ok (counter, { w with loop := none }))
  | some ⟨_, _, .crashed report⟩ => some (.error (.loopTask (@Abort.panic report)))
  | _ => none

/-- What a choice leads to, if it can be made. -/
def take (w : World) : Choice → Option World
  | .run => w.stepRun
  | .collect call => w.collect call
  | .job number => w.stepJob number
  | .exitOfRun =>
    match w.progress with
    | .calling step (.waiting .program task) rest =>
      some (w.goTo (.calling step (.waiting .nothing task) rest))
    | _ => none
  | .exitOfJob number =>
    match w.jobs[number]? with
    | some job =>
      if job.activity.awaitsProgram then
        some (w.setActivity number job job.activity.released) else none
    | none => none
  | .loop => w.stepLoop
  | .cancel => some { w with token := w.token.cancel }
  | .pass ms => some { w with now := w.now + ms }

/-- What a schedule leads to, if each of its choices can be made. -/
def follow (w : World) : List Choice → Option World
  | [] => some w
  | c :: rest => (w.take c).bind fun w => w.follow rest

end World
end Workplan
