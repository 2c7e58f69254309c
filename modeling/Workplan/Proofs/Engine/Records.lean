import Mathlib.Tactic.Lemma
import Workplan.Proofs.Engine.Ledgers

/-!
# Agents and dispatcher

A workflow keeps two records that no run looks at: its agents and its dispatcher.
Whatever they are, every life of the workflow goes the same way, and they stay what they
are (`History.live_recorded`).
-/

namespace Workplan

/-- The same workflow with other records. -/
def Workflow.recorded (agents : List Executor) (dispatcher : Option Executor)
    (f : Workflow) : Workflow :=
  { f with agents, dispatcher }

/-- The same world with other records in its workflow. -/
def World.recorded (agents : List Executor) (dispatcher : Option Executor) (w : World) :
    World :=
  { w with workflow := w.workflow.recorded agents dispatcher }

/-- The same history with other records in its workflow. -/
def History.recorded (agents : List Executor) (dispatcher : Option Executor)
    (H : History) : History :=
  { H with world := H.world.recorded agents dispatcher }

section

variable {agents : List Executor} {dispatcher : Option Executor}

namespace World

/-- An action of a task does not look at the records. -/
lemma perform_recorded (w : World) (t : Task) :
    (w.recorded agents dispatcher).perform t =
      ((w.perform t).1, (w.perform t).2.recorded agents dispatcher) := by
  cases t with
  | write store key value next =>
    refine congrArg (Prod.mk _) ?_
    show (if store = w.workflow.handle then _ else _ : World) = _
    rw [perform, write]
    split <;> rfl
  | _ => rfl

lemma advance_recorded (w : World) (a : Activity) :
    (w.recorded agents dispatcher).advance a =
      (w.advance a).map fun p => (p.1, p.2.recorded agents dispatcher) := by
  cases a with
  | ready t => exact congrArg some (perform_recorded w t)
  | waiting f t =>
    show (if (Activity.waiting f t).isDue w.now then _ else _) = _
    rw [advance]
    split <;> rfl
  | ended r => rfl

lemma act_recorded (w : World) (step : Nat) (run : Run) :
    (w.recorded agents dispatcher).act step run =
      (w.act step run).recorded agents dispatcher := by
  cases run with
  | enter n rest =>
    show (if w.isCancelled then _ else _) = _
    rw [act]
    split <;> rfl
  | _ => rfl

/-- The run takes no notice of the records. -/
lemma stepRun_recorded (w : World) :
    (w.recorded agents dispatcher).stepRun = w.stepRun.map
      (World.recorded agents dispatcher) := by
  unfold stepRun
  rw [show (w.recorded agents dispatcher).progress = w.progress from rfl,
    show (w.recorded agents dispatcher).isCancelled = w.isCancelled from rfl,
    show (w.recorded agents dispatcher).now = w.now from rfl]
  -- Nothing that a run does depends on the records, so each case is the same computation
  -- on both sides.
  cases w.progress with
  | acting step run => exact congrArg some (act_recorded w step run)
  | calling step activity rest =>
    cases activity with
    | ready t =>
      simp only [perform_recorded]
      rfl
    | waiting f t =>
      dsimp only
      split
      · rfl
      · split <;> rfl
    | ended r => cases r <;> rfl
  | joining step awake first results rest =>
    cases awake with
    | true =>
      dsimp only
      split <;> rfl
    | false =>
      dsimp only
      split <;> rfl
  | idle | ended | crashed => rfl

lemma collect_recorded (w : World) (call : Nat) :
    (w.recorded agents dispatcher).collect call =
      (w.collect call).map (World.recorded agents dispatcher) := by
  have hend : ∀ n, (w.recorded agents dispatcher).jobEnd? n = w.jobEnd? n := fun _ => rfl
  unfold collect
  rw [show (w.recorded agents dispatcher).progress = w.progress from rfl,
    show (w.recorded agents dispatcher).isCancelled = w.isCancelled from rfl]
  split
  · rw [hend]
    split
    · split
      · rfl
      · split <;> rfl
    · rfl
  · rfl

lemma stepLoop_recorded (w : World) :
    (w.recorded agents dispatcher).stepLoop = w.stepLoop.map
      (World.recorded agents dispatcher) := by
  unfold stepLoop
  rw [show (w.recorded agents dispatcher).loop = w.loop from rfl,
    show (w.recorded agents dispatcher).progress = w.progress from rfl,
    show (w.recorded agents dispatcher).isCancelled = w.isCancelled from rfl,
    show (w.recorded agents dispatcher).now = w.now from rfl]
  split
  · rfl
  · split
    · rfl
    · split <;> rfl
    · rfl
    · split
      · rfl
      · split <;> rfl
    · rfl

/-- Every choice goes the same way, whatever the records are. -/
lemma take_recorded (w : World) (c : Choice) :
    (w.recorded agents dispatcher).take c = (w.take c).map
      (World.recorded agents dispatcher) := by
  cases c with
  | run => exact stepRun_recorded w
  | collect call => exact collect_recorded w call
  | job n =>
    simp only [take, stepJob, advance_recorded]
    rw [show (w.recorded agents dispatcher).jobs = w.jobs from rfl]
    cases w.jobs[n]? with
    | none => rfl
    | some job => cases hadv : w.advance job.activity <;> simp only [hadv] <;> rfl
  | exitOfRun =>
    simp only [take]
    rw [show (w.recorded agents dispatcher).progress = w.progress from rfl]
    split <;> rfl
  | exitOfJob n =>
    simp only [take]
    rw [show (w.recorded agents dispatcher).jobs = w.jobs from rfl]
    split
    · split <;> rfl
    · rfl
  | loop => exact stepLoop_recorded w
  | cancel | pass => rfl

end World

namespace History

/-- Whatever happens, it happens just as well with other records, and leaves them
as they are. -/
lemma next_recorded (H : History) (h : Happening) :
    (H.recorded agents dispatcher).next h = (H.next h).map
      (History.recorded agents dispatcher) := by
  cases h with
  | choose c =>
    show ((H.world.recorded agents dispatcher).take c).map _ =
      ((H.world.take c).map _).map _
    rw [World.take_recorded, Option.map_map, Option.map_map]
    rfl
  | run token | startLoop pause =>
    show (if !H.world.progress.isActive && H.world.loopIsOver then _ else _) = _
    rw [next]
    split <;> rfl
  | endLoop =>
    show (if H.world.loopIsOver then _ else _) = _
    rw [next]
    split <;> rfl

/-- A whole life goes the same way, whatever the records are, and leaves them
as they are. -/
theorem live_recorded (H : History) (hs : List Happening) :
    (H.recorded agents dispatcher).live hs = (H.live hs).map
      (History.recorded agents dispatcher) := by
  induction hs generalizing H with
  | nil => rfl
  | cons h rest ih =>
    rw [live, live, next_recorded]
    cases H.next h with
    | none => rfl
    | some H₁ => exact ih H₁

end History

end
end Workplan
