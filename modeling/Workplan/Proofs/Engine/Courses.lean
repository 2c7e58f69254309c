import Mathlib.Tactic.Lemma
import Workplan.Proofs.Engine.Independence
import Workplan.Proofs.Engine.Protocol

/-!
# Courses

The *course* of a run is its control flow without its data: for each step that is reached
whether it fails, which handlers are called, and whether the run aborts there (`Turn`).

An executor is *plain* if it reads nothing, launches nothing, and either goes well on all
inputs or on none (`Executor.IsPlain`).  Trying a plain executor once, on any input,
tells how all of its calls go (`Executor.succeeds`).  So if a run waits for plain
executors only, and no fan-out of it fails, then its course can be read off its steps
(`course`): neither the prompt nor the store has a say in it (`Follows.turns`).  In a
steady run no fan-out ever fails (`World.Steady.exchanges`), and `World.run_turns` puts
the two together.
-/

namespace Workplan

/-! ## Plain executors -/

/-- A task that reads nothing, launches nothing and cancels nothing, and goes well or
not as said. -/
def Task.IsPlain (well : Bool) : Task → Prop
  | finish result => result.isOk = well
  | write _ _ _ next | sleep _ next | trace _ _ next | log _ next => next.IsPlain well
  | _ => False

/-- Whether a task ends with a value, if it reads nothing, launches nothing and
cancels nothing. -/
def Task.goesWell : Task → Bool
  | finish result => result.isOk
  | write _ _ _ next | sleep _ next | trace _ _ next | log _ next => next.goesWell
  | _ => false

/-- However a plain task ends, it goes as said. -/
lemma Task.IsPlain.endsIn {well : Bool} {t : Task} {result : Except ExecutorError Json}
    (h : t.IsPlain well) (hends : t.EndsIn (.returned result)) : result.isOk = well := by
  induction t with
  | finish r => cases hends; exact h
  | write store key value next ih => cases hends with | write hends => exact ih h hends
  | sleep ms next ih => cases hends with | sleep hends => exact ih h hends
  | trace name input next ih => cases hends with | trace hends => exact ih h hends
  | log event next ih => cases hends with | log hends => exact ih h hends
  | read | panic | launch | cancel => exact h.elim

namespace Executor

/-- Whether an executor goes well when it is tried on null. -/
def succeeds (e : Executor) : Bool :=
  (e.run .null).goesWell

/-- An executor that goes on all inputs as it goes when it is tried, and never looks
at the store. -/
def IsPlain (e : Executor) : Prop :=
  ∀ input, (e.run input).IsPlain e.succeeds

/-- Whether a call of a plain executor goes well is known in advance. -/
lemma IsPlain.gives {e : Executor} {input : Json} {result : Except ExecutorError Json}
    (h : e.IsPlain) (hgives : e.Gives input result) : result.isOk = e.succeeds :=
  (h input).endsIn hgives

end Executor

/-- A step that waits for plain executors only and does not look into the store
for its items. -/
structure Step.IsPlain (s : Step) : Prop where
  waitedFor : ∀ e ∈ s.waitedFor, e.IsPlain
  source : ∀ key agent, s.action ≠ .iterate (.storeKey key) agent

namespace Step.IsPlain

variable {s : Step}

theorem sequence {executors : List Executor} (h : s.IsPlain)
    (haction : s.action = .sequence executors) :
    ∀ e ∈ executors, e.IsPlain :=
  fun e he => h.waitedFor e (by simp [Step.waitedFor, haction, he])

theorem onSuccess (h : s.IsPlain) : ∀ e ∈ s.onSuccess, e.IsPlain :=
  fun e he => h.waitedFor e (by simp [Step.waitedFor, Option.mem_def.mp he])

theorem onFail (h : s.IsPlain) : ∀ e ∈ s.onFail, e.IsPlain :=
  fun e he => h.waitedFor e (by simp [Step.waitedFor, Option.mem_def.mp he])

end Step.IsPlain

/-! ## Turns -/

/-- What becomes of a step, without any data. -/
structure Turn where
  /-- Whether the action went well. -/
  wentWell : Bool
  /-- The success handler, if it was called. -/
  onSuccess : Option Executor
  /-- Whether the action or the success handler failed. -/
  failed : Bool
  /-- The failure handler, if it was called. -/
  onFail : Option Executor
  /-- Whether the run ended with the step. -/
  aborts : Bool

/-- What has become of a step that had a block. -/
def Block.turn (b : Block) : Turn where
  wentWell := b.outcome.isOk
  onSuccess := b.onSuccess.map HandlerCall.handler
  failed := !b.attempt.isOk
  onFail := b.onFail.map HandlerCall.handler
  aborts := !b.output.isOk

/-- Whether an action goes well if its fan-out does. -/
def Action.succeeds : Action → Bool
  | .sequence executors => executors.all Executor.succeeds
  | _ => true

/-- What becomes of a step, as far as its executors tell. -/
def Step.turn (s : Step) : Turn :=
  let wentWell := s.action.succeeds
  let onSuccess := if wentWell then s.onSuccess else none
  let failed := !onSuccess.elim wentWell Executor.succeeds
  let onFail := if failed then s.onFail else none
  { wentWell, onSuccess, failed, onFail,
    aborts := !onFail.elim (!failed) Executor.succeeds }

/-- The turns of steps up to the first that aborts. -/
def course : List Step → List Turn
  | [] => []
  | s :: rest => s.turn :: if s.turn.aborts then [] else course rest

/-! ## The course of a dialogue -/

/-- Links one after the other go well if each of them does. -/
lemma Chained.isOk {executors : List Executor} {input : Json} {t : List Exchange}
    {o : Except WorkflowError Json} (h : Chained executors input t o)
    (hplain : ∀ e ∈ executors, e.IsPlain) :
    o.isOk = executors.all Executor.succeeds := by
  induction h with
  | done input => rfl
  | @next e rest input v t o hgives _ ih =>
    rw [List.forall_mem_cons] at hplain
    have he : e.succeeds = true := (hplain.1.gives hgives).symm
    rw [List.all_cons, he, Bool.true_and]
    exact ih hplain.2
  | @stop e rest input error hgives =>
    rw [List.forall_mem_cons] at hplain
    have he : e.succeeds = false := (hplain.1.gives hgives).symm
    rw [List.all_cons, he]
    rfl

/-- A fan-out that does not fail has an array of values. -/
lemma isOk_gathered {answer : Except ExecutorError (List Json)} {t : List Exchange}
    (h : .gathered answer ∈ t) (hgathers : ∀ e, Exchange.gathered (.error e) ∉ t) :
    (gathered answer).isOk = true := by
  cases answer with
  | ok values => rfl
  | error e => exact absurd h (hgathers e)

/-- So it is known of a step, if nothing that it starts at once fails. -/
lemma Dispatched.isOk {s : Step} {input : Json} {t : List Exchange}
    {o : Except WorkflowError Json} (h : Dispatched s.action input t o) (hplain : s.IsPlain)
    (hgathers : ∀ e, Exchange.gathered (.error e) ∉ t) : o.isOk = s.action.succeeds := by
  generalize haction : s.action = a at h
  cases h with
  | prompt => rfl
  | sequence hc => exact hc.isOk (hplain.sequence haction)
  | parallel | iterate => exact isOk_gathered (by simp) hgathers
  | iterateKey | noItems => exact absurd haction (hplain.source _ _)

namespace HandlerCall

variable {handler : Option Executor} {input : Option Json} {c : Option HandlerCall}

/-- A handler is called if there is an input for it. -/
lemma Made.called (h : Made handler input c) :
    c.map HandlerCall.handler = if input.isSome then handler else none := by
  cases handler with
  | none => obtain rfl := made_none_left.mp h; cases input <;> rfl
  | some e =>
    cases input with
    | none => obtain rfl := made_none_right.mp h; rfl
    | some v =>
      obtain ⟨answer, -, rfl⟩ := made_some.mp h
      rfl

/-- Whether what was there or, in its place, the call of a plain handler went well. -/
lemma Made.isOk (h : Made handler input c) (hplain : ∀ e ∈ handler, e.IsPlain)
    (o : Except WorkflowError Json) :
    (c.elim o HandlerCall.result).isOk =
      (if input.isSome then handler else none).elim o.isOk Executor.succeeds := by
  cases handler with
  | none => obtain rfl := made_none_left.mp h; cases input <;> rfl
  | some e =>
    cases input with
    | none => obtain rfl := made_none_right.mp h; rfl
    | some v =>
      obtain ⟨answer, hgives, rfl⟩ := made_some.mp h
      have he : answer.isOk = e.succeeds := (hplain e rfl).gives hgives
      cases answer <;> exact he

end HandlerCall

/-- The turn of a plain step can be read off it. -/
lemma Block.Fits.turn {s : Step} {input : Json} {b : Block} (h : b.Fits s input)
    (hplain : s.IsPlain) (hgathers : ∀ e, Exchange.gathered (.error e) ∉ b.dispatch) :
    b.turn = s.turn := by
  have hwell : b.outcome.isOk = s.action.succeeds := h.dispatch.isOk hplain hgathers
  have hvalue : b.outcome.toOption.isSome = s.action.succeeds := by
    rw [← hwell]
    cases b.outcome <;> rfl
  have hattempt : b.attempt.isOk = _ := h.onSuccess.isOk hplain.onSuccess b.outcome
  have hfailure : ((failure? b.attempt).map fun e => Json.str e.message).isSome =
      !b.attempt.isOk := by
    cases b.attempt <;> rfl
  have houtput : b.output.isOk = _ := h.onFail.isOk hplain.onFail b.attempt
  rw [hwell, hvalue] at hattempt
  rw [hfailure, hattempt] at houtput
  unfold Block.turn Step.turn
  simp only [h.onSuccess.called, h.onFail.called, hwell, hvalue, hfailure, hattempt,
    houtput, Bool.not_not]

/-- The course of plain steps whose fan-outs do not fail can be read off the steps. -/
theorem Follows.turns {steps : List Step} {current : Json} {bs : List Block}
    {o : Except WorkflowError Json} (h : Follows steps current bs o)
    (hplain : ∀ s ∈ steps, s.IsPlain)
    (hgathers : ∀ e, Exchange.gathered (.error e) ∉ bs.flatMap Block.exchanges) :
    bs.map Block.turn = course steps := by
  have hdispatch : ∀ b ∈ bs, ∀ e, Exchange.gathered (.error e) ∉ b.dispatch :=
    fun b hb e he => hgathers e (List.mem_flatMap.mpr ⟨b, hb, List.mem_append_left _ he⟩)
  clear hgathers
  induction h with
  | done current => rfl
  | @next s rest current b v bs o hfits hv _ ih =>
    rw [List.forall_mem_cons] at hplain hdispatch
    have hturn : b.turn = s.turn := hfits.turn hplain.1 hdispatch.1
    have haborts : s.turn.aborts = false := by rw [← hturn, Block.turn, hv]; rfl
    rw [List.map_cons, course, hturn, haborts, ih hplain.2 hdispatch.2]
    rfl
  | @stop s rest current b e hfits he =>
    rw [List.forall_mem_cons] at hplain hdispatch
    have hturn : b.turn = s.turn := hfits.turn hplain.1 hdispatch.1
    have haborts : s.turn.aborts = true := by rw [← hturn, Block.turn, he]; rfl
    rw [List.map_singleton, course, hturn, haborts]
    rfl

/-! ## The course of a run -/

/-- A dialogue that a run of a workflow has had, and its result, told in blocks: one for
each step up to the first that comes to a failure, which is the result then.  What is left
of the dialogue calls nobody. -/
structure Workflow.Tells (f : Workflow) (xs : List Exchange)
    (r : Except WorkflowError Outcome) (blocks : List Block) : Prop where
  follows : ∃ o, Follows f.steps (f.prompt.elim .null .str) blocks o ∧ ∀ e, r = .error e ↔
    o = .error e
  exchanges : ∃ t, xs = blocks.flatMap Block.exchanges ++ t ∧ t.flatMap Exchange.calls = []

/-- Whatever a workflow can play may be told in blocks. -/
lemma Workflow.exists_tells {f : Workflow} {xs : List Exchange}
    {r : Except WorkflowError Outcome} (h : f.nextRun.Plays xs r) :
    ∃ blocks, f.Tells xs r blocks := by
  by_cases hne : f.steps = []
  · -- Without steps the run only looks at the store.
    have hrun : f.nextRun =
        .log .emptyPlan (.readStore fun store => .finish (.ok ⟨none, store, 0⟩)) := by
      unfold nextRun
      rw [hne]
    rw [hrun, Run.plays_log_iff] at h
    cases h with
    | @readStore _ t _ store h =>
      cases h
      have hfollows : Follows f.steps (f.prompt.elim .null .str) []
          (.ok (f.prompt.elim .null .str)) := by
        rw [hne]
        exact .done _
      exact ⟨[], ⟨_, hfollows, by simp⟩, [.looked store], rfl, rfl⟩
  · rw [World.nextRun_of_steps hne, Run.plays_steps_iff] at h
    obtain ⟨blocks, o, t, hfollows, rfl, hcloses⟩ := h
    cases hcloses with
    | finished v store => exact ⟨blocks, ⟨_, hfollows, by simp⟩, _, rfl, rfl⟩
    | failed e => exact ⟨blocks, ⟨_, hfollows, by simp⟩, _, rfl, rfl⟩

namespace World

variable {w w' : World} {c : Choice} {cs : List Choice}
  {o : Except WorkflowError Outcome × Workflow}

/-- A steady run never gathers a failure. -/
lemma Steady.exchange? (h : Steady o w) (hloop : c ≠ .loop) (htake : w.take c = some w')
    (e : ExecutorError) : w.exchange? c ≠ some (.gathered (.error e)) := by
  intro hx
  rcases take_move hloop htake with hmove | ⟨-, hnone, -⟩
  · rw [hx] at hmove
    have hheads := h.heads
    unfold Heads at hheads
    cases hmove with
    | failure hp hslot hawake hend hfails =>
      rw [hp] at hheads
      obtain ⟨agreed, old, new, rfl, hlen, hsettling, -⟩ := hheads
      exact hsettling.not_fails hlen hslot hend hfails
  · rw [hnone] at hx
    cases hx

theorem Steady.exchanges (h : Steady o w) (hloop : .loop ∉ cs)
    (hfollow : w.follow cs = some w') (hlive : w'.isCancelled = false)
    (e : ExecutorError) : .gathered (.error e) ∉ w.exchanges cs := by
  induction cs generalizing w with
  | nil => simp [World.exchanges]
  | cons c rest ih =>
    obtain ⟨w₁, htake, hrest⟩ := follow_cons hfollow
    have hlive₀ : w.isCancelled = false := follow_live hloop hfollow hlive
    rw [List.mem_cons, not_or] at hloop
    have hc : c ≠ .loop := Ne.symm hloop.1
    rw [exchanges_cons htake, List.mem_append, Option.mem_toList, not_or]
    exact ⟨h.exchange? hc htake e, ih (h.take hc htake hlive₀) hloop.2 hrest⟩

/-- On every schedule, the run of a steady workflow whose steps are plain can be told in
blocks, and however it is told, it takes the course that can be read off the steps. -/
theorem run_turns {r : Except WorkflowError Outcome} (hquiet : w.Quiet)
    (hsteady : w.workflow.IsSteady) (hplain : ∀ s ∈ w.workflow.steps, s.IsPlain)
    (hloop : .loop ∉ cs) (hfollow : w.begin.follow cs = some w')
    (hlive : w'.isCancelled = false) (hend : w'.progress = .ended r) :
    (∃ blocks, w.workflow.Tells (w.begin.exchanges cs) r blocks) ∧
      ∀ blocks, w.workflow.Tells (w.begin.exchanges cs) r blocks →
        blocks.map Block.turn = course w.workflow.steps := by
  constructor
  · have hplays := follow_plays hloop hfollow hlive hend
    cases hplays with
    | acting hplays => exact Workflow.exists_tells hplays
  · rintro blocks ⟨⟨o, hfollows, -⟩, t, ht, -⟩
    obtain ⟨o', -, hbegin⟩ := steady_begin hquiet hsteady
    refine hfollows.turns hplain fun e he => ?_
    apply hbegin.exchanges hloop hfollow hlive e
    rw [ht]
    exact List.mem_append_left t he

end World
end Workplan
