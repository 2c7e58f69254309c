import Mathlib.Tactic.Lemma
import Workplan.Workflow.Assembly

/-!
# Assembled workflows

The workflow of a valid plan, said directly and not by edits: one step for each
description, with the handlers that the description names, and the executors of all bodies
as agents (`Plan.assemble_of_valid`).  All executors hold the handle on the store of that
workflow.  The edits of one description amount to one more step
(`Workflow.editAll_edits`), and a valid description always has an action
(`StepSpec.exists_action`).
-/

namespace Workplan

/-! ## Edits -/

/-- A handler is attached to the step that was added last. -/
theorem Step.attachLast_append (side : Side) (handler : Executor) (steps : List Step)
    (s : Step) :
    Step.attachLast side handler (steps ++ [s]) = steps ++ [s.attach side handler] := by
  induction steps with
  | nil => rfl
  | cons head rest ih =>
    cases rest with
    | nil => rfl
    | cons next rest => exact congrArg (head :: ·) ih

namespace Workflow

/-- Edits may be made in two goes. -/
theorem editAll_append (f : Workflow) (es es' : List Edit) :
    f.editAll (es ++ es') = (f.editAll es).editAll es' :=
  List.foldl_append

lemma editAll_registerAgent (f : Workflow) (agents : List Executor) :
    f.editAll (agents.map .registerAgent) = { f with agents := f.agents ++ agents } := by
  induction agents generalizing f with
  | nil => simp [editAll]
  | cons e rest ih =>
    show (f.edit (.registerAgent e)).editAll (rest.map .registerAgent) = _
    rw [ih]
    simp [edit]

lemma editAll_write (f : Workflow) (entries : List (String × Json)) :
    f.editAll (entries.map fun e => .write e.1 e.2) =
      { f with store := f.store.setAll entries } := by
  induction entries generalizing f with
  | nil => rfl
  | cons e rest ih => exact ih _

end Workflow

/-! ## Steps -/

/-- The step that is described, with a known action and with executors numbered from
`first`, which hold a handle on a store. -/
def StepSpec.toStep (store : StoreHandle) (first : Nat) (s : StepSpec) (action : Action) :
    Step where
  action
  description := s.description.getD action.describe
  onSuccess := s.onSuccess.map (·.toExecutor (first + s.bodyExecutors.length) store)
  onFail := s.onFail.map
    (·.toExecutor (first + s.bodyExecutors.length + s.onSuccess.toList.length) store)

/-- The edits for a description add the step that is described, and its executors as
agents. -/
theorem Workflow.editAll_edits (f : Workflow) (store : StoreHandle)
    (first : Nat) (s : StepSpec) (action : Action) :
    f.editAll (s.edits store first action) =
      { f with
        steps := f.steps ++ [s.toStep store first action]
        agents := f.agents ++ action.executors } := by
  obtain ⟨description, onSuccess, onFail, body⟩ := s
  unfold StepSpec.edits
  simp only [editAll_append, editAll_registerAgent]
  cases description <;> cases onSuccess <;> cases onFail <;>
    simp [editAll, edit, addStep, StepSpec.toStep, Step.attachLast_append, Step.attach]

/-- What the body of a description stands for, with executors numbered from `first`, which
hold a handle on a store. -/
inductive StepBody.Means (store : StoreHandle) (first : Nat) :
    StepBody → Action → Prop where
  | prompt (text) : Means store first (.prompt text) (.prompt text)
  | sequence (specs) : Means store first (.sequence specs)
      (.sequence (ExecutorSpec.toExecutors store first specs))
  | parallel (specs) : Means store first (.parallel specs)
      (.parallel (ExecutorSpec.toExecutors store first specs))
  | items (items agent) : Means store first (.iterate (some items) none agent)
      (.iterate (.items items) (agent.toExecutor first store))
  | storeKey (key agent) : Means store first (.iterate none (some key) agent)
      (.iterate (.storeKey key) (agent.toExecutor first store))

theorem StepSpec.means_of_action? {s : StepSpec} {store : StoreHandle}
    {first : Nat} {action : Action} (h : s.action? store first = some action) :
    s.body.Means store first action := by
  unfold action? at h
  split at h
  · next text hbody => obtain rfl := Option.some.inj h; rw [hbody]; exact .prompt text
  · next specs hbody => obtain rfl := Option.some.inj h; rw [hbody]; exact .sequence specs
  · next specs hbody => obtain rfl := Option.some.inj h; rw [hbody]; exact .parallel specs
  · next items agent hbody =>
      obtain rfl := Option.some.inj h; rw [hbody]; exact .items items agent
  · next key agent hbody =>
      obtain rfl := Option.some.inj h; rw [hbody]; exact .storeKey key agent
  · cases h

/-- A description that names one source of items has an action. -/
theorem StepSpec.exists_action {s : StepSpec} (h : s.lacksSource = false)
    (store : StoreHandle) (first : Nat) :
    ∃ action, s.action? store first = some action := by
  obtain ⟨description, onSuccess, onFail, body⟩ := s
  cases body with
  | prompt text | sequence executors | parallel executors => exact ⟨_, rfl⟩
  | iterate items key agent =>
    cases items <;> cases key
    · cases h
    · exact ⟨_, rfl⟩
    · exact ⟨_, rfl⟩
    · cases h

/-- Steps that are described one by one, with executors numbered from `first`, all of
which hold the same handle on a store. -/
inductive Assembled (store : StoreHandle) : Nat → List StepSpec → List Step → Prop where
  | nil {first} : Assembled store first [] []
  | cons {first s action specs steps} : s.action? store first = some action →
      Assembled store (first + s.executors.length) specs steps →
      Assembled store first (s :: specs) (s.toStep store first action :: steps)

/-- Each assembled step has its description. -/
theorem Assembled.exists_spec {store : StoreHandle} {first : Nat} {specs : List StepSpec}
    {steps : List Step} (h : Assembled store first specs steps) {step : Step}
    (hstep : step ∈ steps) :
    ∃ s ∈ specs, ∃ first action,
      s.action? store first = some action ∧ step = s.toStep store first action := by
  induction h with
  | nil => cases hstep
  | @cons first s action specs steps haction _ ih =>
    rcases List.mem_cons.mp hstep with rfl | hrest
    · exact ⟨s, List.mem_cons_self, first, action, haction, rfl⟩
    · obtain ⟨s', hs', hdescribes⟩ := ih hrest
      exact ⟨s', List.mem_cons_of_mem _ hs', hdescribes⟩

namespace Plan

/-- The descriptions of a valid plan are added as steps, whatever the workflow that they
are added to. -/
lemma addSteps_of_valid {specs : List StepSpec} (h : ∀ s ∈ specs, s.lacksSource = false)
    (store : StoreHandle) (number first : Nat) (f : Workflow) :
    ∃ steps, Assembled store first specs steps ∧ addSteps store number first f specs =
      .ok { f with
            steps := f.steps ++ steps
            agents := f.agents ++ steps.flatMap (·.action.executors) } := by
  induction specs generalizing number first f with
  | nil => exact ⟨[], .nil, by simp [addSteps]⟩
  | cons s rest ih =>
    rw [List.forall_mem_cons] at h
    -- The first description is added to the workflow, and the others to what comes of it.
    obtain ⟨action, haction⟩ := StepSpec.exists_action h.1 store first
    obtain ⟨steps, hsteps, hrest⟩ :=
      ih h.2 (number + 1) (first + s.executors.length)
        (f.editAll (s.edits store first action))
    refine ⟨s.toStep store first action :: steps, .cons haction hsteps, ?_⟩
    rw [addSteps, haction]
    dsimp only
    rw [hrest, Workflow.editAll_edits]
    simp [StepSpec.toStep]

/-! ## Plans -/

lemma lacksSource_of_stepViolation? {specs : List StepSpec} {number : Nat}
    (h : stepViolation? number specs = none) : ∀ s ∈ specs, s.lacksSource = false := by
  induction specs generalizing number with
  | nil => simp
  | cons s rest ih =>
    rw [stepViolation?] at h
    split at h
    · cases h
    · next hnone =>
      refine List.forall_mem_cons.mpr ⟨?_, ih h⟩
      cases hlacks : s.lacksSource with
      | true => simp [StepSpec.violation?, hlacks] at hnone
      | false => rfl

/-- In a valid plan every step has a source for its items. -/
theorem lacksSource_of_validate {p : Plan} (h : p.validate = .ok ()) :
    ∀ s ∈ p.steps, s.lacksSource = false := by
  unfold validate at h
  split at h
  · cases h
  · next hnone =>
    unfold violation? at hnone
    split at hnone
    · cases hnone
    · exact lacksSource_of_stepViolation? hnone

/-- The workflow of a valid plan.  Its executors hold the handle that it has itself. -/
theorem assemble_of_valid {p : Plan} (h : p.validate = .ok ()) (handle : StoreHandle) :
    ∃ steps, Assembled handle 0 p.steps steps ∧ p.assemble handle =
      .ok { name := p.name, prompt := p.prompt, handle, steps
            store := .ofEntries p.seed.entries
            agents := steps.flatMap (·.action.executors) } := by
  obtain ⟨steps, hsteps, hadd⟩ := addSteps_of_valid (lacksSource_of_validate h) handle 1 0
    ((Workflow.ofConfig p.config handle).editAll
      (p.seed.entries.map fun e => .write e.1 e.2))
  refine ⟨steps, hsteps, ?_⟩
  rw [assemble, h]
  dsimp only
  rw [show (Workflow.ofConfig p.config handle).handle = handle from rfl, hadd,
    Workflow.editAll_write]
  simp [Workflow.ofConfig, config, Store.ofEntries]

end Plan
end Workplan
