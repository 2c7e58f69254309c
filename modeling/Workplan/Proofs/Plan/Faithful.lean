import Mathlib.Data.List.Perm.Basic
import Mathlib.Tactic.Lemma
import Workplan.Proofs.Engine.Moves
import Workplan.Proofs.Plan.Assembled
import Workplan.Proofs.Plan.Written

/-!
# Faithful assembly

What it means that a plan describes a workflow is said field by field (`Plan.Describes`)
and does not mention how the workflow was built.  The main result,
`Plan.assemble_describes`, is that the workflow of a valid plan is described by it.

The serial numbers carry the identity of executors.  Assembly deals them out in one go:
the executors of all steps, handlers included, are the described ones numbered from zero
(`Assembled.executors_eq`).

The handles carry the identity of stores.  Assembly takes the handle that it hands out
from the workflow while this is still empty, and that it is the handle of the finished
workflow is what makes an executor that writes write to the store of its own workflow, and
to no other, in whatever world it is called (`Executor.Stores`).
-/

namespace Workplan

/-! ## Descriptions -/

/-- An executor is the one that is described and holds the handle on a store, whatever its
serial number. -/
structure ExecutorSpec.Describes (store : StoreHandle) (spec : ExecutorSpec)
    (e : Executor) : Prop where
  name : e.name = spec.executorName
  run : e.run = spec.task store

/-- An action does what the body of a description says, with the executors that are
described there in their order, and with the same text, items or key. -/
inductive StepBody.Describes (store : StoreHandle) : StepBody → Action → Prop where
  | prompt (text) : Describes store (.prompt text) (.prompt text)
  | sequence {specs executors} :
      List.Forall₂ (ExecutorSpec.Describes store) specs executors →
      Describes store (.sequence specs) (.sequence executors)
  | parallel {specs executors} :
      List.Forall₂ (ExecutorSpec.Describes store) specs executors →
      Describes store (.parallel specs) (.parallel executors)
  | items {items spec agent} : ExecutorSpec.Describes store spec agent →
      Describes store (.iterate (some items) none spec) (.iterate (.items items) agent)
  | storeKey {key spec agent} : ExecutorSpec.Describes store spec agent →
      Describes store (.iterate none (some key) spec) (.iterate (.storeKey key) agent)

/-- A step is the one that is described: a handler is there if and only if one is
described. -/
structure StepSpec.Describes (store : StoreHandle) (s : StepSpec) (step : Step) : Prop where
  kind : step.kind = s.kind
  body : s.body.Describes store step.action
  description : step.description = s.description.getD step.action.describe
  onSuccess : Option.Rel (ExecutorSpec.Describes store) s.onSuccess step.onSuccess
  onFail : Option.Rel (ExecutorSpec.Describes store) s.onFail step.onFail

/-- A workflow is the one that is described, and its executors hold the handle on its own
store.  Its agents are the executors of its actions themselves, and no two of its
executors are the same, so that no handler is among the agents. -/
structure Plan.Describes (p : Plan) (f : Workflow) : Prop where
  name : f.name = p.name
  prompt : f.prompt = p.prompt
  store : f.store = p.seed
  steps : List.Forall₂ (StepSpec.Describes f.handle) p.steps f.steps
  agents : f.agents = f.steps.flatMap (·.action.executors)
  distinct : (f.agents ++ f.handlers).Pairwise fun a b => a.same b = false
  dispatcher : f.dispatcher = none

/-- A call of the executor stores its input under a key, in the one store that a handle is
on: whatever workflow it is called for, every other store stays as it is, the workflow
stays the same but for its store, and the call goes on to end with the input. -/
def Executor.Stores (e : Executor) (store : StoreHandle) (key : String) : Prop :=
  ∀ (w : World) (input : Json), ∃ w',
    w.advance (.ready (e.run input)) = some (.ready (.value input), w') ∧
    w'.storeAt store = (w.storeAt store).set key input ∧
    (∀ other, other ≠ store → w'.storeAt other = w.storeAt other) ∧
    w'.workflow = { w.workflow with store := w'.storeAt w.workflow.handle }

/-! ## Executors -/

namespace ExecutorSpec

/-- What is made from a description is described by it. -/
lemma describes_toExecutor (store : StoreHandle) (spec : ExecutorSpec) (serial : Nat) :
    spec.Describes store (spec.toExecutor serial store) :=
  ⟨rfl, rfl⟩

lemma describes_map_toExecutor (store : StoreHandle) (spec? : Option ExecutorSpec)
    (serial : Nat) :
    Option.Rel (Describes store) spec? (spec?.map (·.toExecutor serial store)) := by
  cases spec? with
  | none => exact .none
  | some spec => exact .some (spec.describes_toExecutor store serial)

lemma describes_toExecutors (store : StoreHandle) (specs : List ExecutorSpec)
    (first : Nat) :
    List.Forall₂ (Describes store) specs (toExecutors store first specs) := by
  induction specs generalizing first with
  | nil => exact .nil
  | cons spec rest ih =>
    exact .cons (spec.describes_toExecutor store first) (ih (first + 1))

/-- Numbering goes on across two lists of descriptions. -/
lemma toExecutors_append (store : StoreHandle) (specs specs' : List ExecutorSpec)
    (first : Nat) :
    toExecutors store first (specs ++ specs') =
      toExecutors store first specs ++ toExecutors store (first + specs.length) specs' := by
  induction specs generalizing first with
  | nil => rfl
  | cons spec rest ih =>
    have hlength : first + 1 + rest.length = first + (rest.length + 1) := by omega
    simp only [List.cons_append, toExecutors, ih, List.length_cons, hlength]

lemma toList_map_toExecutor (store : StoreHandle) (spec? : Option ExecutorSpec)
    (first : Nat) :
    (spec?.map (·.toExecutor first store)).toList =
      toExecutors store first spec?.toList := by
  cases spec? <;> rfl

/-- The serial numbers of executors that are made together are consecutive. -/
lemma serials_toExecutors (store : StoreHandle) (specs : List ExecutorSpec) (first : Nat) :
    (toExecutors store first specs).map Executor.serial =
      List.range' first specs.length := by
  induction specs generalizing first with
  | nil => rfl
  | cons spec rest ih =>
    rw [toExecutors, List.map_cons, ih, List.length_cons, List.range'_succ]
    rfl

/-- An executor that is described to write writes to the store that it holds the handle
on. -/
lemma Describes.stores {store : StoreHandle} {key : String} {e : Executor}
    (h : (storeSet key).Describes store e) : e.Stores store key := by
  intro w input
  refine ⟨w.write store key input, ?_, w.storeAt_write_self store key input, ?_, ?_⟩
  · rw [h.run]
    rfl
  · intro other hne
    exact w.storeAt_write_of_ne key input hne
  · exact w.workflow_write store key input

/-- No two descriptions come to the same as one that writes, and neither do two handles. -/
lemma eq_of_task_storeSet {spec : ExecutorSpec} {store other : StoreHandle} {key : String}
    (h : spec.task store = (storeSet key).task other) :
    spec = storeSet key ∧ store = other := by
  have hnull := congrFun h .null
  cases spec with
  | storeSet key' =>
    obtain ⟨rfl, rfl, -⟩ := Task.write.inj hnull
    exact ⟨rfl, rfl⟩
  | echo | template t | command program args | fail message | sleep ms => cases hnull

/-- Of executors that are described one by one, each has its description. -/
theorem exists_spec {store : StoreHandle} {specs : List ExecutorSpec}
    {executors : List Executor} (h : List.Forall₂ (Describes store) specs executors)
    {e : Executor} (he : e ∈ executors) :
    ∃ spec ∈ specs, spec.Describes store e := by
  induction h with
  | nil => cases he
  | @cons spec _ specs _ hspec _ ih =>
    rcases List.mem_cons.mp he with rfl | hrest
    · exact ⟨spec, List.mem_cons_self, hspec⟩
    · obtain ⟨spec', hspec', hdescribes⟩ := ih hrest
      exact ⟨spec', List.mem_cons_of_mem spec hspec', hdescribes⟩

/-- An executor among those that all hold one handle holds no other, if it is
described to write. -/
lemma Describes.handle_eq {store other : StoreHandle} {key : String}
    {specs : List ExecutorSpec} {executors : List Executor} {e : Executor}
    (hall : List.Forall₂ (Describes store) specs executors) (he : e ∈ executors)
    (h : (storeSet key).Describes other e) : store = other := by
  obtain ⟨spec, -, hspec⟩ := exists_spec hall he
  exact (eq_of_task_storeSet (hspec.run.symm.trans h.run)).2

end ExecutorSpec

/-! ## Steps -/

namespace StepBody.Means

variable {store : StoreHandle} {first : Nat} {body : StepBody} {action : Action}

lemma describes (h : body.Means store first action) : body.Describes store action := by
  cases h with
  | prompt text => exact .prompt text
  | sequence specs => exact .sequence (ExecutorSpec.describes_toExecutors store specs first)
  | parallel specs => exact .parallel (ExecutorSpec.describes_toExecutors store specs first)
  | items items agent => exact .items (agent.describes_toExecutor store first)
  | storeKey key agent => exact .storeKey (agent.describes_toExecutor store first)

end StepBody.Means

namespace StepSpec

variable {s : StepSpec} {store : StoreHandle} {first : Nat} {action : Action}

lemma kind_of_action? (h : s.action? store first = some action) : action.kind = s.kind := by
  have hmeans := means_of_action? h
  unfold kind
  generalize s.body = body at hmeans
  cases hmeans <;> rfl

lemma executors_of_action? (h : s.action? store first = some action) :
    action.executors = ExecutorSpec.toExecutors store first s.bodyExecutors := by
  have hmeans := means_of_action? h
  unfold bodyExecutors
  generalize s.body = body at hmeans
  cases hmeans <;> rfl

/-- The step that is made from a description is described by it. -/
lemma describes_toStep (h : s.action? store first = some action) :
    s.Describes store (s.toStep store first action) where
  kind := kind_of_action? h
  body := (means_of_action? h).describes
  description := rfl
  onSuccess := ExecutorSpec.describes_map_toExecutor store s.onSuccess _
  onFail := ExecutorSpec.describes_map_toExecutor store s.onFail _

/-- The executors of a step are numbered in the order in which its description
names them. -/
lemma executors_toStep (h : s.action? store first = some action) :
    (s.toStep store first action).executors =
      ExecutorSpec.toExecutors store first s.executors := by
  have hlength : first + s.bodyExecutors.length + s.onSuccess.toList.length =
      first + (s.bodyExecutors ++ s.onSuccess.toList).length := by
    rw [List.length_append]
    omega
  unfold Step.executors Step.handlers toStep executors
  rw [ExecutorSpec.toExecutors_append, ExecutorSpec.toExecutors_append, ← hlength,
    executors_of_action? h, ExecutorSpec.toList_map_toExecutor,
    ExecutorSpec.toList_map_toExecutor, List.append_assoc]

end StepSpec

/-- The agent executors of a described step are those of its description. -/
lemma StepSpec.Describes.agents {store : StoreHandle} {s : StepSpec} {step : Step}
    (h : s.Describes store step) :
    List.Forall₂ (ExecutorSpec.Describes store) s.bodyExecutors step.action.executors := by
  have hbody := h.body
  unfold bodyExecutors
  generalize s.body = body at hbody
  generalize step.action = action at hbody
  cases hbody with
  | prompt => exact .nil
  | sequence hspecs | parallel hspecs => exact hspecs
  | items hspec | storeKey hspec => exact .cons hspec .nil

namespace Assembled

variable {store : StoreHandle} {first : Nat} {specs : List StepSpec} {steps : List Step}

lemma describes (h : Assembled store first specs steps) :
    List.Forall₂ (StepSpec.Describes store) specs steps := by
  induction h with
  | nil => exact .nil
  | cons haction _ ih => exact .cons (StepSpec.describes_toStep haction) ih

/-- The executors of all steps are those that are described, in their order, with
consecutive numbers. -/
theorem executors_eq (h : Assembled store first specs steps) :
    steps.flatMap Step.executors =
      ExecutorSpec.toExecutors store first (specs.flatMap StepSpec.executors) := by
  induction h with
  | nil => rfl
  | cons haction _ ih =>
    rw [List.flatMap_cons, List.flatMap_cons, ExecutorSpec.toExecutors_append, ih,
      StepSpec.executors_toStep haction]

/-- No two executors are the same, wherever they stand. -/
lemma distinct (h : Assembled store first specs steps) :
    (steps.flatMap (·.action.executors) ++ steps.flatMap Step.handlers).Pairwise fun a b =>
      a.same b = false := by
  have hserials : ((steps.flatMap Step.executors).map Executor.serial).Nodup := by
    rw [h.executors_eq, ExecutorSpec.serials_toExecutors]
    exact List.nodup_range'
  -- Handlers stand behind the agents here and among them there; this does not change
  -- the numbers.
  have hperm := List.flatMap_append_perm steps (fun s => s.action.executors) Step.handlers
  have hnodup := (hperm.map Executor.serial).nodup_iff.mpr hserials
  rw [List.Nodup, List.pairwise_map] at hnodup
  apply hnodup.imp
  intro a b hne
  exact beq_eq_false_iff_ne.mpr hne

end Assembled

/-! ## Plans -/

namespace Plan

/-- A valid plan has a workflow that it describes, with the executors that it names. -/
theorem exists_describes {p : Plan} (h : p.validate = .ok ()) (handle : StoreHandle) :
    ∃ f, p.assemble handle = .ok f ∧ f.handle = handle ∧ p.Describes f ∧
      List.Forall₂ (ExecutorSpec.Describes f.handle) (p.steps.flatMap StepSpec.executors)
        f.executors := by
  obtain ⟨steps, hsteps, hassemble⟩ := assemble_of_valid h handle
  refine ⟨_, hassemble, rfl, ?_, ?_⟩
  · exact {
      name := rfl
      prompt := rfl
      store := Store.ofEntries_entries p.seed
      steps := hsteps.describes
      agents := rfl
      distinct := hsteps.distinct
      dispatcher := rfl }
  · show List.Forall₂ (ExecutorSpec.Describes handle) _ (steps.flatMap Step.executors)
    rw [hsteps.executors_eq]
    exact ExecutorSpec.describes_toExecutors handle _ 0

/-- Assembly is faithful: the workflow of a valid plan is the one that the plan describes,
and it has the handle that it is assembled with.  Whatever handle an executor of it may
hold that is described to write, handlers included, it is the workflow's own: wherever the
executor is called, its input goes to the store of that workflow and to no other store. -/
theorem assemble_describes {p : Plan} (h : p.validate = .ok ()) (handle : StoreHandle) :
    ∃ f, p.assemble handle = .ok f ∧ f.handle = handle ∧ p.Describes f ∧
      List.Forall₂ (ExecutorSpec.Describes f.handle)
        (p.steps.flatMap StepSpec.bodyExecutors) f.agents ∧
      List.Forall₂ (ExecutorSpec.Describes f.handle) (p.steps.flatMap StepSpec.executors)
        f.executors ∧
      ∀ e ∈ f.executors, ∀ key other, (ExecutorSpec.storeSet key).Describes other e →
        other = f.handle ∧ e.Stores f.handle key := by
  obtain ⟨f, hassemble, hhandle, hdescribes, hexecutors⟩ := exists_describes h handle
  have hagents : List.Forall₂ (ExecutorSpec.Describes f.handle)
      (p.steps.flatMap StepSpec.bodyExecutors) f.agents := by
    rw [hdescribes.agents]
    exact List.rel_flatMap hdescribes.steps fun _ _ hstep => hstep.agents
  refine ⟨f, hassemble, hhandle, hdescribes, hagents, hexecutors, ?_⟩
  intro e he key other hkey
  -- Every executor holds the workflow's handle, so this one holds no other.
  obtain rfl := ExecutorSpec.Describes.handle_eq hexecutors he hkey
  exact ⟨rfl, hkey.stores⟩

/-- A plan in which each step has a handler that writes, on one side or the other. -/
def handledPlan : Plan where
  name := "handled"
  prompt := some "x"
  seed := Store.empty.set "k" .null
  steps := [
    ⟨none, none, some (.storeSet "a"), .sequence [.echo, .template "t"]⟩,
    ⟨none, none, none, .prompt "go"⟩,
    ⟨some "each", some (.storeSet "b"), none, .iterate none (some "k") (.fail "no")⟩]

/-- In the workflow of that plan, assembled with handle 3, each handler stands at its own
step and writes to that workflow's store, and the agents are the other executors. -/
theorem assemble_describes_handled :
    handledPlan.validate = .ok () ∧ ∃ f, handledPlan.assemble ⟨3⟩ = .ok f ∧
      handledPlan.Describes f ∧
      f.steps.map (fun s => s.handlers.map (·.name)) =
        [["store_set:a"], [], ["store_set:b"]] ∧
      f.agents.map (·.name) = ["echo", "template", "fail"] ∧
      ∃ a b, f.handlers = [a, b] ∧ a.Stores ⟨3⟩ "a" ∧ b.Stores ⟨3⟩ "b" := by
  have hvalid : handledPlan.validate = .ok () := rfl
  have hview : (handledPlan.assemble ⟨3⟩).toOption.map (fun f =>
      (f.steps.map (fun s => s.handlers.map (·.name)), f.agents.map (·.name), f.handlers)) =
      some ([["store_set:a"], [], ["store_set:b"]], ["echo", "template", "fail"],
        [ExecutorSpec.toExecutor (.storeSet "a") 2 ⟨3⟩,
          ExecutorSpec.toExecutor (.storeSet "b") 4 ⟨3⟩]) :=
    rfl
  obtain ⟨f, hassemble, hhandle, hdescribes, -, -, hstores⟩ := assemble_describes hvalid ⟨3⟩
  rw [hassemble] at hview
  obtain ⟨hnames, hview⟩ := Prod.mk.inj (Option.some.inj hview)
  obtain ⟨hagents, hhandlers⟩ := Prod.mk.inj hview
  -- The handlers are executors of the workflow, so what is said of all of these holds
  -- of the two.
  have hmem : ∀ e ∈ f.handlers, e ∈ f.executors := by
    intro e he
    obtain ⟨s, hs, he⟩ := List.mem_flatMap.mp he
    exact List.mem_flatMap.mpr ⟨s, hs, List.mem_append_right _ he⟩
  rw [hhandlers] at hmem
  rw [hhandle] at hstores
  refine ⟨hvalid, f, hassemble, hdescribes, hnames, hagents, _, _, hhandlers, ?_, ?_⟩
  · exact (hstores _ (hmem _ (by simp)) "a" ⟨3⟩ (ExecutorSpec.describes_toExecutor _ _ _)).2
  · exact (hstores _ (hmem _ (by simp)) "b" ⟨3⟩ (ExecutorSpec.describes_toExecutor _ _ _)).2

end Plan

end Workplan
