import Mathlib.Tactic.Lemma
import Workplan.Proofs.Engine.Imprints
import Workplan.Proofs.Plan.Steady

/-!
# Repeated runs of a plan

A workflow keeps its prompt and its store from one run to the next, so in general every
run finds something else.  If the plan is steady (`Plan.isSteady`) and none of its steps
takes its items from the store (`StepSpec.iteratesKey`), then this comes to an end after
two runs: nothing in such a plan looks at the store, and the prompt with which a run ends
is the same for all runs (`Plan.runs_stabilise`).  What each step comes to, which handlers
it calls and where a run aborts are the same in all runs, also in the first one, although
the data in them is not.
-/

namespace Workplan

/-- Whether a step takes its items from the store. -/
def StepSpec.iteratesKey (s : StepSpec) : Bool :=
  match s.body with
  | .iterate _ (some _) _ => true
  | _ => false

/-- Everything but a command is plain. -/
lemma ExecutorSpec.isPlain {spec : ExecutorSpec} (h : spec.kind ≠ .command) (serial : Nat)
    (store : StoreHandle) : (spec.toExecutor serial store).IsPlain := by
  intro input
  cases spec with
  | command program args => exact absurd rfl h
  | echo | template | fail | sleep | storeSet => exact rfl

namespace StepSpec

variable {s : StepSpec} {store : StoreHandle} {first : Nat} {action : Action}

/-- The executors that a step waits for are described by its description. -/
lemma exists_of_waitedFor (haction : s.action? store first = some action) {e : Executor}
    (he : e ∈ (s.toStep store first action).waitedFor) :
    ∃ spec ∈ s.executors, ∃ serial, e = spec.toExecutor serial store := by
  unfold Step.waitedFor at he
  rw [List.mem_append, List.mem_append] at he
  unfold executors
  rcases he with (hbody | hsuccess) | hfail
  · have hmeans := means_of_action? haction
    generalize hspecs : s.body = body at hmeans
    cases hmeans with
    | sequence specs =>
      obtain ⟨spec, hspec, hserial⟩ := ExecutorSpec.mem_toExecutors hbody
      exact ⟨spec, by simp [bodyExecutors, hspecs, hspec], hserial⟩
    | prompt | parallel | items | storeKey => cases hbody
  · obtain ⟨spec, hspec, rfl⟩ := Option.map_eq_some_iff.mp (Option.mem_toList.mp hsuccess)
    exact ⟨spec, by simp [hspec], _, rfl⟩
  · obtain ⟨spec, hspec, rfl⟩ := Option.map_eq_some_iff.mp (Option.mem_toList.mp hfail)
    exact ⟨spec, by simp [hspec], _, rfl⟩

lemma isPlain_toStep (h : s.isSteady = true) (hkey : s.iteratesKey = false)
    (haction : s.action? store first = some action) :
    (s.toStep store first action).IsPlain := by
  obtain ⟨hcommand, -⟩ := Bool.and_eq_true_iff.mp h
  constructor
  · intro e he
    obtain ⟨spec, hspec, serial, rfl⟩ := exists_of_waitedFor haction he
    exact ExecutorSpec.isPlain
      (of_decide_eq_true (List.all_eq_true.mp hcommand spec hspec)) serial store
  · intro key agent hiterate
    obtain rfl : action = .iterate (.storeKey key) agent := hiterate
    have hmeans := means_of_action? haction
    generalize hbody : s.body = body at hmeans
    cases hmeans with
    | storeKey key agent => simp [iteratesKey, hbody] at hkey

end StepSpec

namespace Plan

variable {p : Plan} {handle : StoreHandle}

/-- The steps of a valid steady plan that takes no items from the store are plain. -/
lemma isPlain_steps (hvalid : p.validate = .ok ()) (hsteady : p.isSteady = true)
    (hitems : ∀ s ∈ p.steps, s.iteratesKey = false) {f : Workflow}
    (hassemble : p.assemble handle = .ok f) :
    ∀ s ∈ f.steps, s.IsPlain := by
  intro step hstep
  obtain ⟨steps, hsteps, hf⟩ := assemble_of_valid hvalid handle
  rw [hassemble] at hf
  obtain rfl := Except.ok.inj hf
  obtain ⟨s, hs, first, action, haction, rfl⟩ := hsteps.exists_spec hstep
  exact StepSpec.isPlain_toStep (List.all_eq_true.mp hsteady s hs) (hitems s hs) haction

/-- Consecutive runs of a valid steady plan that takes no items from the store, on every
schedule that cancels none of them.  There can be any number of them.  All runs from the
second on have one result, and the workflow, with its prompt and its store, is the same
after each of them.  Moreover, whatever runs have come before, the next run can be told in
blocks, one for each step that it reaches, and what becomes of these steps is the same for
every run: which of them fail, which handlers are called, and where the run aborts. -/
theorem runs_stabilise (hvalid : p.validate = .ok ()) (hsteady : p.isSteady = true)
    (hitems : ∀ s ∈ p.steps, s.iteratesKey = false) (handle : StoreHandle) :
    ∃ f result settled, p.assemble handle = .ok f ∧
      ∀ w : World, w.workflow = f → w.jobs = [] → w.loop = none →
        (∀ n, ∃ cs rs v, World.Runs w cs rs v ∧ rs.length = n) ∧
        ∀ cs rs v, World.Runs w cs rs v →
          (∀ i r, rs[i]? = some r → 1 ≤ i → r = result) ∧
          (2 ≤ rs.length → v.workflow = settled) ∧
          ∀ token ds v' r, ({ v with token } : World).begin.follow ds = some v' →
            v'.isCancelled = false → v'.progress = .ended r →
            (∃ blocks, v.workflow.Tells
              (({ v with token } : World).begin.exchanges ds) r blocks) ∧
            ∀ blocks, v.workflow.Tells
              (({ v with token } : World).begin.exchanges ds) r blocks →
              blocks.map Block.turn = course f.steps := by
  obtain ⟨f, hassemble, hf⟩ := isSteady_assemble hvalid hsteady handle
  have hplain : ∀ s ∈ f.steps, s.IsPlain := isPlain_steps hvalid hsteady hitems hassemble
  obtain ⟨first, result, settled, hsettled⟩ := Workflow.exists_settled hf hplain
  refine ⟨f, result, settled, hassemble, ?_⟩
  rintro w rfl hjobs hnone
  have hquiet : w.Quiet := by
    intro job hjob
    rw [hjobs] at hjob
    cases hjob
  refine ⟨World.exists_runs hnone hquiet hf, fun cs rs v hruns => ?_⟩
  obtain ⟨halone, hquiet'⟩ := hruns.alone hnone hquiet hf
  -- Of two runs or more it is known what they come to.
  have hmany : 2 ≤ rs.length →
      rs = first :: List.replicate (rs.length - 1) result ∧ v.workflow = settled := by
    intro hlen
    have hn := hsettled (rs.length - 2)
    rw [Nat.sub_add_cancel hlen, halone,
      show rs.length - 2 + 1 = rs.length - 1 by omega] at hn
    exact Prod.mk.inj (Option.some.inj hn)
  refine ⟨fun i r hr hi => ?_, fun hlen => (hmany hlen).2,
    fun token ds v' r hfollow hlive hend => ?_⟩
  · have hlt : i < rs.length := (List.getElem?_eq_some_iff.mp hr).1
    obtain ⟨j, rfl⟩ : ∃ j, i = j + 1 := ⟨i - 1, by omega⟩
    rw [(hmany (by omega)).1, List.getElem?_cons_succ] at hr
    exact List.eq_of_mem_replicate (List.mem_of_getElem? hr)
  · have hsteps : v.workflow.steps = w.workflow.steps := hruns.setup.steps
    have hloop : .loop ∉ ds :=
      World.follow_without_loop (w := ({ v with token } : World).begin)
        (hruns.loop hnone) hfollow
    have hplain' : ∀ s ∈ v.workflow.steps, s.IsPlain := by rwa [hsteps]
    rw [← hsteps]
    exact World.run_turns (w := { v with token }) hquiet'
      (hruns.isSteady hf) hplain' hloop hfollow hlive hend

/-- A plan whose first run stores another prompt than all later ones; in each run a step
fails and is rescued. -/
def rephrasingPlan : Plan where
  name := "rephrasing"
  prompt := some "once"
  seed := .empty
  steps := [
    ⟨none, none, none, .sequence [.storeSet "said"]⟩,
    ⟨none, some (.fail "unheard"), some .echo, .prompt "again"⟩]

example : (rephrasingPlan.assemble.toOption.bind (·.alone 1)).map (·.2.store.get? "said") =
    some (some (.str "once")) := rfl

example : (rephrasingPlan.assemble.toOption.bind (·.alone 2)).map (·.2.store.get? "said") =
    some (some (.str "again")) := rfl

theorem rephrasing_runs_stabilise :
    rephrasingPlan.validate = .ok () ∧ rephrasingPlan.isSteady = true ∧
      (∀ s ∈ rephrasingPlan.steps, s.iteratesKey = false) ∧
      ∃ f, rephrasingPlan.assemble = .ok f ∧
        ∀ w : World, w.workflow = f → w.jobs = [] → w.loop = none →
          (∃ cs rs v, World.Runs w cs rs v ∧ rs.length = 3) ∧
          ∀ cs first second third v, World.Runs w cs [first, second, third] v →
            third = second := by
  have hvalid : rephrasingPlan.validate = .ok () := rfl
  have hsteady : rephrasingPlan.isSteady = true := rfl
  have hitems : ∀ s ∈ rephrasingPlan.steps, s.iteratesKey = false := by decide
  obtain ⟨f, result, settled, hf, hruns⟩ := runs_stabilise hvalid hsteady hitems {}
  refine ⟨hvalid, hsteady, hitems, f, hf, fun w hw hjobs hnone => ?_⟩
  obtain ⟨hexists, hall⟩ := hruns w hw hjobs hnone
  refine ⟨hexists 3, fun cs first second third v h => ?_⟩
  obtain ⟨hresult, -⟩ := hall cs _ v h
  exact (hresult 2 third rfl (by decide)).trans (hresult 1 second rfl (by decide)).symm

end Plan
end Workplan
