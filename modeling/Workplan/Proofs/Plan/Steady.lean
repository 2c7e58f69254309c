import Mathlib.Tactic.Lemma
import Workplan.Proofs.Engine.Independence
import Workplan.Proofs.Plan.Assembled

/-!
# Steady plans

A plan is steady if nothing in it launches a program and its fan-outs are harmless: the
calls that a parallel step starts echo, fill a template, wait or write their input to the
store, and the agent of an iterate step does one of the first three (`Plan.isSteady`).
The calls of a parallel step have one input, so they agree on what they write, also if
they write under the same names; the calls of an iterate step have different inputs and
must not write.  Links of a sequence and handlers are free to write and to fail.

However the started calls of a steady plan are scheduled, any number of runs has the
results, and leaves the workflow, that the runs have alone (`Plan.steady_runs_agree`).
-/

namespace Workplan

/-- Whether the calls of a step get by without programs and the calls that it starts at
once are harmless. -/
def StepSpec.isSteady (s : StepSpec) : Bool :=
  s.executors.all (fun e => e.kind ≠ .command) &&
    match s.body with
    | .parallel executors =>
      executors.all fun e => e.kind ∈ [.echo, .template, .sleep, .storeSet]
    | .iterate _ _ agent => agent.kind ∈ [.echo, .template, .sleep]
    | .prompt _ | .sequence _ => true

/-- Whether all steps are steady. -/
def Plan.isSteady (p : Plan) : Bool :=
  p.steps.all StepSpec.isSteady

/-! ## Executors -/

namespace ExecutorSpec

/-- Executors are made from descriptions one by one. -/
theorem mem_toExecutors {own : StoreHandle} {specs : List ExecutorSpec}
    {first : Nat} {e : Executor} (h : e ∈ toExecutors own first specs) :
    ∃ spec ∈ specs, ∃ serial, e = spec.toExecutor serial own := by
  induction specs generalizing first with
  | nil => cases h
  | cons spec rest ih =>
    rcases List.mem_cons.mp h with rfl | hrest
    · exact ⟨spec, List.mem_cons_self, first, rfl⟩
    · obtain ⟨spec', hspec', hserial⟩ := ih hrest
      exact ⟨spec', List.mem_cons_of_mem _ hspec', hserial⟩

/-- Everything but a command comes to something by itself. -/
lemma exists_alone {spec : ExecutorSpec} (h : spec.kind ≠ .command) (own : StoreHandle)
    (serial : Nat) (input : Json) (store : Store) :
    ∃ o, ((spec.toExecutor serial own).run input).alone own store = some o := by
  cases spec with
  | command program args => exact absurd rfl h
  | echo | template | fail | sleep | storeSet => exact ⟨_, rfl⟩

/-- What neither launches a program nor fails settles, if what it writes is agreed. -/
lemma settles {spec : ExecutorSpec} (h : spec.kind ∈ [.echo, .template, .sleep, .storeSet])
    {agreed : String → Json} {input : Json}
    (hagreed : spec.kind = .storeSet → ∀ name, agreed name = input) (own : StoreHandle)
    (serial : Nat) : ((spec.toExecutor serial own).run input).Settles own agreed := by
  cases spec with
  | echo | template | sleep => trivial
  | storeSet key => exact ⟨rfl, (hagreed rfl key).symm, trivial⟩
  | command | fail => simp [kind] at h

end ExecutorSpec

/-! ## Steps and plans -/

/-- What a steady description describes makes steady calls, with the handle that its
executors hold. -/
lemma StepSpec.obeys_steady {s : StepSpec} (h : s.isSteady = true) {own : StoreHandle}
    {first : Nat} {action : Action} (haction : s.action? own first = some action)
    (number : Nat) :
    (s.toStep own first action).Obeys (steady own) number := by
  obtain ⟨hcommand, hbody⟩ := Bool.and_eq_true_iff.mp h
  have hcall : ∀ spec ∈ s.executors, ∀ serial input,
      (steady own).call number (spec.toExecutor serial own) input := by
    intro spec hspec serial input store
    have hkind := of_decide_eq_true (List.all_eq_true.mp hcommand spec hspec)
    exact ExecutorSpec.exists_alone hkind own serial input store
  have hbodies : ∀ spec ∈ s.bodyExecutors, spec ∈ s.executors :=
    fun spec hspec => List.mem_append_left _ (List.mem_append_left _ hspec)
  have hsuccess : ∀ spec, s.onSuccess = some spec → spec ∈ s.executors := by
    intro spec hspec
    exact List.mem_append_left _ (List.mem_append_right _ (by simp [hspec]))
  have hfail : ∀ spec, s.onFail = some spec → spec ∈ s.executors := by
    intro spec hspec
    exact List.mem_append_right _ (by simp [hspec])
  have hmeans := means_of_action? haction
  refine ⟨fun executors hsequence e he input => ?_, fun executors hparallel input => ?_,
    fun source agent hiterate items => ?_, fun e he input => ?_, fun e he input => ?_⟩
  · obtain rfl : action = .sequence executors := hsequence
    generalize hspecs : s.body = body at hmeans
    cases hmeans with
    | sequence specs =>
      obtain ⟨spec, hspec, serial, rfl⟩ := ExecutorSpec.mem_toExecutors he
      exact hcall spec (hbodies spec (by rwa [bodyExecutors, hspecs])) serial input
  · obtain rfl : action = .parallel executors := hparallel
    generalize s.body = body at hmeans hbody
    cases hmeans with
    | parallel specs =>
      -- All calls have the same input, and this is what they write.
      refine ⟨fun _ => input, fun c hc => ?_⟩
      obtain ⟨e, he, rfl⟩ := List.mem_map.mp hc
      obtain ⟨spec, hspec, serial, rfl⟩ := ExecutorSpec.mem_toExecutors he
      have hkind := of_decide_eq_true (List.all_eq_true.mp hbody spec hspec)
      exact ExecutorSpec.settles hkind (fun _ _ => rfl) own serial
  · obtain rfl : action = .iterate source agent := hiterate
    -- No call writes, so they agree on anything.
    refine ⟨fun _ => .null, fun c hc => ?_⟩
    obtain ⟨item, -, rfl⟩ := List.mem_map.mp hc
    generalize s.body = body at hmeans hbody
    cases hmeans with
    | items items spec | storeKey key spec =>
      have hkind : spec.kind ∈ [.echo, .template, .sleep] := of_decide_eq_true hbody
      exact ExecutorSpec.settles (List.mem_append_left [.storeSet] hkind)
        (fun hwrites => by rw [hwrites] at hkind; simp at hkind) own first
  · obtain ⟨spec, hspec, rfl⟩ := Option.map_eq_some_iff.mp he
    exact hcall spec (hsuccess spec hspec) _ input
  · obtain ⟨spec, hspec, rfl⟩ := Option.map_eq_some_iff.mp he
    exact hcall spec (hfail spec hspec) _ input

/-- A steady plan, if it is valid, makes a steady workflow. -/
theorem Plan.isSteady_assemble {p : Plan} (hvalid : p.validate = .ok ())
    (hsteady : p.isSteady = true) (handle : StoreHandle) :
    ∃ f, p.assemble handle = .ok f ∧ f.IsSteady := by
  obtain ⟨steps, hsteps, hassemble⟩ := assemble_of_valid hvalid handle
  refine ⟨_, hassemble, fun step hstep number => ?_⟩
  obtain ⟨s, hs, first, action, haction, rfl⟩ := hsteps.exists_spec hstep
  exact StepSpec.obeys_steady (List.all_eq_true.mp hsteady s hs) haction number

/-- The runs of a valid steady plan do not depend on the schedule: there is one list of
`n` results and one workflow that every `n` consecutive runs come to, and they are what
the runs come to alone. -/
theorem Plan.steady_runs_agree {p : Plan} (hvalid : p.validate = .ok ())
    (hsteady : p.isSteady = true) (handle : StoreHandle) (n : Nat) :
    ∃ f results final, p.assemble handle = .ok f ∧ f.alone n = some (results, final) ∧
      ∀ w : World, w.workflow = f → w.jobs = [] → w.loop = none →
        (∃ cs rs w', World.Runs w cs rs w' ∧ rs.length = n) ∧
        ∀ cs rs w', World.Runs w cs rs w' → rs.length = n → rs = results ∧
        w'.workflow = final := by
  obtain ⟨f, hassemble, hf⟩ := isSteady_assemble hvalid hsteady handle
  have hquiet : ∀ w : World, w.jobs = [] → w.Quiet := by
    intro w hjobs job hjob
    rw [hjobs] at hjob
    cases hjob
  -- The runs in any one world say what the runs are in all of them.
  let w₀ : World := { host := fun _ _ => .refused "", workflow := f }
  obtain ⟨cs, rs, w', hruns, hlen⟩ := World.exists_runs (w := w₀) rfl (hquiet w₀ rfl) hf n
  have halone := (hruns.alone rfl (hquiet w₀ rfl) hf).1
  rw [hlen] at halone
  refine ⟨f, rs, w'.workflow, hassemble, halone, ?_⟩
  rintro w rfl hjobs hnone
  refine ⟨World.exists_runs hnone (hquiet w hjobs) hf n, fun cs' rs' v hruns' hlen' => ?_⟩
  have halone' := (hruns'.alone hnone (hquiet w hjobs) hf).1
  rw [hlen', halone] at halone'
  obtain ⟨hrs, hworkflow⟩ := Prod.mk.inj (Option.some.inj halone')
  exact ⟨hrs.symm, hworkflow.symm⟩

/-- A plan that twice writes under one name at once, and then iterates over what it
has written. -/
def sharedKeyPlan : Plan where
  name := "shared key"
  prompt := some "x"
  seed := .empty
  steps := [
    ⟨none, none, none, .parallel [.echo, .sleep 20]⟩,
    ⟨none, none, none, .parallel [.storeSet "k", .sleep 5, .storeSet "k"]⟩,
    ⟨none, none, none, .iterate none (some "k") .echo⟩]

/-- What a run of that plan comes to. -/
def sharedKeyOutcome : Outcome where
  output := some (.arr [.str "x", .str "x"])
  store := Store.empty.set "k" (.arr [.str "x", .str "x"])
  steps := 3

/-- Two runs of that plan come to the same, on all schedules. -/
theorem Plan.sharedKey_runs_agree :
    sharedKeyPlan.validate = .ok () ∧ sharedKeyPlan.isSteady = true ∧
      ∃ f, sharedKeyPlan.assemble = .ok f ∧
        ∀ w : World, w.workflow = f → w.jobs = [] → w.loop = none →
          (∃ cs rs w', World.Runs w cs rs w' ∧ rs.length = 2) ∧
          ∀ cs rs w', World.Runs w cs rs w' → rs.length = 2 →
            rs = [.ok sharedKeyOutcome, .ok sharedKeyOutcome] := by
  have hvalid : sharedKeyPlan.validate = .ok () := rfl
  have hsteady : sharedKeyPlan.isSteady = true := rfl
  have hresults : (sharedKeyPlan.assemble.toOption.bind (·.alone 2)).map Prod.fst =
      some [.ok sharedKeyOutcome, .ok sharedKeyOutcome] := rfl
  obtain ⟨f, results, final, hf, halone, hruns⟩ := steady_runs_agree hvalid hsteady {} 2
  rw [hf, Except.toOption, Option.bind_some, halone, Option.map_some] at hresults
  refine ⟨hvalid, hsteady, f, hf, fun w hw hjobs hnone => ⟨(hruns w hw hjobs hnone).1, ?_⟩⟩
  intro cs rs w' h hlen
  rw [((hruns w hw hjobs hnone).2 cs rs w' h hlen).1]
  exact Option.some.inj hresults

end Workplan
