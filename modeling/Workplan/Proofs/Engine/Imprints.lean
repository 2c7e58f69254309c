import Mathlib.Tactic.Lemma
import Workplan.Proofs.Engine.Courses
import Workplan.Proofs.Engine.Prompts

/-!
# Imprints

What a run leaves on its workflow: the prompt of the last prompt step that it reached, and
what it wrote (`Workflow.imprinted`).  If the run waits for plain executors only and its
fan-outs settle, then it never looks at the store, so its writes and its output depend on
the prompt alone.  Each part of a step is shown to leave such an imprint, whatever comes
behind it (`Run.Leaves`), and from the parts the whole run does
(`Workflow.nextRun_imprints`).

Which prompt a run leaves does not depend on anything, since the course of the run does
not (`promptLeft`).  Therefore the second of several runs begins with the prompt with
which it ends, and all later runs do again what the second one has done.  To write the
same again changes nothing, so they find and leave the same workflow
(`Workflow.exists_settled`).
-/

namespace Workplan

/-! ## Stores -/

namespace Store

lemma setAll_append (s : Store) (ws ws' : List (String × Json)) :
    s.setAll (ws ++ ws') = (s.setAll ws).setAll ws' :=
  List.foldl_append

/-- A name stands for what writes to an empty store would leave under it, or for what
it stood for. -/
lemma get?_setAll_or (s : Store) (ws : List (String × Json)) (key : String) :
    (s.setAll ws).get? key = ((ofEntries ws).get? key).or (s.get? key) := by
  induction ws generalizing s with
  | nil => rfl
  | cons e rest ih =>
    have hfirst : (s.set e.1 e.2).get? key = ((empty.set e.1 e.2).get? key).or
        (s.get? key) := by
      by_cases hkey : key = e.1
      · subst hkey
        simp
      · simp [get?_set_of_ne _ _ hkey]
    show ((s.set e.1 e.2).setAll rest).get? key =
      (((empty.set e.1 e.2).setAll rest).get? key).or (s.get? key)
    rw [ih, ih (empty.set e.1 e.2), hfirst, Option.or_assoc]

/-- To write the same once more changes nothing. -/
lemma setAll_setAll (s : Store) (ws : List (String × Json)) :
    (s.setAll ws).setAll ws = s.setAll ws := by
  refine ext_get? fun key => ?_
  rw [get?_setAll_or (s.setAll ws), get?_setAll_or s, ← Option.or_assoc, Option.or_self]

end Store

/-! ## Imprints -/

/-- A workflow after a prompt has been set, if there is one to be set, and entries have
been written. -/
def Workflow.imprinted (f : Workflow) (prompt : Option String)
    (writes : List (String × Json)) : Workflow :=
  { f with prompt := prompt.or f.prompt, store := f.store.setAll writes }

namespace Workflow

variable (f : Workflow) (prompt prompt' : Option String)
  (writes writes' : List (String × Json))

/-- Two imprints, one after the other, amount to one. -/
lemma imprinted_imprinted : (f.imprinted prompt writes).imprinted prompt' writes' =
    f.imprinted (prompt'.or prompt) (writes ++ writes') := by
  simp only [imprinted, Store.setAll_append, Option.or_assoc]

/-- The same imprint once more changes nothing. -/
lemma imprinted_self :
    (f.imprinted prompt writes).imprinted prompt writes = f.imprinted prompt writes := by
  rw [imprinted_imprinted, Option.or_self]
  simp only [imprinted, Store.setAll_append, Store.setAll_setAll]

end Workflow

/-- A plain task writes and comes to something, in the same way whatever the store holds. -/
lemma Task.IsPlain.exists_alone {well : Bool} {t : Task} (h : t.IsPlain well)
    (own : StoreHandle) :
    ∃ writes o, o.isOk = well ∧
      ∀ store, t.alone own store = some (o, Store.setAll store writes) := by
  induction t with
  | finish result => exact ⟨[], result, h, fun _ => rfl⟩
  | write store key value next ih =>
    obtain ⟨writes, o, ho, halone⟩ := ih h
    by_cases hown : store = own
    · refine ⟨(key, value) :: writes, o, ho, fun s => ?_⟩
      rw [Task.alone, if_pos hown]
      exact halone (s.set key value)
    · refine ⟨writes, o, ho, fun s => ?_⟩
      rw [Task.alone, if_neg hown]
      exact halone s
  | sleep ms next ih | trace name input next ih | log event next ih => exact ih h
  | read | panic | launch | cancel => exact h.elim

/-- A part of a run, written with the rest behind it, leaves an imprint with a prompt, and
what it hands on goes well or not as said.  A workflow has no say in what it writes and
hands on, but by the handle on its store. -/
def Run.Leaves (own : StoreHandle) (prompt : Option String) (well : Bool)
    (part : (Except WorkflowError Json → Run) → Run) : Prop :=
  ∃ writes, ∃ o : Except ExecutorError Json, o.isOk = well ∧ ∀ k f, f.handle = own →
    (part k).alone f = (k (o.mapError .executor)).alone (f.imprinted prompt writes)

section

variable {own : StoreHandle} {prompt prompt' : Option String} {well well' : Bool}

/-- A part that does nothing. -/
lemma Run.leaves_nothing (o : Except ExecutorError Json) :
    Run.Leaves own none o.isOk fun k => k (o.mapError .executor) :=
  ⟨[], o, rfl, fun _ _ _ => rfl⟩

/-- One part leads to another that leaves an imprint: so do both together. -/
lemma Run.Leaves.before {part whole : (Except WorkflowError Json → Run) → Run}
    {writes : List (String × Json)} (h : Run.Leaves own prompt' well' part)
    (hwhole : ∀ k f, f.handle = own →
      (whole k).alone f = (part k).alone (f.imprinted prompt writes)) :
    Run.Leaves own (prompt'.or prompt) well' whole := by
  obtain ⟨writes', o, ho, hpart⟩ := h
  refine ⟨writes ++ writes', o, ho, fun k f hf => ?_⟩
  rw [hwhole k f hf, hpart k (f.imprinted prompt writes) hf, Workflow.imprinted_imprinted]

@[simp] theorem Run.alone_log (event : Event) (rest : Run) (f : Workflow) :
    (Run.log event rest).alone f = rest.alone f := rfl

/-- The call of a plain executor. -/
lemma Run.exists_call {e : Executor} (h : e.IsPlain) (own : StoreHandle) (input : Json) :
    ∃ writes o, o.isOk = e.succeeds ∧ ∀ rest f, f.handle = own →
      (Run.call e input rest).alone f = (rest o).alone (f.imprinted none writes) := by
  obtain ⟨writes, o, ho, halone⟩ := (h input).exists_alone own
  refine ⟨writes, o, ho, fun rest f hf => ?_⟩
  subst hf
  rw [Run.alone, halone, Option.bind_some]
  rfl

lemma Run.leaves_chain {executors : List Executor} (h : ∀ e ∈ executors, e.IsPlain)
    (input : Json) :
    Run.Leaves own none (executors.all Executor.succeeds) fun k =>
      Run.chain k executors input := by
  induction executors generalizing input with
  | nil => exact Run.leaves_nothing (.ok input)
  | cons e rest ih =>
    rw [List.forall_mem_cons] at h
    obtain ⟨writes, o, ho, hcall⟩ := Run.exists_call h.1 own input
    rw [List.all_cons, ← ho]
    cases o with
    | ok v => exact (ih h.2 v).before fun k f hf => hcall _ f hf
    | error error =>
      exact (Run.leaves_nothing (.error error)).before fun k f hf => hcall _ f hf

lemma Run.leaves_gather {calls : List (Executor × Json)} {agreed : String → Json}
    (h : ∀ c ∈ calls, (c.1.run c.2).Settles own agreed) :
    Run.Leaves own none true (Run.gather calls) := by
  let names := calls.flatMap fun c => (c.1.run c.2).prospect.names
  let values := calls.map fun c => (c.1.run c.2).prospect.value
  refine ⟨names.map fun name => (name, agreed name), .ok (.arr values),
    rfl, fun k f hf => ?_⟩
  subst hf
  rw [Run.gather, Run.alone, Run.gatherAlone_settles h, Option.bind_some]
  rfl

/-! ## The parts of a step -/

variable {s : Step} {number : Nat}

/-- A plain step leaves its text as the prompt, if it has one, and goes well or not as is
known. -/
lemma Step.leaves_dispatch (hsteady : s.Obeys (steady own) number) (hplain : s.IsPlain)
    (input : Json) :
    Run.Leaves own s.action.text? s.action.succeeds fun k => s.dispatch input k := by
  unfold Step.dispatch
  cases haction : s.action with
  | prompt text => exact ⟨[], .ok (.str text), rfl, fun _ _ _ => rfl⟩
  | sequence executors => exact Run.leaves_chain (hplain.sequence haction) input
  | parallel executors =>
    obtain ⟨agreed, hsettles⟩ := hsteady.parallel executors haction input
    exact Run.leaves_gather hsettles
  | iterate source agent =>
    cases source with
    | items items =>
      obtain ⟨agreed, hsettles⟩ := hsteady.iterate _ agent haction items
      exact Run.leaves_gather hsettles
    | storeKey key => exact absurd haction (hplain.source key agent)

/-- A handler of a failure decides by itself whether the step aborts the run. -/
lemma Step.leaves_recover (hplain : s.IsPlain) (e : ExecutorError) :
    Run.Leaves own none (s.onFail.elim false Executor.succeeds) fun k =>
      s.recover number k (.executor e) := by
  unfold Step.recover
  cases hfail : s.onFail with
  | none => exact Run.leaves_nothing (.error e)
  | some handler =>
    obtain ⟨writes, o, ho, hcall⟩ :=
      Run.exists_call (hplain.onFail handler hfail) own
        (.str (WorkflowError.executor e).message)
    refine ⟨writes, o, ho, fun k f hf => ?_⟩
    simp only [WorkflowError.isAbsorbable, if_true, Run.alone_log, hcall _ f hf]

lemma Step.leaves_conclude (hplain : s.IsPlain) (hwell : s.action.succeeds = true)
    (output : Json) :
    Run.Leaves own none (!s.turn.aborts) fun k => s.conclude number k output := by
  unfold Step.conclude
  cases hsuccess : s.onSuccess with
  | none =>
    have hgoes : s.turn.aborts = false := by simp [Step.turn, hwell, hsuccess]
    rw [hgoes]
    exact Run.leaves_nothing (.ok output)
  | some handler =>
    obtain ⟨writes, o, ho, hcall⟩ :=
      Run.exists_call (hplain.onSuccess handler hsuccess) own output
    cases o with
    | ok v =>
      have hhandler : handler.succeeds = true := ho.symm
      have hgoes : s.turn.aborts = false := by simp [Step.turn, hwell, hsuccess, hhandler]
      rw [hgoes]
      exact (Run.leaves_nothing (.ok v)).before fun k f hf => by
        rw [Run.alone_log, hcall _ f hf]
        rfl
    | error e =>
      have hhandler : handler.succeeds = false := ho.symm
      have haborts : (!s.turn.aborts) = s.onFail.elim false Executor.succeeds := by
        simp [Step.turn, hwell, hsuccess, hhandler]
      rw [haborts]
      exact (Step.leaves_recover hplain e).before fun k f hf => by
        rw [Run.alone_log, hcall _ f hf]

/-- A step leaves its text as the prompt, if it is a prompt step. -/
lemma Step.leaves_run (hsteady : s.Obeys (steady own) number) (hplain : s.IsPlain)
    (input : Json) :
    Run.Leaves own s.action.text? (!s.turn.aborts) fun k => s.run number input k := by
  obtain ⟨writes, o, ho, hdispatch⟩ := Step.leaves_dispatch hsteady hplain input
  cases o with
  | ok output =>
    exact (Step.leaves_conclude hplain ho.symm output).before fun k f hf =>
      hdispatch _ f hf
  | error e =>
    have hwell : s.action.succeeds = false := ho.symm
    have haborts : (!s.turn.aborts) = s.onFail.elim false Executor.succeeds := by
      simp [Step.turn, hwell]
    rw [haborts]
    exact (Step.leaves_recover hplain e).before fun k f hf => hdispatch _ f hf

end

/-! ## Whole runs -/

/-- The text of the last prompt step that a run reaches. -/
def promptLeft : List Step → Option String
  | [] => none
  | s :: rest => (if s.turn.aborts then none else promptLeft rest).or s.action.text?

/-- A run leaves an imprint with a prompt.  A workflow has no say in what the run writes,
but by the handle on its store, and in its result only by what the store holds in which
the run ends. -/
def Run.Imprints (own : StoreHandle) (prompt : Option String) (run : Run) : Prop :=
  ∃ writes, ∃ close : Store → Except WorkflowError Outcome, ∀ f, f.handle = own →
    run.alone f = some (close (f.store.setAll writes), f.imprinted prompt writes)

/-- Plain steps leave what they leave, whatever input they begin with. -/
lemma Run.steps_imprints {own : StoreHandle} {total number : Nat} {steps : List Step}
    (current : Json) (hsteady : ∀ s ∈ steps, ∀ number, s.Obeys (steady own) number)
    (hplain : ∀ s ∈ steps, s.IsPlain) :
    (Run.steps total number steps current).Imprints own (promptLeft steps) := by
  induction steps generalizing number current with
  | nil => exact ⟨[], fun store => .ok ⟨some current, store, total⟩, fun _ _ => rfl⟩
  | cons s rest ih =>
    rw [List.forall_mem_cons] at hsteady hplain
    obtain ⟨writes, o, ho, hrun⟩ := Step.leaves_run (hsteady.1 number) hplain.1 current
    cases o with
    | ok v =>
      have hgoes : s.turn.aborts = false := Bool.not_inj ho.symm
      obtain ⟨writes', close, hrest⟩ := @ih (number + 1) v hsteady.2 hplain.2
      refine ⟨writes ++ writes', close, fun f hf => ?_⟩
      rw [promptLeft, hgoes, if_neg Bool.false_ne_true, ← Workflow.imprinted_imprinted,
        Store.setAll_append]
      exact (hrun _ f hf).trans (hrest _ hf)
    | error e =>
      have haborts : s.turn.aborts = true := Bool.not_inj ho.symm
      refine ⟨writes, fun _ => .error (.executor e), fun f hf => ?_⟩
      rw [promptLeft, haborts, if_pos rfl, Option.none_or]
      exact hrun _ f hf

namespace Workflow

variable {f : Workflow}

theorem nextRun_imprints (hsteady : f.IsSteady) (hplain : ∀ s ∈ f.steps, s.IsPlain) :
    f.nextRun.Imprints f.handle (promptLeft f.steps) := by
  unfold nextRun
  split
  · next hnil =>
    rw [hnil]
    exact ⟨[], fun store => .ok ⟨none, store, 0⟩, fun _ _ => rfl⟩
  · exact Run.steps_imprints _ hsteady hplain

/-- The next run depends on the steps and the prompt. -/
lemma nextRun_congr {f' : Workflow} (hsteps : f.steps = f'.steps)
    (hprompt : f.prompt = f'.prompt) :
    f.nextRun = f'.nextRun := by
  unfold nextRun firstInput
  rw [hsteps, hprompt]

/-- From the second run on, all runs have one result and leave one workflow. -/
theorem exists_settled (hsteady : f.IsSteady) (hplain : ∀ s ∈ f.steps, s.IsPlain) :
    ∃ first result settled, ∀ n, f.alone (n + 2) =
      some (first :: List.replicate (n + 1) result, settled) := by
  obtain ⟨writes₁, close₁, h₁⟩ := nextRun_imprints hsteady hplain
  let f₁ := f.imprinted (promptLeft f.steps) writes₁
  obtain ⟨writes₂, close₂, h₂⟩ := @nextRun_imprints f₁ hsteady hplain
  let f₂ := f₁.imprinted (promptLeft f.steps) writes₂
  have hfirst : f.alone 1 = some ([close₁ f₁.store], f₁) := by
    rw [alone, alone, Option.bind_some, h₁ f rfl]
    rfl
  have hsecond : f₁.nextRun.alone f₁ = some (close₂ f₂.store, f₂) := h₂ f₁ rfl
  -- The second run ends with the prompt with which it began, and to do it again
  -- changes nothing.
  have hagain : f₂.nextRun.alone f₂ = some (close₂ f₂.store, f₂) := by
    have hnext : f₂.nextRun = f₁.nextRun := by
      refine @nextRun_congr f₂ f₁ rfl ?_
      show (promptLeft f.steps).or ((promptLeft f.steps).or f.prompt) =
        (promptLeft f.steps).or f.prompt
      rw [← Option.or_assoc, Option.or_self]
    have hstore : f₂.store.setAll writes₂ = f₂.store := Store.setAll_setAll _ _
    have hf₂ : f₂.imprinted (promptLeft f₁.steps) writes₂ = f₂ := imprinted_self _ _ _
    rw [hnext, h₂ f₂ rfl, hstore, hf₂]
  refine ⟨close₁ f₁.store, close₂ f₂.store, f₂, fun n => ?_⟩
  induction n with
  | zero =>
    rw [alone, hfirst, Option.bind_some, hsecond]
    rfl
  | succ n ih =>
    rw [alone, ih, Option.bind_some, hagain, Option.map_some, List.cons_append,
      ← List.replicate_succ']

end Workflow
end Workplan
