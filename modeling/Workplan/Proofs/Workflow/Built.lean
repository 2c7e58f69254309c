import Mathlib.Tactic.Lemma
import Workplan.Proofs.Engine.Records
import Workplan.Proofs.Plan.Assembled

/-!
# Workflows as they are built

What several edits of a fresh workflow come to, read off the list of edits and not off the
workflows in between (`Workflow.editAll_fresh`).  The steps are those that are added, in
their order; the handlers of a step are the last ones attached before another step is
added (`Step.leftBy`); a name stands for what was last written under it; and the records
of agents and of the dispatcher could as well be left out.
-/

namespace Workplan

namespace Edit

/-- The step that an edit adds. -/
def step? : Edit → Option Step
  | addStep action description => some { action, description }
  | add action => some { action, description := action.describe }
  | attach _ _ | write _ _ | registerAgent _ | setDispatcher _ | report => none

/-- The handler that an edit attaches on a side. -/
def handler? (side : Side) : Edit → Option Executor
  | attach side' handler => if side' = side then some handler else none
  | _ => none

/-- The value that an edit writes under a name. -/
def value? (key : String) : Edit → Option Json
  | write key' value => if key' = key then some value else none
  | _ => none

/-- The agent that an edit records. -/
def agent? : Edit → Option Executor
  | registerAgent agent => some agent
  | _ => none

/-- The dispatcher that an edit records. -/
def dispatcher? : Edit → Option Executor
  | setDispatcher executor => some executor
  | _ => none

/-- Whether an edit attaches a handler. -/
def isAttach : Edit → Bool
  | attach _ _ => true
  | _ => false

/-- Whether an edit concerns the records only, or nothing at all. -/
def isRecord : Edit → Bool
  | registerAgent _ | setDispatcher _ | report => true
  | _ => false

/-- The handler that edits leave on one side of the step before them: the last one that
they attach there before they add another step. -/
def handlerLeft (side : Side) (edits : List Edit) : Option Executor :=
  ((edits.takeWhile fun e => e.step?.isNone).filterMap (handler? side)).getLast?

end Edit

/-- What the edits that follow a step leave of it. -/
def Step.leftBy (edits : List Edit) (s : Step) : Step :=
  { s with
    onSuccess := (Edit.handlerLeft .onSuccess edits).or s.onSuccess
    onFail := (Edit.handlerLeft .onFail edits).or s.onFail }

/-- The steps that edits add, with their handlers. -/
def Edit.plan : List Edit → List Step
  | [] => []
  | e :: rest =>
    match e.step? with
    | some s => s.leftBy rest :: plan rest
    | none => plan rest

/-! ## Handlers -/

namespace Edit

/-- Once another step is added no handler is left to the step before. -/
lemma handlerLeft_of_step {e : Edit} {s : Step} (h : e.step? = some s) (side : Side)
    (rest : List Edit) :
    handlerLeft side (e :: rest) = none := by
  simp [handlerLeft, h]

/-- Before that the last handler that is attached counts. -/
lemma handlerLeft_of_none {e : Edit} (h : e.step? = none) (side : Side) (rest : List Edit) :
    handlerLeft side (e :: rest) = (handlerLeft side rest).or (e.handler? side) := by
  simp only [handlerLeft, List.takeWhile_cons, h, Option.isNone_none, if_true]
  cases hhandler : e.handler? side with
  | none => rw [List.filterMap_cons_none hhandler, Option.or_none]
  | some handler =>
    rw [List.filterMap_cons_some hhandler, List.getLast?_cons, Option.or_some]

end Edit

namespace Step

lemma leftBy_of_step {e : Edit} {s' : Step} (h : e.step? = some s') (rest : List Edit)
    (s : Step) :
    s.leftBy (e :: rest) = s := by
  simp [leftBy, Edit.handlerLeft_of_step h]

/-- A handler that is attached counts unless another one is attached later. -/
lemma leftBy_attach (side : Side) (handler : Executor) (rest : List Edit) (s : Step) :
    s.leftBy (.attach side handler :: rest) = (s.attach side handler).leftBy rest := by
  have hleft : ∀ side', Edit.handlerLeft side' (.attach side handler :: rest) =
      (Edit.handlerLeft side' rest).or (if side = side' then some handler else none) :=
    fun side' => Edit.handlerLeft_of_none rfl side' rest
  cases side <;> simp [leftBy, hleft, attach]

lemma leftBy_of_other {e : Edit} (hstep : e.step? = none)
    (hhandler : ∀ side, e.handler? side = none) (rest : List Edit) (s : Step) :
    s.leftBy (e :: rest) = s.leftBy rest := by
  simp [leftBy, Edit.handlerLeft_of_none hstep, hhandler]

/-- A step as it is added has no handlers, so that all its handlers are left by
later edits. -/
lemma leftBy_added {e : Edit} {s : Step} (h : e.step? = some s) (edits : List Edit) :
    s.leftBy edits =
      { s with
        onSuccess := Edit.handlerLeft .onSuccess edits
        onFail := Edit.handlerLeft .onFail edits } := by
  cases e with
  | addStep | add =>
    obtain rfl := Option.some.inj h
    simp [leftBy]
  | attach | write | registerAgent | setDispatcher | report => cases h

end Step

namespace Workflow

/-! ## Steps -/

lemma steps_edit_of_step {e : Edit} {s : Step} (h : e.step? = some s) (f : Workflow) :
    (f.edit e).steps = f.steps ++ [s] := by
  cases e with
  | addStep | add =>
    obtain rfl := Option.some.inj h
    rfl
  | attach | write | registerAgent | setDispatcher | report => cases h

lemma steps_edit_of_other {e : Edit} (hstep : e.step? = none)
    (hhandler : ∀ side, e.handler? side = none) (f : Workflow) :
    (f.edit e).steps = f.steps := by
  cases e with
  | addStep | add => cases hstep
  | attach side handler =>
    have hnone := hhandler side
    simp [Edit.handler?] at hnone
  | write | registerAgent | setDispatcher | report => rfl

/-- Where there is a step already, edits change the last one and add others behind it. -/
lemma steps_editAll {f : Workflow} {front : List Step} {s : Step}
    (h : f.steps = front ++ [s]) (edits : List Edit) :
    (f.editAll edits).steps = front ++ s.leftBy edits :: Edit.plan edits := by
  induction edits generalizing f front s with
  | nil => exact h
  | cons e rest ih =>
    show ((f.edit e).editAll rest).steps = _
    cases hstep : e.step? with
    | some s' =>
      have hedit : (f.edit e).steps = (front ++ [s]) ++ [s'] := by
        rw [steps_edit_of_step hstep, h]
      rw [ih hedit, Step.leftBy_of_step hstep, Edit.plan, hstep]
      simp
    | none =>
      rw [Edit.plan, hstep]
      cases e with
      | addStep | add => cases hstep
      | attach side handler =>
        have hedit : (f.edit (.attach side handler)).steps = front ++
            [s.attach side handler] := by
          rw [edit, h, Step.attachLast_append]
        rw [ih hedit, Step.leftBy_attach]
      | write | registerAgent | setDispatcher | report =>
        rw [ih ((steps_edit_of_other hstep (fun _ => rfl) f).trans h),
          Step.leftBy_of_other hstep fun _ => rfl]

/-- Where there is no step yet, all steps are added ones. -/
lemma steps_editAll_of_nil {f : Workflow} (h : f.steps = []) (edits : List Edit) :
    (f.editAll edits).steps = Edit.plan edits := by
  induction edits generalizing f with
  | nil => exact h
  | cons e rest ih =>
    show ((f.edit e).editAll rest).steps = _
    rw [Edit.plan]
    cases hstep : e.step? with
    | some s =>
      have hedit : (f.edit e).steps = [] ++ [s] := by rw [steps_edit_of_step hstep, h]
      exact steps_editAll hedit rest
    | none =>
      refine ih ?_
      cases e with
      | addStep | add => cases hstep
      | attach side handler => rw [edit, h]; rfl
      | write | registerAgent | setDispatcher | report => exact h

end Workflow

/-- The added steps come in the order of the edits that add them. -/
lemma Edit.map_plan (edits : List Edit) :
    ((Edit.plan edits).map fun s => (s.action, s.description)) =
      (edits.filterMap step?).map fun s => (s.action, s.description) := by
  induction edits with
  | nil => rfl
  | cons e rest ih =>
    rw [plan, List.filterMap_cons]
    cases e.step? with
    | none => exact ih
    | some s => exact congrArg ((s.action, s.description) :: ·) ih

/-- A step that is added stands behind those that have been added before it, with the
handlers that the edits behind it leave it. -/
lemma Edit.getElem?_plan {e : Edit} {s : Step} (h : e.step? = some s)
    (before after : List Edit) :
    (Edit.plan (before ++ e :: after))[(before.filterMap step?).length]? =
      some (s.leftBy after) := by
  induction before with
  | nil => simp [plan, h]
  | cons e' rest ih =>
    rw [List.cons_append, plan, List.filterMap_cons]
    cases e'.step? with
    | none => exact ih
    | some s' => simpa using ih

namespace Workflow

/-! ## The store and the records -/

/-- A part of a workflow that each edit either sets or leaves alone is what the last edit
that sets it makes of it, or what it was before. -/
lemma editAll_last {β : Type} (get : Workflow → Option β) (said : Edit → Option β)
    (h : ∀ f e, get (f.edit e) = (said e).or (get f)) (f : Workflow) (edits : List Edit) :
    get (f.editAll edits) = ((edits.filterMap said).getLast?).or (get f) := by
  induction edits generalizing f with
  | nil => rfl
  | cons e rest ih =>
    show get ((f.edit e).editAll rest) = _
    rw [ih, h]
    cases hsaid : said e with
    | none => rw [List.filterMap_cons_none hsaid, Option.none_or]
    | some v =>
      rw [List.filterMap_cons_some hsaid, List.getLast?_cons, Option.some_or,
        Option.or_some, Option.some_or]

/-- A name stands for what was last written under it. -/
lemma get?_editAll (f : Workflow) (edits : List Edit) (key : String) :
    (f.editAll edits).store.get? key = ((edits.filterMap (Edit.value? key)).getLast?).or
      (f.store.get? key) := by
  refine editAll_last (fun f => f.store.get? key) _ (fun f e => ?_) f edits
  cases e with
  | write key' value =>
    by_cases hkey : key' = key
    · subst hkey
      simp [edit, Edit.value?]
    · simp [edit, Edit.value?, hkey, f.store.get?_set_of_ne value (Ne.symm hkey)]
  | addStep | add | attach | registerAgent | setDispatcher | report => rfl

/-- The last dispatcher that is recorded counts. -/
lemma dispatcher_editAll (f : Workflow) (edits : List Edit) :
    (f.editAll edits).dispatcher = ((edits.filterMap Edit.dispatcher?).getLast?).or
      f.dispatcher := by
  refine editAll_last (fun f => f.dispatcher) _ (fun f e => ?_) f edits
  cases e <;> rfl

lemma prompt_editAll (f : Workflow) (edits : List Edit) :
    (f.editAll edits).prompt = f.prompt := by
  induction edits generalizing f with
  | nil => rfl
  | cons e rest ih =>
    refine (ih (f.edit e)).trans ?_
    cases e <;> rfl

/-- Agents are recorded in the order of the edits. -/
lemma agents_editAll (f : Workflow) (edits : List Edit) :
    (f.editAll edits).agents = f.agents ++ edits.filterMap Edit.agent? := by
  induction edits generalizing f with
  | nil => exact (List.append_nil _).symm
  | cons e rest ih =>
    refine (ih (f.edit e)).trans ?_
    cases e with
    | registerAgent agent => simp [edit, Edit.agent?]
    | addStep | add | attach | write | setDispatcher | report => rfl

/-! ## Edits that can be left out -/

/-- Before there is a step, attaching a handler does nothing at all. -/
lemma editAll_without_attach {f : Workflow} (h : f.steps = []) {edits : List Edit}
    (hnone : ∀ e ∈ edits, e.step? = none) :
    f.editAll edits = f.editAll (edits.filter (!·.isAttach)) := by
  induction edits generalizing f with
  | nil => rfl
  | cons e rest ih =>
    rw [List.forall_mem_cons] at hnone
    cases e with
    | addStep | add => cases hnone.1
    | attach side handler =>
      have hedit : f.edit (.attach side handler) = f := by
        rw [edit, h, Step.attachLast, ← h]
      show (f.edit (.attach side handler)).editAll rest = _
      rw [hedit]
      exact ih h hnone.2
    | write | registerAgent | setDispatcher | report => exact ih (f := f.edit _) h hnone.2

/-- Edits of the records, and reports, change nothing but the records. -/
lemma editAll_without_records (f : Workflow) (agents : List Executor)
    (dispatcher : Option Executor) (edits : List Edit) :
    ∃ agents' dispatcher', (f.recorded agents dispatcher).editAll edits =
      (f.editAll (edits.filter (!·.isRecord))).recorded agents' dispatcher' := by
  induction edits generalizing f agents dispatcher with
  | nil => exact ⟨agents, dispatcher, rfl⟩
  | cons e rest ih =>
    cases e with
    | registerAgent agent => exact ih f (agents ++ [agent]) dispatcher
    | setDispatcher executor => exact ih f agents (some executor)
    | report => exact ih f agents dispatcher
    | addStep action description =>
      exact ih (f.edit (.addStep action description)) agents dispatcher
    | add action => exact ih (f.edit (.add action)) agents dispatcher
    | attach side handler => exact ih (f.edit (.attach side handler)) agents dispatcher
    | write key value => exact ih (f.edit (.write key value)) agents dispatcher

/-! ## Fresh workflows -/

/-- The workflow that edits make of a fresh one. -/
def built (c : WorkflowConfig) (edits : List Edit) : Workflow :=
  (ofConfig c).editAll edits

/-- The workflow that edits make of a fresh one, read off the edits.

Its steps are the added ones, in their order.  The handlers of a step are, on each side,
the last one that is attached after the step and before the next one, if there is one;
handlers that are attached before the first step could as well be left out.  A name stands
for what was last written under it, and no other name stands for anything.  The agents are
the recorded ones, in their order, and the dispatcher is the last one.  If all edits of
the agents and of the dispatcher and all reports are left out, the workflow has the same
steps, store and prompt, and whatever life it leads, with them it leads the same. -/
theorem built_reads_edits (c : WorkflowConfig) (edits : List Edit) :
    ((built c edits).steps.map fun s => (s.action, s.description)) =
      ((edits.filterMap Edit.step?).map fun s => (s.action, s.description)) ∧
    (∀ before e after s, edits = before ++ e :: after → e.step? = some s →
      (built c edits).steps[(before.filterMap Edit.step?).length]? =
        some { s with
          onSuccess := Edit.handlerLeft .onSuccess after
          onFail := Edit.handlerLeft .onFail after }) ∧
    (∀ before after, edits = before ++ after → (∀ e ∈ before, e.step? = none) →
      built c edits = built c (before.filter (!·.isAttach) ++ after)) ∧
    (∀ key, (built c edits).store.get? key = (edits.filterMap (Edit.value? key)).getLast?) ∧
    (built c edits).agents = edits.filterMap Edit.agent? ∧
    (built c edits).dispatcher = (edits.filterMap Edit.dispatcher?).getLast? ∧
    (built c edits).prompt = c.prompt ∧
    (built c edits).steps = (built c (edits.filter (!·.isRecord))).steps ∧
    (built c edits).store = (built c (edits.filter (!·.isRecord))).store ∧
    (built c edits).prompt = (built c (edits.filter (!·.isRecord))).prompt ∧
    ∀ (w : World) (hs : List Happening),
      (⟨{ w with workflow := built c edits }, {}⟩ : History).live hs =
        ((⟨{ w with workflow := built c (edits.filter (!·.isRecord)) },
          {}⟩ : History).live hs).map
          (History.recorded (built c edits).agents (built c edits).dispatcher) := by
  have hsteps : (built c edits).steps = Edit.plan edits := steps_editAll_of_nil rfl edits
  -- Without the edits of the records only the records are different.
  obtain ⟨agents, dispatcher, hrecorded⟩ :=
    editAll_without_records (ofConfig c) [] none edits
  have hrest : built c edits = (built c (edits.filter (!·.isRecord))).recorded agents
      dispatcher := hrecorded
  refine ⟨?_, ?_, ?_, fun key => ?_, ?_, ?_, prompt_editAll _ _, ?_, ?_, ?_, fun w hs => ?_⟩
  · rw [hsteps]
    exact Edit.map_plan edits
  · rintro before e after s rfl hadded
    rw [hsteps, Edit.getElem?_plan hadded, Step.leftBy_added hadded]
  · rintro before after rfl hnone
    rw [built, built, editAll_append, editAll_append, editAll_without_attach rfl hnone]
  · rw [built, get?_editAll]
    exact Option.or_none
  · exact agents_editAll _ _
  · rw [built, dispatcher_editAll]
    exact Option.or_none
  · rw [hrest]
    rfl
  · rw [hrest]
    rfl
  · rw [hrest]
    rfl
  · rw [hrest]
    exact History.live_recorded
      ⟨{ w with workflow := built c (edits.filter (!·.isRecord)) }, {}⟩ hs

/-- A handler before the first step, and two on the same side of it with an agent
between them. -/
def overwrittenEdits (first second third : Executor) : List Edit :=
  [.attach .onFail first, .add (.prompt "say"), .attach .onFail second,
    .registerAgent first,
    .attach .onFail third, .write "k" .null, .add (.sequence [first]), .report]

/-- The first step has the later of its two handlers, and none on the other side. -/
theorem built_reads_edits_overwritten :
    (built { name := "overwritten", prompt := none }
      (overwrittenEdits (ExecutorSpec.echo.toExecutor 0)
        ((ExecutorSpec.fail "no").toExecutor 1)
          ((ExecutorSpec.storeSet "k").toExecutor 2))).steps[0]? =
      some { action := .prompt "say", description := "prompt (3 chars)"
             onFail := some ((ExecutorSpec.storeSet "k").toExecutor 2) } := by
  obtain ⟨-, hhandlers, -⟩ := built_reads_edits { name := "overwritten", prompt := none }
    (overwrittenEdits (ExecutorSpec.echo.toExecutor 0)
      ((ExecutorSpec.fail "no").toExecutor 1) ((ExecutorSpec.storeSet "k").toExecutor 2))
  exact hhandlers [.attach .onFail (ExecutorSpec.echo.toExecutor 0)]
    (.add (.prompt "say")) _ _ rfl rfl

end Workflow
end Workplan
