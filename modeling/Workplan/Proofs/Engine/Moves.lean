import Mathlib.Tactic.Lemma
import Workplan.Engine.Transition

/-!
# What a choice leaves alone

A world changes by small choices, and most of them touch little of it.  This file says
once what each kind of choice leaves alone, so that no later proof takes the transition
function apart again:

* an action of a task (`perform_apart`, `advance_apart`) leaves the run in progress where
  it is, starts no executor call, and takes no cancellation back;
* so does every choice that is neither the run's nor the loop's (`take_apart`); whatever
  the choice comes to, it comes of one started call, of the clock or of the token
  (`OutsideMove`);
* where all started calls have ended, such a choice does not change the workflow
(`Quiet.take`).
-/

namespace Workplan

/-- Whether a choice is made by something other than the run in progress and the loop. -/
def Choice.isOutside : Choice → Bool
  | .job _ | .exitOfJob _ | .cancel | .pass _ => true
  | _ => false

namespace World

/-- The executor calls that have been made, the earliest first. -/
def calls (w : World) : List (Executor × Json) :=
  (w.journal.filterMap fun | .called e input => some (e, input) | _ => none).reverse

/-! ## Changes apart from the run -/

/-- A change that leaves the run in progress, the loop and the calls made so far as they
are.  Of the workflow at most the store changes, and a cancellation stays. -/
structure Apart (w w' : World) : Prop where
  progress : w'.progress = w.progress
  loop : w'.loop = w.loop
  calls : w'.calls = w.calls
  workflow : w'.workflow = { w.workflow with store := w'.workflow.store }
  cancelled : w.isCancelled = true → w'.isCancelled = true

theorem Apart.refl (w : World) : Apart w w :=
  ⟨rfl, rfl, rfl, rfl, id⟩

theorem Apart.trans {w₁ w₂ w₃ : World} (h₁ : Apart w₁ w₂) (h₂ : Apart w₂ w₃) :
    Apart w₁ w₃ where
  progress := h₂.progress.trans h₁.progress
  loop := h₂.loop.trans h₁.loop
  calls := h₂.calls.trans h₁.calls
  workflow := by rw [h₂.workflow, h₁.workflow]
  cancelled := fun h => h₂.cancelled (h₁.cancelled h)

@[simp] theorem calls_note_called (w : World) (e : Executor) (input : Json) :
    (w.note (.called e input)).calls = w.calls ++ [(e, input)] := by
  simp [calls, note]

@[simp] theorem calls_report (w : World) (e : Event) : (w.report e).calls = w.calls := by
  simp [calls, report, note]

@[simp] theorem calls_goTo (w : World) (p : Progress) : (w.goTo p).calls = w.calls := rfl

@[simp] theorem calls_start (w : World) (cs : List (Executor × Json)) :
    (w.start cs).calls = w.calls ++ cs := by
  have hcs : (cs.map fun c => Entry.called c.1 c.2).filterMap
      (fun | .called e input => some (e, input) | _ => none) = cs := by
    rw [List.filterMap_map]
    exact List.filterMap_some
  simp only [calls, start, List.filterMap_append, List.filterMap_reverse,
    List.reverse_append, List.reverse_reverse, hcs]

/-- To cancel again changes nothing about being cancelled. -/
lemma isCancelled_cancel (w : World) (h : w.isCancelled = true) :
    ({ w with token := w.token.cancel } : World).isCancelled = true := by
  have ht : w.token = .cancelled := by simpa [isCancelled] using h
  simp [isCancelled, ht, Token.cancel]

/-- What a write comes to: the store is the workflow's own, or it is another one. -/
inductive Written (w : World) (store : StoreHandle) (key : String) (value : Json) :
    World → Prop where
  | own : store = w.workflow.handle → Written w store key value
      ({ w with workflow :=
        { w.workflow with store := w.workflow.store.set key value } }.note
        (.stored key value))
  | elsewhere : store ≠ w.workflow.handle → Written w store key value
      { w with elsewhere := fun other =>
          if other = store then (w.elsewhere store).set key value else w.elsewhere other }

/-- A write goes to the workflow's own store or to another one. -/
theorem written (w : World) (store : StoreHandle) (key : String) (value : Json) :
    Written w store key value (w.write store key value) := by
  unfold write
  split
  · next h => exact .own h
  · next h => exact .elsewhere h

/-- A write leaves the run alone, wherever it goes. -/
lemma Written.apart {w w' : World} {store : StoreHandle} {key : String} {value : Json}
    (h : Written w store key value w') : Apart w w' := by
  cases h with
  | own => exact ⟨rfl, rfl, by simp [calls, note], rfl, id⟩
  | elsewhere => exact ⟨rfl, rfl, rfl, rfl, id⟩

section

variable {w w' : World} {store : StoreHandle} {key : String} {value : Json}

/-- A read of the workflow's own store. -/
@[simp] theorem storeAt_handle (w : World) :
    w.storeAt w.workflow.handle = w.workflow.store :=
  if_pos rfl

/-- A write to the workflow's own store. -/
@[simp] theorem write_handle (w : World) (key : String) (value : Json) :
    w.write w.workflow.handle key value =
      { w with workflow :=
        { w.workflow with store := w.workflow.store.set key value } }.note
        (.stored key value) :=
  if_pos rfl

/-- What is written to a store can be read from it. -/
theorem storeAt_write_self (w : World) (store : StoreHandle) (key : String) (value : Json) :
    (w.write store key value).storeAt store = (w.storeAt store).set key value := by
  by_cases h : store = w.workflow.handle
  · rw [h, write_handle]
    simp [storeAt, note]
  · simp [write, storeAt, h]

/-- What is written to a store is not to be seen in another one. -/
theorem storeAt_write_of_ne (w : World) {store other : StoreHandle}
    (key : String) (value : Json) (hne : other ≠ store) :
    (w.write store key value).storeAt other = w.storeAt other := by
  by_cases h : store = w.workflow.handle
  · rw [h, write_handle]
    simp [storeAt, note, h ▸ hne]
  · simp [write, storeAt, h, hne]

/-- Of a workflow only its store can be written to. -/
theorem workflow_write (w : World) (store : StoreHandle) (key : String) (value : Json) :
    (w.write store key value).workflow =
      { w.workflow with store := (w.write store key value).storeAt w.workflow.handle } := by
  by_cases h : store = w.workflow.handle
  · rw [h, write_handle]
    simp [storeAt, note]
  · simp [write, storeAt, h]

lemma Written.jobs (h : Written w store key value w') : w'.jobs = w.jobs := by
  cases h <;> rfl

theorem Written.token (h : Written w store key value w') : w'.token = w.token := by
  cases h <;> rfl

theorem Written.host (h : Written w store key value w') : w'.host = w.host := by
  cases h <;> rfl

end

/-- An action of a task happens apart from the run. -/
theorem perform_apart (w : World) (t : Task) : Apart w (w.perform t).2 := by
  cases t with
  | finish | panic | read | sleep | launch => exact Apart.refl w
  | write store key value next => exact (w.written store key value).apart
  | cancel next => exact ⟨rfl, rfl, rfl, rfl, isCancelled_cancel w⟩
  | trace name input next => exact ⟨rfl, rfl, by simp [perform, calls, note], rfl, id⟩
  | log event next => exact ⟨rfl, rfl, by simp [perform], rfl, id⟩

@[simp] theorem perform_jobs (w : World) (t : Task) : (w.perform t).2.jobs = w.jobs := by
  cases t with
  | write store key value next => exact (w.written store key value).jobs
  | _ => rfl

/-- Everything that a call can do: it makes the next action of its task, or it
stops waiting. -/
inductive CallMove (w : World) : Activity → Activity → World → Prop where
  | act (t) : CallMove w (.ready t) (w.perform t).1 (w.perform t).2
  | wake {f t} : (Activity.waiting f t).isDue w.now = true →
      CallMove w (.waiting f t) (.ready t) w

/-- A call goes on in one of two ways: it acts, or it wakes. -/
theorem advance_eq_some_iff {w w' : World} {a a' : Activity} :
    w.advance a = some (a', w') ↔ CallMove w a a' w' := by
  constructor
  · intro h
    cases a with
    | ready task =>
      obtain ⟨rfl, rfl⟩ := Prod.mk.inj (Option.some.inj h)
      exact .act task
    | waiting f task =>
      simp only [advance] at h
      split at h
      · next hdue =>
        obtain ⟨rfl, rfl⟩ := Prod.mk.inj (Option.some.inj h)
        exact .wake hdue
      · cases h
    | ended r => cases h
  · rintro (task | hdue)
    · rfl
    · exact if_pos hdue

/-- A call goes on apart from the run, and only if it has not ended. -/
theorem advance_apart {w w' : World} {a a' : Activity} (h : w.advance a = some (a', w')) :
    Apart w w' ∧ w'.jobs = w.jobs ∧ a.isEnded = false := by
  cases advance_eq_some_iff.mp h with
  | act task => exact ⟨perform_apart w task, perform_jobs w task, rfl⟩
  | wake hdue => exact ⟨Apart.refl w, rfl, rfl⟩

/-! ## Choices of the started calls -/

lemma setActivity_apart (w : World) (n : Nat) (job : Job) (a : Activity) :
    Apart w (w.setActivity n job a) :=
  ⟨rfl, rfl, rfl, rfl, id⟩

/-- Only a waiting call waits for a program. -/
theorem eq_waiting_of_awaitsProgram {a : Activity} (h : a.awaitsProgram = true) :
    ∃ task, a = .waiting .program task := by
  unfold Activity.awaitsProgram at h
  split at h
  · exact ⟨_, rfl⟩
  · cases h

theorem isEnded_of_awaitsProgram {a : Activity} (h : a.awaitsProgram = true) :
    a.isEnded = false := by
  obtain ⟨task, rfl⟩ := eq_waiting_of_awaitsProgram h
  rfl

/-- What a started call that acts comes to. -/
theorem take_job {w w' : World} {n : Nat} (h : w.take (.job n) = some w') :
    ∃ job a w₁, w.jobs[n]? = some job ∧ w.advance job.activity = some (a, w₁) ∧
      w' = w₁.setActivity n job a := by
  simp only [take, stepJob] at h
  split at h
  · cases h
  · next job hjob =>
    split at h
    · cases h
    · next a w₁ hadv => exact ⟨job, a, w₁, hjob, hadv, (Option.some.inj h).symm⟩

/-- What the end of a program comes to for which a started call waits. -/
theorem take_exitOfJob {w w' : World} {n : Nat} (h : w.take (.exitOfJob n) = some w') :
    ∃ job, w.jobs[n]? = some job ∧ job.activity.awaitsProgram = true ∧
      w' = w.setActivity n job job.activity.released := by
  simp only [take] at h
  split at h
  · next job hjob =>
    split at h
    · next hawaits => exact ⟨job, hjob, hawaits, (Option.some.inj h).symm⟩
    · cases h
  · cases h

/-- Everything that can happen apart from the run and the loop: a started call acts, a
program ends for which one waits, somebody cancels, or time passes. -/
inductive OutsideMove (w : World) : Choice → World → Prop where
  | act {n job a w₁} : w.jobs[n]? = some job → w.advance job.activity = some (a, w₁) →
      OutsideMove w (.job n) (w₁.setActivity n job a)
  | exit {n job} : w.jobs[n]? = some job → job.activity.awaitsProgram = true →
      OutsideMove w (.exitOfJob n) (w.setActivity n job job.activity.released)
  | cancel : OutsideMove w .cancel { w with token := w.token.cancel }
  | pass (ms) : OutsideMove w (.pass ms) { w with now := w.now + ms }

/-- A choice apart from the run and the loop makes one of these moves. -/
theorem take_outside {w w' : World} {c : Choice} (hc : c.isOutside = true)
    (h : w.take c = some w') :
    OutsideMove w c w' := by
  cases c with
  | job n =>
    obtain ⟨job, a, w₁, hjob, hadv, rfl⟩ := take_job h
    exact .act hjob hadv
  | exitOfJob n =>
    obtain ⟨job, hjob, hawaits, rfl⟩ := take_exitOfJob h
    exact .exit hjob hawaits
  | cancel =>
    obtain rfl := Option.some.inj h
    exact .cancel
  | pass ms =>
    obtain rfl := Option.some.inj h
    exact .pass ms
  | run | collect | exitOfRun | loop => cases hc

/-- A choice that is neither the run's nor the loop's happens apart from the run. -/
theorem take_apart {w w' : World} {c : Choice} (hc : c.isOutside = true)
    (h : w.take c = some w') : Apart w w' := by
  cases take_outside hc h with
  | act _ hadv => exact (advance_apart hadv).1.trans (setActivity_apart _ _ _ _)
  | exit => exact setActivity_apart w _ _ _
  | cancel => exact ⟨rfl, rfl, rfl, rfl, isCancelled_cancel w⟩
  | pass ms => exact ⟨rfl, rfl, rfl, rfl, id⟩

/-- Such a choice starts no call and ends none of the record. -/
theorem take_outside_length {w w' : World} {c : Choice} (hc : c.isOutside = true)
    (h : w.take c = some w') : w'.jobs.length = w.jobs.length := by
  cases take_outside hc h with
  | act _ hadv => simp [setActivity, (advance_apart hadv).2.1]
  | exit => simp [setActivity]
  | cancel | pass => rfl

/-- Apart from the run and the loop, only a started call that acts changes the workflow. -/
theorem take_outside_workflow {w w' : World} {c : Choice} (hc : c.isOutside = true)
    (h : w.take c = some w') (hjob : ∀ n, c ≠ .job n) : w'.workflow = w.workflow := by
  cases take_outside hc h with
  | act => exact absurd rfl (hjob _)
  | exit | cancel | pass => rfl

/-! ## When all started calls have ended -/

/-- All started calls have ended. -/
def Quiet (w : World) : Prop :=
  ∀ job ∈ w.jobs, job.activity.isEnded = true

/-- While all is quiet, nothing outside of the run changes the workflow. -/
theorem Quiet.take {w w' : World} {c : Choice} (h : Quiet w) (hout : c.isOutside = true)
    (htake : w.take c = some w') : Quiet w' ∧ w'.workflow = w.workflow := by
  cases take_outside hout htake with
  | act hjob hadv =>
    exact absurd (h _ (List.mem_of_getElem? hjob)) (by simp [(advance_apart hadv).2.2])
  | exit hjob hawaits =>
    exact absurd (h _ (List.mem_of_getElem? hjob))
      (by simp [isEnded_of_awaitsProgram hawaits])
  | cancel | pass => exact ⟨h, rfl⟩

end World
end Workplan
