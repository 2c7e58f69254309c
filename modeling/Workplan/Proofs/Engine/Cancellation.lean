import Mathlib.Tactic.Lemma
import Workplan.Proofs.Engine.Protocol

/-!
# Cancellation

A run looks at its cancellation where it *rests*: before it begins a step, and wherever it
waits inside one (`Progress.AtRest`).  A cancelled run that rests makes no further call
and adds nothing to its dialogue; all that it still does is to end as cancelled
(`Halted`).  Started calls may go on, and they alone may still write to the store.

The other way round, a run that nobody cancels never ends as cancelled: no executor and no
handler can bring that about, since every failure that they cause may be absorbed.
-/

namespace Workplan

/-- A run before a step, or waiting inside one. -/
def Progress.AtRest : Progress → Prop
  | acting _ (.enter _ _) => True
  | calling _ (.waiting _ _) _ => True
  | joining _ false _ _ _ => True
  | _ => False

namespace World

/-! ## Halted runs -/

/-- A cancelled run that rests or has ended as cancelled. -/
structure Halted (w : World) : Prop where
  cancelled : w.isCancelled = true
  place : w.progress.AtRest ∨ w.progress = .ended (.error .cancelled)

/-- What a halted run still does: it adds nothing to its dialogue, stays halted, and
leaves the workflow alone. -/
lemma RunMove.halted {w w' : World} {c : Choice} {x : Option Exchange}
    (h : RunMove w c x w') (hw : w.Halted) :
    x = none ∧ w'.Halted ∧ w'.workflow = w.workflow := by
  obtain ⟨hc, hplace⟩ := hw
  have hrest : ∀ p, w.progress = p → p.AtRest ∨ p = .ended (.error .cancelled) :=
    fun p hp => hp ▸ hplace
  cases h with
  | refuse hp | abandon hp | leave hp => exact ⟨rfl, ⟨hc, .inr rfl⟩, rfl⟩
  | exit hp => exact ⟨rfl, ⟨hc, .inl trivial⟩, rfl⟩
  | enter hp hlive | wake hp hlive =>
    rw [hc] at hlive
    cases hlive
  | collect hp hslot hlive | failure hp hslot hlive =>
    -- A run that waits for results leaves as soon as it is woken.
    rcases hlive with rfl | hlive
    · rcases hrest _ hp with h | h <;> cases h
    · rw [hc] at hlive
      cases hlive
  | finish hp | log hp | setPrompt hp | readStore hp | call hp | fanOut hp
  | work hp | answer hp
  | crash hp | gather hp | park hp => rcases hrest _ hp with h | h <;> cases h

lemma take_halted {w w' : World} {c : Choice} (hloop : c ≠ .loop) (h : w.take c = some w')
    (hw : w.Halted) :
    w.exchange? c = none ∧ w'.Halted ∧ ((∀ n, c ≠ .job n) → w'.workflow = w.workflow) := by
  rcases take_move hloop h with hmove | ⟨hout, hx, hapart⟩
  · obtain ⟨hx, hw', hworkflow⟩ := hmove.halted hw
    exact ⟨hx, hw', fun _ => hworkflow⟩
  · refine ⟨hx, ⟨hapart.cancelled hw.cancelled, by rw [hapart.progress]; exact hw.place⟩,
      fun hjob => ?_⟩
    exact take_outside_workflow hout h hjob

/-- A halted run stays halted on every schedule, says nothing more, and keeps the prompt. -/
lemma follow_halted {cs : List Choice} {w w' : World} (hloop : .loop ∉ cs)
    (h : w.follow cs = some w') (hw : w.Halted) :
    w.exchanges cs = [] ∧ w'.Halted ∧
      w'.workflow = { w.workflow with store := w'.workflow.store } := by
  induction cs generalizing w with
  | nil =>
    obtain rfl := Option.some.inj h
    exact ⟨rfl, hw, rfl⟩
  | cons c rest ih =>
    obtain ⟨w₁, htake, hrest⟩ := follow_cons h
    rw [List.mem_cons, not_or] at hloop
    obtain ⟨hx, hw₁, hworkflow⟩ := take_halted (Ne.symm hloop.1) htake hw
    obtain ⟨hxs, hw', hkeeps⟩ := ih hloop.2 hrest hw₁
    refine ⟨by rw [exchanges_cons htake, hx, hxs]; rfl, hw', ?_⟩
    have hstep : w₁.workflow = { w.workflow with store := w₁.workflow.store } := by
      by_cases hjob : ∃ n, c = .job n
      · obtain ⟨n, rfl⟩ := hjob
        exact (take_apart rfl htake).workflow
      · rw [hworkflow fun n hc => hjob ⟨n, hc⟩]
    rw [hkeeps, hstep]

/-- One choice is enough for a halted run to end. -/
lemma Halted.ends {w : World} (hw : w.Halted) :
    w.progress = .ended (.error .cancelled) ∨
      ∃ w', w.take .run = some w' ∧ w'.progress = .ended (.error .cancelled) := by
  obtain ⟨hc, hrest | hended⟩ := hw
  · refine .inr ?_
    -- A run is at rest where it looks at its cancellation next: before a step, in a wait,
    -- or among started calls.
    cases hp : w.progress with
    | acting step run =>
      rw [hp] at hrest
      cases run with
      | enter n rest =>
        have htake : w.take .run = some (w.endCancelled (.cancelledBefore n)) := by
          simp only [take, stepRun, hp, act, hc, if_true]
        exact ⟨_, htake, rfl⟩
      | _ => cases hrest
    | calling step a rest =>
      rw [hp] at hrest
      cases a with
      | waiting f task =>
        have htake : w.take .run = some (w.endCancelled (.cancelledDuring step)) := by
          simp only [take, stepRun, hp, hc, if_true]
        exact ⟨_, htake, rfl⟩
      | _ => cases hrest
    | joining step awake first results rest =>
      rw [hp] at hrest
      cases awake with
      | false =>
        have htake : w.take .run = some (w.endCancelled (.cancelledDuring step)) := by
          simp only [take, stepRun, hp, hc, if_true]
        exact ⟨_, htake, rfl⟩
      | true => cases hrest
    | _ => rw [hp] at hrest; cases hrest
  · exact .inl hended

end World

/-! ## Runs that nobody cancels -/

/-- What a block comes to is never a cancellation. -/
lemma Block.isAbsorbable {s : Step} {input : Json} {b : Block} {e : WorkflowError}
    (hb : b.Fits s input) (ho : b.output = .error e) : e.isAbsorbable = true := by
  have hhandler : ∀ h : HandlerCall, h.result = .error e → e.isAbsorbable = true := by
    rintro ⟨handler, input, answer⟩ h
    cases answer with
    | ok v => cases h
    | error error => obtain rfl := Except.error.inj h; rfl
  unfold Block.output Block.attempt at ho
  cases hfail : b.onFail with
  | some h => rw [hfail] at ho; exact hhandler h ho
  | none =>
    cases hsuccess : b.onSuccess with
    | some h => rw [hfail, hsuccess] at ho; exact hhandler h ho
    | none => rw [hfail, hsuccess] at ho; exact hb.dispatch.isAbsorbable ho

lemma Follows.isAbsorbable {steps : List Step} {current : Json} {bs : List Block}
    {o : Except WorkflowError Json} {e : WorkflowError} (h : Follows steps current bs o)
    (ho : o = .error e) : e.isAbsorbable = true := by
  induction h with
  | done => cases ho
  | next _ _ _ ih => exact ih ho
  | stop hb hout => exact Block.isAbsorbable hb (hout.trans ho)

/-- The tree of a run has no dialogue that ends as cancelled. -/
theorem Workflow.nextRun_not_cancelled {w : Workflow} {t : List Exchange} {r}
    (h : w.nextRun.Plays t r) : r ≠ .error .cancelled := by
  by_cases hne : w.steps = []
  · unfold Workflow.nextRun at h
    rw [hne] at h
    cases h with
    | log h => cases h with | readStore store h => cases h; simp
  · rw [World.nextRun_of_steps hne, Run.plays_steps_iff] at h
    obtain ⟨bs, o, t₂, hf, -, hc⟩ := h
    cases hc with
    | finished => simp
    | failed e =>
      rintro ⟨⟩
      have habsorbable := hf.isAbsorbable rfl
      cases habsorbable

namespace World

/-- Cancellation, on every schedule.  A run of a plan with steps rests before it begins.
Whenever it rests and is cancelled, then whatever happens afterwards it says nothing more,
so it makes no further call; it can only end as cancelled, and one choice is enough for
that; the prompt stays, and whatever is not an action of a started call leaves the whole
workflow as it is.  A run that is not cancelled does not end as cancelled. -/
theorem run_cancelled_iff {w : World} (hnone : w.loop = none) :
    (w.workflow.steps ≠ [] → w.begin.progress.AtRest) ∧
    (∀ cs w₁, w.begin.follow cs = some w₁ → w₁.progress.AtRest → w₁.isCancelled = true →
      ∀ ds w₂, w₁.follow ds = some w₂ →
        w₁.exchanges ds = [] ∧ w₂.calls = w₁.calls ∧
        (w₂.progress.AtRest ∧ (∃ w₃, w₂.take .run = some w₃ ∧
            w₃.progress = .ended (.error .cancelled)) ∨
          w₂.progress = .ended (.error .cancelled)) ∧
        w₂.workflow = { w₁.workflow with store := w₂.workflow.store } ∧
        ∀ c w₃, w₂.take c = some w₃ → (∀ n, c ≠ .job n) → w₃.workflow = w₂.workflow) ∧
    ∀ cs w₁, w.begin.follow cs = some w₁ → w₁.isCancelled = false →
      w₁.progress ≠ .ended (.error .cancelled) := by
  refine ⟨fun hne => ?_, fun cs w₁ hfollow hrest hc ds w₂ hfollow₂ => ?_,
    fun cs w₁ hfollow hlive hend => ?_⟩
  · show (Progress.acting 0 w.workflow.nextRun).AtRest
    rw [nextRun_of_steps hne]
    cases hsteps : w.workflow.steps with
    | nil => exact absurd hsteps hne
    | cons s rest => trivial
  · have hboth : w.begin.follow (cs ++ ds) = some w₂ := by
      rw [follow_append, hfollow]
      exact hfollow₂
    have hloop := follow_without_loop (w := w.begin) hnone hboth
    rw [List.mem_append, not_or] at hloop
    obtain ⟨hxs, hw₂, hkeeps⟩ := follow_halted hloop.2 hfollow₂ ⟨hc, .inl hrest⟩
    have hcalls : w₂.calls = w₁.calls := by
      rw [follow_calls hloop.2 hfollow₂, hxs]
      exact List.append_nil _
    refine ⟨hxs, hcalls, ?_, hkeeps, fun c w₃ htake hjob => ?_⟩
    · rcases hw₂.place with hrest₂ | hended
      · refine .inl ⟨hrest₂, hw₂.ends.resolve_left fun hended => ?_⟩
        rw [hended] at hrest₂
        exact hrest₂
      · exact .inr hended
    · have hall : w.begin.follow (cs ++ ds ++ [c]) = some w₃ := by
        rw [follow_append, hboth, Option.bind_some, follow, htake]
        rfl
      have hc : c ≠ .loop := by
        rintro rfl
        exact follow_without_loop (w := w.begin) hnone hall (by simp)
      exact (take_halted hc htake hw₂).2.2 hjob
  · have hloop := follow_without_loop (w := w.begin) hnone hfollow
    have hplays := follow_plays hloop hfollow hlive hend
    cases hplays with
    | acting hplays => exact Workflow.nextRun_not_cancelled hplays rfl

/-- A world with one step, which waits, and a failure handler; its run can be cancelled. -/
def sleepyWorld : World where
  host := fun _ _ => .refused "no program"
  token := .live
  workflow :=
    { name := "sleepy", prompt := none
      steps := [
        { action := .sequence [(ExecutorSpec.sleep 5).toExecutor 0], description := "sleep"
          onFail := some (ExecutorSpec.echo.toExecutor 1) }] }

/-- The run is cancelled while its step sleeps. -/
theorem run_cancelled_asleep :
    ∃ w₁ w₂, sleepyWorld.begin.follow [.run, .run, .run, .run, .cancel] = some w₁ ∧
      w₁.progress.AtRest ∧ w₁.isCancelled = true ∧ w₁.follow [.pass 5, .run] = some w₂ ∧
      w₁.exchanges [.pass 5, .run] = [] ∧ w₂.calls = w₁.calls ∧
      w₂.progress = .ended (.error .cancelled) := by
  obtain ⟨w₁, hfollow, hrest, hc, w₂, hfollow₂, hawake⟩ :
      ∃ w₁, sleepyWorld.begin.follow [.run, .run, .run, .run, .cancel] = some w₁ ∧
        w₁.progress.AtRest ∧ w₁.isCancelled = true ∧
        ∃ w₂, w₁.follow [.pass 5, .run] = some w₂ ∧ ¬ w₂.progress.AtRest :=
    ⟨_, rfl, trivial, rfl, _, rfl, fun h => h⟩
  obtain ⟨-, hhalts, -⟩ := run_cancelled_iff (w := sleepyWorld) rfl
  obtain ⟨hxs, hcalls, hplace, -⟩ := hhalts _ w₁ hfollow hrest hc _ w₂ hfollow₂
  exact ⟨w₁, w₂, hfollow, hrest, hc, hfollow₂, hxs, hcalls, hplace.resolve_left fun h =>
    hawake h.1⟩

end World
end Workplan
