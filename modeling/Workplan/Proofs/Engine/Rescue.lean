import Mathlib.Tactic.Lemma
import Workplan.Proofs.Engine.Replays
import Workplan.Proofs.Engine.Resemblance

/-!
# Handled failures

What changes when a failure handler is attached to a step that has none.  A run in which
the step does not fail goes exactly as before.  A run that ended with the failure of the
step goes as before up to that failure; then the handler is called once, with the message
that the run reported, and the run goes on with what the handler gives, or ends with the
handler's own failure (`World.handler_sees_report`).
-/

namespace Workplan

/-- A run after the failure of its step with a number, when a handler takes the
failure over. -/
def Run.rescue (h : Executor) (total number : Nat) (back : List Step)
    (e : WorkflowError) : Run :=
  .log (.failureHandled number h.name) <| .call h (.str e.message) fun answer =>
    Run.after total number back (answer.mapError .executor)

/-- How a run goes on after the answer of a handler, and how it ends: with the remaining
steps on the value of the handler, or at once with the handler's failure. -/
inductive Resumes (total : Nat) (back : List Step) :
    Except ExecutorError Json → List Exchange → Except WorkflowError Outcome → Prop where
  | goesOn {v blocks o t r} : Follows back v blocks o → Closes total o t r →
      Resumes total back (.ok v) (blocks.flatMap Block.exchanges ++ t) r
  | fails (error) : Resumes total back (.error error) [] (.error (.executor error))

/-- A rescued run calls the handler on the message, and resumes with its answer. -/
lemma Run.plays_rescue {h : Executor} {total number : Nat} {back : List Step}
    {e : WorkflowError} {t : List Exchange} {r : Except WorkflowError Outcome}
    (hplays : (Run.rescue h total number back e).Plays t r) :
    ∃ answer t', h.Gives (.str e.message) answer ∧
      t = .asked h (.str e.message) :: .answered answer :: t' ∧
      Resumes total back answer t' r := by
  obtain ⟨answer, t', hgives, rfl, hrest⟩ :=
    Run.plays_call_iff.mp (Run.plays_log_iff.mp hplays)
  refine ⟨answer, t', hgives, rfl, ?_⟩
  cases answer with
  | ok v =>
    obtain ⟨blocks, o, t₂, hfollows, rfl, hcloses⟩ := Run.plays_steps_iff.mp hrest
    exact .goesOn hfollows hcloses
  | error error =>
    cases hrest
    exact .fails error

/-! ## The failure of one step -/

/-- A run of a plan and the run of the same plan in which a handler stands ready for the
step with a number: they go on in the same way and end with the same results, and part
where that step has failed. -/
def rescueLikeness (h : Executor) (total number : Nat) (back : List Step) : Likeness where
  lax := False
  parts := fun n run run' =>
    n = number ∧ ∃ e, run = .finish (.error e) ∧ run' = .rescue h total number back e
  results := fun n r r' => r' = r ∧ (n = number → ∀ e, r ≠ .error e)

/-- A step without a failure handler and the same step with one resemble each other up to
its failure. -/
lemma Step.resembles_attach {s : Step} {h : Executor} {total number : Nat}
    {back : List Step} (hfail : s.onFail = none) (input : Json) :
    (s.run number input (Run.after total number back)).Resembles
      (rescueLikeness h total number back) number
      ((s.attach .onFail h).run number input (Run.after total number back)) := by
  have haction : (s.attach .onFail h).action = s.action := rfl
  have hsuccess : (s.attach .onFail h).onSuccess = s.onSuccess := rfl
  refine Step.resembles_dispatch haction
    (Step.resembles_settle hsuccess (fun v => ?_) fun e he => ?_) input
  · exact Run.resembles_steps (fun _ _ => ⟨rfl, fun _ e he => by cases he⟩)
      fun m e hm _ _ => ⟨rfl, fun hm' => by omega⟩
  · rw [Step.recover_of_none hfail, Step.recover_of_some (s := s.attach .onFail h) rfl he]
    exact .log (.part ⟨rfl, e, rfl, rfl⟩)

namespace World

/-- The number of the step with whose failure a choice ends the run, and the failure. -/
def abort? (w : World) : Choice → Option (Nat × WorkflowError)
  | .run =>
    match w.progress with
    | .acting step (.finish (.error e)) => some (step, e)
    | _ => none
  | _ => none

/-- The failures with which runs end along a schedule, each with the number of its step. -/
def aborts (w : World) (cs : List Choice) : List (Nat × WorkflowError) :=
  w.record abort? cs

/-- What stands in a record was added by some choice of the schedule. -/
lemma mem_record_iff {α : Type} {f : World → Choice → Option α} {w w' : World}
    {cs : List Choice} {x : α} (h : w.follow cs = some w') :
    x ∈ w.record f cs ↔ ∃ ds c es u, cs = ds ++ c :: es ∧ w.follow ds = some u ∧
      u.follow (c :: es) = some w' ∧ f u c = some x := by
  induction cs generalizing w with
  | nil => simp
  | cons c rest ih =>
    obtain ⟨w₁, htake, hrest⟩ := follow_cons h
    rw [record_cons f htake, List.mem_append, Option.mem_toList, ih hrest]
    constructor
    · rintro (hx | ⟨ds, c', es, u, rfl, hds, hes, hx⟩)
      · exact ⟨[], c, rest, w, rfl, rfl, h, hx⟩
      · exact ⟨c :: ds, c', es, u, rfl, by rw [follow, htake, Option.bind_some, hds], hes,
          hx⟩
    · rintro ⟨ds, c', es, u, hcs, hds, hes, hx⟩
      cases ds with
      | nil =>
        obtain ⟨rfl, rfl⟩ := List.cons.inj hcs
        obtain rfl := Option.some.inj hds
        exact .inl hx
      | cons d ds =>
        obtain ⟨rfl, rfl⟩ := List.cons.inj hcs
        rw [follow, htake, Option.bind_some] at hds
        exact .inr ⟨ds, c', es, u, rfl, hds, hes, hx⟩

lemma of_abort? {w : World} {c : Choice} {n : Nat} {e : WorkflowError}
    (h : w.abort? c = some (n, e)) :
    c = .run ∧ w.progress = .acting n (.finish (.error e)) := by
  unfold abort? at h
  split at h
  · split at h
    · next hp =>
      obtain ⟨rfl, rfl⟩ := Prod.mk.inj (Option.some.inj h)
      exact ⟨rfl, hp⟩
    · cases h
  · cases h

/-- A run that has ended says nothing more. -/
lemma exchanges_of_ended {w w' : World} {cs : List Choice}
    {r : Except WorkflowError Outcome} (hloop : .loop ∉ cs) (h : w.follow cs = some w')
    (hp : w.progress = .ended r) : w.exchanges cs = [] := by
  induction cs generalizing w with
  | nil => rfl
  | cons c rest ih =>
    obtain ⟨w₁, htake, hrest⟩ := follow_cons h
    rw [List.mem_cons, not_or] at hloop
    rcases take_move (Ne.symm hloop.1) htake with hmove | ⟨-, hx, hapart⟩
    · exact absurd hp (hmove.not_ended r)
    · rw [exchanges_cons htake, hx, ih hloop.2 hrest (hapart.progress.trans hp)]
      rfl

/-- A run that is about to end, ends so and says nothing more. -/
lemma follow_finish {w w' : World} {cs : List Choice} {n : Nat}
    {r : Except WorkflowError Outcome} (hloop : .loop ∉ cs)
    (h : w.follow (.run :: cs) = some w') (hp : w.progress = .acting n (.finish r)) :
    w'.progress = .ended r ∧ w.exchanges (.run :: cs) = [] := by
  obtain ⟨w₁, htake, hrest⟩ := follow_cons h
  obtain rfl : w.goTo (.ended r) = w₁ := by
    rw [take_acting hp] at htake
    exact Option.some.inj htake
  refine ⟨follow_ended hloop hrest rfl, ?_⟩
  rw [exchanges_cons htake, exchanges_of_ended hloop hrest rfl]
  simp [exchange?, hp]

/-- From here on a handler takes a failure over.  It is called with the message of the
failure, and whatever it gives, the run goes on with that. -/
structure IsRescued (v : World) (h : Executor) (e : WorkflowError) (total : Nat)
    (back : List Step) :
    Prop where
  called : ∃ v', v.follow [.run, .run] = some v' ∧
    v'.calls = v.calls ++ [(h, .str e.message)]
  resumes : ∀ cs v' r, v.follow cs = some v' → v'.isCancelled = false →
    v'.progress = .ended r →
    ∃ answer t, h.Gives (.str e.message) answer ∧
      v.exchanges cs = .asked h (.str e.message) :: .answered answer :: t ∧
      v'.calls = v.calls ++ (h, .str e.message) :: t.flatMap Exchange.calls ∧
      Resumes total back answer t r

lemma isRescued_of_rescue {v : World} {h : Executor} {e : WorkflowError}
    {total n number : Nat} {back : List Step} (hnone : v.loop = none)
    (hp : v.progress = .acting n (.rescue h total number back e)) :
    v.IsRescued h e total back where
  called := by
    refine ⟨((v.act n (.rescue h total number back e)).note
      (.called h (.str e.message))).goTo
      (.calling n (.ready (h.run (.str e.message))) fun answer =>
        Run.after total number back (answer.mapError .executor)), ?_, ?_⟩
    · rw [follow, take_acting hp]
      rfl
    · rw [calls_goTo, calls_note_called]
      exact congrArg (· ++ _) (calls_report v _)
  resumes := fun cs v' r hfollow hlive hend => by
    have hloop := follow_without_loop hnone hfollow
    have hplays := follow_plays hloop hfollow hlive hend
    rw [hp] at hplays
    cases hplays with
    | acting hplays =>
      obtain ⟨answer, t, hgives, ht, hresumes⟩ := Run.plays_rescue hplays
      refine ⟨answer, t, hgives, ht, ?_, hresumes⟩
      rw [follow_calls hloop hfollow, ht]
      rfl

/-- Runs that part at the failure of a step. -/
lemma Parts.rescue {u v : World} {h : Executor} {total number : Nat} {back : List Step}
    (hparts : u.Parts (rescueLikeness h total number back) v) :
    ∃ e n, u.progress = .acting number (.finish (.error e)) ∧
      v.progress = .acting n (.rescue h total number back e) := by
  obtain ⟨n, n', run, run', hu, hv, rfl, e, rfl, rfl⟩ := hparts.progress
  exact ⟨e, n', hu, hv⟩

section

variable {w w' v : World} {h : Executor} {total number : Nat} {back : List Step}
  {cs : List Choice}

/-- A run that does not end with the failure of the step goes in the same way with
the handler. -/
lemma Resembles.same_of_no_abort (hres : w.Resembles (rescueLikeness h total number back) v)
    (hloop : .loop ∉ cs) (hfollow : w.follow cs = some w') (hlive : w'.isCancelled = false)
    (hno : ∀ e, (number, e) ∉ w.aborts cs) :
    ∃ v', v.follow cs = some v' ∧ v.exchanges cs = w.exchanges cs ∧
      w'.Resembles (rescueLikeness h total number back) v' := by
  rcases hres.follow hloop hfollow hlive with hmatch | ⟨ds, es, u, rfl, hds, hes, hmatch⟩
  · obtain ⟨cs', v', ⟨-, hlax | rfl⟩, hv, hx, hafter⟩ := hmatch
    · exact hlax.elim
    · exact ⟨v', hv, hx, hafter⟩
  · obtain ⟨-, v', -, -, -, hparts⟩ := hmatch
    obtain ⟨e, -, hu, -⟩ := hparts.rescue
    exact absurd ((mem_record_iff hfollow).mpr ⟨ds, .run, es, u, rfl, hds, hes,
      by simp only [abort?, hu]⟩)
      (hno e)

/-- A run that ends with the failure of the step goes in the same way with the handler,
up to there. -/
lemma Resembles.parts_of_abort {e : WorkflowError}
    (hres : w.Resembles (rescueLikeness h total number back) v) (hloop : .loop ∉ cs)
    (hfollow : w.follow cs = some w') (hlive : w'.isCancelled = false)
    (habort : (number, e) ∈ w.aborts cs) :
    ∃ ds es u v', cs = ds ++ .run :: es ∧ w.follow ds = some u ∧
      u.follow (.run :: es) = some w' ∧
      u.progress = .acting number (.finish (.error e)) ∧ v.follow ds = some v' ∧
      v.exchanges ds = w.exchanges ds ∧
      u.Parts (rescueLikeness h total number back) v' := by
  obtain ⟨ds, c, es, u, rfl, hds, hes, habort⟩ := (mem_record_iff hfollow).mp habort
  obtain ⟨rfl, hu⟩ := of_abort? habort
  rw [List.mem_append, not_or] at hloop
  have hlive' := follow_live hloop.2 hes hlive
  rcases hres.follow hloop.1 hds hlive' with hmatch | ⟨ds', es', u', rfl, -, hes', hmatch⟩
  · obtain ⟨cs', v', ⟨-, hlax | rfl⟩, hv, hx, hafter⟩ := hmatch
    · exact hlax.elim
    · refine ⟨_, es, u, v', rfl, hds, hes, hu, hv, hx, hafter.abreast, ?_⟩
      obtain ⟨n', run', hp, hrun⟩ := of_acting (hu ▸ hafter.progress)
      cases hrun with
      | part hparts => exact ⟨_, _, _, _, hu, hp, hparts⟩
      | finish hr => exact absurd rfl (hr.2 rfl e)
      -- Neither run is ever ahead of the other.
      | enterRight hlax | logRight hlax => exact hlax.elim
  · -- A run that has parted before has ended, and does not come to this failure.
    obtain ⟨-, v', -, -, -, hparts⟩ := hmatch
    obtain ⟨e', -, hu', -⟩ := hparts.rescue
    rw [List.mem_append, not_or, List.mem_cons, not_or] at hloop
    have hended := (follow_finish hloop.1.2.2 hes' hu').1
    rw [hu] at hended
    cases hended

end

/-- The same world with a failure handler for the step at a place. -/
def withHandler (w : World) (i : Nat) (h : Executor) : World :=
  w.withSteps (w.workflow.steps.modify i (Step.attach .onFail h))

section

variable {w w' : World} {i : Nat} {s : Step} {cs : List Choice}
  {r : Except WorkflowError Outcome}

/-- With a handler more at one step a run begins like the one without. -/
lemma begin_resembles_attach (w : World) (h : Executor) (hfail : s.onFail = none)
    (front back : List Step) :
    (w.withSteps (front ++ s :: back)).begin.Resembles
      (rescueLikeness h (front ++ s :: back).length (front.length + 1) back)
      (w.withSteps (front ++ s.attach .onFail h :: back)).begin := by
  refine begin_resembles w (List.cons_ne_nil _ _) (List.cons_ne_nil _ _) (fun v => ?_)
    fun m e _ hm _ => ⟨rfl, by omega⟩
  rw [Run.steps_cons, Run.steps_cons, List.length_append, List.length_append,
    List.length_cons, List.length_cons]
  exact .enter (.log (Step.resembles_attach hfail v))

lemma begin_resembles_withHandler (hstep : w.workflow.steps[i]? = some s)
    (hfail : s.onFail = none) (h : Executor) :
    w.begin.Resembles
      (rescueLikeness h w.workflow.steps.length (i + 1) (w.workflow.steps.drop (i + 1)))
      (w.withHandler i h).begin := by
  obtain ⟨hi, rfl⟩ := List.getElem?_eq_some_iff.mp hstep
  have hlength : (w.workflow.steps.take i).length = i :=
    List.length_take_of_le (Nat.le_of_lt hi)
  have hsteps : w.workflow.steps.take i ++ w.workflow.steps[i] ::
      w.workflow.steps.drop (i + 1) =
      w.workflow.steps := by
    rw [← List.drop_eq_getElem_cons hi, List.take_append_drop]
  have hres := begin_resembles_attach w h hfail (w.workflow.steps.take i)
    (w.workflow.steps.drop (i + 1))
  rw [hsteps, hlength, ← List.modify_eq_take_cons_drop hi] at hres
  exact hres

/-- What a failure handler sees is what the run would report.  Let a step have no failure
handler, and let a run end uncancelled on some schedule.  If the run does not end with a
failure of that step, then the run with a handler for the step goes on this schedule in
the same way: it says and hears the same, and ends with the same result, calls, prompt and
store.  If the step fails and so ends the run with `e`, the run with the handler goes in
the same way up to this failure, where it has made all the calls of the first run; from
there it calls the handler with the message of `e`, and goes on with what the handler
gives, or ends with the handler's own failure. -/
theorem handler_sees_report (hstep : w.workflow.steps[i]? = some s)
    (hfail : s.onFail = none) (h : Executor) (hnone : w.loop = none)
    (hfollow : w.begin.follow cs = some w') (hlive : w'.isCancelled = false)
    (hend : w'.progress = .ended r) :
    ((∀ e, (i + 1, e) ∉ w.begin.aborts cs) →
      ∃ v, (w.withHandler i h).begin.follow cs = some v ∧
        (w.withHandler i h).begin.exchanges cs = w.begin.exchanges cs ∧ w'.Abreast v ∧
        v.progress = .ended r) ∧
    ∀ e, (i + 1, e) ∈ w.begin.aborts cs →
      r = .error e ∧ ∃ ds es u v, cs = ds ++ .run :: es ∧ w.begin.follow ds = some u ∧
        u.calls = w'.calls ∧ (w.withHandler i h).begin.follow ds = some v ∧
        (w.withHandler i h).begin.exchanges ds = w.begin.exchanges cs ∧ u.Abreast v ∧
        v.IsRescued h e w.workflow.steps.length (w.workflow.steps.drop (i + 1)) := by
  have hloop : .loop ∉ cs := follow_without_loop (w := w.begin) hnone hfollow
  have hres := begin_resembles_withHandler hstep hfail h
  constructor
  · intro hno
    obtain ⟨v, hv, hx, hafter⟩ := hres.same_of_no_abort hloop hfollow hlive hno
    refine ⟨v, hv, hx, hafter.abreast, ?_⟩
    obtain ⟨n, r', hp, rfl, -⟩ := of_ended (hend ▸ hafter.progress)
    exact hp
  · intro e habort
    obtain ⟨ds, es, u, v, rfl, hds, hes, hu, hv, hx, hparts⟩ :=
      hres.parts_of_abort hloop hfollow hlive habort
    rw [List.mem_append, not_or] at hloop
    obtain ⟨hended, hsilent⟩ := follow_finish (List.not_mem_of_not_mem_cons hloop.2) hes hu
    obtain rfl : r = .error e := Progress.ended.inj (hend.symm.trans hended)
    refine ⟨rfl, ds, es, u, v, rfl, hds, ?_, hv, ?_, hparts.abreast, ?_⟩
    · -- The first run has made all its calls by then.
      rw [follow_calls hloop.2 hes, hsilent]
      simp
    · rw [hx, exchanges_append hds, hsilent, List.append_nil]
    · obtain ⟨e', n, hu', hp⟩ := hparts.rescue
      rw [hu] at hu'
      cases hu'
      have hnone' : v.loop = none :=
        (follow_keeps_loop (w := (w.withHandler i h).begin) hloop.1 hv).trans hnone
      exact isRescued_of_rescue hnone' hp

end

/-- A world in which an iterate step takes its items from a key that is not there. -/
def keylessWorld : World where
  host := fun _ _ => .refused "no program"
  workflow :=
    { name := "keyless", prompt := none
      steps := [
        { action := .iterate (.storeKey "xs") (ExecutorSpec.echo.toExecutor 0),
          description := "spread" },
        { action := .sequence [ExecutorSpec.echo.toExecutor 1], description := "echo" }] }

/-- The handler sees what was wrong with the source. -/
theorem handler_sees_report_keyless :
    ∃ w' v ds, keylessWorld.begin.follow (List.replicate 5 .run) = some w' ∧
      w'.isCancelled = false ∧
      w'.progress = .ended (.error (.iterationSource "xs" "no value")) ∧
      (keylessWorld.withHandler 0 (ExecutorSpec.echo.toExecutor 2)).begin.follow ds =
        some v ∧
      ∃ v', v.follow [.run, .run] = some v' ∧
        v'.calls = [(ExecutorSpec.echo.toExecutor 2,
          .str "shared store key 'xs' does not hold an array (found no value)")] := by
  obtain ⟨w', hfollow, hlive, hend, hcalls, habort⟩ :
      ∃ w', keylessWorld.begin.follow (List.replicate 5 .run) = some w' ∧
        w'.isCancelled = false ∧
        w'.progress = .ended (.error (.iterationSource "xs" "no value")) ∧ w'.calls = [] ∧
        keylessWorld.begin.aborts (List.replicate 5 .run) =
          [(1, .iterationSource "xs" "no value")] :=
    ⟨_, rfl, rfl, rfl, rfl, rfl⟩
  obtain ⟨-, ds, es, u, v, -, -, hu, hv, -, habreast, hrescued⟩ :=
    (handler_sees_report (w := keylessWorld)
      (i := 0) rfl rfl (ExecutorSpec.echo.toExecutor 2) rfl hfollow
      hlive hend).2 _ (by rw [habort]; exact List.mem_singleton_self _)
  obtain ⟨v', hv', hcalled⟩ := hrescued.called
  refine ⟨w', v, ds, hfollow, hlive, hend, hv, v', hv', ?_⟩
  rw [hcalled, habreast.calls, hu, hcalls]
  rfl

end World
end Workplan
