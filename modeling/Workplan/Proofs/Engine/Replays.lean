import Mathlib.Tactic.Lemma
import Workplan.Proofs.Engine.Loops

/-!
# Consecutive runs

What it means that a workflow is run several times, one run after the other, and that none
of the runs is cancelled (`Runs`).

A choice looks at the surroundings of the run and at nothing else: not at the journal, not
at the loop, and at the token only to see whether it is cancelled.  So it can be made
again in every world with the same surroundings (`take_like`).  In particular a run that
was not cut short has gone just as if it could not have been cancelled
(`follow_uncancellable`).
-/

namespace Workplan.World

/-- Some runs of a workflow, one after the other, none of them cancelled: the choices that
were made, the results of the runs, and the world in which they leave the workflow.
Between two runs the started calls may go on, and time may pass. -/
inductive Runs (w : World) : List Choice → List (Except WorkflowError Outcome) →
    World → Prop where
  | none : Runs w [] [] w
  | aside {cs rs v v' c} : Runs w cs rs v → c.isOutside = true → v.take c = some v' →
      Runs w (cs ++ [c]) rs v'
  | run {cs rs v v' ds r} (token : Token) : Runs w cs rs v →
      ({ v with token } : World).begin.follow ds = some v' → v'.isCancelled = false →
      v'.progress = .ended r → Runs w (cs ++ ds) (rs ++ [r]) v'

theorem Runs.setup {w w' : World} {cs : List Choice}
    {rs : List (Except WorkflowError Outcome)} (h : Runs w cs rs w') : SameSetup w w' := by
  induction h with
  | none => exact ⟨rfl, rfl, rfl⟩
  | aside _ _ htake ih => exact ih.trans (choice_setup htake)
  | run _ _ hfollow _ _ ih =>
    have hrun := follow_setup hfollow
    exact ⟨hrun.host.trans ih.host, hrun.steps.trans ih.steps, hrun.handle.trans ih.handle⟩

/-- Without a loop at the beginning there is none at the end. -/
theorem Runs.loop {w w' : World} {cs : List Choice}
    {rs : List (Except WorkflowError Outcome)} (h : Runs w cs rs w')
    (hnone : w.loop = .none) : w'.loop = .none := by
  induction h with
  | none => exact hnone
  | @aside _ _ _ _ c _ hc htake ih =>
    have hloop : c ≠ .loop := by rintro rfl; cases hc
    exact (take_keeps_loop hloop htake).trans ih
  | @run _ _ v _ _ _ token _ hrun _ _ ih =>
    have hnone : ({ v with token } : World).begin.loop = .none := ih
    exact (follow_keeps_loop (follow_without_loop hnone hrun) hrun).trans hnone

/-! ## Worlds with the same surroundings -/

/-- Two worlds that differ at most in their loops, their journals and their tokens; these
are related by `R`. -/
structure Like (R : Token → Token → Prop) (w v : World) : Prop where
  host : v.host = w.host
  workflow : v.workflow = w.workflow
  now : v.now = w.now
  token : R w.token v.token
  jobs : v.jobs = w.jobs
  elsewhere : v.elsewhere = w.elsewhere
  progress : v.progress = w.progress

section

variable {R : Token → Token → Prop} {w w' v : World}

/-- The same change of progress in both worlds. -/
lemma Like.goTo (h : Like R w v) (p : Progress) : Like R (w.goTo p) (v.goTo p) :=
  ⟨h.host, h.workflow, h.now, h.token, h.jobs, h.elsewhere, rfl⟩

/-- What is noted makes no difference. -/
lemma Like.note (h : Like R w v) (e e' : Entry) : Like R (w.note e) (v.note e') :=
  ⟨h.host, h.workflow, h.now, h.token, h.jobs, h.elsewhere, h.progress⟩

lemma Like.endCancelled (h : Like R w v) (e : Event) :
    Like R (w.endCancelled e) (v.endCancelled e) :=
  (h.note _ _).goTo _

lemma Like.jobEnd? (h : Like R w v) (n : Nat) : v.jobEnd? n = w.jobEnd? n := by
  rw [World.jobEnd?, World.jobEnd?, h.jobs]

lemma Like.setActivity (h : Like R w v) (n : Nat) (job : Job) (a : Activity) :
    Like R (w.setActivity n job a) (v.setActivity n job a) :=
  ⟨h.host, h.workflow, h.now, h.token,
    congrArg (fun jobs => jobs.set n { job with activity := a }) h.jobs,
    h.elsewhere, h.progress⟩

lemma Like.storeAt (h : Like R w v) (store : StoreHandle) :
    v.storeAt store = w.storeAt store := by
  rw [World.storeAt, World.storeAt, h.workflow, h.elsewhere]

/-- A write goes to the same store in both worlds. -/
lemma Like.write (h : Like R w v) (store : StoreHandle) (key : String) (value : Json) :
    Like R (w.write store key value) (v.write store key value) := by
  unfold World.write
  rw [h.workflow, h.elsewhere]
  split
  · exact ⟨h.host, rfl, h.now, h.token, h.jobs, rfl, h.progress⟩
  · exact ⟨h.host, rfl, h.now, h.token, h.jobs, rfl, h.progress⟩

/-- An action of a task goes the same way in both worlds. -/
lemma Like.perform (hR : ∀ a b, R a b → R a.cancel b.cancel) (h : Like R w v) (t : Task) :
    (v.perform t).1 = (w.perform t).1 ∧ Like R (w.perform t).2 (v.perform t).2 := by
  cases t with
  | finish | panic => exact ⟨rfl, h⟩
  | read store key next => exact ⟨by simp only [World.perform, h.storeAt], h⟩
  | write store key value next => exact ⟨rfl, h.write store key value⟩
  | sleep ms next => exact ⟨by simp only [World.perform, h.now], h⟩
  | launch command stdin next => exact ⟨by simp only [World.perform, h.host], h⟩
  | cancel next =>
    exact ⟨rfl, h.host, h.workflow, h.now, hR _ _ h.token, h.jobs, h.elsewhere, h.progress⟩
  | trace name input next => exact ⟨rfl, h.note _ _⟩
  | log event next => exact ⟨rfl, h.note _ _⟩

/-- A call goes on in the same way. -/
lemma Like.advance (hR : ∀ a b, R a b → R a.cancel b.cancel) (h : Like R w v)
    {a a' : Activity} (hadv : w.advance a = some (a', w')) :
    ∃ v', v.advance a = some (a', v') ∧ Like R w' v' := by
  cases advance_eq_some_iff.mp hadv with
  | act task =>
    obtain ⟨hsame, hlike⟩ := h.perform hR task
    exact ⟨(v.perform task).2, congrArg some (Prod.ext hsame rfl), hlike⟩
  | wake hdue => exact ⟨v, by rw [World.advance, h.now, if_pos hdue], h⟩

/-- What the run in progress does, it does as well in a world with the same surroundings,
unless it is cut short there or here and not in the other. -/
lemma stepRun_like (hR : ∀ a b, R a b → R a.cancel b.cancel) (hlike : Like R w v)
    (h : w.stepRun = some w')
    (hseen : v.isCancelled = w.isCancelled ∨
      v.isCancelled = false ∧ w'.progress ≠ .ended (.error .cancelled)) :
    ∃ v', v.stepRun = some v' ∧ Like R w' v' := by
  -- A run looks at its cancellation where it enters a step and where it waits.  What it
  -- finds there is the same in both worlds, or it goes on in the second one.
  have hlive : w.isCancelled = false → v.isCancelled = false := by
    intro hw
    rcases hseen with heq | ⟨hv, -⟩
    · rw [heq, hw]
    · exact hv
  have hcut : w.isCancelled = true → w'.progress = .ended (.error .cancelled) →
      v.isCancelled = true := by
    intro hw hend
    rcases hseen with heq | ⟨-, hne⟩
    · rw [heq, hw]
    · exact absurd hend hne
  have hvp : ∀ p, w.progress = p → v.progress = p := fun p hp => hlike.progress.trans hp
  have hmove := stepRun_move h
  generalize w.exchange? .run = x at hmove
  cases hmove with
  | finish hp => exact ⟨_, by simp only [stepRun, hvp _ hp, act], hlike.goTo _⟩
  | enter hp hc =>
    exact ⟨_, by simp only [stepRun, hvp _ hp, act, hlive hc, Bool.false_eq_true, if_false],
      hlike.goTo _⟩
  | refuse hp hc =>
    exact ⟨_, by simp only [stepRun, hvp _ hp, act, hcut hc rfl, if_true],
      hlike.endCancelled _⟩
  | @log step event rest hp =>
    have hv : v.stepRun = some ((v.report event).goTo (.acting step rest)) := by
      simp only [stepRun, hvp _ hp, act]
    exact ⟨_, hv, (hlike.note _ _).goTo _⟩
  | @setPrompt step text rest hp =>
    have hv : v.stepRun =
        some ({ v with workflow := { v.workflow with prompt := some text } }.goTo
          (.acting step rest)) := by
      simp only [stepRun, hvp _ hp, act]
    refine ⟨_, hv, hlike.host, ?_, hlike.now, hlike.token, hlike.jobs, hlike.elsewhere, rfl⟩
    simp only [World.goTo, hlike.workflow]
  | readStore hp =>
    exact ⟨_, by simp only [stepRun, hvp _ hp, act, hlike.workflow], hlike.goTo _⟩
  | @call step e input rest hp =>
    have hv : v.stepRun = some
        ((v.note (.called e input)).goTo (.calling step (.ready (e.run input)) rest)) := by
      simp only [stepRun, hvp _ hp, act]
    exact ⟨_, hv, (hlike.note _ _).goTo _⟩
  | @fanOut step calls rest hp =>
    have hv : v.stepRun = some ((v.start calls).goTo
        (.joining step true v.jobs.length (calls.map fun _ => none) rest)) := by
      simp only [stepRun, hvp _ hp, act]
    refine ⟨_, hv, hlike.host, hlike.workflow, hlike.now, hlike.token, ?_,
      hlike.elsewhere, ?_⟩
    · simp only [World.goTo, World.start, hlike.jobs]
    · simp only [World.goTo, hlike.jobs]
  | @work step task rest hp =>
    obtain ⟨hsame, hnext⟩ := hlike.perform hR task
    have hv : v.stepRun =
        some ((v.perform task).2.goTo (.calling step (v.perform task).1 rest)) := by
      simp only [stepRun, hvp _ hp]
    rw [hsame] at hv
    exact ⟨_, hv, hnext.goTo _⟩
  | @wake step f task rest hp hc =>
    have hdue : (Activity.waiting f task).isDue w.now = true := by
      simp only [stepRun, hp, hc, Bool.false_eq_true, if_false] at h
      split at h
      · next hdue => exact hdue
      · cases h
    refine ⟨_, ?_, hlike.goTo _⟩
    simp only [stepRun, hvp _ hp, hlive hc, Bool.false_eq_true, if_false,
      hlike.now, hdue, if_true]
  | abandon hp hc =>
    exact ⟨_, by simp only [stepRun, hvp _ hp, hcut hc rfl, if_true], hlike.endCancelled _⟩
  | answer hp => exact ⟨_, by simp only [stepRun, hvp _ hp], hlike.goTo _⟩
  | crash hp => exact ⟨_, by simp only [stepRun, hvp _ hp], hlike.goTo _⟩
  | gather hp hv => exact ⟨_, by simp only [stepRun, hvp _ hp, hv], hlike.goTo _⟩
  | park hp hv => exact ⟨_, by simp only [stepRun, hvp _ hp, hv], hlike.goTo _⟩
  | leave hp hc =>
    exact ⟨_, by simp only [stepRun, hvp _ hp, hcut hc rfl, if_true], hlike.endCancelled _⟩

/-- The same of a result that the run in progress takes. -/
lemma collect_like (hlike : Like R w v) {call : Nat} (h : w.collect call = some w')
    (hseen : v.isCancelled = w.isCancelled ∨
      v.isCancelled = false ∧ w'.progress ≠ .ended (.error .cancelled)) :
    ∃ v', v.collect call = some v' ∧ Like R w' v' := by
  unfold collect at h ⊢
  rw [hlike.progress]
  split at h
  · next step awake first results rest hp =>
    rw [hlike.jobEnd?]
    split at h
    · next end_ hfree hend =>
      -- Only a run that sleeps among its calls looks at its cancellation when a
      -- result arrives.
      cases ha : (!awake && w.isCancelled) with
      | true =>
        rw [if_pos ha] at h
        obtain rfl := Option.some.inj h
        have hv : (!awake && v.isCancelled) = true := by
          rcases hseen with heq | ⟨-, hne⟩
          · rw [heq, ha]
          · exact absurd rfl hne
        exact ⟨_, by rw [if_pos hv], hlike.endCancelled _⟩
      | false =>
        rw [if_neg (by simp [ha])] at h
        have hv : (!awake && v.isCancelled) = false := by
          rcases hseen with heq | ⟨hlive, -⟩
          · rw [heq, ha]
          · rw [hlive, Bool.and_false]
        rw [if_neg (by simp [hv])]
        split at h
        · obtain rfl := Option.some.inj h
          exact ⟨_, rfl, hlike.goTo _⟩
        · obtain rfl := Option.some.inj h
          exact ⟨_, rfl, hlike.goTo _⟩
        · obtain rfl := Option.some.inj h
          exact ⟨_, rfl, hlike.goTo _⟩
    · cases h
  · cases h

/-- A choice that is neither the run's nor the loop's goes the same way in every world
with the same surroundings. -/
theorem take_outside_like (hR : ∀ a b, R a b → R a.cancel b.cancel) (hlike : Like R w v)
    {c : Choice} (hout : c.isOutside = true) (h : w.take c = some w') :
    ∃ v', v.take c = some v' ∧ Like R w' v' := by
  cases take_outside hout h with
  | @act n job a w₁ hjob hadv =>
    obtain ⟨v₁, hadv', hlike₁⟩ := hlike.advance hR hadv
    refine ⟨v₁.setActivity n job a, ?_, hlike₁.setActivity n job a⟩
    simp only [take, stepJob, hlike.jobs, hjob, hadv']
  | @exit n job hjob hawaits =>
    refine ⟨_, ?_, hlike.setActivity n job job.activity.released⟩
    simp only [take, hlike.jobs, hjob, hawaits, if_true]
  | cancel =>
    exact ⟨_, rfl, hlike.host, hlike.workflow, hlike.now, hR _ _ hlike.token, hlike.jobs,
      hlike.elsewhere, hlike.progress⟩
  | pass ms =>
    exact ⟨_, rfl, hlike.host, hlike.workflow, congrArg (· + ms) hlike.now,
      hlike.token, hlike.jobs, hlike.elsewhere, hlike.progress⟩

/-- A choice that is not the loop's can be made again in every world with the same
surroundings, unless it cuts a run short in only one of them. -/
theorem take_like (hR : ∀ a b, R a b → R a.cancel b.cancel) (hlike : Like R w v)
    {c : Choice} (hloop : c ≠ .loop) (h : w.take c = some w')
    (hseen : v.isCancelled = w.isCancelled ∨
      v.isCancelled = false ∧ w'.progress ≠ .ended (.error .cancelled)) :
    ∃ v', v.take c = some v' ∧ Like R w' v' := by
  cases c with
  | run => exact stepRun_like hR hlike h hseen
  | collect call => exact collect_like hlike h hseen
  | exitOfRun =>
    simp only [take] at h ⊢
    split at h
    · next step task rest hp =>
      obtain rfl := Option.some.inj h
      rw [hlike.progress, hp]
      exact ⟨_, rfl, hlike.goTo _⟩
    · cases h
  | loop => exact absurd rfl hloop
  | job | exitOfJob | cancel | pass => exact take_outside_like hR hlike rfl h

end

/-! ## Runs that are not cut short -/

/-- A run that has ended stays as it ended. -/
theorem follow_ended {cs : List Choice} {w w' : World} {r : Except WorkflowError Outcome}
    (hloop : .loop ∉ cs) (h : w.follow cs = some w') (hp : w.progress = .ended r) :
    w'.progress = .ended r := by
  refine follow_preserves (P := fun v => v.progress = .ended r)
    (fun c hmem u v htake hu => ?_) h hp
  rcases take_move (ne_of_mem_of_not_mem hmem hloop) htake with hmove | ⟨-, -, hapart⟩
  · exact absurd hu (hmove.not_ended r)
  · exact hapart.progress.trans hu

/-- Whatever the one token is, the other one is of a world in which nobody can
cancel anything. -/
def Released (_ b : Token) : Prop :=
  b = .absent

/-- Where nobody can cancel anything, an attempt to cancel changes nothing. -/
theorem Released.cancel (a b : Token) (h : Released a b) : Released a.cancel b.cancel := by
  obtain rfl : b = .absent := h
  rfl

/-- What has been done in a run that does not end as cancelled can be done again where
nobody can cancel anything. -/
theorem follow_uncancellable {cs : List Choice} {w w' v : World} (hloop : .loop ∉ cs)
    (h : w.follow cs = some w') (hlike : Like Released w v)
    (hend : w'.progress ≠ .ended (.error .cancelled)) :
    ∃ v', v.follow cs = some v' ∧ Like Released w' v' := by
  induction cs generalizing w v with
  | nil =>
    obtain rfl := Option.some.inj h
    exact ⟨v, rfl, hlike⟩
  | cons c rest ih =>
    obtain ⟨w₁, htake, hrest⟩ := follow_cons h
    rw [List.mem_cons, not_or] at hloop
    have hlive : v.isCancelled = false := by
      have htoken : v.token = .absent := hlike.token
      simp [isCancelled, htoken]
    have hgoes : w₁.progress ≠ .ended (.error .cancelled) :=
      fun hcut => hend (follow_ended hloop.2 hrest hcut)
    obtain ⟨v₁, htake', hlike₁⟩ := take_like Released.cancel hlike (Ne.symm hloop.1) htake
      (.inr ⟨hlive, hgoes⟩)
    obtain ⟨v', hrest', hlike'⟩ := ih hloop.2 hrest hlike₁
    exact ⟨v', by rw [follow, htake', Option.bind_some, hrest'], hlike'⟩

end Workplan.World
