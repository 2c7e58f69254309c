import Mathlib.Data.Nat.Find
import Mathlib.Tactic.Lemma
import Workplan.Proofs.Engine.Loops

/-!
# How a cancelled loop comes to its end

The loop and the run that it has begun are one task; whatever else is going on happens
besides.  For a loop that has been cancelled, this file shows two facts about that task,
whatever happens besides it:

* until the loop is over, the task can act at once (`exists_own`): it waits for no call,
  no program and no time;
* it acts only finitely often (`acc_onward`): a task, the tree of a run and the phases of
  a loop are all well-founded, and a run that waits is cut short.

Together they say that the loop is over in the end, on every endless course on which the
task acts now and then while it can (`Course.ends`), and that from anywhere some schedule
leads to the end (`exists_end`).
-/

namespace Workplan

/-! ## Calls -/

/-- One action of a call leads from one place in it to another; the end of a program that
it waits for counts as one. -/
inductive Activity.After : Activity → Activity → Prop where
  | act (w : World) (t) : After (w.perform t).1 (.ready t)
  | exit (t) : After (.waiting .nothing t) (.waiting .program t)
  | wake (f t) : After (.ready t) (.waiting f t)

namespace Activity

lemma acc_ended (r : CallEnd) : Acc After (.ended r) :=
  ⟨_, fun _ h => nomatch h⟩

/-- Whatever a call waits for, it comes no further by it than to its task. -/
lemma acc_waiting (f : Wait) {t : Task} (h : Acc After (.ready t)) :
    Acc After (.waiting f t) := by
  have hnothing : Acc After (.waiting .nothing t) := ⟨_, fun a ha => by cases ha; exact h⟩
  refine ⟨_, fun a ha => ?_⟩
  cases ha with
  | exit => exact hnothing
  | wake => exact h

/-- A task acts only finitely often, whatever it is answered. -/
lemma acc_ready (t : Task) : Acc After (.ready t) := by
  -- Every action leaves a smaller task.
  induction t with
  | finish result => exact ⟨_, fun a ha => by cases ha; exact acc_ended _⟩
  | panic report => exact ⟨_, fun a ha => by cases ha; exact acc_ended _⟩
  | read store key next ih => exact ⟨_, fun a ha => by cases ha; exact ih _⟩
  | write store key value next ih | cancel next ih | trace name input next ih
  | log event next ih =>
    exact ⟨_, fun a ha => by cases ha; exact ih⟩
  | sleep ms next ih =>
    refine ⟨_, fun a ha => ?_⟩
    cases ha with
    | act w =>
      simp only [World.perform]
      split
      · exact ih
      · exact acc_waiting _ ih
  | launch command stdin next ih =>
    refine ⟨_, fun a ha => ?_⟩
    cases ha with
    | act w =>
      simp only [World.perform]
      split
      · exact acc_waiting _ (ih _)
      · exact ih _

/-- A call acts only finitely often. -/
theorem acc (a : Activity) : Acc After a := by
  cases a with
  | ready t => exact acc_ready t
  | waiting f t => exact acc_waiting f (acc_ready t)
  | ended r => exact acc_ended r

end Activity

/-! ## Runs -/

/-- One action of a run leads from one place in it to another. -/
def Progress.After (p' p : Progress) : Prop :=
  ∃ w w' c x, World.RunMove w c x w' ∧ w.progress = p ∧ w'.progress = p'

namespace Progress

/-- Where no run is in progress, none acts. -/
lemma acc_of_not_active {p : Progress} (h : p.isActive = false) : Acc After p := by
  refine ⟨_, fun p' => ?_⟩
  rintro ⟨w, w', c, x, hmove, rfl, -⟩
  rw [hmove.isActive] at h
  cases h

/-- A run inside a call acts only finitely often, if it does so after every answer. -/
lemma acc_calling {step : Nat} {rest : Except ExecutorError Json → Run}
    (hrest : ∀ answer, Acc After (.acting step (rest answer))) (a : Activity) :
    Acc After (.calling step a rest) := by
  induction a.acc with
  | intro a _ ih =>
    refine ⟨_, fun p' => ?_⟩
    rintro ⟨w, w', c, x, hmove, hp, rfl⟩
    cases hmove with
    | work hp' => cases hp.symm.trans hp'; exact ih _ (.act w _)
    | wake hp' => cases hp.symm.trans hp'; exact ih _ (.wake _ _)
    | exit hp' => cases hp.symm.trans hp'; exact ih _ (.exit _)
    | answer hp' => cases hp.symm.trans hp'; exact hrest _
    | abandon | leave | crash => exact acc_of_not_active rfl
    | finish hp' | enter hp' | refuse hp' | log hp' | setPrompt hp' | readStore hp'
    | call hp' | fanOut hp'
    | gather hp' | park hp' | collect hp' | failure hp' => cases hp.symm.trans hp'

/-- A run that collects results acts only finitely often, if it does so after
every answer. -/
lemma acc_joining {step first : Nat} {rest : Except ExecutorError (List Json) → Run}
    (hrest : ∀ answer, Acc After (.acting step (rest answer))) (awake : Bool)
    (results : List (Option Json)) :
    Acc After (.joining step awake first results rest) := by
  -- To take a value fills a slot; to fall asleep happens once before the next
  -- value is taken.
  induction hn : results.countP
    (·.isNone) using Nat.strongRecOn generalizing awake results with
  | ind n ih =>
    subst hn
    have hasleep : Acc After (.joining step false first results rest) := by
      refine ⟨_, fun p' => ?_⟩
      rintro ⟨w, w', c, x, hmove, hp, rfl⟩
      cases hmove with
      | collect hp' hslot =>
        cases hp.symm.trans hp'
        exact ih _ (World.countP_isNone_set _ hslot) _ _ rfl
      | failure hp' => cases hp.symm.trans hp'; exact hrest _
      | leave | abandon | refuse | finish | crash => exact acc_of_not_active rfl
      | work hp' | wake hp' | exit hp' | answer hp' | enter hp' | log hp' | setPrompt hp'
      | readStore hp'
      | call hp' | fanOut hp' | gather hp' | park hp' => cases hp.symm.trans hp'
    refine ⟨_, fun p' => ?_⟩
    rintro ⟨w, w', c, x, hmove, hp, rfl⟩
    cases hmove with
    | collect hp' hslot =>
      cases hp.symm.trans hp'
      exact ih _ (World.countP_isNone_set _ hslot) _ _ rfl
    | failure hp' => cases hp.symm.trans hp'; exact hrest _
    | gather hp' => cases hp.symm.trans hp'; exact hrest _
    | park hp' => cases hp.symm.trans hp'; exact hasleep
    | leave | abandon | refuse | finish | crash => exact acc_of_not_active rfl
    | work hp' | wake hp' | exit hp' | answer hp' | enter hp' | log hp' | setPrompt hp'
    | readStore hp'
    | call hp' | fanOut hp' => cases hp.symm.trans hp'

/-- A run that acts does what its tree says. -/
lemma eq_act {w w' : World} {c : Choice} {x : Option Exchange} {step : Nat} {run : Run}
    (h : World.RunMove w c x w') (hp : w.progress = .acting step run) :
    w' = w.act step run := by
  cases h with
  | finish hp' | log hp' | setPrompt hp' | readStore hp' | call hp' | fanOut hp' =>
    cases hp.symm.trans hp'
    rfl
  | enter hp' hc | refuse hp' hc =>
    cases hp.symm.trans hp'
    simp [World.act, hc]
  | work hp' | wake hp' | abandon hp' | exit hp' | answer hp' | crash hp' | gather hp'
  | park hp' | leave hp'
  | collect hp' | failure hp' => cases hp.symm.trans hp'

/-- A run that acts does so only finitely often, if that is so of all places to which its
tree leads. -/
lemma acc_of_act {step : Nat} {run : Run}
    (h : ∀ w : World, Acc After (w.act step run).progress) :
    Acc After (.acting step run) := by
  refine ⟨_, fun p' => ?_⟩
  rintro ⟨w, w', c, x, hmove, hp, rfl⟩
  rw [eq_act hmove hp]
  exact h w

/-- A run acts only finitely often, whatever it is answered. -/
lemma acc_acting (run : Run) (step : Nat) : Acc After (.acting step run) := by
  -- An action of the tree leaves a branch of it; calls and fan-outs come to answers.
  induction run generalizing step with
  | finish r => exact acc_of_act fun w => acc_of_not_active rfl
  | enter n rest ih =>
    refine acc_of_act fun w => ?_
    rw [World.act]
    split
    · exact acc_of_not_active rfl
    · exact ih n
  | log event rest ih | setPrompt text rest ih => exact acc_of_act fun w => ih step
  | readStore rest ih => exact acc_of_act fun w => ih _ step
  | call e input rest ih =>
    exact acc_of_act fun w => acc_calling (fun answer => ih answer step) _
  | fanOut calls rest ih =>
    exact acc_of_act fun w => acc_joining (fun answer => ih answer step) _ _

/-- From wherever it has come, a run acts only finitely often. -/
lemma acc (p : Progress) : Acc After p := by
  cases p with
  | acting step run => exact acc_acting run step
  | calling step a rest => exact acc_calling (fun answer => acc_acting _ step) a
  | joining step awake first results rest =>
    exact acc_joining (fun answer => acc_acting _ step) _ _
  | idle | ended | crashed => exact acc_of_not_active rfl

end Progress

/-! ## Loops -/

/-- How many actions a cancelled loop is away from its end at most, runs apart. -/
def LoopPhase.remaining : LoopPhase → Nat
  | starting => 4
  | running => 3
  | counting => 2
  | resting _ => 1
  | stopped | crashed _ => 0

namespace World

variable {w w' v : World} {l : Loop} {c : Choice}

/-- Once it is cancelled, a loop begins no run after its first. -/
lemma LoopMove.remaining (h : LoopMove w l w') (hc : w.isCancelled = true) :
    ∃ l', w'.loop = some l' ∧ l'.phase.remaining < l.phase.remaining := by
  cases h with
  | again hphase hlive => rw [hc] at hlive; cases hlive
  | start hphase | settle _ hphase | cut hphase | crash hphase
  | count hphase | quit hphase =>
    exact ⟨_, rfl, by simp [hphase, LoopPhase.remaining]⟩

/-- One action of a loop or of the run that it has begun, after whatever has
happened besides. -/
def Onward (w' w : World) : Prop :=
  ∃ u c, Apart w u ∧ c.isOutside = false ∧ u.take c = some w'

/-- A cancelled loop and its runs act only finitely often, whatever happens besides. -/
theorem acc_onward (hc : w.isCancelled = true) (hl : w.loop = some l) : Acc Onward w := by
  induction hn : l.phase.remaining using Nat.strongRecOn generalizing w l with
  | ind n ihLoop =>
    induction hp : w.progress using (WellFounded.intro
      Progress.acc).induction generalizing w with
    | _ p ihRun =>
      subst hn hp
      refine ⟨_, fun v => ?_⟩
      rintro ⟨u, c, hapart, hown, htake⟩
      have hc' : v.isCancelled = true := choice_isCancelled htake (hapart.cancelled hc)
      by_cases hloop : c = .loop
      · subst hloop
        obtain ⟨l₁, hl₁, hmove⟩ := take_loop htake
        obtain rfl : l₁ = l := Option.some.inj (hl₁.symm.trans (hapart.loop.trans hl))
        obtain ⟨l', hl', hlt⟩ := hmove.remaining (hapart.cancelled hc)
        exact ihLoop _ hlt hc' hl' rfl
      · rcases take_move hloop htake with hmove | ⟨hout, -⟩
        · refine ihRun _ ⟨u, v, c, _, hmove, hapart.progress, rfl⟩ hc' ?_ rfl
          exact (hmove.loop.trans hapart.loop).trans hl
        · rw [hown] at hout
          cases hout

/-- A run that has been cancelled need not wait for anything. -/
lemma exists_run (hc : w.isCancelled = true) (hactive : w.progress.isActive = true) :
    ∃ w', w.take .run = some w' := by
  simp only [take, stepRun]
  cases hp : w.progress with
  | acting step run => exact ⟨_, rfl⟩
  | calling step a rest =>
    cases a with
    | ready task => exact ⟨_, rfl⟩
    | waiting f task => exact ⟨_, if_pos hc⟩
    | ended r => cases r <;> exact ⟨_, rfl⟩
  | joining step awake first results rest =>
    cases awake with
    | true => cases hv : complete? results <;> exact ⟨_, by simp only [hv]; rfl⟩
    | false => exact ⟨_, if_pos hc⟩
  | idle | ended | crashed => rw [hp] at hactive; cases hactive

/-- Until it is over, a cancelled loop or the run that it has begun can act at once. -/
theorem exists_own (hc : w.isCancelled = true) (hl : w.loop = some l)
    (hover : l.phase.isOver = false) (hbegun : l.phase = .running → w.progress ≠ .idle) :
    ∃ c w', c.isOutside = false ∧ w.take c = some w' := by
  have hloop : (∃ w', w.stepLoop = some w') → ∃ c w', c.isOutside = false ∧
      w.take c = some w' :=
    fun ⟨w', h⟩ => ⟨.loop, w', rfl, h⟩
  cases hphase : l.phase with
  | starting => exact hloop ⟨_, by simp only [stepLoop, hl, hphase]; rfl⟩
  | counting => exact hloop ⟨_, by simp only [stepLoop, hl, hphase]; rfl⟩
  | resting wake => exact hloop ⟨_, by simp only [stepLoop, hl, hphase, hc, if_true]; rfl⟩
  | running =>
    cases hactive : w.progress.isActive with
    | true =>
      obtain ⟨w', h⟩ := exists_run hc hactive
      exact ⟨.run, w', rfl, h⟩
    | false =>
      cases hp : w.progress with
      | idle => exact absurd hp (hbegun hphase)
      | crashed => exact hloop ⟨_, by simp only [stepLoop, hl, hphase, hp]; rfl⟩
      | ended r =>
        rcases r with e | outcome
        · cases e <;> exact hloop ⟨_, by simp only [stepLoop, hl, hphase, hp]; rfl⟩
        · exact hloop ⟨_, by simp only [stepLoop, hl, hphase, hp]; rfl⟩
      | acting | calling | joining => rw [hp] at hactive; cases hactive
  | stopped | crashed => rw [hphase] at hover; cases hover

/-! ## Endless courses -/

/-- An endless course: the worlds at all times, and the choices that lead from each
to the next. -/
def Course (ω : Nat → World) (σ : Nat → Choice) : Prop :=
  ∀ i, (ω i).take (σ i) = some (ω (i + 1))

/-- A course is fair to the loop and its runs: if from some time on these can always act,
they do so at some time. -/
def Fair (ω : Nat → World) (σ : Nat → Choice) : Prop :=
  ∀ i, (∀ j, i ≤ j → ∃ c w', c.isOutside = false ∧ (ω j).take c = some w') →
    ∃ j, i ≤ j ∧ (σ j).isOutside = false

namespace Course

variable {ω : Nat → World} {σ : Nat → Choice}

/-- The first choices of a course are a schedule. -/
lemma follow (h : Course ω σ) (n : Nat) :
    (ω 0).follow ((List.range n).map σ) = some (ω n) := by
  induction n with
  | zero => rfl
  | succ n ih =>
    rw [List.range_succ, List.map_append, follow_append, ih, Option.bind_some,
      List.map_singleton, World.follow, h n]
    rfl

/-- While only others act, the loop and its runs stay where they are. -/
lemma apart (h : Course ω σ) {i j : Nat} (hij : i ≤ j)
    (hout : ∀ k, i ≤ k → k < j → (σ k).isOutside = true) : Apart (ω i) (ω j) := by
  obtain ⟨d, rfl⟩ := Nat.exists_eq_add_of_le hij
  induction d with
  | zero => exact Apart.refl _
  | succ d ih =>
    exact (ih (Nat.le_add_right i d) fun k hk hlt => hout k hk (by omega)).trans
      (take_apart (hout (i + d) (by omega) (by omega)) (h (i + d)))

/-- What is accessible can act only finitely often. -/
lemma finitely (h : Course ω σ) (hacc : Acc Onward w) {i : Nat} (hapart : Apart w (ω i)) :
    ∃ j, i ≤ j ∧ ∀ k, j ≤ k → (σ k).isOutside = true := by
  induction hacc generalizing i with
  | intro w _ ih =>
    by_cases hacts : ∃ j, i ≤ j ∧ (σ j).isOutside = false
    · -- After the first action that is its own, it is further on its way.
      obtain ⟨hij, hown⟩ := Nat.find_spec hacts
      have hout : ∀ k, i ≤ k → k < Nat.find hacts → (σ k).isOutside = true :=
        fun k hk hlt => eq_true_of_ne_false fun hown => Nat.find_min hacts hlt ⟨hk, hown⟩
      have hnext : Onward (ω (Nat.find hacts + 1)) w :=
        ⟨_, _, hapart.trans (h.apart hij hout), hown, h _⟩
      obtain ⟨j, hj, hquiet⟩ := ih _ hnext (Apart.refl _)
      exact ⟨j, by omega, hquiet⟩
    · exact ⟨i, Nat.le_refl i, fun k hk => eq_true_of_ne_false fun hown =>
        hacts ⟨k, hk, hown⟩⟩

/-- On a fair course, what is accessible comes to where it cannot act any more. -/
theorem ends (h : Course ω σ) (hfair : Fair ω σ) (hacc : Acc Onward (ω 0))
    {Q : World → Prop} (hown : ∀ i, Q (ω i) ∨ ∃ c w', c.isOutside = false ∧
      (ω i).take c = some w') : ∃ i, Q (ω i) := by
  refine Classical.byContradiction fun hnever => ?_
  obtain ⟨i, -, hquiet⟩ := h.finitely hacc (Apart.refl _)
  obtain ⟨j, hij, hacts⟩ := hfair i fun j _ => (hown j).resolve_left fun hQ =>
    hnever ⟨j, hQ⟩
  rw [hquiet j hij] at hacts
  cases hacts

end Course

/-- What is accessible can be led to where it cannot act any more, through worlds with any
property that is preserved by its actions. -/
theorem exists_end {P Q : World → Prop} (hacc : Acc Onward w) (hw : P w)
    (hown : ∀ v, P v → Q v ∨ ∃ c v', c.isOutside = false ∧ v.take c = some v' ∧ P v') :
    ∃ ds w', w.follow ds = some w' ∧ Q w' := by
  induction hacc with
  | intro w _ ih =>
    rcases hown w hw with hQ | ⟨c, v, hc, htake, hv⟩
    · exact ⟨[], w, rfl, hQ⟩
    · obtain ⟨ds, w', hfollow, hQ⟩ := ih v ⟨w, c, Apart.refl w, hc, htake⟩ hv
      exact ⟨c :: ds, w', by rw [World.follow, htake]; exact hfollow, hQ⟩

end World
end Workplan
