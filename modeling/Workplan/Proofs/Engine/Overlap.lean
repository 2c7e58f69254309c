import Mathlib.Tactic.Lemma
import Workplan.Executor.Simple
import Workplan.Proofs.Engine.Outliving

/-!
# Do the iterations of a loop overlap?

As runs they never do: a loop begins a run only when the one before has ended.  But
started calls may outlive their step, and with it the iteration, so that a call of an
earlier iteration may be going on when a later one makes its first call, and even when the
loop has been stopped (`lateWorld`).

What is true of every loop follows from the books (`loop_calls`): such a call was started
by a parallel or an iterate step that failed, or, once the loop has been stopped, that
failed or was interrupted.  Where no fan-out failed or was interrupted, iterations do not
overlap even in their calls, and nobody changes the store of a stopped loop.
-/

namespace Workplan

/-- What holds of a loop at every moment: a run in progress is the one that the loop waits
for, and a fan-out is interrupted only in the loop's last run. -/
structure LoopBooks (L : Ledger) (w : World) (l : Loop) : Prop where
  loop : w.loop = some l
  running : w.progress.isActive = true → l.phase = .running
  last : ∀ s, (s, Fate.interrupted) ∈ L.closed →
    w.progress.isCut = true ∧ (l.phase = .running ∨ l.phase = .stopped)

namespace LoopBooks

variable {L : Ledger} {w w' : World} {l : Loop} {c : Choice}

lemma not_active_of_isCut {p : Progress} (h : p.isCut = true) : p.isActive = false := by
  unfold Progress.isCut at h
  split at h
  · rfl
  · cases h

/-- While a run is in progress, no fan-out has been interrupted. -/
lemma not_interrupted (h : LoopBooks L w l) (hactive : w.progress.isActive = true)
    (s : Spawn) :
    (s, Fate.interrupted) ∉ L.closed := by
  intro hs
  rw [not_active_of_isCut (h.last s hs).1] at hactive
  cases hactive

/-- An action of the loop. -/
lemma take_loop (h : LoopBooks L w l) (hbooks : Books L w) (hmove : w.LoopMove l w') :
    ∃ l', LoopBooks (L.noted none w w') w' l' := by
  -- A run that begins is the first one, or follows one that has been counted.
  have hbegin : w'.progress = .acting 0 w.workflow.nextRun →
      w'.loop = some { l with phase := .running } →
      l.phase ≠ .running → l.phase ≠ .stopped →
      ∃ l', LoopBooks (L.noted none w w') w' l' := by
    intro hbegun hl hrunning hstopped
    have hidle : w.progress.isActive = false := Bool.eq_false_iff.mpr fun hactive =>
      hrunning (h.running hactive)
    rw [World.noted_begun hidle hbegun]
    refine ⟨_, hl, fun _ => rfl, fun s hs => ?_⟩
    rcases (h.last s hs).2 with hphase | hphase
    · exact absurd hphase hrunning
    · exact absurd hphase hstopped
  have hsame : ∀ l', w'.progress = w.progress → w'.loop = some l' →
      (w.progress.isActive = true → l'.phase = .running) →
      (w.progress.isCut = true → l.phase = .running ∨ l.phase = .stopped →
        l'.phase = .running ∨ l'.phase = .stopped) →
      ∃ l', LoopBooks (L.noted none w w') w' l' := by
    intro l' hprogress hl hactive hcut
    rw [World.noted_same hbooks.place hprogress]
    refine ⟨l', hl, by rw [hprogress]; exact hactive, fun s hs => ?_⟩
    rw [hprogress]
    exact ⟨(h.last s hs).1, hcut (h.last s hs).1 (h.last s hs).2⟩
  have hrests : l.phase ≠ .running → w.progress.isActive = true → False :=
    fun hphase hactive => hphase (h.running hactive)
  cases hmove with
  | start hphase | again hphase =>
    exact hbegin rfl rfl (by rw [hphase]; simp) (by rw [hphase]; simp)
  | @settle result event hphase hend hne =>
    refine hsame _ rfl rfl (by rw [hend]; simp [Progress.isActive]) fun hcut _ => ?_
    rw [hend] at hcut
    unfold Progress.isCut at hcut
    split at hcut
    · next hp => exact absurd (Progress.ended.inj hp) hne
    · cases hcut
  | cut hphase hend =>
    exact hsame _ rfl rfl (by rw [hend]; simp [Progress.isActive]) fun _ _ => .inr rfl
  | crash hphase hend =>
    refine hsame _ rfl rfl (by rw [hend]; simp [Progress.isActive]) fun hcut _ => ?_
    rw [hend] at hcut
    cases hcut
  | count hphase =>
    refine hsame _ rfl rfl (fun hactive => (hrests (by rw [hphase]; simp) hactive).elim)
      fun _ hold => ?_
    rcases hold with hold | hold <;> rw [hphase] at hold <;> cases hold
  | quit hphase =>
    exact hsame _ rfl rfl (fun hactive => (hrests (by rw [hphase]; simp) hactive).elim)
      fun _ _ => .inr rfl

lemma take (h : LoopBooks L w l) (hbooks : Books L w) (htake : w.take c = some w') :
    ∃ l', LoopBooks (L.noted (w.exchange? c) w w') w' l' := by
  by_cases hloop : c = .loop
  · subst hloop
    obtain ⟨l₁, hl₁, hmove⟩ := World.take_loop htake
    obtain rfl : l₁ = l := Option.some.inj (hl₁.symm.trans h.loop)
    exact h.take_loop hbooks hmove
  · have hl' : w'.loop = some l := (World.take_keeps_loop hloop htake).trans h.loop
    have hledger := hbooks.ledgerMove htake
    rcases World.take_move hloop htake with hmove | ⟨-, hx, hapart⟩
    · have hrunning := h.running hmove.isActive
      refine ⟨l, hl', fun _ => hrunning, fun s hs => ?_⟩
      have hold := h.not_interrupted hmove.isActive s
      generalize L.noted (w.exchange? c) w w' = L' at hledger hs
      cases hledger with
      | keep | spawn | begin => exact absurd hs hold
      | close fate _ _ _ hcut =>
        rcases List.mem_append.mp hs with hs | hs
        · exact absurd hs hold
        · obtain ⟨s', -, hs'⟩ : ∃ s', L.current = some s' ∧
            (s', fate) = (s, .interrupted) := by
            simpa using hs
          exact ⟨hcut.2 (Prod.mk.inj hs').2, .inl hrunning⟩
    · rw [hx, World.noted_same hbooks.place hapart.progress]
      exact ⟨l, hl', by rw [hapart.progress]; exact h.running,
        by rw [hapart.progress]; exact h.last⟩

end LoopBooks

namespace History

/-- Both books along a schedule of a loop. -/
lemma live_loopBooks {H H' : History} {cs : List Choice} {l : Loop}
    (hlive : H.live (cs.map .choose) = some H') (hbooks : Books H.ledger H.world)
    (hloop : LoopBooks H.ledger H.world l) :
    Books H'.ledger H'.world ∧ ∃ l', LoopBooks H'.ledger H'.world l' := by
  induction cs generalizing H l with
  | nil => obtain rfl := Option.some.inj hlive; exact ⟨hbooks, l, hloop⟩
  | cons c rest ih =>
    obtain ⟨H₁, hnext, hrest⟩ := live_cons hlive
    obtain ⟨w, htake, rfl⟩ := next_choose hnext
    obtain ⟨l₁, hloop₁⟩ := hloop.take hbooks htake
    exact ih hrest (hbooks.take htake) hloop₁

end History

namespace World

variable {w w' : World} {c : Choice} {l : Loop}

/-- Beside a loop that is over, only a started call can change the workflow. -/
lemma take_stopped (hl : w.loop = some l) (hover : l.phase = .stopped)
    (hidle : w.progress.isActive = false) (h : w.take c = some w') :
    w'.loop = some l ∧ w'.progress = w.progress ∧ c.isOutside = true ∧
      ((∀ n, c ≠ .job n) → w'.workflow = w.workflow) := by
  have hloop : c ≠ .loop := by
    rintro rfl
    obtain ⟨l₁, hl₁, hmove⟩ := take_loop h
    obtain rfl : l₁ = l := Option.some.inj (hl₁.symm.trans hl)
    cases hmove with
    | start hphase | settle _ hphase | cut hphase | crash hphase
    | count hphase | quit hphase
    | again hphase => rw [hover] at hphase; cases hphase
  rcases take_move hloop h with hmove | ⟨hout, -, hapart⟩
  · rw [hmove.isActive] at hidle
    cases hidle
  · exact ⟨hapart.loop.trans hl, hapart.progress, hout, take_outside_workflow hout h⟩

/-- Where the loop is over and all started calls have ended, nothing changes the
workflow any more. -/
lemma follow_stopped {cs : List Choice} (hl : w.loop = some l) (hover : l.phase = .stopped)
    (hidle : w.progress.isActive = false) (hquiet : w.Quiet) (h : w.follow cs = some w') :
    w'.workflow = w.workflow := by
  induction cs generalizing w with
  | nil => obtain rfl := Option.some.inj h; rfl
  | cons c rest ih =>
    obtain ⟨w₁, htake, hrest⟩ := follow_cons h
    obtain ⟨hl₁, hprogress, hout, -⟩ := take_stopped hl hover hidle htake
    obtain ⟨hquiet₁, hworkflow⟩ := hquiet.take hout htake
    rw [ih hl₁ (by rw [hprogress]; exact hidle) hquiet₁ hrest, hworkflow]

end World

/-! ## Calls that overlap -/

/-- A world with one step, which calls two executors at once: one writes to the store, but
waits before, and the other fails. -/
def lateWorld : World where
  host := fun _ _ => .refused "no program"
  workflow :=
    { name := "late", prompt := none
      steps := [
        { action := .parallel [
            Executor.ofBehaviour 0 "delay" (.delay 50)
              (some (Executor.ofBehaviour 1 "set" (.set "late" (.bool true)) none)),
            Executor.ofBehaviour 2 "fail" (.fail (.failed "failed")) none]
          description := "write late and fail" }] }

/-- The loop goes through one iteration, which fails, and the next one makes its calls. -/
def secondIteration : List Choice :=
  .loop :: (List.replicate 3 .run ++ [.job 0, .job 1, .collect 1] ++
    List.replicate 2 .run) ++ [.loop, .loop, .pass 5, .loop] ++ List.replicate 3 .run

/-- The loop is stopped within its second iteration. -/
def stopInSecond : List Choice :=
  secondIteration ++ [.cancel, .run, .run, .loop]

/-- A loop whose second iteration makes its first executor calls while a call of the first
one is unfinished; and when that loop has been stopped, the call is still unfinished and
goes on to change the store. -/
theorem loop_calls_overlap :
    (∃ H s s' e job, (⟨lateWorld.startLoop (some 5), {}⟩ : History).live
      (secondIteration.map .choose) =
        some H ∧ H.ledger.current = some s' ∧ s'.run = 2 ∧
          H.ledger.closed = [(s, .failed e)] ∧
        s.run = 1 ∧ s.Owns 0 ∧ H.world.jobs[0]? = some job ∧ job.activity.isEnded = false) ∧
    ∃ H l job w, (⟨lateWorld.startLoop (some 5), {}⟩ : History).live
      (stopInSecond.map .choose) = some H ∧
      H.world.loop = some l ∧ l.phase = .stopped ∧
      H.world.jobs[0]? = some job ∧ job.activity.isEnded = false ∧
      H.world.follow [.pass 45, .job 0, .job 0] = some w ∧
      H.world.workflow.store.get? "late" = none ∧
      w.workflow.store.get? "late" = some (.bool true) := by
  constructor
  · exact ⟨_, _, _, _, _, rfl, rfl, rfl, rfl, rfl, ⟨Nat.le_refl _, Nat.succ_pos _⟩, rfl,
      rfl⟩
  · exact ⟨_, _, _, _, rfl, rfl, rfl, rfl, rfl, rfl, rfl, rfl⟩

/-! ## Where calls cannot overlap -/

/-- The calls of a loop, on every schedule.  A run begins only where none is in progress.
While a run is in progress, a call that is unfinished is collected by that run, or was
started by a parallel or an iterate step that failed.  When the loop has been stopped, no
run is in progress, a call that is unfinished was started by a parallel or an iterate step
that failed or was interrupted, and only such calls still change the workflow.  If no
fan-out has failed or was interrupted, then while a run is in progress only calls of its
own are unfinished, and when the loop has been stopped none is, and nothing changes the
workflow any more. -/
theorem loop_calls_separate {w : World} {pause : Option Nat} {cs : List Choice}
    {H : History} (hjobs : w.jobs = []) (hidle : w.progress = .idle)
    (hlive : (⟨w.startLoop pause, {}⟩ : History).live (cs.map .choose) = some H) :
    (∀ c H', H.next (.choose c) = some H' → H'.ledger.runs ≠ H.ledger.runs →
      H.world.progress.isActive = false) ∧
    (H.world.progress.isActive = true →
      ∀ (n : Nat) (job : Job), H.world.jobs[n]? = some job →
      job.activity.isEnded = false →
        (∃ s e, (s, .failed e) ∈ H.ledger.closed ∧ s.Owns n ∧
          FansOut H.world.workflow.steps s.step) ∨
        ∃ s, H.ledger.current = some s ∧ s.Owns n ∧ s.run = H.ledger.runs) ∧
    (∀ l, H.world.loop = some l → l.phase = .stopped →
      H.world.progress.isActive = false ∧
      (∀ (n : Nat) (job : Job), H.world.jobs[n]? = some job → job.activity.isEnded = false →
        ∃ s fate, (s, fate) ∈ H.ledger.closed ∧ fate ≠ .succeeded ∧ s.Owns n ∧
          FansOut H.world.workflow.steps s.step) ∧
      ∀ c w', H.world.take c = some w' → (∀ n, c ≠ .job n) →
        w'.workflow = H.world.workflow) ∧
    (H.ledger.IsClean →
      (H.world.progress.isActive = true →
        ∀ (n : Nat) (job : Job), H.world.jobs[n]? = some job →
        job.activity.isEnded = false →
          ∃ s, H.ledger.current = some s ∧ s.Owns n ∧ s.run = H.ledger.runs) ∧
      ∀ l, H.world.loop = some l → l.phase = .stopped →
        (∀ (n : Nat) (job : Job), H.world.jobs[n]? = some job →
          job.activity.isEnded = true) ∧
        ∀ ds w', H.world.follow ds = some w' → w'.workflow = H.world.workflow) := by
  have hstart : Books {} (w.startLoop pause) :=
    (Books.new hjobs hidle).setLoop _ _ fun hactive => by
    rw [hidle] at hactive
    cases hactive
  have hloopStart : LoopBooks {} (w.startLoop pause) { pause } := by
    refine ⟨rfl, fun hactive => ?_, by simp⟩
    have hactive' : w.progress.isActive = true := hactive
    rw [hidle] at hactive'
    cases hactive'
  obtain ⟨hbooks, l, hloop⟩ := History.live_loopBooks hlive hstart hloopStart
  have hstopped : ∀ l', H.world.loop = some l' → l'.phase = .stopped →
      H.world.progress.isActive = false := by
    intro l' hl' hphase
    obtain rfl : l = l' := Option.some.inj (hloop.loop.symm.trans hl')
    refine Bool.eq_false_iff.mpr fun hactive => ?_
    have hrunning := hloop.running hactive
    rw [hphase] at hrunning
    cases hrunning
  refine ⟨fun c H' hnext hruns => ?_, fun hactive n job hjob hopen => ?_,
    fun l' hl' hphase => ?_,
    fun hclean => ⟨fun hactive n job hjob hopen => ?_, fun l' hl' hphase => ?_⟩⟩
  · obtain ⟨w', htake, rfl⟩ := History.next_choose hnext
    have hmove := hbooks.ledgerMove htake
    generalize H.ledger.noted (H.world.exchange? c) H.world w' = L' at hmove hruns
    cases hmove with
    | keep | spawn | close => exact absurd rfl hruns
    | begin hidle => exact hidle
  · rcases hbooks.unfinished hjob hopen with ⟨s, fate, hs, hfate, howns, hstep⟩ |
      ⟨s, _, _, _, hs, howns, -⟩
    · cases fate with
      | succeeded => exact absurd rfl hfate
      | failed e => exact .inl ⟨s, e, hs, howns, hstep⟩
      | interrupted => exact absurd hs (hloop.not_interrupted hactive s)
    · exact .inr ⟨s, hs, howns, hbooks.currentRun s hs⟩
  · have hrests := hstopped l' hl' hphase
    refine ⟨hrests, fun n job hjob hopen => ?_, fun c w' htake hc =>
      (World.take_stopped hl' hphase hrests htake).2.2.2 hc⟩
    refine (hbooks.unfinished hjob hopen).resolve_right ?_
    rintro ⟨s, awake, results, rest, -, -, -, hp⟩
    rw [hp] at hrests
    cases hrests
  · rcases hbooks.unfinished hjob hopen with ⟨s, fate, hs, hfate, -⟩ |
      ⟨s, _, _, _, hs, howns, -⟩
    · exact absurd (hclean _ hs) hfate
    · exact ⟨s, hs, howns, hbooks.currentRun s hs⟩
  · have hrests := hstopped l' hl' hphase
    have hended : ∀ (n : Nat) (job : Job), H.world.jobs[n]? = some job →
        job.activity.isEnded = true :=
      fun n job hjob => hbooks.ended hclean (World.fanOut?_of_not_active hrests) hjob
    have hquiet : H.world.Quiet := by
      intro job hjob
      obtain ⟨n, hn⟩ := List.mem_iff_getElem?.mp hjob
      exact hended n job hn
    exact ⟨hended, fun ds w' hfollow =>
      World.follow_stopped hl' hphase hrests hquiet hfollow⟩

/-- In the loop above, the call that is unfinished when the loop has been stopped belongs
to a step that failed or was interrupted. -/
theorem loop_calls_separate_late :
    ∃ H l job, (⟨lateWorld.startLoop (some 5), {}⟩ : History).live
      (stopInSecond.map .choose) = some H ∧
      H.world.loop = some l ∧ l.phase = .stopped ∧ H.world.jobs[0]? = some job ∧
      job.activity.isEnded = false ∧
      ∃ s fate, (s, fate) ∈ H.ledger.closed ∧ fate ≠ .succeeded ∧ s.Owns 0 := by
  obtain ⟨H, l, job, hlive, hl, hphase, hjob, hopen⟩ : ∃ H l job,
      (⟨lateWorld.startLoop (some 5), {}⟩ : History).live
        (stopInSecond.map .choose) = some H ∧
        H.world.loop = some l ∧ l.phase = .stopped ∧ H.world.jobs[0]? = some job ∧
        job.activity.isEnded = false := ⟨_, _, _, rfl, rfl, rfl, rfl, rfl⟩
  obtain ⟨-, -, hstopped, -⟩ := loop_calls_separate (w := lateWorld) rfl rfl hlive
  obtain ⟨-, hunfinished, -⟩ := hstopped l hl hphase
  obtain ⟨s, fate, hs, hfate, howns, -⟩ := hunfinished 0 job hjob hopen
  exact ⟨H, l, job, hlive, hl, hphase, hjob, hopen, s, fate, hs, hfate, howns⟩

end Workplan
