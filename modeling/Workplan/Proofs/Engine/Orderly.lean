import Mathlib.Logic.Hydra
import Mathlib.Tactic.Lemma
import Workplan.Engine.Schedule
import Workplan.Proofs.Engine.Stopping

/-!
# The orderly schedule comes to the end of a cancelled loop

The orderly schedule lets the loop and its runs act as soon as they can, but it lets
started calls that can act go before a run that sleeps and has to be woken.  Since these
act only finitely often as well (`acc_jobs`), it is fair, and comes to the end of every
loop that has been cancelled: so many choices are enough (`settle_ends`).
-/

namespace Workplan

/-- One of several calls acts. -/
def Job.After (jobs' jobs : List Job) : Prop :=
  ∃ n job a, jobs[n]? = some job ∧ a.After job.activity ∧
    jobs' = jobs.set n { job with activity := a }

/-- Several calls together act only finitely often. -/
theorem Job.acc_jobs (jobs : List Job) : Acc Job.After jobs := by
  -- One activity is replaced by a later one, and the others stay.
  have hwf : WellFounded (Relation.CutExpand Activity.After) :=
    WellFounded.cutExpand ⟨Activity.acc⟩
  let activities (jobs : List Job) : Multiset Activity := ↑(jobs.map Job.activity)
  refine Subrelation.accessible (r := InvImage _ activities) ?_
    ((InvImage.wf activities hwf).apply jobs)
  rintro jobs' jobs ⟨n, job, a, hjob, hafter, rfl⟩
  obtain ⟨hn, rfl⟩ := List.getElem?_eq_some_iff.mp hjob
  have hthen :=
    (List.set_perm_cons_eraseIdx hn { jobs[n] with activity := a }).map Job.activity
  have hnow := (List.getElem_cons_eraseIdx_perm hn).map Job.activity
  refine ⟨{a}, jobs[n].activity, fun a' ha' => Multiset.mem_singleton.mp ha' ▸ hafter, ?_⟩
  simp only [activities]
  rw [Multiset.coe_eq_coe.mpr hthen, ← Multiset.coe_eq_coe.mpr hnow]
  simp only [List.map_cons, ← Multiset.cons_coe]
  rw [Multiset.cons_add, Multiset.cons_add, Multiset.add_comm _ {a}, Multiset.singleton_add,
    Multiset.add_comm _ {jobs[n].activity}, Multiset.singleton_add, Multiset.cons_swap]

namespace World

variable {w w' : World} {l : Loop} {c : Choice} {n : Nat}

/-- A started call that acts makes one action of its task, or stops waiting. -/
lemma take_job_after (h : w.take (.job n) = some w') : Job.After w'.jobs w.jobs := by
  obtain ⟨job, a, w₁, hjob, hadv, rfl⟩ := take_job h
  refine ⟨n, job, a, hjob, ?_, by rw [setActivity, (advance_apart hadv).2.1]⟩
  generalize job.activity = activity at hadv
  cases advance_eq_some_iff.mp hadv with
  | act t => exact .act w t
  | wake hdue => exact .wake _ _

/-! ## The choices of the orderly schedule -/

lemma exists_take_job {job : Job} (hjob : w.jobs[n]? = some job)
    (h : job.activity.isReady = true ∨ job.activity.isDue w.now = true) :
    ∃ w', w.take (.job n) = some w' := by
  simp only [take, stepJob, hjob]
  cases ha : job.activity with
  | ready t => exact ⟨_, rfl⟩
  | waiting f t =>
    rw [ha] at h
    have hdue : (Activity.waiting f t).isDue w.now = true :=
      h.resolve_left (by simp [Activity.isReady])
    exact ⟨_, by simp only [advance, if_pos hdue]; rfl⟩
  | ended r => rw [ha] at h; simp [Activity.isReady, Activity.isDue] at h

/-- A call that is found can act, if it is looked for among those that are ready or due. -/
lemma exists_take_findJob {p : Activity → Bool}
    (hp : ∀ a, p a = true → a.isReady = true ∨ a.isDue w.now = true)
    (h : w.findJob p = some n) :
    ∃ w', w.take (.job n) = some w' := by
  obtain ⟨hn, hpn, -⟩ := List.findIdx?_eq_some_iff_getElem.mp h
  exact exists_take_job (List.getElem?_eq_getElem hn) (hp _ hpn)

lemma exists_take_collectable (h : w.collectable? = some n) :
    ∃ w', w.take (.collect n) = some w' := by
  unfold collectable? at h
  split at h
  · next step awake first results rest hp =>
    have hfound := List.find?_some h
    simp only [Bool.and_eq_true, Option.any_eq_true, Option.isSome_iff_exists] at hfound
    obtain ⟨⟨slot, hslot, hnone⟩, end_, hend⟩ := hfound
    obtain rfl : slot = none := Option.isNone_iff_eq_none.mp hnone
    simp only [take, collect, hp, hslot, hend]
    split
    · exact ⟨_, rfl⟩
    · cases end_ with
      | panicked => exact ⟨_, rfl⟩
      | returned result => cases result <;> exact ⟨_, rfl⟩
  · cases h

/-- In a phase in which the loop need not look at anything else, it can act. -/
lemma exists_take_loop (hl : w.loop = some l)
    (hphase : l.phase = .starting ∨ l.phase = .counting) :
    ∃ w', w.take .loop = some w' := by
  simp only [take, stepLoop, hl]
  rcases hphase with h | h <;> rw [h] <;> exact ⟨_, rfl⟩

/-- A loop notices that its run is over. -/
lemma exists_take_notice (hl : w.loop = some l) (hphase : l.phase = .running)
    (hover : w.progress.isOver = true) : ∃ w', w.take .loop = some w' := by
  simp only [take, stepLoop, hl, hphase]
  cases hp : w.progress with
  | ended r =>
    rcases r with e | outcome
    · cases e <;> exact ⟨_, rfl⟩
    · exact ⟨_, rfl⟩
  | crashed report => exact ⟨_, rfl⟩
  | idle | acting | calling | joining => rw [hp] at hover; cases hover

lemma loopPhase?_eq_some {phase : LoopPhase} (h : w.loopPhase? = some phase) :
    ∃ l, w.loop = some l ∧ l.phase = phase :=
  Option.map_eq_some_iff.mp h

/-- Who acts without having to wait is the run or the loop, and can do so. -/
lemma awakeChoice_takes (h : w.awakeChoice = some c) :
    c.isOutside = false ∧ ∃ w', w.take c = some w' := by
  unfold awakeChoice at h
  split at h
  · next hphase =>
    obtain ⟨l, hl, hphase⟩ := loopPhase?_eq_some hphase
    obtain rfl := Option.some.inj h
    exact ⟨rfl, exists_take_loop hl (.inl hphase)⟩
  · next hphase =>
    obtain ⟨l, hl, hphase⟩ := loopPhase?_eq_some hphase
    obtain rfl := Option.some.inj h
    exact ⟨rfl, exists_take_loop hl (.inr hphase)⟩
  · next hp hphase =>
    obtain ⟨l, hl, hphase⟩ := loopPhase?_eq_some hphase
    obtain rfl := Option.some.inj h
    exact ⟨rfl, exists_take_notice hl hphase (by rw [hp]; rfl)⟩
  · next hp hphase =>
    obtain ⟨l, hl, hphase⟩ := loopPhase?_eq_some hphase
    obtain rfl := Option.some.inj h
    exact ⟨rfl, exists_take_notice hl hphase (by rw [hp]; rfl)⟩
  · next hp _ _ =>
    obtain rfl := Option.some.inj h
    exact ⟨rfl, by simp only [take, stepRun, hp]; exact ⟨_, rfl⟩⟩
  · next hp _ _ =>
    obtain rfl := Option.some.inj h
    exact ⟨rfl, by simp only [take, stepRun, hp]; exact ⟨_, rfl⟩⟩
  · next r rest hp _ _ =>
    obtain rfl := Option.some.inj h
    exact ⟨rfl, by simp only [take, stepRun, hp]; cases r <;> exact ⟨_, rfl⟩⟩
  · next step first results rest hp _ _ =>
    obtain rfl := Option.some.inj h
    cases hcollect : w.collectable? with
    | some n => exact ⟨rfl, exists_take_collectable hcollect⟩
    | none =>
      refine ⟨rfl, ?_⟩
      show ∃ w', w.take .run = some w'
      simp only [take, stepRun, hp]
      split <;> exact ⟨_, rfl⟩
  · cases h

/-- Who is woken is the run or the loop, and can act. -/
lemma wakeChoice_takes (h : w.wakeChoice = some c) :
    c.isOutside = false ∧ ∃ w', w.take c = some w' := by
  unfold wakeChoice at h
  split at h
  · next step f t rest hp =>
    obtain ⟨hwakes, hrun⟩ := Option.ite_none_right_eq_some.mp h
    obtain rfl := Option.some.inj hrun
    refine ⟨rfl, ?_⟩
    simp only [take, stepRun, hp]
    cases hc : w.isCancelled with
    | true => exact ⟨_, if_pos rfl⟩
    | false =>
      rw [hc, Bool.false_or] at hwakes
      exact ⟨_, by simp [hwakes]; rfl⟩
  · next step first results rest hp =>
    split at h
    · next hc =>
      obtain rfl := Option.some.inj h
      exact ⟨rfl, _, by simp only [take, stepRun, hp, if_pos hc]; rfl⟩
    · obtain ⟨n, hn, rfl⟩ := Option.map_eq_some_iff.mp h
      exact ⟨rfl, exists_take_collectable hn⟩
  · next wake hphase _ _ =>
    obtain ⟨l, hl, hphase⟩ := loopPhase?_eq_some hphase
    obtain ⟨hwakes, hloop⟩ := Option.ite_none_right_eq_some.mp h
    obtain rfl := Option.some.inj hloop
    refine ⟨rfl, ?_⟩
    simp only [take, stepLoop, hl, hphase]
    cases hc : w.isCancelled with
    | true => exact ⟨_, if_pos rfl⟩
    | false =>
      rw [hc, Bool.false_or] at hwakes
      exact ⟨_, by simp [hwakes]; rfl⟩
  · cases h

/-- Until it is over, a cancelled loop or the run that it has begun can act at once or
can be woken. -/
lemma exists_awake_or_wake (hc : w.isCancelled = true) (hl : w.loop = some l)
    (hover : l.phase.isOver = false) (hbegun : l.phase = .running → w.progress ≠ .idle) :
    w.awakeChoice ≠ none ∨ w.wakeChoice ≠ none := by
  have hphase : w.loopPhase? = some l.phase := by rw [loopPhase?, hl]; rfl
  unfold awakeChoice wakeChoice
  rw [hphase]
  cases hl' : l.phase with
  | starting | counting => exact .inl (by simp)
  | running =>
    cases hp : w.progress with
    | idle => exact absurd hp (hbegun hl')
    | acting | ended | crashed => exact .inl (by simp)
    | calling step a rest => cases a <;> simp [hc]
    | joining step awake first results rest => cases awake <;> simp [hc]
  | resting wake =>
    cases hp : w.progress with
    | idle | ended | crashed => exact .inr (by simp [hc])
    | acting => exact .inl (by simp)
    | calling step a rest => cases a <;> simp [hc]
    | joining step awake first results rest => cases awake <;> simp [hc]
  | stopped | crashed => rw [hl'] at hover; cases hover

/-- The orderly schedule goes on until a cancelled loop is over, and it is the loop, its
run or a started call that acts. -/
lemma exists_nextChoice (watch : Watch) (hc : w.isCancelled = true) (hl : w.loop = some l)
    (hover : l.phase.isOver = false) (hbegun : l.phase = .running → w.progress ≠ .idle) :
    ∃ c w', w.nextChoice watch = some c ∧ w.take c = some w' ∧
      (c.isOutside = false ∨ ∃ n, c = .job n) := by
  cases hawake : w.awakeChoice with
  | some c =>
    obtain ⟨hown, w', htake⟩ := awakeChoice_takes hawake
    exact ⟨c, w', by simp [nextChoice, hawake], htake, .inl hown⟩
  | none =>
    cases hready : w.findJob (·.isReady) with
    | some n =>
      obtain ⟨w', htake⟩ := exists_take_findJob (fun _ h => .inl h) hready
      exact ⟨.job n, w', by simp [nextChoice, hawake, hready], htake, .inr ⟨n, rfl⟩⟩
    | none =>
      cases hdue : w.findJob (·.isDue w.now) with
      | some n =>
        obtain ⟨w', htake⟩ := exists_take_findJob (fun _ h => .inr h) hdue
        exact ⟨.job n, w', by simp [nextChoice, hawake, hready, hdue], htake, .inr ⟨n, rfl⟩⟩
      | none =>
        have hwakes := (exists_awake_or_wake hc hl hover hbegun).resolve_left (· hawake)
        obtain ⟨c, hwake⟩ := Option.ne_none_iff_exists'.mp hwakes
        obtain ⟨hown, w', htake⟩ := wakeChoice_takes hwake
        exact ⟨c, w', by simp [nextChoice, hawake, hready, hdue, hwake], htake, .inl hown⟩

/-! ## The end of the orderly schedule -/

/-- To settle is to make choices. -/
theorem settle_follows (watch : Watch) (fuel : Nat) (w : World) :
    ∃ ds, w.follow ds = some (w.settle watch fuel) := by
  -- Where settling stops, no further choice is made.
  induction fuel generalizing w with
  | zero => exact ⟨[], rfl⟩
  | succ fuel ih =>
    rw [settle]
    split
    · exact ⟨[], rfl⟩
    · cases hnext : w.nextChoice watch with
      | none => exact ⟨[], rfl⟩
      | some c =>
        cases htake : w.take c with
        | none => exact ⟨[], by simp [htake, follow]⟩
        | some w' =>
          obtain ⟨ds, hds⟩ := ih w'
          exact ⟨c :: ds, by simpa [follow, htake] using hds⟩

/-- Some number of choices is enough for the orderly schedule to come to where a
watch is over. -/
def Suffices (watch : Watch) (w : World) : Prop :=
  ∃ n, ∀ fuel, n ≤ fuel → watch.isDone (w.settle watch fuel) = true

lemma Suffices.done {watch : Watch} (h : watch.isDone w = true) : w.Suffices watch := by
  refine ⟨0, fun fuel _ => ?_⟩
  cases fuel with
  | zero => exact h
  | succ fuel => rwa [settle, if_pos h]

lemma Suffices.before {watch : Watch} (h : w'.Suffices watch)
    (hnext : w.nextChoice watch = some c) (htake : w.take c = some w') :
    w.Suffices watch := by
  cases hdone : watch.isDone w with
  | true => exact .done hdone
  | false =>
    obtain ⟨n, hn⟩ := h
    refine ⟨n + 1, fun fuel hfuel => ?_⟩
    obtain ⟨fuel, rfl⟩ : ∃ k, fuel = k + 1 := ⟨fuel - 1, by omega⟩
    simp only [settle, hdone, Bool.false_eq_true, if_false, hnext, Option.bind_some, htake]
    exact hn fuel (by omega)

/-- The orderly schedule comes to the end of a cancelled loop whose run has begun, if
that stays so. -/
theorem settle_ends {P : World → Prop} (hP : ∀ v, P v → v.isCancelled = true ∧
      ∃ l, v.loop = some l ∧ (l.phase = .running → v.progress ≠ .idle))
    (hstays : ∀ v c v', P v → v.take c = some v' → P v') (hw : P w) :
    w.Suffices { isDone := loopIsOver } := by
  obtain ⟨hc, l, hl, -⟩ := hP w hw
  -- Between two actions of the loop and its run, started calls act; both happens only
  -- finitely often.
  suffices key : ∀ w₀, Acc Onward w₀ → ∀ jobs, Acc Job.After jobs → ∀ u, Apart w₀ u →
      u.jobs = jobs → P u →
      u.Suffices { isDone := loopIsOver } from
    key w (acc_onward hc hl) w.jobs (Job.acc_jobs _) w (Apart.refl w) rfl hw
  intro w₀ hacc
  induction hacc with
  | intro w₀ _ ihOwn =>
    intro jobs hjobs
    induction hjobs with
    | intro jobs _ ihJobs =>
      rintro u hapart rfl hu
      obtain ⟨hc, l, hl, hbegun⟩ := hP u hu
      cases hover : l.phase.isOver with
      | true => exact .done (by simp [loopIsOver, hl, hover])
      | false =>
        obtain ⟨c, v, hnext, htake, hown | ⟨n, rfl⟩⟩ :=
          exists_nextChoice { isDone := loopIsOver } hc hl hover hbegun
        · have hv := ihOwn v ⟨u, c, hapart, hown, htake⟩ _ (Job.acc_jobs _) v
            (Apart.refl v) rfl (hstays u c v hu htake)
          exact hv.before hnext htake
        · have hv := ihJobs v.jobs (take_job_after htake) v
            (hapart.trans (take_apart rfl htake)) rfl (hstays u _ v hu htake)
          exact hv.before hnext htake

end World
end Workplan
