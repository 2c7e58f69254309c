import Mathlib.Tactic.Lemma
import Workplan.Proofs.Engine.Ledgers

/-!
# Calls that outlive their step

A started call that is unfinished although its step is over belongs to a fan-out that
failed or was interrupted; the books say so.  It goes on by itself, and how it ends is of
no account any more: in every life, its end could be exchanged for any other, and nothing
else would be different (`History.live_otherwise`).  Where all fan-outs succeeded there is
no such call, and the store stays what the run that ended has handed out.
-/

namespace Workplan

namespace World

/-- The same world in which a started call has ended otherwise. -/
def otherwise (w : World) (n : Nat) (job : Job) (e : CallEnd) : World :=
  w.setActivity n job (.ended e)

/-- Whether the run in progress collects the results of a fan-out to which a started
call belongs. -/
def Collects (w : World) (n : Nat) : Prop :=
  ∃ step first count, w.progress.fanOut? = some (step, first, count) ∧
    first ≤ n ∧ n < first + count

section

variable {w w' : World} {n m : Nat} {job : Job} {e : CallEnd}

lemma otherwise_jobEnd? (hne : m ≠ n) : (w.otherwise n job e).jobEnd? m = w.jobEnd? m := by
  simp only [jobEnd?, otherwise, setActivity, List.getElem?_set_ne (Ne.symm hne)]

/-- What a task does does not depend on how another call has ended. -/
lemma otherwise_perform (w : World) (n : Nat) (job : Job) (e : CallEnd) (t : Task) :
    ((w.otherwise n job e).perform t).1 = (w.perform t).1 ∧
      ((w.otherwise n job e).perform t).2 = (w.perform t).2.otherwise n job e := by
  cases t with
  | write store key value next =>
    refine ⟨rfl, ?_⟩
    show (if store = w.workflow.handle then _ else _ : World) = World.otherwise
      (ite _ _ _) n job e
    split <;> rfl
  | _ => exact ⟨rfl, rfl⟩

lemma otherwise_advance (n : Nat) (job : Job) (e : CallEnd) {a a' : Activity}
    (h : w.advance a = some (a', w')) :
    (w.otherwise n job e).advance a = some (a', w'.otherwise n job e) := by
  cases advance_eq_some_iff.mp h with
  | act t =>
    obtain ⟨hsame, hworld⟩ := otherwise_perform w n job e t
    exact congrArg some (Prod.ext hsame hworld)
  | wake hdue => exact if_pos hdue

/-- What the run in progress does is no different for it. -/
lemma otherwise_stepRun (hn : n < w.jobs.length) (h : w.stepRun = some w') :
    (w.otherwise n job e).stepRun = some (w'.otherwise n job e) := by
  unfold stepRun at h ⊢
  rw [show (w.otherwise n job e).progress = w.progress from rfl]
  -- The run looks at the table of started calls only to start more of them, and then only
  -- at its length.
  split at h
  · next step run hp =>
    obtain rfl := Option.some.inj h
    refine congrArg some ?_
    cases run with
    | enter number rest =>
      simp only [act]
      show (if w.isCancelled then _ else _) = (if w.isCancelled then
        _ else _ : World).otherwise n job e
      split <;> rfl
    | fanOut calls rest =>
      have hstart : (w.otherwise n job e).start calls =
          (w.start calls).otherwise n job e := by
        simp only [start, otherwise, setActivity, List.set_append_left _ _ hn]
      have hlength : (w.otherwise n job e).jobs.length = w.jobs.length := by
        simp [otherwise, setActivity]
      simp only [act, hstart, hlength]
      rfl
    | _ => rfl
  · obtain rfl := Option.some.inj h
    rfl
  · obtain rfl := Option.some.inj h
    rfl
  · next step t rest hp =>
    obtain rfl := Option.some.inj h
    obtain ⟨hactivity, hworld⟩ := otherwise_perform w n job e t
    simp only [hactivity, hworld]
    rfl
  · next step f t rest hp =>
    show (if w.isCancelled then _ else if (Activity.waiting f t).isDue w.now then
      _ else _) = _
    split at h
    · next hc =>
      obtain rfl := Option.some.inj h
      rw [if_pos hc]
      rfl
    · next hc =>
      rw [if_neg hc]
      split at h
      · next hdue =>
        obtain rfl := Option.some.inj h
        rw [if_pos hdue]
        rfl
      · cases h
  · split at h <;> obtain rfl := Option.some.inj h <;> rfl
  · show (if w.isCancelled then _ else _) = _
    split at h
    · next hc =>
      obtain rfl := Option.some.inj h
      rw [if_pos hc]
      rfl
    · cases h
  · cases h

/-- What the loop does is no different for it. -/
lemma otherwise_stepLoop :
    (w.otherwise n job e).stepLoop = w.stepLoop.map fun v => v.otherwise n job e := by
  unfold stepLoop
  rw [show (w.otherwise n job e).loop = w.loop from rfl]
  cases w.loop with
  | none => rfl
  | some l =>
    dsimp only
    cases l.phase with
    | starting | counting | stopped | crashed => rfl
    | running =>
      rw [show (w.otherwise n job e).progress = w.progress from rfl]
      cases w.progress with
      | ended r =>
        cases r with
        | ok outcome => rfl
        | error error => cases error <;> rfl
      | _ => rfl
    -- The pause is over for both worlds at once: neither the clock nor the token is in
    -- the replaced job.
    | resting wake =>
      show (if w.isCancelled then _ else if wake.any (· ≤ w.now) then _ else _) = _
      dsimp only
      split
      · rfl
      · split <;> rfl

/-- A run that takes the results of other calls takes them all the same. -/
lemma otherwise_collect {call : Nat} (hout : ¬ w.Collects n)
    (h : w.collect call = some w') :
    (w.otherwise n job e).collect call = some (w'.otherwise n job e) ∧
      (w.otherwise n job e).exchange? (.collect call) = w.exchange? (.collect call) := by
  unfold collect at h
  split at h
  · next step awake first results rest hp =>
    split at h
    · next end_ hslot hend =>
      have hcall : call < results.length := (List.getElem?_eq_some_iff.mp hslot).1
      -- The result that is taken belongs to the fan-out in progress, and the call in
      -- question does not.
      have hne : first + call ≠ n := by
        rintro rfl
        exact hout ⟨step, first, results.length, by rw [hp]; rfl, by omega, by omega⟩
      have hend' : (w.otherwise n job e).jobEnd? (first + call) = some end_ :=
        (otherwise_jobEnd? hne).trans hend
      have hp' : (w.otherwise n job e).progress =
          .joining step awake first results rest := hp
      have hcancelled : (w.otherwise n job e).isCancelled = w.isCancelled := rfl
      constructor
      · unfold collect
        rw [hp']
        simp only [hslot, hend', hcancelled]
        split at h
        · next hleaves =>
          obtain rfl := Option.some.inj h
          rw [if_pos hleaves]
          rfl
        · next hstays =>
          rw [if_neg hstays]
          split at h <;> obtain rfl := Option.some.inj h <;> rfl
      · simp only [exchange?, hp', hp, hcancelled, hend', hend]
    · cases h
  · cases h

/-- Every choice goes the same way if a started call that has ended, and is not being
collected, has ended otherwise. -/
lemma otherwise_take {c : Choice} (hjob : w.jobs[n]? = some job)
    (hended : job.activity.isEnded = true) (hout : ¬ w.Collects n)
    (h : w.take c = some w') :
    (w.otherwise n job e).take c = some (w'.otherwise n job e) ∧
      (w.otherwise n job e).exchange? c = w.exchange? c := by
  have hn : n < w.jobs.length := (List.getElem?_eq_some_iff.mp hjob).1
  -- A call that acts has not ended, so that it is another one.
  have hother : ∀ (m : Nat) (job' : Job), w.jobs[m]? = some job' →
      job'.activity.isEnded = false →
      m ≠ n := by
    rintro m job' hjob' hopen rfl
    obtain rfl := Option.some.inj (hjob.symm.trans hjob')
    rw [hended] at hopen
    cases hopen
  have hset : ∀ (v : World) (m : Nat) (job' : Job) (a : Activity), m ≠ n →
      (v.otherwise n job e).setActivity m job' a =
        (v.setActivity m job' a).otherwise n job e := by
    intro v m job' a hne
    simp only [otherwise, setActivity, List.set_comm _ _ hne]
  have hget : ∀ m : Nat, m ≠ n → (w.otherwise n job e).jobs[m]? = w.jobs[m]? := fun m hne =>
    List.getElem?_set_ne (Ne.symm hne)
  cases c with
  | run => exact ⟨otherwise_stepRun hn h, rfl⟩
  | collect call => exact otherwise_collect hout h
  | job m =>
    obtain ⟨job', a, w₁, hjob', hadv, rfl⟩ := take_job h
    have hne := hother m job' hjob' (advance_apart hadv).2.2
    have hadv' := otherwise_advance n job e hadv
    refine ⟨?_, rfl⟩
    simp only [take, stepJob, hget m hne, hjob', hadv']
    rw [hset w₁ m job' a hne]
  | exitOfRun =>
    simp only [take] at h
    split at h
    · next step task rest hp =>
      obtain rfl := Option.some.inj h
      have hp' : (w.otherwise n job e).progress = .calling step
          (.waiting .program task) rest := hp
      exact ⟨by simp only [take, hp']; rfl, rfl⟩
    · cases h
  | exitOfJob m =>
    obtain ⟨job', hjob', hawaits, rfl⟩ := take_exitOfJob h
    have hne := hother m job' hjob' (isEnded_of_awaitsProgram hawaits)
    refine ⟨?_, rfl⟩
    simp only [take, hget m hne, hjob', hawaits, if_true]
    rw [hset w m job' _ hne]
  | loop =>
    have hstep : w.stepLoop = some w' := h
    exact ⟨by rw [take, otherwise_stepLoop, hstep]; rfl, rfl⟩
  | cancel => obtain rfl := Option.some.inj h; exact ⟨rfl, rfl⟩
  | pass ms => obtain rfl := Option.some.inj h; exact ⟨rfl, rfl⟩

end

end World

namespace History

/-! ## Another end of a call -/

/-- The same history in which a started call has ended otherwise. -/
def otherwise (H : History) (n : Nat) (job : Job) (e : CallEnd) : History :=
  { H with world := H.world.otherwise n job e }

section

variable {H H' : History} {n : Nat} {job : Job} {e : CallEnd} {h : Happening}

/-- A started call that has ended stays as it is. -/
lemma next_job (hnext : H.next h = some H') (hjob : H.world.jobs[n]? = some job)
    (hended : job.activity.isEnded = true) : H'.world.jobs[n]? = some job := by
  rcases next_aside hnext with ⟨c, rfl⟩ | ⟨hjobs, -⟩
  · obtain ⟨w, htake, rfl⟩ := next_choose hnext
    obtain ⟨a, ha, hstays, -⟩ := World.choice_kept htake n job hjob
    obtain ⟨executor, input, activity⟩ := job
    cases activity with
    | ended r => rw [hstays r rfl] at ha; exact ha
    | ready | waiting => cases hended
  · rw [hjobs]
    exact hjob

/-- No run will collect a call that has been started earlier and is not being collected. -/
lemma next_not_collects (hnext : H.next h = some H') (hbooks : Books H.ledger H.world)
    (hn : n < H.world.jobs.length) (hout : ¬ H.world.Collects n) :
    ¬ H'.world.Collects n := by
  rintro ⟨step, first, count, hplace, hfirst, hlast⟩
  rcases next_aside hnext with ⟨c, rfl⟩ | ⟨-, ⟨hsame, -⟩ | ⟨-, hbegun, -⟩⟩
  · obtain ⟨w, htake, rfl⟩ := next_choose hnext
    have hmove := hbooks.ledgerMove htake
    generalize H.ledger.noted (H.world.exchange? c) H.world w = L' at hmove
    cases hmove with
    | keep hsame => exact hout ⟨step, first, count, hsame ▸ hplace, hfirst, hlast⟩
    -- What a fan-out collects are jobs that it has just started, and those are behind all
    -- earlier ones.
    | spawn hp hw =>
      obtain ⟨-, rfl, -⟩ : _ = step ∧ H.world.jobs.length = first ∧ _ = count := by
        simpa [hw, World.goTo, Progress.fanOut?] using hplace
      omega
    | close fate hnone =>
      rw [show w.progress.fanOut? = none from hnone] at hplace; cases hplace
    | begin hidle hbegun => rw [show w.progress = _ from hbegun] at hplace; cases hplace
  · exact hout ⟨step, first, count, hsame ▸ hplace, hfirst, hlast⟩
  · rw [hbegun] at hplace
    cases hplace

/-- Nothing that happens depends on an end that nobody collects. -/
lemma next_otherwise (hnext : H.next h = some H') (hjob : H.world.jobs[n]? = some job)
    (hended : job.activity.isEnded = true) (hout : ¬ H.world.Collects n) :
    (H.otherwise n job e).next h = some (H'.otherwise n job e) := by
  cases h with
  | choose c =>
    obtain ⟨w, htake, rfl⟩ := next_choose hnext
    obtain ⟨htake', hexchange⟩ := World.otherwise_take (e := e) hjob hended hout htake
    have hlength : (H.world.otherwise n job e).jobs.length = H.world.jobs.length :=
      List.length_set
    -- The ledger takes down how many calls there are, and not how they end.
    have hnoted : ∀ x, H.ledger.noted x (H.world.otherwise n job e) (w.otherwise n job e) =
        H.ledger.noted x H.world w := by
      intro x
      simp only [Ledger.noted, hlength]
      rfl
    show ((H.world.otherwise n job e).take c).map _ = _
    rw [htake', Option.map_some]
    show some
      (⟨_, H.ledger.noted ((H.world.otherwise n job e).exchange? c)
        (H.world.otherwise n job e)
      (w.otherwise n job e)⟩ : History) = _
    rw [hexchange, hnoted]
    rfl
  | run token =>
    simp only [next] at hnext ⊢
    split at hnext
    · next hrest =>
      obtain rfl := Option.some.inj hnext
      exact if_pos hrest
    · cases hnext
  | startLoop pause =>
    simp only [next] at hnext ⊢
    split at hnext
    · next hrest =>
      obtain rfl := Option.some.inj hnext
      exact if_pos hrest
    · cases hnext
  | endLoop =>
    simp only [next] at hnext ⊢
    split at hnext
    · next hover =>
      obtain rfl := Option.some.inj hnext
      exact if_pos hover
    · cases hnext

/-- A whole life goes the same way if a started call that has ended, and is not being
collected, has ended otherwise. -/
theorem live_otherwise {hs : List Happening} (hlive : H.live hs = some H')
    (hbooks : Books H.ledger H.world) (hjob : H.world.jobs[n]? = some job)
    (hended : job.activity.isEnded = true) (hout : ¬ H.world.Collects n) :
    (H.otherwise n job e).live hs = some (H'.otherwise n job e) := by
  induction hs generalizing H with
  | nil => obtain rfl := Option.some.inj hlive; rfl
  | cons h rest ih =>
    obtain ⟨H₁, hnext, hrest⟩ := live_cons hlive
    have hn : n < H.world.jobs.length := (List.getElem?_eq_some_iff.mp hjob).1
    rw [live, next_otherwise hnext hjob hended hout, Option.bind_some]
    exact ih hrest (next_books hnext hbooks) (next_job hnext hjob hended)
      (next_not_collects hnext hbooks hn hout)

/-! ## Between two runs -/

/-- Where no run is going on, nothing is entered in the ledger, unless a run begins. -/
lemma next_still (hnext : H.next h = some H') (hbooks : Books H.ledger H.world)
    (hidle : H.world.progress.isActive = false) :
    H'.world.progress = H.world.progress ∧ H'.ledger = H.ledger ∨
      H'.ledger.runs = H.ledger.runs + 1 := by
  rcases next_aside hnext with ⟨c, rfl⟩ | ⟨-, hsame | ⟨-, -, hledger⟩⟩
  · obtain ⟨w, htake, rfl⟩ := next_choose hnext
    -- Without a run in progress, only the loop can make a choice that touches it, and
    -- only by beginning one.
    by_cases hloop : c = .loop
    · subst hloop
      obtain ⟨l, -, hmove⟩ := World.take_loop htake
      have hx : H.world.exchange? .loop = none := rfl
      rcases hmove.progress with hsame | ⟨hbegun, -⟩
      · exact .inl ⟨hsame, by rw [hx]; exact World.noted_same hbooks.place hsame⟩
      · exact .inr (by rw [hx, World.noted_begun hidle hbegun])
    · rcases World.take_move hloop htake with hmove | ⟨-, hx, hapart⟩
      · rw [hmove.isActive] at hidle
        cases hidle
      · exact .inl ⟨hapart.progress,
          by rw [hx]; exact World.noted_same hbooks.place hapart.progress⟩
  · exact .inl hsame
  · exact .inr (by rw [hledger])

/-- The number of runs never goes back. -/
lemma next_runs (hnext : H.next h = some H') (hbooks : Books H.ledger H.world) :
    H.ledger.runs ≤ H'.ledger.runs := by
  rcases next_aside hnext with ⟨c, rfl⟩ | ⟨-, ⟨-, hledger⟩ | ⟨-, -, hledger⟩⟩
  · obtain ⟨w, htake, rfl⟩ := next_choose hnext
    have hmove := hbooks.ledgerMove htake
    generalize H.ledger.noted (H.world.exchange? c) H.world w = L' at hmove ⊢
    cases hmove with
    | keep | spawn | close => exact Nat.le_refl _
    | begin => exact Nat.le_succ _
  · exact Nat.le_of_eq (by rw [hledger])
  · rw [hledger]
    exact Nat.le_succ _

lemma live_runs {hs : List Happening} (hlive : H.live hs = some H')
    (hbooks : Books H.ledger H.world) : H.ledger.runs ≤ H'.ledger.runs :=
  (live_preserves (P := fun G => Books G.ledger G.world ∧ H.ledger.runs ≤ G.ledger.runs)
    (fun _ _ _ hnext hG =>
      ⟨next_books hnext hG.1, Nat.le_trans hG.2 (next_runs hnext hG.1)⟩) hlive
    ⟨hbooks, Nat.le_refl _⟩).2

/-- As long as no other run begins, a run that is over stays as it ended, and nothing
is entered. -/
lemma live_still {hs : List Happening} (hlive : H.live hs = some H')
    (hbooks : Books H.ledger H.world) (hidle : H.world.progress.isActive = false)
    (hruns : H'.ledger.runs = H.ledger.runs) :
    H'.world.progress = H.world.progress ∧ H'.ledger = H.ledger := by
  induction hs generalizing H with
  | nil => obtain rfl := Option.some.inj hlive; exact ⟨rfl, rfl⟩
  | cons h rest ih =>
    obtain ⟨H₁, hnext, hrest⟩ := live_cons hlive
    rcases next_still hnext hbooks hidle with ⟨hprogress, hledger⟩ | hbegun
    · obtain ⟨hprogress', hledger'⟩ := ih hrest (next_books hnext hbooks)
        (by rw [hprogress]; exact hidle) (by rw [hledger]; exact hruns)
      exact ⟨hprogress'.trans hprogress, hledger'.trans hledger⟩
    · have := live_runs hrest (next_books hnext hbooks)
      omega

end

/-! ## Outliving calls -/

/-- Started calls, in every life of a workflow.  The started calls are exactly the calls
of its fan-outs, each once.  Each goes through its task once from the beginning; nobody
touches it but it itself and the program that it has launched; and it can always be
carried to its end.  As long as it is unfinished, either its step is still collecting it,
or it was started by a parallel or an iterate step that failed or was interrupted.  Once
it is finished and not being collected, all that happens afterwards would happen just as
well if it had ended otherwise.  If no fan-out has failed or was interrupted when a run
ends well, then no started call is unfinished and the store is the one that the run hands
out, until another run begins. -/
theorem calls_outlive {w : World} {hs : List Happening} {H : History} (hjobs : w.jobs = [])
    (hidle : w.progress = .idle) (hlive : (⟨w, {}⟩ : History).live hs = some H) :
    H.world.jobs.map Job.call = H.ledger.spawns.flatMap (·.calls) ∧
    (∀ (n : Nat) (job : Job), H.world.jobs[n]? = some job →
      (job.executor.run job.input).Reaches job.activity ∧
      (∀ c w', H.world.take c = some w' → c ≠ .job n → c ≠ .exitOfJob n →
        w'.jobs[n]? = some job) ∧
      (∃ w', H.world.Leads w' ∧ H.world.Apart w' ∧ ∃ e, w'.jobEnd? n = some e) ∧
      (job.activity.isEnded = false →
        (∃ s fate, (s, fate) ∈ H.ledger.closed ∧ fate ≠ .succeeded ∧ s.Owns n ∧
          FansOut H.world.workflow.steps s.step) ∨
        ∃ s awake results rest, H.ledger.current = some s ∧ s.Owns n ∧
          FansOut H.world.workflow.steps s.step ∧
          H.world.progress = .joining s.step awake s.first results rest) ∧
      (job.activity.isEnded = true → ¬ H.world.Collects n →
        ∀ e hs' H', H.live hs' = some H' →
          (H.otherwise n job e).live hs' = some (H'.otherwise n job e))) ∧
    (H.ledger.IsClean → ∀ o, H.world.progress = .ended (.ok o) →
      ∀ hs' H', H.live hs' = some H' → H'.ledger.runs = H.ledger.runs →
        H'.world.workflow.store = o.store ∧
        ∀ (n : Nat) (job : Job), H'.world.jobs[n]? = some job →
          job.activity.isEnded = true) := by
  have hbooks : Books H.ledger H.world := live_books hlive (Books.new hjobs hidle)
  refine ⟨hbooks.calls.calls_eq, fun n job hjob =>
    ⟨hbooks.executing job (List.mem_of_getElem? hjob),
    fun c w' htake hc hexit => World.take_leaves_job htake hjob hc hexit,
    World.job_ends hjob,
    fun hopen => hbooks.unfinished hjob hopen, fun hended hout e hs' H' hlive' =>
      live_otherwise hlive' hbooks hjob hended hout⟩,
        fun hclean o hend hs' H' hlive' hruns => ?_⟩
  obtain ⟨hprogress, hledger⟩ := live_still hlive' hbooks (by rw [hend]; rfl) hruns
  have hbooks' : Books H'.ledger H'.world := live_books hlive' hbooks
  have hclean' : H'.ledger.IsClean := by rw [hledger]; exact hclean
  have hend' : H'.world.progress = .ended (.ok o) := hprogress.trans hend
  refine ⟨?_, fun n job hjob => hbooks'.ended hclean' (by rw [hend']; rfl) hjob⟩
  obtain ⟨seen, hobeys, hseen⟩ := hbooks'.rule
  rw [hend'] at hobeys
  exact (hseen hclean' o.store (hobeys o rfl)).symm

/-- A world with one step, which calls two executors at once: one sleeps, the
other fails. -/
def hastyWorld : World where
  host := fun _ _ => .refused "no program"
  workflow :=
    { name := "hasty", prompt := none
      steps := [
        { action := .parallel [(ExecutorSpec.sleep 5).toExecutor 0,
          (ExecutorSpec.fail "no").toExecutor 1]
          description := "sleep and fail", onFail :=
            some (ExecutorSpec.echo.toExecutor 2) }] }

/-- A run of the hasty world: the failing call ends first, and its failure is handled. -/
def hastySchedule : List Choice :=
  List.replicate 3 .run ++ [.job 0, .job 1, .collect 1] ++ List.replicate 8 .run

def hastyLife : List Happening :=
  .run .absent :: hastySchedule.map .choose

/-- The run ends well while the sleeping call is unfinished; that call belongs to the step
that failed. -/
theorem calls_outlive_hasty :
    ∃ H o job, (⟨hastyWorld, {}⟩ : History).live hastyLife = some H ∧
      H.world.progress = .ended (.ok o) ∧ H.world.jobs[0]? = some job ∧
      job.activity.isEnded = false ∧
      ∃ s fate, (s, fate) ∈ H.ledger.closed ∧ fate ≠ .succeeded ∧ s.Owns 0 ∧
        FansOut hastyWorld.workflow.steps s.step := by
  obtain ⟨H, o, job, hlive, hend, hjob, hopen, hsteps⟩ : ∃ H o job,
      (⟨hastyWorld, {}⟩ : History).live hastyLife = some H ∧
        H.world.progress = .ended (.ok o) ∧ H.world.jobs[0]? = some job ∧
        job.activity.isEnded = false ∧ H.world.workflow.steps = hastyWorld.workflow.steps :=
    ⟨_, _, _, rfl, rfl, rfl, rfl, rfl⟩
  obtain ⟨-, hcalls, -⟩ := calls_outlive (w := hastyWorld) rfl rfl hlive
  obtain ⟨-, -, -, hunfinished, -⟩ := hcalls 0 job hjob
  refine ⟨H, o, job, hlive, hend, hjob, hopen, ?_⟩
  rw [← hsteps]
  refine (hunfinished hopen).resolve_right ?_
  rintro ⟨s, awake, results, rest, -, -, -, hp⟩
  rw [hend] at hp
  cases hp

end History
end Workplan
