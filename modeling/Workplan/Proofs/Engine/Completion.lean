import Mathlib.Tactic.Lemma
import Workplan.Proofs.Engine.Jobs

/-!
# Every run can be carried to its end

Nothing that a run waits for can stay away for ever: a task is a finite program, time can
pass, a launched program can end, and a fan-out has finitely many calls.  So from every
world in which a run is going on, some schedule leads to its end (`progress_finishes`),
and if no executor that the run calls itself panics, to an end with a result.

The argument for one call, `call_ends`, is made once: it is told how a ready task acts and
how a waiting one wakes, and serves the calls of the run and the started calls alike.
-/

namespace Workplan

/-! ## Tasks and runs without panic -/

/-- A task that cannot panic, whatever it is answered. -/
def Task.PanicFree : Task → Prop
  | finish _ => True
  | panic _ => False
  | read _ _ next => ∀ v, (next v).PanicFree
  | write _ _ _ next | sleep _ next | cancel next | trace _ _ next | log _ next =>
    next.PanicFree
  | launch _ _ next => ∀ r, (next r).PanicFree

/-- An executor none of whose calls can panic. -/
def Executor.PanicFree (e : Executor) : Prop :=
  ∀ input, (e.run input).PanicFree

/-- A run that waits for no call that can panic.  The calls of a fan-out may. -/
def Run.PanicFree : Run → Prop
  | finish _ => True
  | enter _ rest | log _ rest | setPrompt _ rest => rest.PanicFree
  | readStore rest => ∀ s, (rest s).PanicFree
  | call e input rest => (e.run input).PanicFree ∧ ∀ r, (rest r).PanicFree
  | fanOut _ rest => ∀ r, (rest r).PanicFree

/-- What has come of a call that cannot panic. -/
def Activity.PanicFree : Activity → Prop
  | ready task | waiting _ task => task.PanicFree
  | ended (.returned _) => True
  | ended (.panicked _) => False

/-- A run in progress that cannot crash any more. -/
def Progress.PanicFree : Progress → Prop
  | acting _ run => run.PanicFree
  | calling _ activity rest => activity.PanicFree ∧ ∀ r, (rest r).PanicFree
  | joining _ _ _ _ rest => ∀ r, (rest r).PanicFree
  | ended _ => True
  | idle | crashed _ => False

namespace World

/-- An action of a task that cannot panic leaves a task that cannot. -/
lemma perform_panicFree (w : World) {t : Task} (h : t.PanicFree) :
    (w.perform t).1.PanicFree := by
  cases t with
  | finish | write | cancel | trace | log => exact h
  | panic => exact h
  | read => exact h _
  | sleep ms next =>
    simp only [perform]
    split <;> exact h
  | launch command stdin next =>
    simp only [perform]
    split <;> exact h _

lemma RunMove.panicFree {w w' : World} {c : Choice} {x : Option Exchange}
    (h : RunMove w c x w') (hw : w.progress.PanicFree) : w'.progress.PanicFree := by
  cases h with
  | finish | refuse | abandon | leave => trivial
  | crash hp => rw [hp] at hw; exact hw.1.elim
  | enter hp | log hp | setPrompt hp | fanOut hp | park hp | collect hp =>
    rw [hp] at hw; exact hw
  | readStore hp | gather hp | failure hp => rw [hp] at hw; exact hw _
  | call hp | wake hp | exit hp => rw [hp] at hw; exact hw
  | work hp => rw [hp] at hw; exact ⟨perform_panicFree w hw.1, hw.2⟩
  | answer hp => rw [hp] at hw; exact hw.2 _

/-- Whatever happens to a run that cannot panic, it still cannot. -/
theorem follow_panicFree {cs : List Choice} {w w' : World} (hloop : .loop ∉ cs)
    (h : w.follow cs = some w') (hw : w.progress.PanicFree) : w'.progress.PanicFree := by
  refine follow_preserves (P := fun v => v.progress.PanicFree)
    (fun c hmem u v htake hu => ?_) h hw
  rcases take_move (ne_of_mem_of_not_mem hmem hloop) htake with hmove | ⟨-, -, hapart⟩
  · exact hmove.panicFree hu
  · rwa [hapart.progress]

/-! ## Schedules that lead somewhere -/

/-- Some schedule, without a choice of the loop, leads from one world to another. -/
def Leads (w w' : World) : Prop :=
  ∃ cs, .loop ∉ cs ∧ w.follow cs = some w'

lemma Leads.refl (w : World) : Leads w w :=
  ⟨[], by simp, rfl⟩

theorem follow_append (cs ds : List Choice) (w : World) :
    w.follow (cs ++ ds) = (w.follow cs).bind fun w' => w'.follow ds := by
  induction cs generalizing w with
  | nil => rfl
  | cons c rest ih =>
    simp only [List.cons_append, follow, Option.bind_assoc]
    exact congrArg _ (funext fun w' => ih w')

lemma Leads.trans {w₁ w₂ w₃ : World} (h₁ : Leads w₁ w₂) (h₂ : Leads w₂ w₃) :
    Leads w₁ w₃ := by
  obtain ⟨cs, hcs, h₁⟩ := h₁
  obtain ⟨ds, hds, h₂⟩ := h₂
  refine ⟨cs ++ ds, by simp [hcs, hds], ?_⟩
  rw [follow_append, h₁]
  exact h₂

lemma Leads.take {w w' : World} {c : Choice} (hloop : c ≠ .loop) (h : w.take c = some w') :
    Leads w w' :=
  ⟨[c], by simpa using Ne.symm hloop, by simp [follow, h]⟩

/-! ## One call -/

/-- A call comes to its end on some schedule.  `P w a` says that in the world `w` the call
has come as far as `a`, and `Q` that its fate does not matter any more.  It does not end
in a panic if `free` holds. -/
def Ends (P : World → Activity → Prop) (Q : World → Prop) (free : Prop) (w : World) :
    Prop :=
  ∃ w', Leads w w' ∧ (Q w' ∨ ∃ r, P w' (.ended r) ∧ (free → ∃ result, r = .returned result))

section

variable {P : World → Activity → Prop} {Q : World → Prop}

/-- What ends behind the way that leads there ends from its beginning. -/
lemma Ends.lead {free free' : Prop} {w w' : World} (h : Ends P Q free' w')
    (hlead : Leads w w') (hfree : free → free') : Ends P Q free w := by
  obtain ⟨w₂, hlead₂, hQ | ⟨r, hr, hret⟩⟩ := h
  · exact ⟨w₂, hlead.trans hlead₂, .inl hQ⟩
  · exact ⟨w₂, hlead.trans hlead₂, .inr ⟨r, hr, fun hf => hret (hfree hf)⟩⟩

/-- A call that is ready comes to its end, if a ready task can act and a waiting
one can wake. -/
theorem call_ends
    (hready : ∀ w task, P w (.ready task) → ∃ w', Leads w w' ∧ P w' (w.perform task).1)
    (hwaiting : ∀ w f task, P w (.waiting f task) → ∃ w', Leads w w' ∧
      (P w' (.ready task) ∨ Q w'))
    (task : Task) {w : World} (hw : P w (.ready task)) : Ends P Q task.PanicFree w := by
  -- Every action leaves a smaller task; only sleeping and launching a program make the
  -- call wait in between.
  induction task generalizing w with
  | finish result =>
    obtain ⟨w₁, hlead, hP⟩ := hready w _ hw
    exact ⟨w₁, hlead, .inr ⟨_, hP, fun _ => ⟨result, rfl⟩⟩⟩
  | panic =>
    obtain ⟨w₁, hlead, hP⟩ := hready w _ hw
    exact ⟨w₁, hlead, .inr ⟨_, hP, fun h => h.elim⟩⟩
  | read store key next ih =>
    obtain ⟨w₁, hlead, hP⟩ := hready w _ hw
    exact (ih _ hP).lead hlead fun h => h _
  | write store key value next ih | cancel next ih | trace name input next ih
  | log event next ih =>
    obtain ⟨w₁, hlead, hP⟩ := hready w _ hw
    exact (ih hP).lead hlead id
  | sleep ms next ih =>
    obtain ⟨w₁, hlead, hP⟩ := hready w _ hw
    by_cases hms : ms = 0
    · rw [show (w.perform (.sleep ms next)).1 = .ready next by simp [perform, hms]] at hP
      exact (ih hP).lead hlead id
    · rw [show (w.perform (.sleep ms next)).1 = .waiting (.clock (w.now + ms)) next by
        simp [perform, hms]] at hP
      obtain ⟨w₂, hlead₂, hP₂ | hQ⟩ := hwaiting w₁ _ next hP
      · exact (ih hP₂).lead (hlead.trans hlead₂) id
      · exact ⟨w₂, hlead.trans hlead₂, .inl hQ⟩
  | launch command stdin next ih =>
    obtain ⟨w₁, hlead, hP⟩ := hready w _ hw
    cases hh : (w.host command stdin).isStarted with
    | false =>
      rw [show (w.perform (.launch command stdin next)).1 = .ready
        (next (w.host command stdin)) by
        simp [perform, hh]] at hP
      exact (ih _ hP).lead hlead fun h => h _
    | true =>
      rw [show (w.perform (.launch command stdin next)).1
          = .waiting .program (next (w.host command stdin)) by
        simp [perform, hh]] at hP
      obtain ⟨w₂, hlead₂, hP₂ | hQ⟩ := hwaiting w₁ _ _ hP
      · exact (ih _ hP₂).lead (hlead.trans hlead₂) fun h => h _
      · exact ⟨w₂, hlead.trans hlead₂, .inl hQ⟩

/-- The same of a call that has come to any place. -/
lemma activity_ends
    (hready : ∀ w task, P w (.ready task) → ∃ w', Leads w w' ∧ P w' (w.perform task).1)
    (hwaiting : ∀ w f task, P w (.waiting f task) → ∃ w', Leads w w' ∧
      (P w' (.ready task) ∨ Q w'))
    (a : Activity) {w : World} (hw : P w a) : Ends P Q a.PanicFree w := by
  cases a with
  | ready task => exact call_ends hready hwaiting task hw
  | waiting f task =>
    obtain ⟨w', hlead, hP | hQ⟩ := hwaiting w f task hw
    · exact (call_ends hready hwaiting task hP).lead hlead id
    · exact ⟨w', hlead, .inl hQ⟩
  | ended r =>
    refine ⟨w, .refl w, .inr ⟨r, hw, fun h => ?_⟩⟩
    cases r with
    | returned result => exact ⟨result, rfl⟩
    | panicked => exact h.elim

end

/-- The same world at a time that is no earlier than the given one. -/
def notBefore (w : World) (time : Nat) : World :=
  { w with now := w.now + (time - w.now) }

/-- Time can always pass up to a given moment. -/
lemma take_notBefore (w : World) (time : Nat) :
    w.take (.pass (time - w.now)) = some (w.notBefore time) :=
  rfl

lemma isDue_notBefore (w : World) (time : Nat) (task : Task) :
    (Activity.waiting (.clock time) task).isDue (w.notBefore time).now = true := by
  have h : time ≤ w.now + (time - w.now) := by omega
  exact decide_eq_true h

lemma setActivity_getElem? {w : World} {n : Nat} {job : Job} (a : Activity)
    (hjob : w.jobs[n]? = some job) :
    (w.setActivity n job a).jobs[n]? = some { job with activity := a } := by
  have hn : n < w.jobs.length := (List.getElem?_eq_some_iff.mp hjob).1
  simp [setActivity, hn]

/-- A started call can come to its end while the run stays where it is. -/
theorem job_ends {w : World} {n : Nat} {job : Job} (hjob : w.jobs[n]? = some job) :
    ∃ w', Leads w w' ∧ Apart w w' ∧ ∃ e, w'.jobEnd? n = some e := by
  let P (v : World) (a : Activity) : Prop := Apart w v ∧ ∃ j, v.jobs[n]? = some j ∧
    j.activity = a
  -- All choices below are of the call itself, of its program or of the clock, so the run
  -- does not move.
  have hact : ∀ (v : World) (a a' : Activity) (v₁ : World), P v a →
      v.advance a = some (a', v₁) →
      ∃ v', Leads v v' ∧ P v' a' := by
    rintro v a a' v₁ ⟨hapart, j, hj, rfl⟩ hadv
    have htake : v.take (.job n) = some (v₁.setActivity n j a') := by
      simp [take, stepJob, hj, hadv]
    have hj₁ : v₁.jobs[n]? = some j := by rw [(advance_apart hadv).2.1]; exact hj
    exact ⟨_, .take (by simp) htake, hapart.trans (take_apart rfl htake), _,
      setActivity_getElem? a' hj₁, rfl⟩
  have hready : ∀ v task, P v (.ready task) → ∃ v', Leads v v' ∧ P v' (v.perform task).1 :=
    fun v task hP => hact v _ _ _ hP rfl
  have hdue : ∀ v f task, P v (.waiting f task) →
      (Activity.waiting f task).isDue v.now = true →
      ∃ v', Leads v v' ∧ P v' (.ready task) :=
    fun v f task hP hd => hact v _ _ v hP (by simp [advance, hd])
  have hwaiting : ∀ v f task, P v (.waiting f task) →
      ∃ v', Leads v v' ∧ (P v' (.ready task) ∨ False) := by
    intro v f task hP
    cases f with
    | clock time =>
      have htake := take_notBefore v time
      obtain ⟨v₂, hlead₂, hP₂⟩ := hdue (v.notBefore time) _ task
        ⟨hP.1.trans (take_apart rfl htake), hP.2⟩ (isDue_notBefore v time task)
      exact ⟨v₂, (Leads.take (by simp) htake).trans hlead₂, .inl hP₂⟩
    | program =>
      obtain ⟨hapart, j, hj, ha⟩ := hP
      have htake : v.take (.exitOfJob n) =
          some (v.setActivity n j (.waiting .nothing task)) := by
        simp [take, hj, ha, Activity.awaitsProgram, Activity.released]
      obtain ⟨v₂, hlead₂, hP₂⟩ := hdue _ _ task
        ⟨hapart.trans (take_apart rfl htake), _, setActivity_getElem? _ hj, rfl⟩ rfl
      exact ⟨v₂, (Leads.take (by simp) htake).trans hlead₂, .inl hP₂⟩
    | nothing =>
      obtain ⟨v₂, hlead₂, hP₂⟩ := hdue v _ task hP rfl
      exact ⟨v₂, hlead₂, .inl hP₂⟩
  obtain ⟨w', hlead, hfalse | ⟨r, ⟨hapart, j, hj, ha⟩, -⟩⟩ :=
    activity_ends hready hwaiting job.activity (w := w) ⟨Apart.refl w, job, hjob, rfl⟩
  · exact hfalse.elim
  · refine ⟨w', hlead, hapart, r, ?_⟩
    obtain ⟨e, input, activity⟩ := j
    obtain rfl : activity = .ended r := ha
    simp [jobEnd?, hj]

/-- A call of the run itself can come to its end, unless the run is cancelled
while it waits. -/
lemma calling_ends {w : World} {step : Nat} {a : Activity}
    {rest : Except ExecutorError Json → Run} (hp : w.progress = .calling step a rest) :
    Ends (fun v b => v.progress = .calling step b rest)
      (fun v => v.progress = .ended (.error .cancelled)) a.PanicFree w := by
  refine activity_ends ?_ ?_ a hp
  · intro v task hv
    refine ⟨_, .take (c := .run) (by simp) (by simp only [take, stepRun, hv]; rfl), rfl⟩
  · intro v f task hv
    -- A run that waits looks at its cancellation before it looks at what it waits for.
    cases hc : v.isCancelled with
    | true =>
      have htake : v.take .run = some (v.endCancelled (.cancelledDuring step)) := by
        simp [take, stepRun, hv, hc]
      exact ⟨_, .take (by simp) htake, .inr rfl⟩
    | false =>
      have hdue : ∀ (u : World) g, u.progress = .calling step (.waiting g task) rest →
          u.isCancelled = false → (Activity.waiting g task).isDue u.now = true →
          ∃ u', Leads u u' ∧ u'.progress = .calling step (.ready task) rest := by
        intro u g hu huc hd
        exact ⟨_, .take (c := .run) (by simp) (by simp [take, stepRun, hu, huc, hd]; rfl),
          rfl⟩
      cases f with
      | clock time =>
        obtain ⟨v₂, hlead₂, hv₂⟩ :=
          hdue (v.notBefore time) _ hv hc (isDue_notBefore v time task)
        exact ⟨v₂, (Leads.take (by simp) (take_notBefore v time)).trans hlead₂, .inl hv₂⟩
      | program =>
        have htake : v.take .exitOfRun =
            some (v.goTo (.calling step (.waiting .nothing task) rest)) := by
          simp [take, hv]
        obtain ⟨v₂, hlead₂, hv₂⟩ :=
          hdue (v.goTo (.calling step (.waiting .nothing task) rest)) .nothing
          rfl hc rfl
        exact ⟨v₂, (Leads.take (by simp) htake).trans hlead₂, .inl hv₂⟩
      | nothing =>
        obtain ⟨v₂, hlead₂, hv₂⟩ := hdue v _ hv hc rfl
        exact ⟨v₂, hlead₂, .inl hv₂⟩

/-! ## A fan-out -/

/-- Taking the value of a call leaves one empty slot fewer. -/
theorem countP_isNone_set {results : List (Option Json)} {i : Nat} (v : Json)
    (hslot : results[i]? = some none) :
    (results.set i (some v)).countP (·.isNone) < results.countP (·.isNone) := by
  obtain ⟨hi, hnone⟩ := List.getElem?_eq_some_iff.mp hslot
  have hpos : 0 < results.countP (·.isNone) :=
    List.countP_pos_iff.mpr ⟨none, hnone ▸ List.getElem_mem hi, rfl⟩
  rw [List.countP_set hi, hnone]
  simp only [Option.isNone_none, Option.isNone_some, if_true, Bool.false_eq_true, if_false]
  omega

/-- A fan-out can be gathered, unless the run is cancelled while it waits. -/
theorem joining_ends {w : World} {step : Nat} {awake : Bool} {first : Nat}
    {results : List (Option Json)} {rest : Except ExecutorError (List Json) → Run}
    (hp : w.progress = .joining step awake first results rest) (hw : w.IsCoherent) :
    ∃ w', Leads w w' ∧ ((∃ answer, w'.progress = .acting step (rest answer)) ∨
      w'.progress = .ended (.error .cancelled) ∧ w'.isCancelled = true) := by
  -- Each value that is taken leaves fewer empty slots.
  induction hn : results.countP
    (·.isNone) using Nat.strongRecOn generalizing w awake results with
  | ind n ih =>
    obtain ⟨hbound, -, hwaits⟩ := hw _ _ _ _ _ hp
    cases hc : complete? results with
    | some values =>
      have hawake : awake = true := by
        cases awake with
        | true => rfl
        | false => rw [hwaits rfl] at hc; cases hc
      subst hawake
      have htake : w.take .run = some (w.goTo (.acting step (rest (.ok values)))) := by
        simp [take, stepRun, hp, hc]
      exact ⟨_, .take (by simp) htake, .inl ⟨_, rfl⟩⟩
    | none =>
      obtain ⟨i, hi⟩ := exists_slot_of_complete?_eq_none hc
      have hlt : i < results.length := (List.getElem?_eq_some_iff.mp hi).1
      have hjob : w.jobs[first + i]? = some w.jobs[first + i] :=
        List.getElem?_eq_getElem (by omega)
      obtain ⟨w₁, hlead, hapart, e, hend⟩ := job_ends hjob
      have hp₁ : w₁.progress = .joining step awake first results rest :=
        hapart.progress.trans hp
      have hw₁ : w₁.IsCoherent := by
        obtain ⟨cs, hcs, hfollow⟩ := hlead
        exact follow_isCoherent hcs hfollow hw
      cases hleave : (!awake && w₁.isCancelled) with
      | true =>
        have htake : w₁.take (.collect i) =
            some (w₁.endCancelled (.cancelledDuring step)) := by
          simp only [take, collect, hp₁, hi, hend, hleave, if_true]
        have hc₁ : w₁.isCancelled = true := (Bool.and_eq_true_iff.mp hleave).2
        exact ⟨_, hlead.trans (.take (by simp) htake), .inr ⟨rfl, hc₁⟩⟩
      | false =>
        cases e with
        | panicked report =>
          have htake : w₁.take (.collect i) =
              some (w₁.goTo (.acting step (rest (.error (.panicked report))))) := by
            simp [take, collect, hp₁, hi, hend, hleave]
          exact ⟨_, hlead.trans (.take (by simp) htake), .inl ⟨_, rfl⟩⟩
        | returned result =>
          cases result with
          | error error =>
            have htake : w₁.take (.collect i) =
                some (w₁.goTo (.acting step (rest (.error error)))) := by
              simp [take, collect, hp₁, hi, hend, hleave]
            exact ⟨_, hlead.trans (.take (by simp) htake), .inl ⟨_, rfl⟩⟩
          | ok v =>
            have htake : w₁.take (.collect i) =
                some
                  (w₁.goTo (.joining step true first (results.set i (some v)) rest)) := by
              simp [take, collect, hp₁, hi, hend, hleave]
            obtain ⟨w₂, hlead₂, hout⟩ := ih _ (hn ▸ countP_isNone_set v hi) rfl
              (take_isCoherent (by simp) htake hw₁) rfl
            exact ⟨w₂, (hlead.trans (.take (by simp) htake)).trans hlead₂, hout⟩

/-! ## A run -/

/-- Some schedule carries the run in progress to its end, and to a result if
`free` holds. -/
def Finishes (free : Prop) (w : World) : Prop :=
  ∃ w', Leads w w' ∧ w'.progress.isOver = true ∧ (free → ∃ r, w'.progress = .ended r)

/-- A run that finishes behind the way that leads there finishes from its beginning. -/
lemma Finishes.lead {free free' : Prop} {w w' : World} (h : Finishes free' w')
    (hlead : Leads w w') (hfree : free → free') : Finishes free w := by
  obtain ⟨w₂, hlead₂, hover, hresult⟩ := h
  exact ⟨w₂, hlead.trans hlead₂, hover, fun hf => hresult (hfree hf)⟩

lemma Finishes.ended {free : Prop} {w : World} {r : Except WorkflowError Outcome}
    (hp : w.progress = .ended r) : Finishes free w :=
  ⟨w, .refl w, by rw [hp]; rfl, fun _ => ⟨r, hp⟩⟩

lemma Finishes.take {free free' : Prop} {w w' : World} {c : Choice} (h : Finishes free' w')
    (hloop : c ≠ .loop) (htake : w.take c = some w') (hfree : free → free') :
    Finishes free w :=
  h.lead (.take hloop htake) hfree

/-- A run inside a call finishes, if it does so after every answer. -/
lemma calling_finishes {w : World} {step : Nat} {a : Activity}
    {rest : Except ExecutorError Json → Run} (hp : w.progress = .calling step a rest)
    (hrest : ∀ answer (v : World), v.progress = .acting step (rest answer) →
      Finishes (rest answer).PanicFree v) :
    Finishes (a.PanicFree ∧ ∀ r, (rest r).PanicFree) w := by
  obtain ⟨w₁, hlead, hcancelled | ⟨end_, hend, hreturned⟩⟩ := calling_ends hp
  · exact (Finishes.ended hcancelled).lead hlead id
  · cases end_ with
    | panicked report =>
      have htake : w₁.take .run = some (w₁.goTo (.crashed report)) := by
        simp only [take, stepRun, hend]
      refine ⟨_, hlead.trans (.take (by simp) htake), rfl, fun hfree => ?_⟩
      obtain ⟨result, hresult⟩ := hreturned hfree.1
      cases hresult
    | returned result =>
      have htake : w₁.take .run = some (w₁.goTo (.acting step (rest result))) := by
        simp only [take, stepRun, hend]
      have hnext := (hrest result _ rfl).take (by simp) htake id
      exact hnext.lead hlead fun h => h.2 _

/-- A run that collects the results of a fan-out finishes, if it does so after
every answer. -/
lemma joining_finishes {w : World} {step : Nat} {awake : Bool} {first : Nat}
    {results : List (Option Json)} {rest : Except ExecutorError (List Json) → Run}
    (hp : w.progress = .joining step awake first results rest) (hw : w.IsCoherent)
    (hrest : ∀ answer (v : World), v.progress = .acting step (rest answer) →
      Finishes (rest answer).PanicFree v) :
    Finishes (∀ r, (rest r).PanicFree) w := by
  obtain ⟨w₁, hlead, ⟨answer, hanswer⟩ | ⟨hcancelled, -⟩⟩ := joining_ends hp hw
  · exact (hrest answer w₁ hanswer).lead hlead fun h => h _
  · exact (Finishes.ended hcancelled).lead hlead id

/-- A run that acts finishes. -/
theorem acting_finishes (run : Run) {w : World} {step : Nat}
    (hp : w.progress = .acting step run) :
    Finishes run.PanicFree w := by
  -- The tree of a run is well-founded: each action leaves a branch of it, and calls and
  -- fan-outs come to answers.
  induction run generalizing w step with
  | finish r =>
    have htake : w.take .run = some (w.goTo (.ended r)) := by
      simp only [take, stepRun, hp, act]
    exact (Finishes.ended rfl).take (by simp) htake id
  | enter n rest ih =>
    cases hc : w.isCancelled with
    | true =>
      have htake : w.take .run = some (w.endCancelled (.cancelledBefore n)) := by
        simp only [take, stepRun, hp, act, hc, if_true]
      exact (Finishes.ended rfl).take (by simp) htake id
    | false =>
      have htake : w.take .run = some (w.goTo (.acting n rest)) := by
        simp [take, stepRun, hp, act, hc]
      exact (ih rfl).take (by simp) htake id
  | log event rest ih =>
    have htake : w.take .run = some ((w.report event).goTo (.acting step rest)) := by
      simp only [take, stepRun, hp, act]
    exact (ih rfl).take (by simp) htake id
  | setPrompt text rest ih =>
    have htake : w.take .run =
        some ({ w with workflow := { w.workflow with prompt := some text } }.goTo
        (.acting step rest)) := by
      simp only [take, stepRun, hp, act]
    exact (ih rfl).take (by simp) htake id
  | readStore rest ih =>
    have htake : w.take .run = some (w.goTo (.acting step (rest w.workflow.store))) := by
      simp only [take, stepRun, hp, act]
    exact (ih _ rfl).take (by simp) htake fun h => h _
  | call e input rest ih =>
    have htake : w.take .run = some ((w.note (.called e input)).goTo
        (.calling step (.ready (e.run input)) rest)) := by
      simp only [take, stepRun, hp, act]
    exact (calling_finishes rfl fun answer v hv => ih answer hv).take (by simp) htake id
  | fanOut calls rest ih =>
    have htake : w.take .run = some ((w.start calls).goTo
        (.joining step true w.jobs.length (calls.map fun _ => none) rest)) := by
      simp only [take, stepRun, hp, act]
    have hw : w.IsCoherent := fun _ _ _ _ _ hp' => by rw [hp] at hp'; cases hp'
    have hnext :=
      joining_finishes rfl (take_isCoherent (by simp) htake hw) fun answer v hv =>
        ih answer hv
    exact hnext.take (by simp) htake id

/-- From every world in which a run is going on, some schedule carries the run to its end;
that is a result if the run cannot crash any more. -/
theorem progress_finishes {w : World} (hw : w.IsCoherent) (hbegun : w.progress ≠ .idle) :
    Finishes w.progress.PanicFree w := by
  cases hp : w.progress with
  | idle => exact absurd hp hbegun
  | acting step run => exact acting_finishes run hp
  | calling step a rest => exact calling_finishes hp fun answer v hv => acting_finishes _ hv
  | joining step awake first results rest =>
    exact joining_finishes hp hw fun answer v hv => acting_finishes _ hv
  | ended r => exact .ended hp
  | crashed => exact ⟨w, .refl w, by rw [hp]; rfl, fun h => h.elim⟩

end World
end Workplan
