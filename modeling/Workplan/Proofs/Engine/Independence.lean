import Mathlib.Tactic.Lemma
import Workplan.Proofs.Engine.Alone
import Workplan.Proofs.Engine.Replays

/-!
# Independence of the schedule

A steady run comes to what it comes to alone, on every schedule that does not cancel it
(`nextRun_alone`), and so do consecutive runs (`Runs.alone`).

The invariant is what a run in progress is heading for: what it would come to if it were
left alone from now on (`Heads`).  Every choice preserves it, whether the run makes it or
one of the started calls (`Heads.take`).  Two facts carry the invariant through a fan-out.
A call that settles does not change what all calls together are going to leave in the
store (`Settling.take`).  And since such calls never fail, the run collects all of them
before it goes on, so none of them outlives its step (`Settling.gathered`).
-/

namespace Workplan

/-- What a call that has come some way comes to by itself, and what it leaves in the store
that a handle is on. -/
def Activity.alone (own : StoreHandle) :
    Activity → Store → Option (Except ExecutorError Json × Store)
  | ready task, store | waiting _ task, store => task.alone own store
  | ended (.returned result), store => some (result, store)
  | ended (.panicked _), _ => none

/-- What is still to come of a call, if it settles. -/
def Activity.prospect : Activity → Prospect
  | ready task | waiting _ task => task.prospect
  | ended (.returned (.ok v)) => ⟨[], v⟩
  | ended _ => ⟨[], .null⟩

/-- A call that settles, or has ended with a value. -/
def Activity.Settles (own : StoreHandle) (agreed : String → Json) : Activity → Prop
  | ready task | waiting _ task => task.Settles own agreed
  | ended (.returned (.ok _)) => True
  | ended _ => False

/-- The values with which calls are going to end. -/
def Job.values (jobs : List Job) : List Json :=
  jobs.map fun job => job.activity.prospect.value

/-- The workflow as calls that settle are going to leave it. -/
def Workflow.settled (agreed : String → Json) (f : Workflow) (jobs : List Job) : Workflow :=
  { f with store :=
    f.store.settle agreed (jobs.flatMap fun job => job.activity.prospect.names) }

namespace World

variable {w w' : World} {c : Choice} {agreed : String → Json} {old new : List Job}
  {o : Except WorkflowError Outcome × Workflow}

/-! ## Calls that act -/

/-- An action of a task changes nothing of what the task comes to by itself. -/
lemma perform_alone {t : Task} {p : Except ExecutorError Json × Store}
    (h : t.alone w.workflow.handle w.workflow.store = some p) :
    (w.perform t).1.alone w.workflow.handle (w.perform t).2.workflow.store = some p := by
  cases t with
  | sleep ms next =>
    simp only [perform]
    split <;> exact h
  | read store key next =>
    obtain ⟨rfl, hnext⟩ := Option.ite_none_right_eq_some.mp h
    simpa [perform, Activity.alone] using hnext
  | write store key value next =>
    simp only [perform, write]
    by_cases hown : store = w.workflow.handle
    · rw [Task.alone, if_pos hown] at h
      rwa [if_pos hown]
    · rw [Task.alone, if_neg hown] at h
      rwa [if_neg hown]
  | finish | trace | log => exact h
  | panic | launch | cancel => cases h

/-- Changes of a world, in which one call goes on, that make no difference to what this
call and others are going to leave. -/
structure Advances (agreed : String → Json) (w : World) (a : Activity)
    (w' : World) (a' : Activity) :
    Prop where
  jobs : w'.jobs = w.jobs
  settles : a'.Settles w.workflow.handle agreed
  value : a'.prospect.value = a.prospect.value
  workflow : w'.workflow = { w.workflow with store := w'.workflow.store }
  store : ∀ before after, w'.workflow.store.settle agreed
    (before ++ (a'.prospect.names ++ after)) =
    w.workflow.store.settle agreed (before ++ (a.prospect.names ++ after))

/-- An action of a task that settles. -/
lemma perform_advances {t : Task} (h : t.Settles w.workflow.handle agreed) :
    Advances agreed w (.ready t) (w.perform t).2 (w.perform t).1 := by
  cases t with
  | finish result =>
    cases result with
    | ok v => exact ⟨rfl, trivial, rfl, rfl, fun _ _ => rfl⟩
    | error e => exact h.elim
  | write store key value next =>
    obtain ⟨rfl, rfl, hnext⟩ := h
    rw [perform, write_handle]
    refine ⟨rfl, hnext, rfl, rfl, fun before after => ?_⟩
    -- The write is one of those that are to come; it is of no importance when it is made.
    show w.workflow.store.settle agreed
      (key :: (before ++ (next.prospect.names ++ after))) =
      w.workflow.store.settle agreed (before ++ (key :: next.prospect.names ++ after))
    apply Store.settle_congr
    intro name
    simp only [List.mem_cons, List.mem_append]
    grind
  | sleep ms next =>
    simp only [perform]
    split <;> exact ⟨rfl, h, rfl, rfl, fun _ _ => rfl⟩
  | trace | log => exact ⟨rfl, h, rfl, rfl, fun _ _ => rfl⟩
  | read | panic | launch | cancel => exact h.elim

/-- What a settling call does next writes agreed values only. -/
lemma advance_advances {a a' : Activity} (h : a.Settles w.workflow.handle agreed)
    (hadv : w.advance a = some (a', w')) : Advances agreed w a w' a' := by
  cases advance_eq_some_iff.mp hadv with
  | act task => exact perform_advances h
  | wake hdue => exact ⟨rfl, h, rfl, rfl, fun _ _ => rfl⟩

/-! ## Fan-outs whose calls settle -/

/-- The started calls are some that have ended, and after them those of a fan-out,
which settle. -/
structure Settling (agreed : String → Json) (old new : List Job) (w : World) : Prop where
  jobs : w.jobs = old ++ new
  ended : ∀ job ∈ old, job.activity.isEnded = true
  settles : ∀ job ∈ new, job.activity.Settles w.workflow.handle agreed

/-- A call that goes on makes no difference to what all calls are going to leave. -/
lemma Settling.advance (h : Settling agreed old new w) {n : Nat} {job : Job}
    {a : Activity} {w₁ : World} (hjob : w.jobs[n]? = some job)
    (hopen : job.activity.isEnded = false)
    (hadv : job.activity.Settles w.workflow.handle agreed →
      Advances agreed w job.activity w₁ a) :
    ∃ new', Settling agreed old new' (w₁.setActivity n job a) ∧
      Job.values new' = Job.values new ∧
      w₁.workflow.settled agreed new' = w.workflow.settled agreed new := by
  -- The call is one of the fan-out, since all earlier ones have ended.
  have hlate : old.length ≤ n := by
    refine Nat.le_of_not_lt fun hlt => ?_
    rw [h.jobs, List.getElem?_append_left hlt] at hjob
    have hdone := h.ended job (List.mem_of_getElem? hjob)
    rw [hopen] at hdone
    cases hdone
  rw [h.jobs, List.getElem?_append_right hlate] at hjob
  obtain ⟨hlt, hget⟩ := List.getElem?_eq_some_iff.mp hjob
  obtain ⟨l₁, l₂, hnew, -, hset⟩ :=
    @List.exists_of_set _ _ { job with activity := a } new hlt
  rw [hget] at hnew
  have hmem : job ∈ new := List.mem_of_getElem? hjob
  obtain ⟨hjobs, hsettles, hvalue, hworkflow, hstore⟩ := hadv (h.settles job hmem)
  refine ⟨l₁ ++ { job with activity := a } :: l₂, ⟨?_, h.ended, ?_⟩, ?_, ?_⟩
  · rw [← hset, setActivity, hjobs, h.jobs, List.set_append_right _ _ hlate]
  · intro other hother
    have hhandle : (w₁.setActivity n job a).workflow.handle = w.workflow.handle := by
      rw [setActivity, hworkflow]
    have hrest : ∀ job ∈ l₁ ++ l₂, job.activity.Settles w.workflow.handle agreed :=
      fun job hjob => h.settles job (by rw [hnew]; grind)
    rw [hhandle]
    grind
  · simp only [hnew, Job.values, List.map_append, List.map_cons, hvalue]
  · rw [Workflow.settled, Workflow.settled, hworkflow, hnew]
    simp only [List.flatMap_append, List.flatMap_cons, hstore]

/-- Nothing that happens outside of the run makes a difference to it either. -/
theorem Settling.take (h : Settling agreed old new w) (hout : c.isOutside = true)
    (htake : w.take c = some w') :
    ∃ new', Settling agreed old new' w' ∧ Job.values new' = Job.values new ∧
      w'.workflow.settled agreed new' = w.workflow.settled agreed new := by
  cases take_outside hout htake with
  | act hjob hadv =>
    exact h.advance hjob (advance_apart hadv).2.2 fun hsettles =>
      advance_advances hsettles hadv
  | exit hjob hawaits =>
    obtain ⟨task, hwaiting⟩ := eq_waiting_of_awaitsProgram hawaits
    refine h.advance hjob (isEnded_of_awaitsProgram hawaits) fun hsettles => ?_
    rw [hwaiting] at hsettles ⊢
    exact ⟨rfl, hsettles, rfl, rfl, fun _ _ => rfl⟩
  | cancel | pass => exact ⟨new, ⟨h.jobs, h.ended, h.settles⟩, rfl, rfl⟩

/-- The end of a call that settles is a value. -/
lemma Settling.jobEnd? (h : Settling agreed old new w) {i : Nat} {end_ : CallEnd}
    (hi : i < new.length) (hend : w.jobEnd? (old.length + i) = some end_) :
    ∃ v, end_ = .returned (.ok v) := by
  have hget : w.jobs[old.length + i]? = some new[i] := by
    rw [h.jobs, List.getElem?_append_right (Nat.le_add_right _ _), Nat.add_sub_cancel_left,
      List.getElem?_eq_getElem hi]
  have hsettles := h.settles new[i] (List.getElem_mem hi)
  unfold World.jobEnd? at hend
  rw [hget] at hend
  split at hend
  · next e input r hjob =>
    rw [Option.some.inj hjob] at hsettles
    obtain rfl := Option.some.inj hend
    cases r with
    | panicked => exact hsettles.elim
    | returned result =>
      cases result with
      | ok v => exact ⟨v, rfl⟩
      | error e => exact hsettles.elim
  · cases hend

/-- A call that settles ends with a value, so that its result is no failure. -/
theorem Settling.not_fails (h : Settling agreed old new w) {results : List (Option Json)}
    {i : Nat} {end_ : CallEnd} {e : ExecutorError} (hlen : results.length = new.length)
    (hslot : results[i]? = some none) (hend : w.jobEnd? (old.length + i) = some end_) :
    ¬ (end_ = .returned (.error e) ∨ ∃ report, end_ = .panicked report ∧
      e = .panicked report) := by
  have hi : i < results.length := (List.getElem?_eq_some_iff.mp hslot).1
  obtain ⟨v, rfl⟩ := h.jobEnd? (hlen ▸ hi) hend
  rintro (herror | ⟨report, hpanic, -⟩)
  · cases herror
  · cases hpanic

/-- When all values are there, all calls have ended, with these values, and nothing is
still to come. -/
theorem Settling.gathered (h : Settling agreed old new w) {awake : Bool}
    {results : List (Option Json)} {values : List Json} (hlen : results.length = new.length)
    (hcoh : Coherent w awake old.length results)
    (hvalues : complete? results = some values) :
    Quiet w ∧ Job.values new = values ∧ w.workflow.settled agreed new = w.workflow := by
  obtain rfl := complete?_eq_some_iff.mp hvalues
  rw [List.length_map] at hlen
  -- Each slot holds the value of the call of the same position.
  have hact : ∀ (i : Nat) (job : Job), new[i]? = some job →
      ∃ v, values[i]? = some v ∧ job.activity = .ended (.returned (.ok v)) := by
    intro i job hjob
    have hi : i < values.length := hlen ▸ (List.getElem?_eq_some_iff.mp hjob).1
    refine ⟨values[i], List.getElem?_eq_getElem hi, ?_⟩
    have hend := hcoh.values i values[i] (by simp [hi])
    unfold World.jobEnd? at hend
    rw [h.jobs, List.getElem?_append_right (Nat.le_add_right _ _),
      Nat.add_sub_cancel_left, hjob] at hend
    split at hend
    · next e input r heq =>
      rw [Option.some.inj heq, Option.some.inj hend]
    · cases hend
  have hdone : ∀ job ∈ new, job.activity.isEnded = true ∧
      job.activity.prospect.names = [] := by
    intro job hjob
    obtain ⟨i, hi⟩ := List.mem_iff_getElem?.mp hjob
    obtain ⟨v, -, hend⟩ := hact i job hi
    rw [hend]
    exact ⟨rfl, rfl⟩
  refine ⟨fun job hjob => ?_, ?_, ?_⟩
  · rw [h.jobs, List.mem_append] at hjob
    rcases hjob with hold | hnew
    · exact h.ended job hold
    · exact (hdone job hnew).1
  · refine List.ext_getElem? fun i => ?_
    rw [Job.values, List.getElem?_map]
    cases hjob : new[i]? with
    | none =>
      have hlast : values.length ≤ i := hlen ▸ List.getElem?_eq_none_iff.mp hjob
      rw [List.getElem?_eq_none hlast]
      rfl
    | some job =>
      obtain ⟨v, hv, hend⟩ := hact i job hjob
      rw [hv, Option.map_some, hend]
      rfl
  · have hnames : new.flatMap (fun job => job.activity.prospect.names) = [] :=
      List.flatMap_eq_nil_iff.mpr fun job hjob => (hdone job hjob).2
    rw [Workflow.settled, hnames, Store.settle_nil]

end World

/-! ## What a run is heading for -/

/-- A run in progress, in a world, that comes to this if it is left alone. -/
def Progress.Heads (o : Except WorkflowError Outcome × Workflow) (w : World) :
    Progress → Prop
  | acting _ run => w.Quiet ∧ run.alone w.workflow = some o
  | calling _ a rest => w.Quiet ∧ ∃ p, a.alone w.workflow.handle w.workflow.store = some p ∧
      (rest p.1).alone { w.workflow with store := p.2 } = some o
  | joining _ _ first results rest => ∃ agreed old new, first = List.length old ∧
      results.length = List.length new ∧ World.Settling agreed old new w ∧
      (rest (.ok (Job.values new))).alone (w.workflow.settled agreed new) = some o
  | ended result => w.Quiet ∧ (result, w.workflow) = o
  | idle | crashed _ => False

namespace World

/-- A world whose run in progress comes to this if it is left alone. -/
def Heads (o : Except WorkflowError Outcome × Workflow) (w : World) : Prop :=
  w.progress.Heads o w

variable {w w' : World} {c : Choice} {o : Except WorkflowError Outcome × Workflow}

/-- A steady run goes on towards the same end, whatever it does of itself. -/
lemma Heads.runMove {x : Option Exchange} {seen : Option Store} (h : Heads o w)
    (hmove : RunMove w c x w') (hlive : w.isCancelled = false) (hcoh : w.IsCoherent)
    (hobeys : w.progress.Obeys (steady w.workflow.handle) seen) : Heads o w' := by
  unfold Heads at h ⊢
  cases hmove with
  | refuse hp hc | abandon hp hc | leave hp hc => rw [hlive] at hc; cases hc
  | finish hp =>
    rw [hp] at h
    exact ⟨h.1, Option.some.inj h.2⟩
  | enter hp | log hp | setPrompt hp | readStore hp => rw [hp] at h; exact h
  | call hp =>
    rw [hp] at h
    obtain ⟨hquiet, halone⟩ := h
    exact ⟨hquiet, Option.bind_eq_some_iff.mp halone⟩
  | @fanOut step calls rest hp =>
    rw [hp] at h hobeys
    obtain ⟨hquiet, halone⟩ := h
    obtain ⟨⟨agreed, hsettles⟩, -⟩ := hobeys
    -- All new calls have still to act, and together they are going to leave what they
    -- leave in turn.
    let new : List Job := calls.map fun c => ⟨c.1, c.2, .ready (c.1.run c.2)⟩
    have hnew : ∀ job ∈ new, job.activity.Settles w.workflow.handle agreed := by
      intro job hjob
      obtain ⟨call, hcall, rfl⟩ := List.mem_map.mp hjob
      exact hsettles call hcall
    refine ⟨agreed, w.jobs, new, rfl, by simp [new], ⟨rfl, hquiet, hnew⟩, ?_⟩
    rw [Run.alone, Run.gatherAlone_settles hsettles, Option.bind_some] at halone
    simpa [new, Job.values, Workflow.settled, Activity.prospect, List.flatMap_map,
      start, goTo, Function.comp_def] using halone
  | @work step task rest hp =>
    rw [hp] at h
    obtain ⟨hquiet, p, htask, halone⟩ := h
    have hworkflow := (perform_apart w task).workflow
    refine ⟨fun job hjob => hquiet job ?_, p, ?_, ?_⟩
    · rwa [← perform_jobs w task]
    · show (w.perform task).1.alone (w.perform task).2.workflow.handle _ = some p
      rw [hworkflow]
      exact perform_alone htask
    · show (rest p.1).alone { (w.perform task).2.workflow with store := p.2 } = some o
      rw [hworkflow]
      exact halone
  | wake hp | exit hp => rw [hp] at h; exact h
  | answer hp =>
    rw [hp] at h
    obtain ⟨hquiet, p, hcall, halone⟩ := h
    obtain rfl := Option.some.inj hcall
    exact ⟨hquiet, halone⟩
  | crash hp =>
    rw [hp] at h
    obtain ⟨-, p, hcall, -⟩ := h
    cases hcall
  | gather hp hvalues =>
    rw [hp] at h
    obtain ⟨agreed, old, new, rfl, hlen, hsettling, halone⟩ := h
    obtain ⟨hquiet, rfl, hsettled⟩ := hsettling.gathered hlen (hcoh _ _ _ _ _ hp) hvalues
    rw [hsettled] at halone
    exact ⟨hquiet, halone⟩
  | park hp hvalues =>
    rw [hp] at h
    obtain ⟨agreed, old, new, hfirst, hlen, ⟨hjobs, hended, hsettles⟩, halone⟩ := h
    exact ⟨agreed, old, new, hfirst, hlen, ⟨hjobs, hended, hsettles⟩, halone⟩
  | collect hp hslot hawake hend =>
    rw [hp] at h
    -- To take a value changes nothing: the value was that of the call all along.
    obtain ⟨agreed, old, new, hfirst, hlen, ⟨hjobs, hended, hsettles⟩, halone⟩ := h
    refine ⟨agreed, old, new, hfirst, ?_, ⟨hjobs, hended, hsettles⟩, halone⟩
    rw [List.length_set, hlen]
  | failure hp hslot hawake hend hfails =>
    rw [hp] at h
    obtain ⟨agreed, old, new, rfl, hlen, hsettling, -⟩ := h
    exact absurd hfails (hsettling.not_fails hlen hslot hend)

/-- A run goes on towards the same end, whatever happens outside of it. -/
lemma Heads.outside (h : Heads o w) (hout : c.isOutside = true)
    (htake : w.take c = some w') :
    Heads o w' := by
  have hapart := take_apart hout htake
  unfold Heads at h ⊢
  rw [hapart.progress]
  cases hp : w.progress with
  | acting step run =>
    rw [hp] at h
    obtain ⟨hquiet, hworkflow⟩ := h.1.take hout htake
    exact ⟨hquiet, by rw [hworkflow]; exact h.2⟩
  | calling step a rest =>
    rw [hp] at h
    obtain ⟨hquiet, hworkflow⟩ := h.1.take hout htake
    exact ⟨hquiet, by rw [hworkflow]; exact h.2⟩
  | joining step awake first results rest =>
    rw [hp] at h
    obtain ⟨agreed, old, new, hfirst, hlen, hsettling, halone⟩ := h
    obtain ⟨new', hsettling', hvalues, hsettled⟩ := hsettling.take hout htake
    refine ⟨agreed, old, new', hfirst, ?_, hsettling', ?_⟩
    · have hlength := congrArg List.length hvalues
      simp only [Job.values, List.length_map] at hlength
      rw [hlen, hlength]
    · rw [hvalues, hsettled]
      exact halone
  | ended r =>
    rw [hp] at h
    obtain ⟨hquiet, hworkflow⟩ := h.1.take hout htake
    exact ⟨hquiet, by rw [hworkflow]; exact h.2⟩
  | idle | crashed => rw [hp] at h; exact h.elim

/-- A steady run that is heading for something. -/
structure Steady (o : Except WorkflowError Outcome × Workflow) (w : World) : Prop where
  coherent : w.IsCoherent
  obeys : ∃ seen, w.progress.Obeys (steady w.workflow.handle) seen
  heads : Heads o w

theorem Steady.take (h : Steady o w) (hloop : c ≠ .loop) (htake : w.take c = some w')
    (hlive : w.isCancelled = false) : Steady o w' := by
  obtain ⟨seen, hobeys⟩ := h.obeys
  refine ⟨take_isCoherent hloop htake h.coherent, ?_, ?_⟩
  · rw [(choice_setup htake).handle]
    rcases take_move hloop htake with hmove | ⟨-, -, hapart⟩
    · obtain ⟨seen', hobeys', -⟩ := hmove.obeys hobeys
      exact ⟨seen', hobeys'⟩
    · exact ⟨seen, hapart.progress ▸ hobeys⟩
  · rcases take_move hloop htake with hmove | ⟨hout, -, -⟩
    · exact h.heads.runMove hmove hlive h.coherent hobeys
    · exact h.heads.outside hout htake

lemma Steady.follow {cs : List Choice} (h : Steady o w) (hloop : .loop ∉ cs)
    (hfollow : w.follow cs = some w') (hlive : w'.isCancelled = false) : Steady o w' := by
  induction cs generalizing w with
  | nil => rwa [← Option.some.inj hfollow]
  | cons c rest ih =>
    obtain ⟨w₁, htake, hrest⟩ := follow_cons hfollow
    have hlive₀ : w.isCancelled = false := follow_live hloop hfollow hlive
    rw [List.mem_cons, not_or] at hloop
    exact ih (h.take (Ne.symm hloop.1) htake hlive₀) hloop.2 hrest

/-! ## Consecutive runs -/

/-- Where nobody can cancel anything, nobody ever can. -/
lemma follow_absent {cs : List Choice} (h : w.follow cs = some w')
    (hw : w.token = .absent) :
    w'.token = .absent := by
  refine follow_preserves (P := fun v => v.token = .absent)
    (fun c _ u v htake hu => ?_) h hw
  rcases choice_token htake with hsame | hcancel
  · rw [hsame, hu]
  · rw [hcancel, hu]
    rfl

/-- A run of a steady workflow begins by heading for what it comes to alone. -/
theorem steady_begin (hquiet : w.Quiet) (hsteady : w.workflow.IsSteady) :
    ∃ o, w.workflow.nextRun.alone w.workflow = some o ∧ Steady o w.begin := by
  obtain ⟨o, halone⟩ := Run.exists_alone w.workflow hsteady.nextRun
  have hcoh : w.begin.IsCoherent := by
    intro step awake first results rest hp
    cases hp
  exact ⟨o, halone, hcoh, ⟨none, hsteady.nextRun⟩, hquiet, halone⟩

/-- On every schedule, a run of a steady workflow comes to what it comes to alone. -/
theorem nextRun_alone {cs : List Choice} {r : Except WorkflowError Outcome}
    (hquiet : w.Quiet) (hsteady : w.workflow.IsSteady) (hloop : .loop ∉ cs)
    (hfollow : w.begin.follow cs = some w') (hlive : w'.isCancelled = false)
    (hend : w'.progress = .ended r) :
    w.workflow.nextRun.alone w.workflow = some (r, w'.workflow) ∧ w'.Quiet := by
  obtain ⟨o, halone, hbegin⟩ := steady_begin hquiet hsteady
  have hheads := (hbegin.follow hloop hfollow hlive).heads
  rw [Heads, hend] at hheads
  obtain ⟨hquiet', rfl⟩ := hheads
  exact ⟨halone, hquiet'⟩

/-- Some schedule carries a run of a steady workflow to its end. -/
lemma exists_nextRun (hquiet : w.Quiet) (hsteady : w.workflow.IsSteady)
    (htoken : w.token = .absent) :
    ∃ cs w' r, w.begin.follow cs = some w' ∧ w'.isCancelled = false ∧
      w'.progress = .ended r := by
  obtain ⟨o, -, hbegin⟩ := steady_begin hquiet hsteady
  obtain ⟨w', ⟨cs, hloop, hfollow⟩, hover, -⟩ :=
    acting_finishes (w := w.begin) w.workflow.nextRun rfl
  have hlive : w'.isCancelled = false := by
    have htoken' : w'.token = .absent := follow_absent hfollow htoken
    simp [isCancelled, htoken']
  refine ⟨cs, w', ?_⟩
  -- A run that is heading for something has not crashed.
  have hheads := (hbegin.follow hloop hfollow hlive).heads
  unfold Heads at hheads
  cases hp : w'.progress with
  | ended r => exact ⟨r, hfollow, hlive, rfl⟩
  | crashed => rw [hp] at hheads; exact hheads.elim
  | idle | acting | calling | joining => rw [hp] at hover; cases hover

theorem Runs.isSteady {cs : List Choice} {rs : List (Except WorkflowError Outcome)}
    (h : Runs w cs rs w') (hsteady : w.workflow.IsSteady) : w'.workflow.IsSteady := by
  unfold Workflow.IsSteady
  rw [h.setup.steps, h.setup.handle]
  exact hsteady

/-- On every schedule, consecutive runs of a steady workflow come to what they
come to alone. -/
theorem Runs.alone {cs : List Choice} {rs : List (Except WorkflowError Outcome)}
    (h : Runs w cs rs w') (hnone : w.loop = .none) (hquiet : w.Quiet)
    (hsteady : w.workflow.IsSteady) :
    w.workflow.alone rs.length = some (rs, w'.workflow) ∧ w'.Quiet := by
  induction h with
  | none => exact ⟨rfl, hquiet⟩
  | aside _ hout htake ih =>
    obtain ⟨halone, hquiet⟩ := ih
    obtain ⟨hquiet', hworkflow⟩ := hquiet.take hout htake
    exact ⟨by rw [hworkflow]; exact halone, hquiet'⟩
  | @run cs rs v v' ds r token hruns hfollow hlive hend ih =>
    obtain ⟨halone, hquiet⟩ := ih
    have hloop : .loop ∉ ds := by
      have hnone' : ({ v with token } : World).begin.loop = .none := hruns.loop hnone
      exact follow_without_loop hnone' hfollow
    obtain ⟨hrun, hquiet'⟩ :=
      nextRun_alone (w := { v with token }) hquiet
        (hruns.isSteady hsteady) hloop hfollow hlive hend
    refine ⟨?_, hquiet'⟩
    have hrun : v.workflow.nextRun.alone v.workflow = some (r, v'.workflow) := hrun
    rw [List.length_append, List.length_singleton, Workflow.alone, halone,
      Option.bind_some, hrun, Option.map_some]

/-- A steady workflow can be run any number of times. -/
theorem exists_runs (hnone : w.loop = .none) (hquiet : w.Quiet)
    (hsteady : w.workflow.IsSteady) (n : Nat) :
    ∃ cs rs w', Runs w cs rs w' ∧ rs.length = n := by
  induction n with
  | zero => exact ⟨[], [], w, .none, rfl⟩
  | succ n ih =>
    obtain ⟨cs, rs, v, hruns, rfl⟩ := ih
    obtain ⟨-, hquiet'⟩ := hruns.alone hnone hquiet hsteady
    obtain ⟨ds, v', r, hfollow, hlive, hend⟩ :=
      exists_nextRun (w := { v with token := .absent }) hquiet' (hruns.isSteady hsteady) rfl
    exact ⟨_, _, v', .run .absent hruns hfollow hlive hend, by simp⟩

end World
end Workplan
