import Mathlib.Tactic.Lemma
import Workplan.Proofs.Engine.Moves

/-!
# The dialogue of a run

A run talks to its surroundings: it sets the prompt, looks at the store, asks an
executor and is answered, spawns calls and gathers their results.  `World.exchange?`
reads from a world what one choice adds to this dialogue, and `World.exchanges` collects
it along a schedule.

`Run.Plays` says, of the tree alone, which dialogues a run can have and how they end; a
call that the run waits for is answered with something that its executor can give
(`Executor.Gives`).  The main result, `World.follow_plays`, ties the two together:
whatever the schedule, the dialogue that an uncancelled run has had when it ends is one
that its tree plays.
-/

namespace Workplan

/-- One thing that a run does to its surroundings or is told by them. -/
inductive Exchange where
  | prompted (text : String)
  | looked (store : Store)
  | asked (executor : Executor) (input : Json)
  | answered (result : Except ExecutorError Json)
  | spawned (calls : List (Executor × Json))
  | gathered (result : Except ExecutorError (List Json))

/-- The executor calls that an exchange makes. -/
def Exchange.calls : Exchange → List (Executor × Json)
  | asked e input => [(e, input)]
  | spawned calls => calls
  | _ => []

/-! ## How a call may end -/

/-- The ends that a task may come to, whatever the store holds and whatever its
programs do. -/
inductive Task.EndsIn : Task → CallEnd → Prop where
  | finish (result) : EndsIn (.finish result) (.returned result)
  | panic (report) : EndsIn (.panic report) (.panicked report)
  | read {store key next r} (v) : (next v).EndsIn r → EndsIn (.read store key next) r
  | write {store key value next r} : next.EndsIn r → EndsIn (.write store key value next) r
  | sleep {ms next r} : next.EndsIn r → EndsIn (.sleep ms next) r
  | launch {command stdin next r} (left) : (next left).EndsIn r →
      EndsIn (.launch command stdin next) r
  | cancel {next r} : next.EndsIn r → EndsIn (.cancel next) r
  | trace {name input next r} : next.EndsIn r → EndsIn (.trace name input next) r
  | log {event next r} : next.EndsIn r → EndsIn (.log event next) r

/-- The results that an executor may give on an input. -/
def Executor.Gives (e : Executor) (input : Json) (result : Except ExecutorError Json) :
    Prop :=
  (e.run input).EndsIn (.returned result)

/-- The ends that a call may still come to. -/
def Activity.EndsIn : Activity → CallEnd → Prop
  | ready task, r | waiting _ task, r => task.EndsIn r
  | ended r', r => r' = r

/-- What a task comes to after an action, it may have come to before. -/
lemma World.perform_endsIn (w : World) {t : Task} {r : CallEnd}
    (h : (w.perform t).1.EndsIn r) :
    t.EndsIn r := by
  cases t with
  | finish => obtain rfl := h; exact .finish _
  | panic => obtain rfl := h; exact .panic _
  | read => exact .read _ h
  | write => exact .write h
  | sleep ms next =>
    simp only [perform] at h
    split at h <;> exact .sleep h
  | launch command stdin next =>
    simp only [perform] at h
    split at h <;> exact .launch _ h
  | cancel => exact .cancel h
  | trace => exact .trace h
  | log => exact .log h

/-- What a call ends in after an action it also ends in before. -/
theorem World.advance_endsIn {w w' : World} {a a' : Activity} {r : CallEnd}
    (hadv : w.advance a = some (a', w')) (h : a'.EndsIn r) : a.EndsIn r := by
  cases advance_eq_some_iff.mp hadv with
  | act task => exact w.perform_endsIn h
  | wake hdue => exact h

/-! ## Dialogues of a tree -/

/-- The dialogues that a run may have, each with the result in which it ends. -/
inductive Run.Plays : Run → List Exchange → Except WorkflowError Outcome → Prop where
  | finish (r) : Plays (.finish r) [] r
  | enter {n rest t r} : Plays rest t r → Plays (.enter n rest) t r
  | log {e rest t r} : Plays rest t r → Plays (.log e rest) t r
  | setPrompt {text rest t r} : Plays rest t r → Plays (.setPrompt text rest)
      (.prompted text :: t) r
  | readStore {rest t r} (store) : Plays (rest store) t r → Plays (.readStore rest)
      (.looked store :: t) r
  | call {e input rest t r} (answer) : e.Gives input answer → Plays (rest answer) t r →
      Plays (.call e input rest) (.asked e input :: .answered answer :: t) r
  | fanOut {calls rest t r} (answer) : Plays (rest answer) t r →
      Plays (.fanOut calls rest) (.spawned calls :: .gathered answer :: t) r

/-- The dialogues that a run may still have from where it is. -/
inductive Progress.Plays : Progress → List Exchange → Except WorkflowError Outcome →
    Prop where
  | acting {step run t r} : run.Plays t r → Plays (.acting step run) t r
  | calling {step activity rest t r} (answer) : activity.EndsIn (.returned answer) →
      (rest answer).Plays t r →
      Plays (.calling step activity rest) (.answered answer :: t) r
  | joining {step awake first results rest t r} (answer) : (rest answer).Plays t r →
      Plays (.joining step awake first results rest) (.gathered answer :: t) r
  | ended (r) : Plays (.ended r) [] r

namespace World

/-! ## What the run in progress can do -/

/-- What a choice adds to the dialogue of the run in progress. -/
def exchange? (w : World) : Choice → Option Exchange
  | .run =>
    match w.progress with
    | .acting _ (.setPrompt text _) => some (.prompted text)
    | .acting _ (.readStore _) => some (.looked w.workflow.store)
    | .acting _ (.call e input _) => some (.asked e input)
    | .acting _ (.fanOut calls _) => some (.spawned calls)
    | .calling _ (.ended (.returned result)) _ => some (.answered result)
    | .joining _ true _ results _ =>
      (complete? results).map fun values => .gathered (.ok values)
    | _ => none
  | .collect call =>
    match w.progress with
    | .joining _ awake first _ _ =>
      if !awake && w.isCancelled then none
      else
        match w.jobEnd? (first + call) with
        | some (.returned (.error e)) => some (.gathered (.error e))
        | some (.panicked report) => some (.gathered (.error (.panicked report)))
        | _ => none
    | _ => none
  | _ => none

/-- What the choices of a schedule add to a record, each in the world in which
it is made. -/
def record {α : Type} (f : World → Choice → Option α) (w : World) : List Choice → List α
  | [] => []
  | c :: rest => (f w c).toList ++ ((w.take c).elim [] fun w' => w'.record f rest)

/-- The dialogue of the runs in progress along a schedule. -/
def exchanges (w : World) (cs : List Choice) : List Exchange :=
  w.record exchange? cs

@[simp] theorem record_nil {α : Type} (f : World → Choice → Option α) (w : World) :
    w.record f [] = [] := rfl

theorem record_cons {α : Type} (f : World → Choice → Option α) {w w' : World} {c : Choice}
    (h : w.take c = some w') (rest : List Choice) :
    w.record f (c :: rest) = (f w c).toList ++ w'.record f rest := by
  rw [record, h, Option.elim_some]

/-- A record goes on where another one stops. -/
theorem record_append {α : Type} (f : World → Choice → Option α) {w w' : World}
    {cs : List Choice} (h : w.follow cs = some w') (ds : List Choice) :
    w.record f (cs ++ ds) = w.record f cs ++ w'.record f ds := by
  induction cs generalizing w with
  | nil =>
    obtain rfl := Option.some.inj h
    rfl
  | cons c rest ih =>
    obtain ⟨w₁, htake, hrest⟩ := Option.bind_eq_some_iff.mp h
    rw [List.cons_append, record_cons f htake, record_cons f htake, ih hrest,
      List.append_assoc]

theorem exchanges_cons {w w' : World} {c : Choice} (h : w.take c = some w')
    (rest : List Choice) :
    w.exchanges (c :: rest) = (w.exchange? c).toList ++ w'.exchanges rest :=
  record_cons exchange? h rest

/-- Everything that the run in progress can do by itself, with the choice that does it and
what it adds to the dialogue. -/
inductive RunMove (w : World) : Choice → Option Exchange → World → Prop where
  | finish {step r} : w.progress = .acting step (.finish r) →
      RunMove w .run none (w.goTo (.ended r))
  | enter {step n rest} : w.progress = .acting step (.enter n rest) →
      w.isCancelled = false →
      RunMove w .run none (w.goTo (.acting n rest))
  | refuse {step n rest} : w.progress = .acting step (.enter n rest) →
      w.isCancelled = true →
      RunMove w .run none (w.endCancelled (.cancelledBefore n))
  | log {step event rest} : w.progress = .acting step (.log event rest) →
      RunMove w .run none ((w.report event).goTo (.acting step rest))
  | setPrompt {step text rest} : w.progress = .acting step (.setPrompt text rest) →
      RunMove w .run (some (.prompted text))
        ({ w with workflow := { w.workflow with prompt := some text } }.goTo
          (.acting step rest))
  | readStore {step rest} : w.progress = .acting step (.readStore rest) →
      RunMove w .run (some (.looked w.workflow.store))
        (w.goTo (.acting step (rest w.workflow.store)))
  | call {step e input rest} : w.progress = .acting step (.call e input rest) →
      RunMove w .run (some (.asked e input))
        ((w.note (.called e input)).goTo (.calling step (.ready (e.run input)) rest))
  | fanOut {step calls rest} : w.progress = .acting step (.fanOut calls rest) →
      RunMove w .run (some (.spawned calls))
        ((w.start calls).goTo
          (.joining step true w.jobs.length (calls.map fun _ => none) rest))
  | work {step task rest} : w.progress = .calling step (.ready task) rest →
      RunMove w .run none ((w.perform task).2.goTo (.calling step (w.perform task).1 rest))
  | wake {step f task rest} : w.progress = .calling step (.waiting f task) rest →
      w.isCancelled = false →
      RunMove w .run none (w.goTo (.calling step (.ready task) rest))
  | abandon {step f task rest} : w.progress = .calling step (.waiting f task) rest →
      w.isCancelled = true → RunMove w .run none (w.endCancelled (.cancelledDuring step))
  | exit {step task rest} : w.progress = .calling step (.waiting .program task) rest →
      RunMove w .exitOfRun none (w.goTo (.calling step (.waiting .nothing task) rest))
  | answer {step result rest} :
      w.progress = .calling step (.ended (.returned result)) rest →
      RunMove w .run (some (.answered result)) (w.goTo (.acting step (rest result)))
  | crash {step report rest} : w.progress = .calling step (.ended (.panicked report)) rest →
      RunMove w .run none (w.goTo (.crashed report))
  | gather {step first results rest values} :
      w.progress = .joining step true first results rest →
      complete? results = some values →
      RunMove w .run (some (.gathered (.ok values)))
        (w.goTo (.acting step (rest (.ok values))))
  | park {step first results rest} : w.progress = .joining step true first results rest →
      complete? results = none →
      RunMove w .run none (w.goTo (.joining step false first results rest))
  | leave {step first results rest c} :
      w.progress = .joining step false first results rest →
      w.isCancelled = true → RunMove w c none (w.endCancelled (.cancelledDuring step))
  | collect {step awake first results rest call v} :
      w.progress = .joining step awake first results rest → results[call]? = some none →
      (awake = true ∨ w.isCancelled = false) →
      w.jobEnd? (first + call) = some (.returned (.ok v)) →
      RunMove w (.collect call) none
        (w.goTo (.joining step true first (results.set call (some v)) rest))
  | failure {step awake first results rest call end_ e} :
      w.progress = .joining step awake first results rest → results[call]? = some none →
      (awake = true ∨ w.isCancelled = false) →
      w.jobEnd? (first + call) = some end_ →
      (end_ = .returned (.error e) ∨ ∃ report, end_ = .panicked report ∧
        e = .panicked report) →
      RunMove w (.collect call) (some (.gathered (.error e)))
        (w.goTo (.acting step (rest (.error e))))

theorem stepRun_move {w w' : World} (h : w.stepRun = some w') :
    RunMove w .run (w.exchange? .run) w' := by
  unfold stepRun at h
  split at h
  · next step run hp =>
    obtain rfl := Option.some.inj h
    -- Only to enter a step looks at the cancellation; every other action of a tree has
    -- one outcome.
    cases run with
    | finish r => simpa [exchange?, hp, act] using RunMove.finish hp
    | enter n rest =>
      cases hc : w.isCancelled with
      | true => simpa [exchange?, hp, act, hc] using RunMove.refuse hp hc
      | false => simpa [exchange?, hp, act, hc] using RunMove.enter hp hc
    | log event rest => simpa [exchange?, hp, act] using RunMove.log hp
    | setPrompt text rest => simpa [exchange?, hp, act] using RunMove.setPrompt hp
    | readStore rest => simpa [exchange?, hp, act] using RunMove.readStore hp
    | call e input rest => simpa [exchange?, hp, act] using RunMove.call hp
    | fanOut calls rest => simpa [exchange?, hp, act] using RunMove.fanOut hp
  · next step result rest hp =>
    obtain rfl := Option.some.inj h
    simpa [exchange?, hp] using RunMove.answer hp
  · next step rest hp =>
    obtain rfl := Option.some.inj h
    simpa [exchange?, hp] using RunMove.crash hp
  · next step task rest hp =>
    obtain rfl := Option.some.inj h
    have hx : w.exchange? .run = none := by simp [exchange?, hp]
    rw [hx]
    exact RunMove.work hp
  -- A waiting run looks at its cancellation before it looks at what it waits for.
  · next step f task rest hp =>
    cases hc : w.isCancelled with
    | true =>
      rw [if_pos hc] at h
      obtain rfl := Option.some.inj h
      simpa [exchange?, hp] using RunMove.abandon hp hc
    | false =>
      rw [if_neg (by simp [hc])] at h
      split at h
      · obtain rfl := Option.some.inj h
        simpa [exchange?, hp] using RunMove.wake hp hc
      · cases h
  · next step first results rest hp =>
    split at h
    · next values hv =>
      obtain rfl := Option.some.inj h
      simpa [exchange?, hp, hv] using RunMove.gather hp hv
    · next hv =>
      obtain rfl := Option.some.inj h
      simpa [exchange?, hp, hv] using RunMove.park hp hv
  · next step first results rest hp =>
    split at h
    · next hc =>
      obtain rfl := Option.some.inj h
      simpa [exchange?, hp] using RunMove.leave (c := .run) hp hc
    · cases h
  · cases h

theorem collect_move {w w' : World} {call : Nat} (h : w.collect call = some w') :
    RunMove w (.collect call) (w.exchange? (.collect call)) w' := by
  unfold collect at h
  split at h
  · next step awake first results rest hp =>
    split at h
    · next end_ hfree hend =>
      -- Only a run that slept looks at its cancellation when a result arrives.
      cases ha : (!awake && w.isCancelled) with
      | true =>
        rw [if_pos ha] at h
        obtain rfl := Option.some.inj h
        obtain ⟨rfl, hc⟩ : awake = false ∧ w.isCancelled = true := by simpa using ha
        simpa [exchange?, hp, hc] using RunMove.leave (c := .collect call) hp hc
      | false =>
        rw [if_neg (by simp [ha])] at h
        have hlive : awake = true ∨ w.isCancelled = false := by
          cases awake <;> simp_all
        split at h
        · obtain rfl := Option.some.inj h
          simpa [exchange?, hp, ha, hend] using RunMove.collect hp hfree hlive hend
        · obtain rfl := Option.some.inj h
          simpa [exchange?, hp, ha, hend] using RunMove.failure hp hfree hlive hend
            (.inl rfl)
        · obtain rfl := Option.some.inj h
          simpa [exchange?, hp, ha, hend] using RunMove.failure hp hfree hlive hend
            (.inr ⟨_, rfl, rfl⟩)
    · cases h
  · cases h

/-- A choice is the run's, and then one of its moves, or the loop's, or it happens
apart from both. -/
theorem take_move {w w' : World} {c : Choice} (hloop : c ≠ .loop) (h : w.take c = some w') :
    RunMove w c (w.exchange? c) w' ∨
      (c.isOutside = true ∧ w.exchange? c = none ∧ Apart w w') := by
  cases c with
  | run => exact .inl (stepRun_move h)
  | collect call => exact .inl (collect_move h)
  | exitOfRun =>
    simp only [take] at h
    split at h
    · next step task rest hp =>
      obtain rfl := Option.some.inj h
      exact .inl (RunMove.exit hp)
    · cases h
  | loop => exact absurd rfl hloop
  | job n => exact .inr ⟨rfl, rfl, take_apart rfl h⟩
  | exitOfJob n => exact .inr ⟨rfl, rfl, take_apart rfl h⟩
  | cancel => exact .inr ⟨rfl, rfl, take_apart rfl h⟩
  | pass ms => exact .inr ⟨rfl, rfl, take_apart rfl h⟩

/-- A run that has ended makes no move. -/
theorem RunMove.not_ended {w w' : World} {c : Choice} {x : Option Exchange}
    (h : RunMove w c x w') (r : Except WorkflowError Outcome) : w.progress ≠ .ended r := by
  intro hp
  cases h with
  | finish hp' | enter hp' | refuse hp' | log hp' | setPrompt hp' | readStore hp' | call hp'
  | fanOut hp' | work hp' | wake hp' | abandon hp' | exit hp' | answer hp'
  | crash hp' | gather hp'
  | park hp' | leave hp' | collect hp' | failure hp' => rw [hp] at hp'; cases hp'

/-! ## The dialogue of a schedule -/

/-- Nobody takes a cancellation back. -/
lemma RunMove.isCancelled {w w' : World} {c : Choice} {x : Option Exchange}
    (h : RunMove w c x w') (hc : w.isCancelled = true) : w'.isCancelled = true := by
  cases h with
  | work hp => exact (perform_apart w _).cancelled hc
  | _ => exact hc

theorem take_isCancelled {w w' : World} {c : Choice} (hloop : c ≠ .loop)
    (h : w.take c = some w') (hc : w.isCancelled = true) : w'.isCancelled = true := by
  rcases take_move hloop h with hmove | ⟨-, -, hapart⟩
  · exact hmove.isCancelled hc
  · exact hapart.cancelled hc

theorem follow_cons {w w' : World} {c : Choice} {rest : List Choice}
    (h : w.follow (c :: rest) = some w') :
    ∃ w₁, w.take c = some w₁ ∧ w₁.follow rest = some w' :=
  Option.bind_eq_some_iff.mp h

/-- What every choice of a schedule preserves, the schedule preserves. -/
theorem follow_preserves {P : World → Prop} {cs : List Choice} {w w' : World}
    (hstep : ∀ c ∈ cs, ∀ u v, u.take c = some v → P u → P v) (h : w.follow cs = some w')
    (hw : P w) :
    P w' := by
  induction cs generalizing w with
  | nil => rwa [← Option.some.inj h]
  | cons c rest ih =>
    obtain ⟨w₁, htake, hrest⟩ := follow_cons h
    rw [List.forall_mem_cons] at hstep
    exact ih hstep.2 hrest (hstep.1 w w₁ htake hw)

/-- The run does not touch the loop around it. -/
theorem RunMove.loop {w w' : World} {c : Choice} {x : Option Exchange}
    (h : RunMove w c x w') :
    w'.loop = w.loop := by
  cases h with
  | work hp => exact (perform_apart w _).loop
  | _ => rfl

/-- Where there is no loop, no schedule makes a choice of one. -/
theorem follow_without_loop {cs : List Choice} {w w' : World} (hnone : w.loop = none)
    (h : w.follow cs = some w') : .loop ∉ cs := by
  induction cs generalizing w with
  | nil => simp
  | cons c rest ih =>
    obtain ⟨w₁, htake, hrest⟩ := follow_cons h
    have hc : c ≠ .loop := by
      rintro rfl
      simp [take, stepLoop, hnone] at htake
    have hnone₁ : w₁.loop = none := by
      rcases take_move hc htake with hmove | ⟨-, -, hapart⟩
      · rw [hmove.loop, hnone]
      · rw [hapart.loop, hnone]
    simpa using ⟨Ne.symm hc, ih hnone₁ hrest⟩

lemma follow_isCancelled {cs : List Choice} {w w' : World} (hloop : .loop ∉ cs)
    (h : w.follow cs = some w') (hc : w.isCancelled = true) : w'.isCancelled = true :=
  follow_preserves (fun _ hmem _ _ htake =>
    take_isCancelled (ne_of_mem_of_not_mem hmem hloop) htake) h hc

/-- The calls of a run are those in its dialogue. -/
lemma RunMove.calls {w w' : World} {c : Choice} {x : Option Exchange}
    (h : RunMove w c x w') :
    w'.calls = w.calls ++ x.toList.flatMap Exchange.calls := by
  cases h with
  | work hp =>
    rw [calls_goTo, (perform_apart w _).calls]
    simp
  | setPrompt hp => simp [Exchange.calls, World.calls, goTo]
  | call | fanOut => simp [Exchange.calls]
  | _ => simp [Exchange.calls, endCancelled]

/-- The calls that a world has seen are those of the dialogue. -/
theorem take_calls {w w' : World} {c : Choice} (hloop : c ≠ .loop)
    (h : w.take c = some w') :
    w'.calls = w.calls ++ (w.exchange? c).toList.flatMap Exchange.calls := by
  rcases take_move hloop h with hmove | ⟨-, hnone, hapart⟩
  · exact hmove.calls
  · simp [hnone, hapart.calls]

/-- All calls that are made along a schedule are in the dialogue of the run. -/
theorem follow_calls {cs : List Choice} {w w' : World} (hloop : .loop ∉ cs)
    (h : w.follow cs = some w') :
    w'.calls = w.calls ++ (w.exchanges cs).flatMap Exchange.calls := by
  induction cs generalizing w with
  | nil =>
    obtain rfl := Option.some.inj h
    simp [exchanges]
  | cons c rest ih =>
    obtain ⟨w₁, htake, hrest⟩ := follow_cons h
    rw [List.mem_cons, not_or] at hloop
    rw [ih hloop.2 hrest, take_calls (Ne.symm hloop.1) htake]
    rw [exchanges_cons htake, List.flatMap_append, List.append_assoc]

/-- A schedule that leaves a world uncancelled has been through uncancelled worlds only. -/
theorem follow_live {cs : List Choice} {w w' : World} (hloop : .loop ∉ cs)
    (h : w.follow cs = some w') (hlive : w'.isCancelled = false) : w.isCancelled = false :=
  Bool.eq_false_iff.mpr fun hc => by simp [follow_isCancelled hloop h hc] at hlive

/-- What the run in progress does of itself, in a world that is not cancelled, is a part
of a dialogue that its tree plays. -/
lemma RunMove.plays {w w' : World} {c : Choice} {x : Option Exchange} (h : RunMove w c x w')
    (hlive : w'.isCancelled = false) {t : List Exchange} {r : Except WorkflowError Outcome}
    (ht : w'.progress.Plays t r) : w.progress.Plays (x.toList ++ t) r := by
  cases h with
  -- These leave the world cancelled.
  | refuse hp hc | abandon hp hc | leave hp hc =>
    exact absurd (hc.symm.trans hlive) (by simp)
  | finish hp => cases ht; rw [hp]; exact .acting (.finish _)
  | enter hp => cases ht with | acting ht => rw [hp]; exact .acting (.enter ht)
  | log hp => cases ht with | acting ht => rw [hp]; exact .acting (.log ht)
  | setPrompt hp => cases ht with | acting ht => rw [hp]; exact .acting (.setPrompt ht)
  | readStore hp => cases ht with | acting ht => rw [hp]; exact .acting (.readStore _ ht)
  | call hp => cases ht with | calling a hg ht => rw [hp]; exact .acting (.call a hg ht)
  | fanOut hp => cases ht with | joining a ht => rw [hp]; exact .acting (.fanOut a ht)
  | work hp =>
    cases ht with | calling a hg ht => rw [hp]; exact .calling a (perform_endsIn w hg) ht
  | wake hp => cases ht with | calling a hg ht => rw [hp]; exact .calling a hg ht
  | exit hp => cases ht with | calling a hg ht => rw [hp]; exact .calling a hg ht
  | answer hp => cases ht with | acting ht => rw [hp]; exact .calling _ rfl ht
  | crash hp => cases ht
  | gather hp => cases ht with | acting ht => rw [hp]; exact .joining _ ht
  | park hp => cases ht with | joining a ht => rw [hp]; exact .joining a ht
  | collect hp => cases ht with | joining a ht => rw [hp]; exact .joining a ht
  | failure hp => cases ht with | acting ht => rw [hp]; exact .joining _ ht

/-- What a run has said and heard when it ends uncancelled is a dialogue that its
tree plays. -/
theorem follow_plays {cs : List Choice} {w w' : World} {r : Except WorkflowError Outcome}
    (hloop : .loop ∉ cs) (h : w.follow cs = some w') (hlive : w'.isCancelled = false)
    (hend : w'.progress = .ended r) : w.progress.Plays (w.exchanges cs) r := by
  -- The dialogue is put together from its end, since what is left of the tree is known
  -- only there.
  induction cs generalizing w with
  | nil =>
    obtain rfl := Option.some.inj h
    rw [hend]
    exact .ended r
  | cons c rest ih =>
    obtain ⟨w₁, htake, hrest⟩ := follow_cons h
    rw [List.mem_cons, not_or] at hloop
    have hlive₁ : w₁.isCancelled = false := follow_live hloop.2 hrest hlive
    have hplays := ih hloop.2 hrest
    rw [exchanges_cons htake]
    rcases take_move (Ne.symm hloop.1) htake with hmove | ⟨-, hnone, hapart⟩
    · exact hmove.plays hlive₁ hplays
    · rw [hnone, ← hapart.progress]
      exact hplays

end World
end Workplan
