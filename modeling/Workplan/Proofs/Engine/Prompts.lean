import Mathlib.Tactic.Lemma
import Workplan.Proofs.Engine.Iterations
import Workplan.Proofs.Engine.Ledgers

/-!
# The prompt over a whole life

The prompt of a workflow lasts from one run to the next.  Over a life (`History.live`) two
records are kept of it: the prompt steps that runs have begun, and the prompt steps that
they have dispatched.  The two agree, except that a step which has just been begun may
still have its dispatch ahead of it (`Progress.promptAhead?`).

The shape of the tree carries this (`Run.Prompts`): a step is begun right after the one
with the number before it, a prompt step is dispatched as soon as it is begun, and nothing
else sets the prompt.  The invariant of a life is `Prompted`; every choice keeps it
(`Prompted.take`), and so does everything that happens (`History.next_prompted`).
-/

namespace Workplan

/-! ## Prompt steps -/

/-- The text of a prompt action. -/
def Action.text? : Action → Option String
  | prompt text => some text
  | _ => none

/-- The text of the prompt step with a number, if there is such a step and it is a
prompt step. -/
def Step.promptText? (steps : List Step) : (number : Nat) → Option String
  | 0 => none
  | n + 1 => steps[n]?.bind fun s => s.action.text?

/-- The text that a run is about to set as the prompt: apart from reports, that is what
it does next. -/
def Run.promptAhead? : Run → Option String
  | log _ rest => rest.promptAhead?
  | setPrompt text _ => some text
  | _ => none

/-- A run that is in a step begins the next one and no other, has a dispatch ahead of it
only when it has just begun a prompt step, and then the dispatch of that step. -/
def Run.Prompts (steps : List Step) : Nat → Run → Prop
  | _, finish _ => True
  | n, enter m rest =>
    m = n + 1 ∧ rest.promptAhead? = Step.promptText? steps m ∧ rest.Prompts steps m
  | n, log _ rest => rest.Prompts steps n
  | n, setPrompt _ rest => rest.promptAhead? = none ∧ rest.Prompts steps n
  | n, readStore rest =>
    ∀ store, (rest store).promptAhead? = none ∧ (rest store).Prompts steps n
  | n, call _ _ rest =>
    ∀ answer, (rest answer).promptAhead? = none ∧ (rest answer).Prompts steps n
  | n, fanOut _ rest =>
    ∀ answer, (rest answer).promptAhead? = none ∧ (rest answer).Prompts steps n

/-- A run that is in a step and has no dispatch ahead of it. -/
def Run.Calm (steps : List Step) (n : Nat) (run : Run) : Prop :=
  run.promptAhead? = none ∧ run.Prompts steps n

/-- To make any calls. -/
def Rule.anyCalls : Rule where
  call := fun _ _ _ => True
  fanOut := fun _ _ => True

lemma Step.obeys_anyCalls (s : Step) (number : Nat) : s.Obeys .anyCalls number where
  sequence _ _ _ _ _ := trivial
  parallel _ _ _ := trivial
  iterate _ _ _ _ := trivial
  onSuccess _ _ _ := trivial
  onFail _ _ _ := trivial

/-- To have no dispatch ahead is passed on by everything but setting the prompt. -/
lemma Rule.passes_calm (all : List Step) (n : Nat) :
    Rule.anyCalls.Passes n (Run.Calm all n) where
  log h := h
  readStore h := ⟨rfl, h⟩
  call _ h := ⟨rfl, h⟩
  fanOut _ h := ⟨rfl, h⟩

/-- The action of a prompt step sets the prompt at once, and no other action does. -/
lemma Step.prompts_run {all : List Step} {n : Nat} {k : Except WorkflowError Json → Run}
    (number : Nat) (s : Step) (input : Json) (hk : ∀ o, (k o).Calm all n) :
    (s.run number input k).promptAhead? = s.action.text? ∧
      (s.run number input k).Prompts all n := by
  have hpasses := Rule.passes_calm all n
  have hobeys := s.obeys_anyCalls n
  cases haction : s.action with
  | prompt text =>
    rw [Step.run, Step.dispatch, haction]
    exact ⟨rfl, hpasses.handle number hobeys hk (.ok (.str text))⟩
  | _ =>
    exact hpasses.run hobeys
      (fun text _ htext => by rw [haction] at htext; cases htext) hk

/-- The steps that are left after `n` of them begin with the one that has the
next number. -/
lemma Run.calm_steps {all rest : List Step} {total n : Nat} {current : Json}
    (hrest : all.drop n = rest) :
    (Run.steps total (n + 1) rest current).Calm all n := by
  induction rest generalizing n current with
  | nil => exact ⟨rfl, fun _ => ⟨rfl, trivial⟩⟩
  | cons s rest ih =>
    have hs : all[n]? = some s := by
      rw [← List.head?_drop, hrest]
      rfl
    have hdrop : all.drop (n + 1) = rest := by
      rw [← List.tail_drop, hrest]
      rfl
    -- What comes behind the step is calm, since the other steps are and an end is.
    have hk : ∀ o, (Run.after total (n + 1) rest o).Calm all (n + 1) := by
      intro o
      cases o with
      | ok v => exact ih hdrop
      | error error => exact ⟨rfl, trivial⟩
    obtain ⟨hahead, hrun⟩ := Step.prompts_run (n + 1) s current hk
    refine ⟨rfl, rfl, ?_, hrun⟩
    rw [Step.promptText?, hs]
    exact hahead

/-- A run sets the prompt only where a prompt step does. -/
lemma Workflow.nextRun_calm (f : Workflow) : f.nextRun.Calm f.steps 0 := by
  unfold Workflow.nextRun
  cases hsteps : f.steps with
  | nil => exact ⟨rfl, fun _ => ⟨rfl, trivial⟩⟩
  | cons s rest => exact Run.calm_steps rfl

/-! ## Runs without steps -/

/-- A run that can only end well, without output and without a step. -/
def Run.Blank : Run → Prop
  | finish r => ∃ store, r = .ok ⟨none, store, 0⟩
  | log _ rest => rest.Blank
  | readStore rest => ∀ store, (rest store).Blank
  | enter _ _ | setPrompt _ _ | call _ _ _ | fanOut _ _ => False

/-- The run of an empty plan can only end well, without output. -/
lemma Workflow.nextRun_blank {f : Workflow} (h : f.steps = []) : f.nextRun.Blank := by
  unfold Workflow.nextRun
  rw [h]
  exact fun store => ⟨store, rfl⟩

/-! ## The run in progress -/

namespace Progress

/-- The dispatch that the run in progress has ahead of it: the number of its step,
and the text. -/
def promptAhead? : Progress → Option (Nat × String)
  | acting n run => run.promptAhead?.map fun text => (n, text)
  | _ => none

/-- A run in progress that keeps to its steps. -/
def Prompts (steps : List Step) : Progress → Prop
  | acting n run => run.Prompts steps n
  | calling n _ rest => ∀ answer, (rest answer).Calm steps n
  | joining n _ _ _ rest => ∀ answer, (rest answer).Calm steps n
  | idle | ended _ | crashed _ => True

/-- A run in progress, or one that has ended, of a workflow without steps. -/
def Blank : Progress → Prop
  | acting _ run => run.Blank
  | ended r => ∃ store, r = .ok ⟨none, store, 0⟩
  | idle | crashed _ => True
  | calling _ _ _ | joining _ _ _ _ _ => False

lemma promptAhead?_of_not_active {p : Progress} (h : p.isActive = false) :
    p.promptAhead? = none := by
  cases p with
  | acting => cases h
  | _ => rfl

end Progress

/-- The text in an exchange that sets the prompt. -/
def Exchange.text? : Exchange → Option String
  | prompted text => some text
  | _ => none

namespace World

/-- The prompt step that a choice begins: its number and its text. -/
def promptBegun? (w : World) (c : Choice) : Option (Nat × String) :=
  (w.entrance? c).bind fun n => (Step.promptText? w.workflow.steps n).map fun text =>
    (n, text)

/-- The prompt step that a choice dispatches: its number and its text. -/
def promptDispatched? (w : World) (c : Choice) : Option (Nat × String) :=
  ((w.exchange? c).bind Exchange.text?).map fun text => (w.progress.step, text)

section

variable {w w' : World} {c : Choice} {x : Option Exchange}

/-- A choice that is not a move of the run begins no step. -/
lemma entrance?_of_ne_run (hc : c ≠ .run) : w.entrance? c = none := by
  cases c with
  | run => exact absurd rfl hc
  | _ => rfl

/-- What a move of the run does about the prompt.  What had been begun and not dispatched,
together with what is begun now, is what is dispatched now, together with what is then
left to dispatch; and the prompt changes only by a dispatch. -/
lemma RunMove.prompts (h : RunMove w c x w') (hw : w.progress.Prompts w.workflow.steps) :
    w'.workflow.prompt = (x.bind Exchange.text?).or w.workflow.prompt ∧
    w.progress.promptAhead?.toList ++ (w.promptBegun? c).toList =
      ((x.bind Exchange.text?).map fun text => (w.progress.step, text)).toList ++
        w'.progress.promptAhead?.toList ∧
    w'.progress.Prompts w.workflow.steps := by
  -- A move that begins and dispatches nothing, where nothing was and nothing is ahead.
  have hquiet : w.entrance? c = none → w.progress.promptAhead? = none →
      w'.progress.promptAhead? = none →
      w.progress.promptAhead?.toList ++ (w.promptBegun? c).toList = [] ++
        w'.progress.promptAhead?.toList := by
    intro hc hw hw'
    rw [promptBegun?, hc, hw, hw']
    rfl
  have hcalm : ∀ n run, Run.Calm w.workflow.steps n run →
      (Progress.acting n run).promptAhead? = none := by
    intro n run hrun
    rw [Progress.promptAhead?, hrun.1]
    rfl
  cases h with
  | finish hp =>
    exact ⟨rfl, hquiet (by simp [entrance?, hp]) (by rw [hp]; rfl) rfl, trivial⟩
  | @enter step m rest hp hlive =>
    rw [hp] at hw
    obtain ⟨-, hahead, hrest⟩ := hw
    refine ⟨rfl, ?_, hrest⟩
    have hbegun : w.promptBegun? .run = (Progress.acting m rest).promptAhead? := by
      rw [Progress.promptAhead?, hahead]
      simp [promptBegun?, entrance?, hp, hlive]
    rw [hbegun, hp]
    rfl
  | refuse hp hc =>
    exact ⟨rfl, hquiet (by simp [entrance?, hp, hc]) (by rw [hp]; rfl) rfl, trivial⟩
  | log hp =>
    rw [hp] at hw
    refine ⟨rfl, ?_, hw⟩
    rw [promptBegun?, show w.entrance? .run = none by simp [entrance?, hp], hp]
    exact List.append_nil _
  | setPrompt hp =>
    rw [hp] at hw
    obtain ⟨hahead, hrest⟩ := hw
    refine ⟨rfl, ?_, hrest⟩
    rw [promptBegun?, show w.entrance? .run = none by simp [entrance?, hp], hp]
    simp [Progress.promptAhead?, Run.promptAhead?, goTo, hahead, Exchange.text?,
      Progress.step]
  | readStore hp =>
    rw [hp] at hw
    exact ⟨rfl, hquiet (by simp [entrance?, hp]) (by rw [hp]; rfl) (hcalm _ _ (hw _)),
      (hw _).2⟩
  | call hp | fanOut hp =>
    rw [hp] at hw
    exact ⟨rfl, hquiet (by simp [entrance?, hp]) (by rw [hp]; rfl) rfl, hw⟩
  | @work step task rest hp =>
    rw [hp] at hw
    have hsame : (w.perform task).2.workflow.prompt = w.workflow.prompt := by
      rw [(perform_apart w task).workflow]
    exact ⟨hsame, hquiet (by simp [entrance?, hp]) (by rw [hp]; rfl) rfl, hw⟩
  | wake hp | exit hp | park hp | collect hp =>
    rw [hp] at hw
    exact ⟨rfl, hquiet (by simp [entrance?, hp]) (by rw [hp]; rfl) rfl, hw⟩
  | abandon hp | crash hp =>
    exact ⟨rfl, hquiet (by simp [entrance?, hp]) (by rw [hp]; rfl) rfl, trivial⟩
  | leave hp =>
    have hnone : w.entrance? c = none := by
      cases c with
      | run => simp [entrance?, hp]
      | _ => rfl
    exact ⟨rfl, hquiet hnone (by rw [hp]; rfl) rfl, trivial⟩
  | answer hp | gather hp =>
    rw [hp] at hw
    exact ⟨rfl, hquiet (by simp [entrance?, hp]) (by rw [hp]; rfl) (hcalm _ _ (hw _)),
      (hw _).2⟩
  | failure hp =>
    rw [hp] at hw
    exact ⟨rfl, hquiet rfl (by rw [hp]; rfl) (hcalm _ _ (hw _)), (hw _).2⟩

/-- A step is begun where a run that acts is about to enter it. -/
lemma of_entrance? {n : Nat} (h : w.entrance? c = some n) :
    ∃ step rest, w.progress = .acting step (.enter n rest) := by
  unfold entrance? at h
  split at h
  · split at h
    · next step m rest hp =>
      split at h
      · cases h
      · obtain rfl := Option.some.inj h
        exact ⟨step, rest, hp⟩
    · cases h
  · cases h

/-- A prompt step that is begun is the one with its number. -/
lemma of_promptBegun? {d : Nat × String} (h : w.promptBegun? c = some d) :
    Step.promptText? w.workflow.steps d.1 = some d.2 := by
  obtain ⟨n, -, htext⟩ := Option.bind_eq_some_iff.mp h
  obtain ⟨text, hstep, rfl⟩ := Option.map_eq_some_iff.mp htext
  exact hstep

/-- Only a run that is about to set the prompt does so. -/
lemma of_exchange?_prompted {text : String} (h : w.exchange? c = some (.prompted text)) :
    ∃ step rest, c = .run ∧ w.progress = .acting step (.setPrompt text rest) := by
  unfold exchange? at h
  split at h
  · split at h
    · next step text' rest hp =>
      obtain rfl := Exchange.prompted.inj (Option.some.inj h)
      exact ⟨step, rest, rfl, hp⟩
    · cases h
    · cases h
    · cases h
    · cases h
    · next first results rest hp =>
      obtain ⟨values, -, hvalues⟩ := Option.map_eq_some_iff.mp h
      cases hvalues
    · cases h
  · split at h
    · split at h
      · cases h
      · split at h <;> cases h
    · cases h
  · cases h

/-- A prompt step is dispatched where the run is about to set the prompt, in that step. -/
lemma of_promptDispatched? {d : Nat × String} (h : w.promptDispatched? c = some d) :
    ∃ rest, c = .run ∧ w.progress = .acting d.1 (.setPrompt d.2 rest) := by
  obtain ⟨text, htext, rfl⟩ := Option.map_eq_some_iff.mp h
  obtain ⟨x, hx, htext⟩ := Option.bind_eq_some_iff.mp htext
  cases x with
  | prompted text' =>
    obtain rfl : text' = text := Option.some.inj htext
    obtain ⟨step, rest, rfl, hp⟩ := of_exchange?_prompted hx
    exact ⟨rest, rfl, by rw [hp]; rfl⟩
  | looked | asked | answered | spawned | gathered => cases htext

/-- A run of a workflow without steps only reports, looks at the store and ends. -/
lemma RunMove.blank (h : RunMove w c x w') (hw : w.progress.Blank) : w'.progress.Blank := by
  cases h with
  | finish hp | log hp => rw [hp] at hw; exact hw
  | readStore hp => rw [hp] at hw; exact hw _
  | enter hp | refuse hp | setPrompt hp | call hp | fanOut hp | work hp | wake hp
  | abandon hp | exit hp
  | answer hp | crash hp | gather hp | park hp | leave hp | collect hp | failure hp =>
    rw [hp] at hw
    exact hw.elim

/-- It comes to its end in three actions. -/
lemma follow_blank (hnil : w.workflow.steps = []) :
    ∃ w', w.begin.follow [.run, .run, .run] = some w' ∧
      w'.progress = .ended (.ok ⟨none, w.workflow.store, 0⟩) ∧
      w'.workflow = w.workflow := by
  have hrun : w.workflow.nextRun =
      .log .emptyPlan (.readStore fun store => .finish (.ok ⟨none, store, 0⟩)) := by
    rw [Workflow.nextRun, hnil]
  rw [begin, hrun]
  exact ⟨_, rfl, rfl, rfl⟩

/-- A run with steps that has begun none of them is still at its very beginning. -/
lemma RunMove.start (h : RunMove w c x w') (hne : w.workflow.steps ≠ [])
    (hw : w.progress.Prompts w.workflow.steps)
    (hstart : w.progress.isActive = true → w.progress.step = 0 →
      w.progress = .acting 0 w.workflow.nextRun)
    (hactive : w'.progress.isActive = true) : w'.progress.step ≠ 0 := by
  -- At the number zero the run has nothing to do but to enter its first step.
  have hbegin : w.progress.step = 0 → ∃ rest, w.progress = .acting 0 (.enter 1 rest) := by
    intro hstep
    rw [hstart h.isActive hstep, nextRun_of_steps hne]
    cases hsteps : w.workflow.steps with
    | nil => exact absurd hsteps hne
    | cons s rest => exact ⟨_, rfl⟩
  cases h with
  | @enter step m rest hp =>
    rw [hp] at hw
    obtain ⟨rfl, -⟩ := hw
    exact Nat.succ_ne_zero step
  | finish | refuse | abandon | leave | crash => cases hactive
  | log hp | setPrompt hp | readStore hp | call hp | fanOut hp | work hp | wake hp
  | exit hp | answer hp
  | gather hp | park hp | collect hp | failure hp =>
    intro hstep
    obtain ⟨rest, hbegin⟩ := hbegin (by rw [hp]; exact hstep)
    rw [hp] at hbegin
    cases hbegin

end

end World

/-! ## The invariant of a life -/

/-- What holds of a world at every moment of the life of a workflow that was `f` at the
beginning, given the prompt steps that have been dispatched and begun so far. -/
structure Prompted (f : Workflow) (dispatched begun : List (Nat × String)) (w : World) :
    Prop where
  steps : w.workflow.steps = f.steps
  prompt : w.workflow.prompt = (dispatched.getLast?.map (·.2)).or f.prompt
  records : begun = dispatched ++ w.progress.promptAhead?.toList
  known : ∀ d ∈ begun, Step.promptText? f.steps d.1 = some d.2
  place : w.progress.Prompts f.steps
  start : f.steps ≠ [] → w.progress.isActive = true → w.progress.step = 0 →
    w.progress = .acting 0 w.workflow.nextRun
  blank : f.steps = [] → w.progress.Blank

namespace Prompted

variable {f : Workflow} {dispatched begun : List (Nat × String)} {w w' : World} {c : Choice}

lemma new (hidle : w.progress = .idle) : Prompted w.workflow [] [] w where
  steps := rfl
  prompt := rfl
  records := by rw [hidle]; rfl
  known := by simp
  place := by rw [hidle]; trivial
  start := fun _ hactive => by rw [hidle] at hactive; cases hactive
  blank := fun _ => by rw [hidle]; trivial

/-- A move of the run is entered in both records. -/
lemma runMove (h : Prompted f dispatched begun w) (hmove : w.RunMove c (w.exchange? c) w') :
    Prompted f (dispatched ++ (w.promptDispatched? c).toList)
      (begun ++ (w.promptBegun? c).toList) w' := by
  have hplace : w.progress.Prompts w.workflow.steps := h.steps ▸ h.place
  have hsteps : w'.workflow.steps = w.workflow.steps := hmove.setup.steps
  obtain ⟨hprompt, hrecords, hplace'⟩ := hmove.prompts hplace
  refine ⟨hsteps.trans h.steps, ?_, ?_, ?_, h.steps ▸ hplace',
    fun hne hactive hstep => ?_, fun hnil =>
    hmove.blank (h.blank hnil)⟩
  · rw [hprompt, h.prompt]
    unfold World.promptDispatched?
    cases (w.exchange? c).bind Exchange.text? with
    | none => simp
    | some text => simp
  -- What was ahead and what begins is what is dispatched and what is ahead then.
  · rw [h.records, List.append_assoc, hrecords]
    exact (List.append_assoc _ _ _).symm
  · intro d hd
    rcases List.mem_append.mp hd with hd | hd
    · exact h.known d hd
    · rw [← h.steps]
      exact World.of_promptBegun? (Option.mem_toList.mp hd)
  · exact absurd hstep (hmove.start (h.steps ▸ hne) hplace (h.start hne) hactive)

/-- What leaves the run where it is, and the steps and the prompt as they are,
changes nothing. -/
lemma same (h : Prompted f dispatched begun w) (hprogress : w'.progress = w.progress)
    (hworkflow : w'.workflow = { w.workflow with store := w'.workflow.store }) :
    Prompted f dispatched begun w' where
  steps := by rw [hworkflow]; exact h.steps
  prompt := by rw [hworkflow]; exact h.prompt
  records := by rw [hprogress]; exact h.records
  known := h.known
  place := by rw [hprogress]; exact h.place
  start := by
    have hrun : w'.workflow.nextRun = w.workflow.nextRun := by
      rw [hworkflow]
      rfl
    rw [hprogress, hrun]
    exact h.start
  blank := by rw [hprogress]; exact h.blank

/-- A run begins with nothing ahead of it. -/
lemma begins (h : Prompted f dispatched begun w) (hidle : w.progress.isActive = false)
    (hbegun : w'.progress = .acting 0 w.workflow.nextRun)
    (hworkflow : w'.workflow = w.workflow) :
    Prompted f dispatched begun w' where
  steps := by rw [hworkflow]; exact h.steps
  prompt := by rw [hworkflow]; exact h.prompt
  records := by
    have hahead : w'.progress.promptAhead? = none := by
      rw [hbegun, Progress.promptAhead?, w.workflow.nextRun_calm.1]
      rfl
    rw [h.records, hahead, Progress.promptAhead?_of_not_active hidle]
  known := h.known
  place := by
    rw [hbegun, ← h.steps]
    exact w.workflow.nextRun_calm.2
  start := fun _ _ _ => by rw [hbegun, hworkflow]
  blank := by
    intro hnil
    rw [hbegun]
    exact Workflow.nextRun_blank (h.steps.trans hnil)

/-- Every choice is entered in both records. -/
theorem take (h : Prompted f dispatched begun w) (hwaits : w.LoopWaits)
    (htake : w.take c = some w') :
    Prompted f (dispatched ++ (w.promptDispatched? c).toList)
      (begun ++ (w.promptBegun? c).toList) w' := by
  -- A choice that is no move of the run adds to neither record.
  have haside : c ≠ .run → w.exchange? c = none → Prompted f dispatched begun w' →
      Prompted f (dispatched ++ (w.promptDispatched? c).toList)
        (begun ++ (w.promptBegun? c).toList) w' := by
    intro hrun hx hw'
    rw [World.promptDispatched?, World.promptBegun?, hx, World.entrance?_of_ne_run hrun]
    simpa using hw'
  by_cases hloop : c = .loop
  · subst hloop
    obtain ⟨l, hl, hmove⟩ := World.take_loop htake
    have hworkflow : w'.workflow = w.workflow := hmove.aside.workflow
    refine haside (by simp) rfl ?_
    rcases hmove.begins hl hwaits with hsame | ⟨hidle, hbegun⟩
    · exact h.same hsame (by rw [hworkflow])
    · exact h.begins hidle hbegun hworkflow
  · rcases World.take_move hloop htake with hmove | ⟨hout, hx, hapart⟩
    · exact h.runMove hmove
    · have hrun : c ≠ .run := by
        rintro rfl
        cases hout
      exact haside hrun hx (h.same hapart.progress hapart.workflow)

end Prompted

/-! ## Lives -/

/-- What is noted of something that happens: of a choice what is said of it, and of all
else nothing. -/
def Happening.noted {α : Type} (note : World → Choice → Option α) (w : World) :
    Happening → Option α
  | .choose c => note w c
  | run _ | startLoop _ | endLoop => none

namespace History

/-- What the happenings of a life add to a record, each in the world in which it happens. -/
def record {α : Type} (note : World → Choice → Option α) (H : History) :
    List Happening → List α
  | [] => []
  | h :: rest =>
    (h.noted note H.world).toList ++ (H.next h).elim [] fun H' => H'.record note rest

/-- The prompt steps that are dispatched in a life, the earliest first: number and
text of each. -/
def prompts (H : History) (hs : List Happening) : List (Nat × String) :=
  H.record World.promptDispatched? hs

/-- The prompt steps that are begun in a life, the earliest first: number and text of
each. -/
def promptsBegun (H : History) (hs : List Happening) : List (Nat × String) :=
  H.record World.promptBegun? hs

section

variable {f : Workflow} {dispatched begun : List (Nat × String)} {H H' : History}

lemma of_noted_promptDispatched? {h : Happening} {d : Nat × String}
    (hnoted : h.noted World.promptDispatched? H.world = some d) :
    ∃ rest, h = .choose .run ∧ H.world.progress = .acting d.1 (.setPrompt d.2 rest) := by
  cases h with
  | choose c =>
    obtain ⟨rest, rfl, hp⟩ := World.of_promptDispatched? hnoted
    exact ⟨rest, rfl, hp⟩
  | run | startLoop | endLoop => cases hnoted

/-- Whatever happens is entered in both records. -/
theorem next_prompted {h : Happening} (hnext : H.next h = some H')
    (hbooks : Books H.ledger H.world) (hw : Prompted f dispatched begun H.world) :
    Prompted f (dispatched ++ (h.noted World.promptDispatched? H.world).toList)
      (begun ++ (h.noted World.promptBegun? H.world).toList) H'.world := by
  cases h with
  | choose c =>
    obtain ⟨w, htake, rfl⟩ := next_choose hnext
    exact hw.take hbooks.waits htake
  | run token =>
    obtain ⟨hrests, -, rfl⟩ := next_run hnext
    have hw' : Prompted f dispatched begun ({ H.world with token } : World).begin :=
      hw.begins hrests rfl rfl
    simpa [Happening.noted] using hw'
  | startLoop pause =>
    obtain ⟨-, -, rfl⟩ := next_startLoop hnext
    have hw' : Prompted f dispatched begun (H.world.startLoop pause) := hw.same rfl rfl
    simpa [Happening.noted] using hw'
  | endLoop =>
    obtain ⟨-, rfl⟩ := next_endLoop hnext
    have hw' : Prompted f dispatched begun ({ H.world with loop := none } : World) :=
      hw.same rfl rfl
    simpa [Happening.noted] using hw'

/-- The prompt is the last one dispatched, at every moment of a life. -/
lemma live_prompted {hs : List Happening} (hlive : H.live hs = some H')
    (hbooks : Books H.ledger H.world) (hw : Prompted f dispatched begun H.world) :
    Prompted f (dispatched ++ H.prompts hs) (begun ++ H.promptsBegun hs) H'.world := by
  induction hs generalizing H dispatched begun with
  | nil =>
    obtain rfl := Option.some.inj hlive
    simpa [prompts, promptsBegun, record] using hw
  | cons h rest ih =>
    obtain ⟨H₁, hnext, hrest⟩ := live_cons hlive
    have hw' := ih hrest (next_books hnext hbooks) (next_prompted hnext hbooks hw)
    simpa [prompts, promptsBegun, record, hnext, List.append_assoc] using hw'

end

/-- The prompt, at every moment of every life of a workflow, through all its runs,
however they end.

It is the text of the prompt step that was dispatched last, or what it was at the
beginning.  The dispatched prompt steps are those that runs have begun, in the same order,
but for one that the run in progress has just begun and is about to dispatch.  Nothing
else changes the prompt: no executor and no handler, no started call, no failure and no
cancellation.  A run that has begun no step is the run of all steps on the prompt as it is
then, as a text or as null; the first step is begun from there only.  Without steps the
prompt stays what it was, and a run comes to its end, with no output. -/
theorem prompt_in_life {w : World} {hs : List Happening} {H : History} (hjobs : w.jobs = [])
    (hidle : w.progress = .idle) (hlive : (⟨w, {}⟩ : History).live hs = some H) :
    H.world.workflow.prompt =
      (((⟨w, {}⟩ : History).prompts hs).getLast?.map (·.2)).or w.workflow.prompt ∧
    (⟨w, {}⟩ : History).promptsBegun hs =
      (⟨w, {}⟩ : History).prompts hs ++ H.world.progress.promptAhead?.toList ∧
    (∀ d ∈ (⟨w, {}⟩ : History).promptsBegun hs,
      Step.promptText? w.workflow.steps d.1 = some d.2) ∧
    (∀ h H', H.next h = some H' →
      h.noted World.promptDispatched? H.world = none ∧
        H'.world.workflow.prompt = H.world.workflow.prompt ∨
      ∃ n text rest, h = .choose .run ∧
        H.world.progress = .acting n (.setPrompt text rest) ∧
        h.noted World.promptDispatched? H.world = some (n, text) ∧
        H'.world.workflow.prompt = some text) ∧
    (w.workflow.steps ≠ [] →
      (∀ run, H.world.progress = .acting 0 run →
        run = Run.steps w.workflow.steps.length 1 w.workflow.steps
          (H.world.workflow.prompt.elim .null .str)) ∧
      ∀ c, H.world.entrance? c = some 1 → ∃ run, H.world.progress = .acting 0 run) ∧
    (w.workflow.steps = [] →
      H.world.workflow.prompt = w.workflow.prompt ∧
      (∀ r, H.world.progress = .ended r → ∃ store, r = .ok ⟨none, store, 0⟩) ∧
      ∀ token, ∃ w', ({ H.world with token } : World).begin.follow
        [.run, .run, .run] = some w' ∧
        w'.progress = .ended (.ok ⟨none, H.world.workflow.store, 0⟩) ∧
        w'.workflow = H.world.workflow) := by
  have hbooks : Books H.ledger H.world := live_books hlive (Books.new hjobs hidle)
  have hw : Prompted w.workflow _ _ H.world :=
    live_prompted hlive (Books.new hjobs hidle) (Prompted.new hidle)
  refine ⟨hw.prompt, hw.records, hw.known, fun h H' hnext => ?_,
    fun hne => ⟨fun run hrun => ?_, fun c hc => ?_⟩,
    fun hnil => ⟨?_, fun r hr => ?_, fun token => ?_⟩⟩
  -- The invariant holds behind what happens next, so that it tells what became of
  -- the prompt.
  · have hprompt := (next_prompted hnext hbooks hw).prompt
    cases hnoted : h.noted World.promptDispatched? H.world with
    | none =>
      rw [hnoted, Option.toList_none, List.append_nil, ← hw.prompt] at hprompt
      exact .inl ⟨rfl, hprompt⟩
    | some d =>
      obtain ⟨rest, rfl, hp⟩ := of_noted_promptDispatched? hnoted
      rw [hnoted, Option.toList_some, List.getLast?_concat] at hprompt
      exact .inr ⟨d.1, d.2, rest, rfl, hp, rfl, hprompt⟩
  · have hstart := hw.start hne (by rw [hrun]; rfl) (by rw [hrun]; rfl)
    rw [hrun] at hstart
    obtain ⟨-, rfl⟩ := Progress.acting.inj hstart
    rw [World.nextRun_of_steps (by rw [hw.steps]; exact hne), hw.steps]
  · obtain ⟨n, rest, hp⟩ := World.of_entrance? hc
    have hplace := hw.place
    rw [hp] at hplace
    -- A run enters its steps in their order, so that it enters the first one from none.
    obtain rfl : n = 0 := by
      have hnext : 1 = n + 1 := hplace.1
      omega
    exact ⟨_, hp⟩
  · -- No dispatch is of a step of the workflow, since it has none.
    have hnone : ∀ d, d ∉ (⟨w, {}⟩ : History).prompts hs := by
      intro d hd
      have htext := hw.known d (by rw [hw.records]; exact List.mem_append_left _ hd)
      rw [hnil] at htext
      cases hn : d.1 <;> rw [hn] at htext <;> cases htext
    rw [hw.prompt, List.nil_append, List.eq_nil_iff_forall_not_mem.mpr hnone]
    rfl
  · have hblank := hw.blank hnil
    rw [hr] at hblank
    exact hblank
  · exact World.follow_blank (w := { H.world with token }) (hw.steps.trans hnil)

/-- A workflow whose prompt step has a success handler that fails and a failure handler;
the next step fails. -/
def restatingWorld : World where
  host := fun _ _ => .refused "no program"
  workflow :=
    { name := "restating", prompt := some "old"
      steps := [
        { action := .prompt "new", description := "restate"
          onSuccess := some ((ExecutorSpec.fail "no").toExecutor 0)
          onFail := some (ExecutorSpec.echo.toExecutor 1) },
        { action := .sequence [(ExecutorSpec.fail "stop").toExecutor 2],
          description := "stop" }] }

/-- The first run fails, the second one is cancelled before its first step, and a third
one begins. -/
def restatingLife : List Happening :=
  .run .absent :: List.replicate 19 (.choose .run) ++ [.run .live, .choose .cancel,
    .choose .run, .run .absent]

theorem prompt_in_life_restated :
    ∃ H run, (⟨restatingWorld, {}⟩ : History).live restatingLife = some H ∧
      H.world.progress = .acting 0 run ∧
      run = Run.steps 2 1 restatingWorld.workflow.steps (.str "new") := by
  obtain ⟨H, run, hlive, hrun, hprompt⟩ : ∃ H run,
      (⟨restatingWorld, {}⟩ : History).live restatingLife = some H ∧
        H.world.progress = .acting 0 run ∧ H.world.workflow.prompt = some "new" :=
    ⟨_, _, rfl, rfl, rfl⟩
  obtain ⟨-, -, -, -, hbegins, -⟩ := prompt_in_life (w := restatingWorld) rfl rfl hlive
  have hsteps := (hbegins (by simp [restatingWorld])).1 run hrun
  rw [hprompt] at hsteps
  exact ⟨H, run, hlive, hrun, hsteps⟩

end History
end Workplan
