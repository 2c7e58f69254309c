import Mathlib.Tactic.Lemma
import Workplan.Proofs.Engine.Dialogue

/-!
# Rules for runs

A *rule* says which executors a run may call itself and which calls it may start at once,
each with the number of the step in which it does so.  A run obeys a rule if it does so
whatever it is answered (`Run.Obeys`), and the run of a workflow obeys every rule that its
steps obey (`Workflow.nextRun_obeys`).  Facts about all that a run can do in the world
follow: the run in progress goes on obeying (`RunMove.obeys`).

A step is gone through once, for every property that a run has if what comes behind its
first action has it (`Rule.Passes`); to obey is one such property, and other modules
bring their own.

Obeying includes one thing that no rule need say: a run that ends well has just looked at
the store, and hands out what it saw.
-/

namespace Workplan

/-- What a run may do in a step, given by the number of the step. -/
structure Rule where
  /-- The calls that a run may wait for. -/
  call : Nat → Executor → Json → Prop
  /-- The calls that a run may start at once. -/
  fanOut : Nat → List (Executor × Json) → Prop

/-- A run that is in a step obeys a rule.  `seen` is what it has seen of the store, if it
looked just before. -/
def Run.Obeys (R : Rule) : Nat → Option Store → Run → Prop
  | _, seen, finish result => ∀ outcome, result = .ok outcome → seen = some outcome.store
  | _, _, enter step rest => rest.Obeys R step none
  | step, _, log _ rest | step, _, setPrompt _ rest => rest.Obeys R step none
  | step, _, readStore rest => ∀ store, (rest store).Obeys R step (some store)
  | step, _, call e input rest =>
    R.call step e input ∧ ∀ answer, (rest answer).Obeys R step none
  | step, _, fanOut calls rest =>
    R.fanOut step calls ∧ ∀ answer, (rest answer).Obeys R step none

/-- A step with a number obeys a rule, on every input. -/
structure Step.Obeys (R : Rule) (number : Nat) (s : Step) : Prop where
  sequence : ∀ executors, s.action = .sequence executors →
    ∀ e ∈ executors, ∀ input, R.call number e input
  parallel : ∀ executors, s.action = .parallel executors →
    ∀ input, R.fanOut number (executors.map fun e => (e, input))
  iterate : ∀ source agent, s.action = .iterate source agent →
    ∀ items : List Json, R.fanOut number (items.map fun item => (agent, item))
  onSuccess : ∀ e, s.onSuccess = some e → ∀ input, R.call number e input
  onFail : ∀ e, s.onFail = some e → ∀ input, R.call number e input

/-! ## The parts of a step -/

/-- A property that a run has if what comes behind its first action has it, as long as
that action is no other call than a rule allows in the step. -/
structure Rule.Passes (R : Rule) (n : Nat) (P : Run → Prop) : Prop where
  log : ∀ {event rest}, P rest → P (.log event rest)
  readStore : ∀ {rest}, (∀ store, P (rest store)) → P (.readStore rest)
  call : ∀ {e input rest}, R.call n e input → (∀ answer, P (rest answer)) →
    P (.call e input rest)
  fanOut : ∀ {calls rest}, R.fanOut n calls → (∀ answer, P (rest answer)) →
    P (.fanOut calls rest)

namespace Rule.Passes

variable {R : Rule} {n number : Nat} {P : Run → Prop}
  {k : Except WorkflowError Json → Run} {s : Step} {input : Json}

/-- A property passes behind links. -/
lemma chain (h : R.Passes n P) {executors : List Executor}
    (hes : ∀ e ∈ executors, ∀ input, R.call n e input) (hk : ∀ o, P (k o)) :
    P (Run.chain k executors input) := by
  induction executors generalizing input with
  | nil => exact hk _
  | cons e rest ih =>
    rw [List.forall_mem_cons] at hes
    refine h.call (hes.1 input) fun answer => ?_
    cases answer with
    | ok v => exact ih hes.2
    | error error => exact hk _

lemma gather (h : R.Passes n P) {calls : List (Executor × Json)}
    (hcalls : R.fanOut n calls) (hk : ∀ o, P (k o)) :
    P (Run.gather calls k) := by
  refine h.fanOut hcalls fun answer => ?_
  cases answer <;> exact hk _

/-- The action of a step.  To set the prompt is left to the property itself. -/
lemma dispatch (h : R.Passes n P) (hs : s.Obeys R n)
    (hprompt : ∀ text rest, s.action = .prompt text → P rest → P (.setPrompt text rest))
    (hk : ∀ o, P (k o)) :
    P (s.dispatch input k) := by
  unfold Step.dispatch
  cases haction : s.action with
  | prompt text => exact hprompt text _ haction (hk _)
  | sequence executors => exact h.chain (hs.sequence executors haction) hk
  | parallel executors => exact h.gather (hs.parallel executors haction input) hk
  | iterate source agent =>
    have hspread : ∀ items, P (Step.spread items agent k) := fun items =>
      h.log (h.gather (hs.iterate source agent haction items) hk)
    cases source with
    | items items => exact hspread items
    | storeKey key =>
      refine h.readStore fun store => ?_
      split
      · exact hspread _
      · exact hk _
      · exact hk _

lemma recover (h : R.Passes n P) {error : WorkflowError} (hs : s.Obeys R n)
    (hk : ∀ o, P (k o)) :
    P (s.recover number k error) := by
  refine h.log ?_
  cases hfail : s.onFail with
  | none => exact hk _
  | some handler =>
    cases hab : error.isAbsorbable with
    | true => exact h.log (h.call (hs.onFail handler hfail _) fun _ => hk _)
    | false => exact hk _

lemma conclude (h : R.Passes n P) {output : Json} (hs : s.Obeys R n) (hk : ∀ o, P (k o)) :
    P (s.conclude number k output) := by
  unfold Step.conclude
  cases hsuccess : s.onSuccess with
  | none => exact hk _
  | some handler =>
    refine h.log (h.call (hs.onSuccess handler hsuccess _) fun answer => ?_)
    cases answer with
    | ok v => exact hk _
    | error error => exact h.recover hs hk

/-- What becomes of the outcome of the action. -/
theorem handle (h : R.Passes n P) (number : Nat) (hs : s.Obeys R n) (hk : ∀ o, P (k o))
    (o : Except WorkflowError Json) :
    P (match o with
      | .ok output => s.conclude number k output
      | .error error => s.recover number k error) := by
  cases o with
  | ok output => exact h.conclude hs hk
  | error error => exact h.recover hs hk

/-- So it passes behind a whole step, if it passes behind its prompt. -/
theorem run (h : R.Passes n P) (hs : s.Obeys R n)
    (hprompt : ∀ text rest, s.action = .prompt text → P rest → P (.setPrompt text rest))
    (hk : ∀ o, P (k o)) :
    P (s.run number input k) :=
  h.dispatch hs hprompt (h.handle number hs hk)

end Rule.Passes

/-- To obey the rule itself is passed on, whatever has been seen of the store. -/
lemma Rule.passes_obeys (R : Rule) (n : Nat) :
    R.Passes n fun run => ∀ seen, run.Obeys R n seen where
  log h _ := h none
  readStore h _ store := h store _
  call hcall h _ := ⟨hcall, fun answer => h answer none⟩
  fanOut hcalls h _ := ⟨hcalls, fun answer => h answer none⟩

/-! ## Whole runs -/

/-- How a run goes on after a step with a number: with the steps that remain, or with
the failure. -/
def Run.after (total number : Nat) (rest : List Step) : Except WorkflowError Json → Run
  | .ok v => Run.steps total (number + 1) rest v
  | .error error => .finish (.error error)

theorem Run.steps_cons (total number : Nat) (s : Step) (rest : List Step) (current : Json) :
    Run.steps total number (s :: rest) current =
      .enter number (.log (.enteringStep number s.kind s.description current)
        (s.run number current (Run.after total number rest))) := rfl

/-- A run of steps obeys what each of them obeys under its number. -/
lemma Run.obeys_steps {R : Rule} {total number n : Nat} {seen : Option Store}
    {steps : List Step} {current : Json}
    (hsteps : ∀ (i : Nat) (s : Step), steps[i]? = some s → s.Obeys R (number + i)) :
    (Run.steps total number steps current).Obeys R n seen := by
  induction steps generalizing number current n seen with
  | nil =>
    -- The run looks at the store and ends with what it saw.
    intro store outcome houtcome
    obtain rfl := Except.ok.inj houtcome
    rfl
  | cons s rest ih =>
    have hs : s.Obeys R number := hsteps 0 s rfl
    have hrest : ∀ (i : Nat) (s' : Step), rest[i]? = some s' →
        s'.Obeys R (number + 1 + i) := by
      intro i s' hi
      have h := hsteps (i + 1) s' (by simpa using hi)
      rwa [show number + (i + 1) = number + 1 + i by omega] at h
    have hbehind : ∀ o seen, (Run.after total number rest o).Obeys R number seen := by
      intro o seen
      cases o with
      | ok v => exact ih hrest
      | error error => intro outcome houtcome; cases houtcome
    exact (R.passes_obeys number).run hs (fun _ _ _ hrest _ => hrest none) hbehind none

/-- The run of a workflow obeys what its steps obey; they are numbered from one. -/
theorem Workflow.nextRun_obeys {R : Rule} {f : Workflow}
    (hsteps : ∀ (i : Nat) (s : Step), f.steps[i]? = some s → s.Obeys R (i + 1)) :
    f.nextRun.Obeys R 0 none := by
  unfold Workflow.nextRun
  split
  · intro store outcome houtcome
    obtain rfl := Except.ok.inj houtcome
    rfl
  · refine Run.obeys_steps fun i s hi => ?_
    rw [Nat.add_comm]
    exact hsteps i s hi

/-- A run in progress obeys a rule. -/
def Progress.Obeys (R : Rule) (seen : Option Store) : Progress → Prop
  | acting step run => run.Obeys R step seen
  | calling step _ rest => ∀ answer, (rest answer).Obeys R step none
  | joining step _ _ _ rest => ∀ answer, (rest answer).Obeys R step none
  | ended result => ∀ outcome, result = .ok outcome → seen = some outcome.store
  | idle | crashed _ => True

namespace World

/-- Whatever the run in progress does of itself, it goes on obeying; what it has seen of
the store is what it saw before, or what the store holds at that moment. -/
theorem RunMove.obeys {R : Rule} {seen : Option Store} {w w' : World} {c : Choice}
    {x : Option Exchange} (h : RunMove w c x w') (hw : w.progress.Obeys R seen) :
    ∃ seen', w'.progress.Obeys R seen' ∧
      (seen' = none ∨ w'.workflow = w.workflow ∧
        (seen' = seen ∨ seen' = some w.workflow.store)) := by
  cases h with
  | finish hp => rw [hp] at hw; exact ⟨seen, hw, .inr ⟨rfl, .inl rfl⟩⟩
  | enter hp | log hp | setPrompt hp => rw [hp] at hw; exact ⟨none, hw, .inl rfl⟩
  | readStore hp => rw [hp] at hw; exact ⟨_, hw _, .inr ⟨rfl, .inr rfl⟩⟩
  | call hp | fanOut hp => rw [hp] at hw; exact ⟨none, hw.2, .inl rfl⟩
  | work hp | wake hp | exit hp | park hp | collect hp =>
    rw [hp] at hw; exact ⟨none, hw, .inl rfl⟩
  | answer hp | gather hp | failure hp => rw [hp] at hw; exact ⟨none, hw _, .inl rfl⟩
  | crash => exact ⟨none, trivial, .inl rfl⟩
  | refuse | abandon | leave => exact ⟨none, nofun, .inl rfl⟩

end World
end Workplan
