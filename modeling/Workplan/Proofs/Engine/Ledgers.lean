import Mathlib.Tactic.Lemma
import Workplan.Engine.Schedule
import Workplan.Proofs.Engine.Loops
import Workplan.Proofs.Engine.Rules

/-!
# The fan-outs of a workflow's life

A workflow lives through runs and loops, one after another, with all that happens around
them (`History.live`).  A *ledger* is kept of it: each fan-out is entered with its run,
its step and its calls when it begins, and is closed when its step has got an answer or is
given up because of a cancellation.

The books balance at every moment (`Books`): the started calls are exactly the calls of
the fan-outs in the ledger, in their order; a fan-out that is still open is the one that
the run in progress collects; the calls of a fan-out that succeeded have all ended; and a
run that obeys the rule of fan-outs only starts calls in a parallel or an iterate step.
-/

namespace Workplan

/-- The number of the step that a run in progress is in. -/
def Progress.step : Progress → Nat
  | acting n _ | calling n _ _ | joining n _ _ _ _ => n
  | idle | ended _ | crashed _ => 0

/-- The step, the number of the first call, and how many calls there are, of the fan-out
that a run is collecting. -/
def Progress.fanOut? : Progress → Option (Nat × Nat × Nat)
  | joining step _ first results _ => some (step, first, results.length)
  | _ => none

/-- Whether a run has been cut short. -/
def Progress.isCut : Progress → Bool
  | ended (.error .cancelled) => true
  | _ => false

/-! ## Ledgers -/

/-- A fan-out: the run and the step that it belongs to, the number of the first of its
calls, and its calls. -/
structure Spawn where
  run : Nat
  step : Nat
  first : Nat
  calls : List (Executor × Json)

namespace Spawn

/-- Whether a started call belongs to a fan-out. -/
def Owns (s : Spawn) (n : Nat) : Prop :=
  s.first ≤ n ∧ n < s.first + s.calls.length

/-- Where a run collects the results of a fan-out. -/
def place (s : Spawn) : Nat × Nat × Nat :=
  (s.step, s.first, s.calls.length)

end Spawn

/-- What became of a fan-out. -/
inductive Fate where
  | succeeded
  /-- One of its calls failed, and that was the first failure to be seen. -/
  | failed (error : ExecutorError)
  /-- Its step was given up because of a cancellation. -/
  | interrupted

/-- The fan-outs of a life: the number of runs that have begun, the fan-outs that are
over, and the one that is not. -/
structure Ledger where
  runs : Nat := 0
  closed : List (Spawn × Fate) := []
  current : Option Spawn := none

namespace Ledger

/-- All fan-outs, the earliest first. -/
def spawns (L : Ledger) : List Spawn :=
  L.closed.map (·.1) ++ L.current.toList

/-- Closes the fan-out that is not over, if there is one. -/
def close (L : Ledger) (fate : Fate) : Ledger :=
  { L with
    closed := L.closed ++ (L.current.map fun s => (s, fate)).toList
    current := none }

/-- Whether all fan-outs that are over have succeeded. -/
def IsClean (L : Ledger) : Prop :=
  ∀ p ∈ L.closed, p.2 = .succeeded

/-- Enters what a choice adds to the dialogue of the run in progress, and that a run has
begun or has been cut short. -/
def noted (L : Ledger) (x : Option Exchange) (w w' : World) : Ledger :=
  match x with
  | some (.spawned calls) =>
    { L with current := some ⟨L.runs, w.progress.step, w.jobs.length, calls⟩ }
  | some (.gathered (.ok _)) => L.close .succeeded
  | some (.gathered (.error e)) => L.close (.failed e)
  | _ =>
    if w'.progress.isCut then L.close .interrupted
    else if !w.progress.isActive && w'.progress.isActive then { L with runs := L.runs + 1 }
    else L

@[simp] theorem spawns_close (L : Ledger) (fate : Fate) :
    (L.close fate).spawns = L.spawns := by
  unfold spawns close
  cases L.current <;> simp

lemma close_of_none {L : Ledger} (h : L.current = none) (fate : Fate) :
    L.close fate = L := by
  obtain ⟨runs, closed, current⟩ := L
  obtain rfl : current = none := h
  simp [close]

/-- A ledger that is clean after a fan-out has been closed was clean before. -/
lemma IsClean.of_close {L : Ledger} {fate : Fate} (h : (L.close fate).IsClean) :
    L.IsClean :=
  fun p hp => h p (List.mem_append_left _ hp)

end Ledger

/-! ## Lives -/

/-- One thing that happens in the life of a workflow. -/
inductive Happening where
  | choose (c : Choice)
  /-- A run begins, with a token or without. -/
  | run (token : Token)
  | startLoop (pause : Option Nat)
  /-- A loop that is over is put away. -/
  | endLoop

/-- A world and the ledger of its life so far. -/
structure History where
  world : World
  ledger : Ledger := {}

namespace History

/-- What happens next.  A run or a loop begins only where none is going on. -/
def next (H : History) : Happening → Option History
  | .choose c =>
    (H.world.take c).map fun w => ⟨w, H.ledger.noted (H.world.exchange? c) H.world w⟩
  | .run token =>
    if !H.world.progress.isActive && H.world.loopIsOver then
      some ⟨({ H.world with token } : World).begin,
        { H.ledger with runs := H.ledger.runs + 1 }⟩
    else none
  | .startLoop pause =>
    if !H.world.progress.isActive && H.world.loopIsOver then
      some { H with world := H.world.startLoop pause }
    else none
  | .endLoop =>
    if H.world.loopIsOver then some { H with world := { H.world with loop := none } }
    else none

/-- What a life comes to. -/
def live (H : History) : List Happening → Option History
  | [] => some H
  | h :: rest => (H.next h).bind fun H' => H'.live rest

theorem live_cons {H H' : History} {h : Happening} {rest : List Happening}
    (hlive : H.live (h :: rest) = some H') :
    ∃ H₁, H.next h = some H₁ ∧ H₁.live rest = some H' :=
  Option.bind_eq_some_iff.mp hlive

/-- What everything that happens preserves, a life preserves. -/
theorem live_preserves {P : History → Prop} {hs : List Happening} {H H' : History}
    (hstep : ∀ h G G', History.next G h = some G' → P G → P G')
    (hlive : H.live hs = some H') (hH : P H) :
    P H' := by
  induction hs generalizing H with
  | nil => rwa [← Option.some.inj hlive]
  | cons h rest ih =>
    obtain ⟨H₁, hnext, hrest⟩ := live_cons hlive
    exact ih hrest (hstep h H H₁ hnext hH)

/-- A choice changes the world, and the ledger notes what the run does. -/
theorem next_choose {H H' : History} {c : Choice} (h : H.next (.choose c) = some H') :
    ∃ w, H.world.take c = some w ∧
      H' = ⟨w, H.ledger.noted (H.world.exchange? c) H.world w⟩ := by
  obtain ⟨w, htake, hw⟩ := Option.map_eq_some_iff.mp h
  exact ⟨w, htake, hw.symm⟩

theorem next_run {H H' : History} {token : Token} (h : H.next (.run token) = some H') :
    H.world.progress.isActive = false ∧ H.world.loopIsOver = true ∧
      H' = ⟨({ H.world with token } : World).begin,
        { H.ledger with runs := H.ledger.runs + 1 }⟩ := by
  simp only [next, Bool.and_eq_true, Bool.not_eq_true'] at h
  split at h
  · next hrest => exact ⟨hrest.1, hrest.2, (Option.some.inj h).symm⟩
  · cases h

theorem next_startLoop {H H' : History} {pause : Option Nat}
    (h : H.next (.startLoop pause) = some H') :
    H.world.progress.isActive = false ∧ H.world.loopIsOver = true ∧
      H' = { H with world := H.world.startLoop pause } := by
  simp only [next, Bool.and_eq_true, Bool.not_eq_true'] at h
  split at h
  · next hrest => exact ⟨hrest.1, hrest.2, (Option.some.inj h).symm⟩
  · cases h

theorem next_endLoop {H H' : History} (h : H.next .endLoop = some H') :
    H.world.loopIsOver = true ∧ H' = { H with world := { H.world with loop := none } } := by
  simp only [next] at h
  split at h
  · next hover => exact ⟨hover, (Option.some.inj h).symm⟩
  · cases h

/-- What happens otherwise than by a choice leaves the started calls alone; at most it
begins a run. -/
theorem next_aside {H H' : History} {h : Happening} (hnext : H.next h = some H') :
    (∃ c, h = .choose c) ∨ H'.world.jobs = H.world.jobs ∧
      (H'.world.progress = H.world.progress ∧ H'.ledger = H.ledger ∨
        H.world.progress.isActive = false ∧
        H'.world.progress = .acting 0 H.world.workflow.nextRun ∧
        H'.ledger = { H.ledger with runs := H.ledger.runs + 1 }) := by
  cases h with
  | choose c => exact .inl ⟨c, rfl⟩
  | run token =>
    obtain ⟨hrests, -, rfl⟩ := next_run hnext
    exact .inr ⟨rfl, .inr ⟨hrests, rfl, rfl⟩⟩
  | startLoop pause =>
    obtain ⟨-, -, rfl⟩ := next_startLoop hnext
    exact .inr ⟨rfl, .inl ⟨rfl, rfl⟩⟩
  | endLoop =>
    obtain ⟨-, rfl⟩ := next_endLoop hnext
    exact .inr ⟨rfl, .inl ⟨rfl, rfl⟩⟩

end History

/-! ## The table of started calls -/

/-- The call that a job makes. -/
def Job.call (job : Job) : Executor × Json :=
  (job.executor, job.input)

/-- The places that a call may come to which executes a task once, from its beginning. -/
inductive Task.Reaches (t : Task) : Activity → Prop where
  | start : Reaches t (.ready t)
  | act {u} (w : World) : Reaches t (.ready u) → Reaches t (w.perform u).1
  | wake {f u} : Reaches t (.waiting f u) → Reaches t (.ready u)
  | exit {u} : Reaches t (.waiting .program u) → Reaches t (.waiting .nothing u)

namespace World

/-- A call goes through its task. -/
lemma advance_reaches {w w' : World} {a a' : Activity} {t : Task}
    (h : w.advance a = some (a', w')) (ha : t.Reaches a) : t.Reaches a' := by
  cases advance_eq_some_iff.mp h with
  | act u => exact .act w ha
  | wake hdue => exact .wake ha

/-- The exit of a program is a step on the way of the call that waits for it. -/
lemma released_reaches {a : Activity} {t : Task} (hawaits : a.awaitsProgram = true)
    (ha : t.Reaches a) : t.Reaches a.released := by
  obtain ⟨u, rfl⟩ := eq_waiting_of_awaitsProgram hawaits
  exact .exit ha

/-- Everything that a choice can do to the table of started calls, with what the choice
adds to the dialogue. -/
inductive JobsMove (w : World) : Choice → Option Exchange → List Job → Prop where
  | same {c x} : (∀ calls, x ≠ some (.spawned calls)) → JobsMove w c x w.jobs
  | spawn (calls) : JobsMove w .run (some (.spawned calls)) (w.start calls).jobs
  | act {c n job} (a) : c = .job n ∨ c = .exitOfJob n → w.jobs[n]? = some job →
      job.activity.isEnded = false → (∀ t : Task, t.Reaches job.activity → t.Reaches a) →
      JobsMove w c none (w.jobs.set n { job with activity := a })

/-- A move of the run starts calls where it fans out, and else leaves them alone. -/
lemma RunMove.jobsMove {w w' : World} {c : Choice} {x : Option Exchange}
    (h : RunMove w c x w') :
    JobsMove w c x w'.jobs := by
  cases h with
  | fanOut hp => exact .spawn _
  | work hp =>
    show JobsMove w .run none (w.perform _).2.jobs
    rw [perform_jobs]
    exact .same (by simp)
  | _ => exact .same (by simp)

/-- A choice starts calls or lets one of them go on. -/
theorem take_jobsMove {w w' : World} {c : Choice} (h : w.take c = some w') :
    JobsMove w c (w.exchange? c) w'.jobs := by
  by_cases hloop : c = .loop
  · subst hloop
    obtain ⟨l, -, hmove⟩ := take_loop h
    rw [hmove.aside.jobs]
    exact .same (by simp [exchange?])
  -- What is not of the run or the loop touches at most the one call that it is about.
  · rcases take_move hloop h with hmove | ⟨hout, hx, -⟩
    · exact hmove.jobsMove
    · rw [hx]
      cases take_outside hout h with
      | @act n job a w₁ hjob hadv =>
        obtain ⟨-, hjobs, hopen⟩ := advance_apart hadv
        show JobsMove w _ none (w₁.jobs.set n { job with activity := a })
        rw [hjobs]
        exact .act a (.inl rfl) hjob hopen fun t ht => advance_reaches hadv ht
      | exit hjob hawaits =>
        exact .act _ (.inr rfl) hjob (isEnded_of_awaitsProgram hawaits) fun t ht =>
          released_reaches hawaits ht
      | cancel | pass => exact .same (by simp)

/-- Unless a fan-out begins, the started calls remain those that they are. -/
theorem JobsMove.calls {w : World} {c : Choice} {x : Option Exchange} {jobs : List Job}
    (h : JobsMove w c x jobs) (hx : ∀ calls, x ≠ some (.spawned calls)) :
    jobs.map Job.call = w.jobs.map Job.call := by
  cases h with
  | same => rfl
  | spawn calls => exact absurd rfl (hx calls)
  | @act _ n job a _ hjob =>
    have hn : n < w.jobs.length := (List.getElem?_eq_some_iff.mp hjob).1
    refine List.ext_getElem? fun m => ?_
    by_cases hm : n = m
    · subst hm
      rw [List.getElem?_map, List.getElem?_map, List.getElem?_set_self hn, hjob]
      rfl
    · rw [List.getElem?_map, List.getElem?_map, List.getElem?_set_ne hm]

/-- A started call goes through its task as it would do alone. -/
lemma JobsMove.executing {w : World} {c : Choice} {x : Option Exchange} {jobs : List Job}
    (h : JobsMove w c x jobs)
    (hw : ∀ job ∈ w.jobs, (job.executor.run job.input).Reaches job.activity) :
    ∀ job ∈ jobs, (job.executor.run job.input).Reaches job.activity := by
  intro job hjob
  cases h with
  | same => exact hw job hjob
  | spawn calls =>
    rcases List.mem_append.mp hjob with hold | hnew
    · exact hw job hold
    · obtain ⟨call, -, rfl⟩ := List.mem_map.mp hnew
      exact .start
  | @act _ n job' a _ hjob' _ hreaches =>
    rcases List.mem_or_eq_of_mem_set hjob with hold | rfl
    · exact hw job hold
    · exact hreaches _ (hw job' (List.mem_of_getElem? hjob'))

/-- Nobody touches a started call but the call itself and the program that it has
launched. -/
theorem take_leaves_job {w w' : World} {c : Choice} {n : Nat} {job : Job}
    (h : w.take c = some w') (hjob : w.jobs[n]? = some job) (hc : c ≠ .job n)
    (hexit : c ≠ .exitOfJob n) :
    w'.jobs[n]? = some job := by
  have hn : n < w.jobs.length := (List.getElem?_eq_some_iff.mp hjob).1
  have hmove := take_jobsMove h
  generalize w.exchange? c = x, w'.jobs = jobs at hmove
  cases hmove with
  | same => exact hjob
  -- New calls are put behind the old ones.
  | spawn calls => rw [start, List.getElem?_append_left hn]; exact hjob
  | @act _ m _ a hm =>
    have hne : m ≠ n := by
      rintro rfl
      rcases hm with rfl | rfl
      · exact hc rfl
      · exact hexit rfl
    rw [List.getElem?_set_ne hne]
    exact hjob

lemma isSome_jobEnd?_iff {w : World} {n : Nat} {job : Job} (hjob : w.jobs[n]? = some job) :
    (w.jobEnd? n).isSome = job.activity.isEnded := by
  obtain ⟨e, input, activity⟩ := job
  cases activity <;> simp [jobEnd?, hjob, Activity.isEnded]

end World

/-! ## Fan-outs one after another -/

/-- Fan-outs one after another, with the numbers that their calls have among all calls. -/
inductive Numbered : List Spawn → List (Executor × Json) → Prop where
  | none : Numbered [] []
  | next {spawns calls s} : Numbered spawns calls → s.first = calls.length →
      Numbered (spawns ++ [s]) (calls ++ s.calls)

namespace Numbered

variable {spawns : List Spawn} {calls : List (Executor × Json)}

/-- Numbered calls are those of all fan-outs, one after the other. -/
theorem calls_eq (h : Numbered spawns calls) : calls = spawns.flatMap (·.calls) := by
  induction h with
  | none => rfl
  | next _ _ ih => rw [ih, List.flatMap_append]; simp

/-- Each call belongs to a fan-out. -/
lemma exists_owner (h : Numbered spawns calls) {n : Nat} (hn : n < calls.length) :
    ∃ s ∈ spawns, s.Owns n := by
  induction h with
  | none => cases hn
  | @next spawns calls s _ hfirst ih =>
    by_cases hlt : n < calls.length
    · obtain ⟨s', hs', howns⟩ := ih hlt
      exact ⟨s', List.mem_append_left _ hs', howns⟩
    · rw [List.length_append] at hn
      exact ⟨s, by simp, by omega, by omega⟩

end Numbered

/-! ## The rule of fan-outs -/

/-- Whether the step with a number is one that fans out: a parallel or an iterate step. -/
def FansOut (steps : List Step) (number : Nat) : Prop :=
  ∃ s, 0 < number ∧ steps[number - 1]? = some s ∧ (s.kind = .parallel ∨ s.kind = .iterate)

/-- Only parallel and iterate steps start calls. -/
def fanOutRule (steps : List Step) : Rule where
  call _ _ _ := True
  fanOut number _ := FansOut steps number

/-- The run of a workflow fans out only where one of its steps does. -/
lemma Workflow.nextRun_fansOut (f : Workflow) :
    f.nextRun.Obeys (fanOutRule f.steps) 0 none := by
  refine Workflow.nextRun_obeys fun i s hs =>
    ⟨fun _ _ _ _ _ => trivial, ?_, ?_, fun _ _ _ => trivial, fun _ _ _ => trivial⟩
  · intro executors haction input
    exact ⟨s, by omega, hs, .inl (by rw [Step.kind, haction]; rfl)⟩
  · intro source agent haction items
    exact ⟨s, by omega, hs, .inr (by rw [Step.kind, haction]; rfl)⟩

/-! ## What a choice does to the ledger -/

/-- A loop that goes on while a run does is waiting for that run. -/
def World.LoopWaits (w : World) : Prop :=
  ∀ l, w.loop = some l → w.progress.isActive = true → l.phase = .running ∨
    l.phase.isOver = true

/-- Everything that a choice can do to the ledger. -/
inductive LedgerMove (L : Ledger) (w w' : World) : Ledger → Prop where
  | keep : w'.progress.fanOut? = w.progress.fanOut? →
      w'.jobs.map Job.call = w.jobs.map Job.call →
      LedgerMove L w w' L
  | spawn {step calls rest} : w.progress = .acting step (.fanOut calls rest) →
      w' = (w.start calls).goTo
        (.joining step true w.jobs.length (calls.map fun _ => none) rest) →
      LedgerMove L w w' { L with current := some ⟨L.runs, step, w.jobs.length, calls⟩ }
  | close (fate) : w'.progress.fanOut? = none → w'.jobs = w.jobs →
      (fate = .succeeded →
        ∀ step first count, w.progress.fanOut? = some (step, first, count) →
        ∀ i < count, (w.jobEnd? (first + i)).isSome = true) →
      w.progress.isActive = true ∧ (fate = .interrupted → w'.progress.isCut = true) →
      LedgerMove L w w' (L.close fate)
  | begin : w.progress.isActive = false → w'.progress = .acting 0 w.workflow.nextRun →
      w'.jobs = w.jobs → LedgerMove L w w' { L with runs := L.runs + 1 }

namespace World

section

variable {L : Ledger} {w w' : World}

theorem fanOut?_of_not_active {p : Progress} (h : p.isActive = false) :
    p.fanOut? = none := by
  cases p with
  | joining => cases h
  | _ => rfl

lemma current_eq_none (hplace : L.current.map Spawn.place = w.progress.fanOut?)
    (h : w.progress.fanOut? = none) : L.current = none := by
  rw [h, Option.map_eq_none_iff] at hplace
  exact hplace

/-- A choice that leaves the run where it is and adds nothing to its dialogue is
not entered. -/
theorem noted_same (hplace : L.current.map Spawn.place = w.progress.fanOut?)
    (hsame : w'.progress = w.progress) : L.noted none w w' = L := by
  unfold Ledger.noted
  rw [hsame]
  dsimp only
  split
  · next hcut =>
    refine Ledger.close_of_none (current_eq_none hplace ?_) _
    unfold Progress.isCut at hcut
    split at hcut
    · next hp => rw [hp]; rfl
    · cases hcut
  · rw [if_neg (by cases w.progress.isActive <;> simp)]

/-- A choice of a run that goes on, and that neither starts nor gathers anything, is
not entered. -/
lemma noted_active {x : Option Exchange} (hx : ∀ calls, x ≠ some (.spawned calls))
    (hx' : ∀ answer, x ≠ some (.gathered answer)) (hactive : w.progress.isActive = true)
    (hcut : w'.progress.isCut = false) : L.noted x w w' = L := by
  unfold Ledger.noted
  split
  · exact absurd rfl (hx _)
  · exact absurd rfl (hx' _)
  · exact absurd rfl (hx' _)
  · simp [hcut, hactive]

/-- A run that is cut off leaves its open fan-out interrupted. -/
lemma noted_cut {x : Option Exchange} (hx : x = none) (hcut : w'.progress.isCut = true) :
    L.noted x w w' = L.close .interrupted := by
  subst hx
  simp [Ledger.noted, hcut]

/-- A run that begins where none was going on is counted. -/
theorem noted_begun (hidle : w.progress.isActive = false)
    (hbegun : w'.progress = .acting 0 w.workflow.nextRun) :
    L.noted none w w' = { L with runs := L.runs + 1 } := by
  have hactive : w'.progress.isActive = true := by rw [hbegun]; rfl
  have hcut : w'.progress.isCut = false := by rw [hbegun]; rfl
  simp [Ledger.noted, hactive, hidle, hcut]

/-- The ledger follows the moves of the run. -/
lemma RunMove.ledgerMove {c : Choice} {x : Option Exchange} (h : RunMove w c x w')
    (hw : w.IsCoherent) : LedgerMove L w w' (L.noted x w w') := by
  have hactive := h.isActive
  have hkeep : (∀ calls, x ≠ some (.spawned calls)) →
      (∀ answer, x ≠ some (.gathered answer)) →
      w'.progress.isCut = false → w'.progress.fanOut? = w.progress.fanOut? →
      LedgerMove L w w' (L.noted x w w') := by
    intro hx hx' hcut hsame
    rw [noted_active hx hx' hactive hcut]
    exact .keep hsame (h.jobsMove.calls hx)
  cases h with
  | @finish step r hp =>
    cases hcut : (Progress.ended r).isCut with
    | false => exact hkeep (by simp) (by simp) hcut (by rw [hp]; rfl)
    | true =>
      rw [noted_cut rfl hcut]
      exact .close _ rfl rfl (by simp) ⟨hactive, fun _ => hcut⟩
  | enter hp | log hp | setPrompt hp | readStore hp | call hp =>
    exact hkeep (by simp) (by simp) rfl (by rw [hp]; rfl)
  | work hp | wake hp | exit hp | answer hp | crash hp | park hp =>
    exact hkeep (by simp) (by simp) rfl (by rw [hp]; rfl)
  | collect hp =>
    exact hkeep (by simp) (by simp) rfl
      (by rw [hp]; simp [goTo, Progress.fanOut?])
  | refuse hp | abandon hp | leave hp =>
    rw [noted_cut rfl rfl]
    exact .close _ rfl rfl (by simp) ⟨hactive, fun _ => rfl⟩
  | @fanOut step calls rest hp =>
    have hnoted : L.noted (some (.spawned calls)) w ((w.start calls).goTo
        (.joining step true w.jobs.length (calls.map fun _ => none) rest)) =
        { L with current := some ⟨L.runs, step, w.jobs.length, calls⟩ } := by
      simp only [Ledger.noted, hp, Progress.step]
    rw [hnoted]
    exact .spawn hp rfl
  | @gather step first results rest values hp hvalues =>
    refine LedgerMove.close .succeeded rfl rfl (fun _ step' first' count hplace i hi => ?_)
      ⟨hactive, by simp⟩
    rw [hp] at hplace
    obtain ⟨rfl, rfl, rfl⟩ : step = step' ∧ first = first' ∧ results.length = count := by
      simpa [Progress.fanOut?] using hplace
    -- All slots are full, so that all calls have ended.
    rw [complete?_eq_some_iff.mp hvalues, List.length_map] at hi
    have hslot : results[i]? = some (some values[i]) := by
      rw [complete?_eq_some_iff.mp hvalues, List.getElem?_map, List.getElem?_eq_getElem hi]
      rfl
    rw [(hw _ _ _ _ _ hp).values i _ hslot]
    rfl
  | failure hp => exact .close _ rfl rfl (by simp) ⟨hactive, by simp⟩

/-- A loop begins a run only where none is going on. -/
theorem LoopMove.begins {l : Loop} (h : LoopMove w l w') (hl : w.loop = some l)
    (hwaits : w.LoopWaits) :
    w'.progress = w.progress ∨
      w.progress.isActive = false ∧ w'.progress = .acting 0 w.workflow.nextRun := by
  rcases h.progress with hsame | ⟨hbegun, hphase⟩
  · exact .inl hsame
  · refine .inr ⟨?_, hbegun⟩
    cases hactive : w.progress.isActive with
    | false => rfl
    | true =>
      rcases hwaits l hl hactive with hrunning | hover
      · rcases hphase with h | ⟨-, wake, h⟩ <;> rw [hrunning] at h <;> cases h
      · rcases hphase with h | ⟨-, wake, h⟩ <;> rw [h] at hover <;> cases hover

/-- What a choice does to the ledger. -/
lemma take_ledgerMove {c : Choice} (h : w.take c = some w')
    (hplace : L.current.map Spawn.place = w.progress.fanOut?) (hw : w.IsCoherent)
    (hwaits : w.LoopWaits) :
    LedgerMove L w w' (L.noted (w.exchange? c) w w') := by
  by_cases hloop : c = .loop
  · subst hloop
    obtain ⟨l, hl, hmove⟩ := take_loop h
    have hx : w.exchange? .loop = none := rfl
    rw [hx]
    -- The loop begins a run or leaves it alone.
    rcases hmove.begins hl hwaits with hsame | ⟨hidle, hbegun⟩
    · rw [noted_same hplace hsame]
      exact .keep (by rw [hsame]) (by rw [hmove.aside.jobs])
    · rw [noted_begun hidle hbegun]
      exact .begin hidle hbegun hmove.aside.jobs
  · rcases take_move hloop h with hmove | ⟨-, hx, hapart⟩
    · exact hmove.ledgerMove hw
    · rw [hx, noted_same hplace hapart.progress]
      refine .keep (by rw [hapart.progress]) ((take_jobsMove h).calls ?_)
      rw [hx]
      simp

/-- A loop goes on waiting for the run in progress. -/
lemma choice_loopWaits {c : Choice} (h : w.take c = some w') (hw : w.LoopWaits) :
    w'.LoopWaits := by
  intro l hl hactive
  by_cases hloop : c = .loop
  · subst hloop
    obtain ⟨l₀, hl₀, hmove⟩ := take_loop h
    have hwait := hw l₀ hl₀
    cases hmove with
    | start | again => obtain rfl := Option.some.inj hl; exact .inl rfl
    | settle _ _ hp | cut _ hp | crash _ hp =>
      have hactive' : w.progress.isActive = true := hactive
      rw [hp] at hactive'
      cases hactive'
    -- In these phases no run is in progress.
    | count hphase | quit hphase =>
      rcases hwait hactive with h | h <;> rw [hphase] at h <;> cases h
  · rw [take_keeps_loop hloop h] at hl
    rcases take_move hloop h with hmove | ⟨-, -, hapart⟩
    · exact hw l hl hmove.isActive
    · rw [hapart.progress] at hactive
      exact hw l hl hactive

end

end World

/-! ## The books balance -/

/-- What holds of the ledger and the world at every moment of a life. -/
structure Books (L : Ledger) (w : World) : Prop where
  calls : Numbered L.spawns (w.jobs.map Job.call)
  executing : ∀ job ∈ w.jobs, (job.executor.run job.input).Reaches job.activity
  place : L.current.map Spawn.place = w.progress.fanOut?
  closedRuns : ∀ p ∈ L.closed, p.1.run ≤ L.runs
  currentRun : ∀ s, L.current = some s → s.run = L.runs
  settled : ∀ s, (s, Fate.succeeded) ∈ L.closed → ∀ n, s.Owns n →
    (w.jobEnd? n).isSome = true
  steps : ∀ s ∈ L.spawns, FansOut w.workflow.steps s.step
  /-- What a run that is about to end has seen of the store still holds, if no fan-out has
  failed or was interrupted. -/
  rule : ∃ seen, w.progress.Obeys (fanOutRule w.workflow.steps) seen ∧
    (L.IsClean → ∀ store, seen = some store → store = w.workflow.store)
  coherent : w.IsCoherent
  waits : w.LoopWaits

namespace Books

variable {L L' : Ledger} {w w' : World} {c : Choice}

/-- Where nothing failed or was interrupted, and no fan-out is going on, all started calls
have ended. -/
theorem ended (h : Books L w) (hclean : L.IsClean) (hplace : w.progress.fanOut? = none)
    {n : Nat} {job : Job} (hjob : w.jobs[n]? = some job) : job.activity.isEnded = true := by
  have hn : n < (w.jobs.map Job.call).length := by
    rw [List.length_map]
    exact (List.getElem?_eq_some_iff.mp hjob).1
  obtain ⟨s, hs, howns⟩ := h.calls.exists_owner hn
  rw [Ledger.spawns, World.current_eq_none h.place hplace] at hs
  obtain ⟨⟨s', fate⟩, hp, rfl⟩ : ∃ p ∈ L.closed, p.1 = s := by simpa using hs
  obtain rfl : fate = .succeeded := hclean _ hp
  rw [← World.isSome_jobEnd?_iff hjob]
  exact h.settled _ hp n howns

/-- A started call that is unfinished is either being collected or belongs to a fan-out
that did not succeed. -/
theorem unfinished (h : Books L w) {n : Nat} {job : Job} (hjob : w.jobs[n]? = some job)
    (hopen : job.activity.isEnded = false) :
    (∃ s fate, (s, fate) ∈ L.closed ∧ fate ≠ .succeeded ∧ s.Owns n ∧
      FansOut w.workflow.steps s.step) ∨
    ∃ s awake results rest, L.current = some s ∧ s.Owns n ∧
      FansOut w.workflow.steps s.step ∧
      w.progress = .joining s.step awake s.first results rest := by
  have hn : n < (w.jobs.map Job.call).length := by
    rw [List.length_map]
    exact (List.getElem?_eq_some_iff.mp hjob).1
  obtain ⟨s, hs, howns⟩ := h.calls.exists_owner hn
  have hstep := h.steps s hs
  -- The fan-out that owns the call has been closed, and then not as succeeded, or it is
  -- the current one.
  rcases List.mem_append.mp hs with hclosed | hcurrent
  · obtain ⟨⟨s', fate⟩, hp, rfl⟩ := List.mem_map.mp hclosed
    refine .inl ⟨s', fate, hp, ?_, howns, hstep⟩
    rintro rfl
    have hend := h.settled s' hp n howns
    rw [World.isSome_jobEnd?_iff hjob, hopen] at hend
    cases hend
  · have hcurrent : L.current = some s := by simpa using hcurrent
    refine .inr ⟨s, ?_⟩
    have hplace := h.place
    rw [hcurrent] at hplace
    cases hp : w.progress with
    | joining step awake first results rest =>
      rw [hp] at hplace
      obtain ⟨rfl, rfl, -⟩ : s.step = step ∧ s.first = first ∧
        s.calls.length = results.length := by
        simpa [Spawn.place, Progress.fanOut?] using hplace
      exact ⟨awake, results, rest, hcurrent, howns, hstep, rfl⟩
    | idle | acting | calling | ended | crashed => rw [hp] at hplace; cases hplace

theorem ledgerMove (h : Books L w) (htake : w.take c = some w') :
    LedgerMove L w w' (L.noted (w.exchange? c) w w') :=
  World.take_ledgerMove htake h.place h.coherent h.waits

/-- A ledger that is clean after a choice was clean before. -/
lemma clean_before (hmove : LedgerMove L w w' L') (hclean : L'.IsClean) : L.IsClean := by
  cases hmove with
  | keep | spawn | begin => exact hclean
  | close fate => exact hclean.of_close

lemma take_calls (h : Books L w) (hmove : LedgerMove L w w' L') :
    Numbered L'.spawns (w'.jobs.map Job.call) := by
  cases hmove with
  | keep _ hcalls => rw [hcalls]; exact h.calls
  | @spawn step calls rest hp hw' =>
    have hnone : L.current = none := World.current_eq_none h.place (by rw [hp]; rfl)
    have hjobs : w'.jobs.map Job.call = w.jobs.map Job.call ++ calls := by
      rw [hw']
      simp [World.goTo, World.start, Job.call, Function.comp_def]
    -- The fan-out that begins is the last one, and its calls are the last ones.
    have hspawns :
        ({ L with current := some ⟨L.runs, step, w.jobs.length, calls⟩ } : Ledger).spawns =
          L.spawns ++ [⟨L.runs, step, w.jobs.length, calls⟩] := by
      simp [Ledger.spawns, hnone]
    rw [hspawns, hjobs]
    exact .next h.calls (by simp)
  | close fate _ hjobs => rw [Ledger.spawns_close, hjobs]; exact h.calls
  | begin _ _ hjobs => rw [hjobs]; exact h.calls

lemma take_place (h : Books L w) (hmove : LedgerMove L w w' L') :
    L'.current.map Spawn.place = w'.progress.fanOut? := by
  cases hmove with
  | keep hsame => rw [hsame]; exact h.place
  | spawn hp hw' => rw [hw']; simp [World.goTo, Progress.fanOut?, Spawn.place]
  | close fate hnone => rw [hnone]; rfl
  | begin hidle hbegun =>
    rw [hbegun]
    exact h.place.trans (World.fanOut?_of_not_active hidle)

lemma take_closedRuns (h : Books L w) (hmove : LedgerMove L w w' L') :
    ∀ p ∈ L'.closed, p.1.run ≤ L'.runs := by
  intro p hp
  cases hmove with
  | keep | spawn => exact h.closedRuns p hp
  | begin => exact Nat.le_succ_of_le (h.closedRuns p hp)
  | close fate =>
    rcases List.mem_append.mp hp with hp | hp
    · exact h.closedRuns p hp
    · obtain ⟨s, hs, rfl⟩ : ∃ s, L.current = some s ∧ (s, fate) = p := by simpa using hp
      exact Nat.le_of_eq (h.currentRun s hs)

lemma take_currentRun (h : Books L w) (hmove : LedgerMove L w w' L') :
    ∀ s, L'.current = some s → s.run = L'.runs := by
  intro s hs
  cases hmove with
  | keep => exact h.currentRun s hs
  | spawn => obtain rfl := Option.some.inj hs; rfl
  | close fate => cases hs
  | begin hidle =>
    have hnone := World.current_eq_none h.place (World.fanOut?_of_not_active hidle)
    rw [show L.current = some s from hs] at hnone
    cases hnone

/-- A fan-out that has succeeded has no call that is still going on. -/
lemma take_settled (h : Books L w) (hmove : LedgerMove L w w' L')
    (htake : w.take c = some w') {s : Spawn} (hs : (s, Fate.succeeded) ∈ L'.closed)
    {n : Nat} (howns : s.Owns n) :
    (w'.jobEnd? n).isSome = true := by
  have hold : (w.jobEnd? n).isSome = true → (w'.jobEnd? n).isSome = true := by
    intro hend
    obtain ⟨r, hr⟩ := Option.isSome_iff_exists.mp hend
    rw [(World.choice_kept htake).jobEnd? hr]
    rfl
  -- A call that has ended stays so; what is left is that it had.
  refine hold ?_
  cases hmove with
  | keep | spawn | begin => exact h.settled s hs n howns
  | close fate hnone hjobs hall =>
    rcases List.mem_append.mp hs with hs | hs
    · exact h.settled s hs n howns
    · -- The fan-out that succeeds is the one that the run collects.
      obtain ⟨s', hcurrent, hs'⟩ : ∃ s', L.current = some s' ∧
        (s', fate) = (s, .succeeded) := by
        simpa using hs
      obtain ⟨rfl, rfl⟩ := Prod.mk.inj hs'
      have hplace : w.progress.fanOut? = some (s'.step, s'.first, s'.calls.length) := by
        rw [← h.place, hcurrent]
        rfl
      have hi : n - s'.first < s'.calls.length := by
        have := howns.1
        have := howns.2
        omega
      have hend := hall rfl _ _ _ hplace (n - s'.first) hi
      rwa [Nat.add_sub_cancel' howns.1] at hend

lemma take_steps (h : Books L w) (hmove : LedgerMove L w w' L') {s : Spawn}
    (hs : s ∈ L'.spawns) :
    FansOut w.workflow.steps s.step := by
  cases hmove with
  | keep | begin => exact h.steps s hs
  | close fate => rw [Ledger.spawns_close] at hs; exact h.steps s hs
  | @spawn step calls rest hp =>
    rcases List.mem_append.mp hs with hs | hs
    · exact h.steps s (List.mem_append_left _ hs)
    · obtain rfl : s = ⟨L.runs, step, w.jobs.length, calls⟩ := by simpa using hs
      obtain ⟨seen, hobeys, -⟩ := h.rule
      rw [hp] at hobeys
      exact hobeys.1

lemma take_rule (h : Books L w) (htake : w.take c = some w') :
    ∃ seen, w'.progress.Obeys (fanOutRule w.workflow.steps) seen ∧
      (L.IsClean → ∀ store, seen = some store → store = w'.workflow.store) := by
  obtain ⟨seen, hobeys, hseen⟩ := h.rule
  by_cases hloop : c = .loop
  · subst hloop
    obtain ⟨l, -, hmove⟩ := World.take_loop htake
    rcases hmove.progress with hsame | ⟨hbegun, -⟩
    · rw [hsame, hmove.aside.workflow]
      exact ⟨seen, hobeys, hseen⟩
    · rw [hbegun]
      exact ⟨none, w.workflow.nextRun_fansOut, fun _ store hstore => by cases hstore⟩
  · rcases World.take_move hloop htake with hmove | ⟨hout, -, hapart⟩
    · obtain ⟨seen', hobeys', hseen'⟩ := hmove.obeys hobeys
      refine ⟨seen', hobeys', fun hclean store hstore => ?_⟩
      rcases hseen' with rfl | ⟨hworkflow, rfl | rfl⟩
      · cases hstore
      · rw [hworkflow]
        exact hseen hclean store hstore
      · rw [hworkflow]
        exact (Option.some.inj hstore).symm
    · cases hp : w.progress with
      | joining step awake first results rest =>
        rw [hp] at hobeys
        rw [hapart.progress, hp]
        exact ⟨none, hobeys, fun _ store hstore => by cases hstore⟩
      | idle | acting | calling | ended | crashed =>
        rw [hapart.progress]
        refine ⟨seen, hobeys, fun hclean store hstore => ?_⟩
        rw [hseen hclean store hstore]
        -- No started call is left that could write to the store.
        cases World.take_outside hout htake with
        | act hjob hadv =>
          have hended := h.ended hclean (by rw [hp]; rfl) hjob
          rw [(World.advance_apart hadv).2.2] at hended
          cases hended
        | exit | cancel | pass => rfl

/-- Every choice keeps the books. -/
theorem take (h : Books L w) (htake : w.take c = some w') :
    Books (L.noted (w.exchange? c) w w') w' := by
  have hmove := h.ledgerMove htake
  have hsteps : w'.workflow.steps = w.workflow.steps := (World.choice_setup htake).steps
  obtain ⟨seen, hobeys, hseen⟩ := h.take_rule htake
  exact {
    calls := h.take_calls hmove
    executing := (World.take_jobsMove htake).executing h.executing
    place := h.take_place hmove
    closedRuns := h.take_closedRuns hmove
    currentRun := h.take_currentRun hmove
    settled := fun s hs n howns => h.take_settled hmove htake hs howns
    steps := by rw [hsteps]; exact fun s hs => h.take_steps hmove hs
    rule := by
      rw [hsteps]
      exact ⟨seen, hobeys, fun hclean => hseen (clean_before hmove hclean)⟩
    coherent := World.choice_isCoherent htake h.coherent
    waits := World.choice_loopWaits htake h.waits }

/-- Where no run has begun and nothing has been started, the books balance. -/
theorem new (hjobs : w.jobs = []) (hidle : w.progress = .idle) : Books {} w where
  calls := by rw [hjobs]; exact .none
  executing := by simp [hjobs]
  place := by rw [hidle]; rfl
  closedRuns := by simp
  currentRun := by simp
  settled := by simp
  steps := by simp [Ledger.spawns]
  rule := ⟨none, by rw [hidle]; trivial, by simp⟩
  coherent := fun _ _ _ _ _ hp => by rw [hidle] at hp; cases hp
  waits := fun _ _ hactive => by rw [hidle] at hactive; cases hactive

/-- A run that begins where none is going on keeps the books. -/
lemma begin (h : Books L w) (hidle : w.progress.isActive = false)
    (hover : w.loopIsOver = true) (token : Token) :
    Books { L with runs := L.runs + 1 } ({ w with token } : World).begin where
  calls := h.calls
  executing := h.executing
  place := h.place.trans (World.fanOut?_of_not_active hidle)
  closedRuns := fun p hp => Nat.le_succ_of_le (h.closedRuns p hp)
  currentRun := by
    intro s hs
    have hnone := World.current_eq_none h.place (World.fanOut?_of_not_active hidle)
    rw [show L.current = some s from hs] at hnone
    cases hnone
  settled := h.settled
  steps := h.steps
  rule := ⟨none, w.workflow.nextRun_fansOut, by simp⟩
  coherent := fun _ _ _ _ _ hp => by cases hp
  waits := by
    intro l hl _
    have hl' : w.loop = some l := hl
    rw [World.loopIsOver, hl'] at hover
    exact .inr hover

/-- Another loop beside a world in which no run is going on, or none, keeps the books. -/
theorem setLoop (h : Books L w) (loop : Option Loop) (token : Token)
    (hidle : w.progress.isActive = true → loop = none) :
    Books L { w with loop, token } where
  calls := h.calls
  executing := h.executing
  place := h.place
  closedRuns := h.closedRuns
  currentRun := h.currentRun
  settled := h.settled
  steps := h.steps
  rule := h.rule
  coherent := fun step awake first results rest hp =>
    ⟨(h.coherent step awake first results rest hp).bound, (h.coherent _ _ _ _ _ hp).values,
      (h.coherent _ _ _ _ _ hp).waits⟩
  waits := by
    intro l hl hactive
    rw [show loop = none from hidle hactive] at hl
    cases hl

end Books

namespace History

/-- Whatever happens in a life, the books go on balancing. -/
theorem next_books {H H' : History} {h : Happening} (hnext : H.next h = some H')
    (hbooks : Books H.ledger H.world) : Books H'.ledger H'.world := by
  cases h with
  | choose c =>
    obtain ⟨w, htake, rfl⟩ := next_choose hnext
    exact hbooks.take htake
  | run token =>
    obtain ⟨hrests, hover, rfl⟩ := next_run hnext
    exact hbooks.begin hrests hover token
  | startLoop pause =>
    obtain ⟨hrests, -, rfl⟩ := next_startLoop hnext
    exact hbooks.setLoop _ _ fun hactive => by rw [hrests] at hactive; cases hactive
  | endLoop =>
    obtain ⟨-, rfl⟩ := next_endLoop hnext
    exact hbooks.setLoop none H.world.token fun _ => rfl

/-- The ledger is right at every moment of a life. -/
theorem live_books {H H' : History} {hs : List Happening} (hlive : H.live hs = some H')
    (hbooks : Books H.ledger H.world) : Books H'.ledger H'.world :=
  live_preserves (P := fun G => Books G.ledger G.world)
    (fun _ _ _ => next_books) hlive hbooks

end History
end Workplan
