import Mathlib.Tactic.Lemma
import Workplan.Proofs.Engine.Cancellation
import Workplan.Proofs.Engine.Orderly
import Workplan.Proofs.Engine.Replays

/-!
# Iterations of a loop

A loop is a run after another run of the same workflow, with pauses between them, and with
a count.  This file ties the three together.

Every world that a loop comes to is related to a world in which the workflow has been run
as many times in sequence, without any loop (`Tour`): between two runs the two have the
same surroundings, and within a run the sequence is followed by a part of one more run.
The phase of the loop says which of the two it is, and whether the run that ended last has
been counted.  Every choice keeps the relation (`Tour.take`).

The other half is about the end of a loop.  Once it is cancelled, a run that has not begun
a step begins none (`Silent`), and whoever waits for the end of the loop is handed the
count and the workflow (`Tour.hands`).
-/

namespace Workplan

/-- A run before its first step: all that it does of itself is to report, to look at the
store and to end. -/
def Run.Idle : Run → Prop
  | finish _ | enter _ _ => True
  | log _ rest => rest.Idle
  | readStore rest => ∀ store, (rest store).Idle
  | setPrompt _ _ | call _ _ _ | fanOut _ _ => False

/-- The run of a workflow begins in front of its first step. -/
lemma Workflow.nextRun_idle (f : Workflow) : f.nextRun.Idle := by
  unfold Workflow.nextRun
  cases f.steps with
  | nil => exact fun _ => trivial
  | cons s rest => trivial

/-- What a loop shows when it has counted `k` runs and `n` have ended.  Its counter begins
again at zero behind its last word; the count is never ahead of the runs that have ended,
and at most one behind. -/
def Loop.Shows (l : Loop) (k n : Nat) : Prop :=
  l.iterations = k % UInt64.size ∧ k ≤ n ∧ n ≤ k + 1

namespace World

/-! ## What a schedule makes the runs do -/

/-- The number of the step that a choice begins. -/
def entrance? (w : World) : Choice → Option Nat
  | .run =>
    match w.progress with
    | .acting _ (.enter n _) => if w.isCancelled then none else some n
    | _ => none
  | _ => none

/-- The numbers of the steps that are begun along a schedule. -/
def entrances (w : World) (cs : List Choice) : List Nat :=
  w.record entrance? cs

/-- The result in which a choice ends a run, unless the run was cut short. -/
def completion? (w : World) (c : Choice) : Option (Except WorkflowError Outcome) :=
  if w.progress.isActive then
    (w.take c).bind fun w' =>
      match w'.progress with
      | .ended (.error .cancelled) => none
      | .ended r => some r
      | _ => none
  else none

/-- The results of the runs that end along a schedule and are not cut short. -/
def completions (w : World) (cs : List Choice) : List (Except WorkflowError Outcome) :=
  w.record completion? cs

lemma completion?_of_not_active {w : World} (h : w.progress.isActive = false) (c : Choice) :
    w.completion? c = none := by
  simp [completion?, h]

lemma completion?_of_active {w w' : World} {c : Choice} (htake : w.take c = some w')
    (h : w'.progress.isActive = true ∨ w'.progress = .ended (.error .cancelled)) :
    w.completion? c = none := by
  unfold completion?
  rw [htake, Option.bind_some]
  rcases h with h | h
  · cases hp : w'.progress with
    | ended r => rw [hp] at h; cases h
    | _ => simp
  · simp [h]

lemma completion?_of_ended {w w' : World} {c : Choice} {r : Except WorkflowError Outcome}
    (hactive : w.progress.isActive = true) (htake : w.take c = some w')
    (hend : w'.progress = .ended r) (hne : r ≠ .error .cancelled) :
    w.completion? c = some r := by
  unfold completion?
  rw [if_pos hactive, htake, Option.bind_some, hend]
  split
  · next h => exact absurd (Progress.ended.inj h) hne
  · next r' h => rw [Progress.ended.inj h]
  · next h => exact absurd rfl (h r)

/-! ## Silence -/

/-- A cancelled world in which no run has begun a step. -/
structure Silent (w : World) : Prop where
  cancelled : w.isCancelled = true
  place : w.progress.isActive = false ∨ ∃ step run, w.progress = .acting step run ∧ run.Idle

/-- A move of a silent run enters no step, calls nothing, sets no prompt, and leaves the
run silent. -/
lemma RunMove.silent {w w' : World} {c : Choice} {x : Option Exchange}
    (h : RunMove w c x w') (hw : w.Silent) :
    w'.Silent ∧ w.entrance? c = none ∧ w'.calls = w.calls ∧
      w'.workflow.prompt = w.workflow.prompt := by
  obtain ⟨hc, hplace⟩ := hw
  -- A run that acts has not begun a step; one that is elsewhere has, so that it is
  -- none of these.
  have hidle : ∀ step run, w.progress = .acting step run → run.Idle := by
    intro step run hp
    rcases hplace with h | ⟨step', run', hp', h⟩
    · rw [hp] at h
      cases h
    · obtain ⟨-, rfl⟩ := Progress.acting.inj (hp'.symm.trans hp)
      exact h
  have hinside : ∀ p, w.progress = p → p.isActive = true →
      ∃ step run, p = .acting step run := by
    intro p hp hactive
    rcases hplace with h | ⟨step, run, hp', -⟩
    · rw [hp, hactive] at h
      cases h
    · exact ⟨step, run, hp.symm.trans hp'⟩
  cases h with
  | finish hp => exact ⟨⟨hc, .inl rfl⟩, by simp [entrance?, hp], rfl, rfl⟩
  | enter hp hlive => rw [hc] at hlive; cases hlive
  | refuse hp => exact ⟨⟨hc, .inl rfl⟩, by simp [entrance?, hp, hc], calls_report w _, rfl⟩
  | log hp =>
    exact ⟨⟨hc, .inr ⟨_, _, rfl, (hidle _ _ hp : _)⟩⟩, by simp [entrance?, hp],
      calls_report w _, rfl⟩
  | readStore hp =>
    exact ⟨⟨hc, .inr ⟨_, _, rfl, hidle _ _ hp _⟩⟩, by simp [entrance?, hp], rfl, rfl⟩
  | setPrompt hp | call hp | fanOut hp => exact (hidle _ _ hp).elim
  | work hp | wake hp | abandon hp | exit hp | answer hp | crash hp | gather hp
  | park hp | leave hp
  | collect hp | failure hp => obtain ⟨step, run, h⟩ := hinside _ hp rfl; cases h

/-- In a silent world nothing begins a step, calls an executor or changes the prompt. -/
lemma choice_silent {w w' : World} {c : Choice} (h : w.take c = some w') (hw : w.Silent) :
    w'.Silent ∧ w.entrance? c = none ∧ w'.calls = w.calls ∧
      w'.workflow.prompt = w.workflow.prompt := by
  by_cases hloop : c = .loop
  · subst hloop
    obtain ⟨l, -, hmove⟩ := take_loop h
    refine ⟨⟨choice_isCancelled h hw.cancelled, ?_⟩, rfl, hmove.aside.calls, by
      rw [hmove.aside.workflow]⟩
    rcases hmove.progress with hsame | ⟨hbegun, -⟩
    · rw [hsame]
      exact hw.place
    · exact .inr ⟨_, _, hbegun, w.workflow.nextRun_idle⟩
  · rcases take_move hloop h with hmove | ⟨hout, -, hapart⟩
    · exact hmove.silent hw
    -- Outside of the run and the loop, no choice enters a step or calls an executor.
    · have hentrance : w.entrance? c = none := by
        cases c with
        | run => cases hout
        | _ => rfl
      refine ⟨⟨hapart.cancelled hw.cancelled, by rw [hapart.progress]; exact hw.place⟩,
        hentrance, hapart.calls, by rw [hapart.workflow]⟩

/-- In silence no step is entered, no call is made, and the prompt stays. -/
lemma follow_silent {cs : List Choice} {w w' : World} (h : w.follow cs = some w')
    (hw : w.Silent) :
    w.entrances cs = [] ∧ w'.calls = w.calls ∧ w'.workflow.prompt = w.workflow.prompt := by
  induction cs generalizing w with
  | nil =>
    obtain rfl := Option.some.inj h
    exact ⟨rfl, rfl, rfl⟩
  | cons c rest ih =>
    obtain ⟨w₁, htake, hrest⟩ := follow_cons h
    obtain ⟨hw₁, hentrance, hcalls, hprompt⟩ := choice_silent htake hw
    obtain ⟨hentrances, hcalls', hprompt'⟩ := ih hrest hw₁
    refine ⟨?_, hcalls'.trans hcalls, hprompt'.trans hprompt⟩
    have hnone : w₁.record entrance? rest = [] := hentrances
    rw [entrances, record_cons entrance? htake, hentrance, hnone]
    rfl

/-! ## Loops and sequences of runs -/

/-- How many runs a loop has counted when `n` runs have ended and none is in progress. -/
def Tallies (w : World) (l : Loop) (counted n : Nat) : Prop :=
  match l.phase with
  | .starting | .resting _ => counted = n
  | .running => counted + 1 = n ∧ ∃ r, w.progress = .ended r ∧ r ≠ .error .cancelled
  | .counting => counted + 1 = n
  | .stopped => counted = n ∧ w.isCancelled = true
  | .crashed _ => False

/-- A world with a loop that has counted so many runs, and how it comes from running the
workflow of the world `b` several times in sequence: which choices the runs have made and
what their results were. -/
inductive Tour (b : World) (l : Loop) (w : World) (counted : Nat) :
    List Choice → List (Except WorkflowError Outcome) → Prop where
  /-- No run is in progress. -/
  | between {cs rs v} : Runs b cs rs v → Like Released w v → w.progress.isActive = false →
      Tallies w l counted rs.length → Tour b l w counted cs rs
  /-- One more run is in progress or has been cut short. -/
  | within {cs ds rs v u} (token : Token) : Runs b cs rs v →
      ({ v with token } : World).begin.follow ds = some u → Like Eq w u →
      counted = rs.length →
      (w.progress.isActive = true ∧ l.phase = .running ∨
        w.progress = .ended (.error .cancelled) ∧
          (l.phase = .running ∨ l.phase = .stopped)) →
      Tour b l w counted (cs ++ ds) rs

/-- A world with a loop whose counter shows how many runs have been counted, on a tour. -/
structure Touring (b w : World) (l : Loop) (counted : Nat) (cs : List Choice)
    (rs : List (Except WorkflowError Outcome)) : Prop where
  loop : w.loop = some l
  counter : l.counter = UInt64.ofNat counted
  tour : Tour b l w counted cs rs

section

variable {b w w' : World} {l : Loop} {k : Nat} {cs : List Choice}
  {rs : List (Except WorkflowError Outcome)} {c : Choice}

lemma Like.isCancelled {v : World} (h : Like Eq w v) : v.isCancelled = w.isCancelled := by
  rw [World.isCancelled, World.isCancelled, h.token]

/-- The run that follows a sequence of runs does not make a choice of a loop. -/
lemma Runs.rest_without_loop {v u : World} {ds : List Choice} {token : Token}
    (h : Runs b cs rs v) (hb : b.loop = .none)
    (hrun : ({ v with token } : World).begin.follow ds = some u) : .loop ∉ ds :=
  follow_without_loop (w := ({ v with token } : World).begin) (h.loop hb) hrun

/-- The run that follows a sequence of runs cannot crash, since its steps are those of
the others. -/
lemma Runs.begin_panicFree {v : World} (h : Runs b cs rs v)
    (hfree : ∀ s ∈ b.workflow.steps, ∀ e ∈ s.waitedFor, e.PanicFree) (token : Token) :
    ({ v with token } : World).begin.progress.PanicFree := by
  have hsteps : v.workflow.steps = b.workflow.steps := h.setup.steps
  exact Workflow.nextRun_panicFree (hsteps ▸ hfree)

/-- A run that has been cut short has been cancelled. -/
lemma Tour.isCancelled (h : Tour b l w k cs rs) (hb : b.loop = none)
    (hend : w.progress = .ended (.error .cancelled)) (hrunning : l.phase = .running) :
    w.isCancelled = true := by
  cases h with
  | between hruns hlike hidle htally =>
    unfold Tallies at htally
    rw [hrunning] at htally
    obtain ⟨-, r, hr, hne⟩ := htally
    exact absurd (Progress.ended.inj (hr.symm.trans hend)) hne
  | within token hruns hrun hlike hcount hplace =>
    rw [← hlike.isCancelled]
    cases hlive : (_ : World).isCancelled with
    | true => rfl
    | false =>
      -- A run that was never cancelled plays its tree, which does not end as cut short.
      have hplays := follow_plays (hruns.rest_without_loop hb hrun) hrun hlive
        (hlike.progress.trans hend)
      cases hplays with
      | acting hplays => exact absurd rfl (Workflow.nextRun_not_cancelled hplays)

/-- A choice that is neither the run's nor the loop's does not touch the relation. -/
lemma Tallies.apart {n : Nat} (h : Tallies w l k n) (hapart : Apart w w') :
    Tallies w' l k n := by
  unfold Tallies at h ⊢
  cases hphase : l.phase with
  | starting | resting | counting | crashed => rw [hphase] at h; exact h
  | running => rw [hphase] at h; rw [hapart.progress]; exact h
  | stopped => rw [hphase] at h; exact ⟨h.1, hapart.cancelled h.2⟩

/-- A choice of the loop adds nothing to the choices of the runs, and every other
one is added. -/
lemma filter_loop : [Choice.loop].filter (· ≠ .loop) = [] := rfl

lemma filter_of_ne_loop (hloop : c ≠ .loop) : [c].filter (· ≠ .loop) = [c] := by
  simp [hloop]

/-- What the loop does of itself leaves a world with the same surroundings as before. -/
lemma Like.loopMove {R : Token → Token → Prop} {v : World} (h : Like R w v)
    (hmove : LoopMove w l w') (hp : w'.progress = w.progress) : Like R w' v := by
  have haside := hmove.aside
  exact ⟨h.host.trans haside.host.symm, h.workflow.trans haside.workflow.symm,
    h.now.trans haside.now.symm, haside.token ▸ h.token, h.jobs.trans haside.jobs.symm,
    h.elsewhere.trans haside.elsewhere.symm, h.progress.trans hp.symm⟩

/-- When the loop begins a run, this is the run that would be next in sequence. -/
lemma Like.loopMove_begin {R : Token → Token → Prop} {v : World} (h : Like R w v)
    (hmove : LoopMove w l w') (hp : w'.progress = .acting 0 w.workflow.nextRun) :
    Like Eq w' ({ v with token := w'.token } : World).begin := by
  have haside := hmove.aside
  refine ⟨h.host.trans haside.host.symm, h.workflow.trans haside.workflow.symm,
    h.now.trans haside.now.symm, rfl, h.jobs.trans haside.jobs.symm,
    h.elsewhere.trans haside.elsewhere.symm, ?_⟩
  rw [hp, ← h.workflow]
  rfl

/-- What the loop does while no run is in progress. -/
lemma Tour.loopMove_between {v : World} (hruns : Runs b cs rs v) (hlike : Like Released w v)
    (hidle : w.progress.isActive = false) (htally : Tallies w l k rs.length)
    (hcounter : l.counter = UInt64.ofNat k) (hmove : LoopMove w l w') :
    ∃ l' k', k ≤ k' ∧ Touring b w' l' k' cs rs := by
  have hbegins : w'.progress = .acting 0 w.workflow.nextRun → k = rs.length →
      Tour b { l with phase := .running } w' k cs rs := by
    intro hbegun hcount
    have hstart : ({ v with token := w'.token } : World).begin.follow [] =
        some ({ v with token := w'.token } : World).begin := rfl
    have htour := Tour.within (l := { l with phase := .running }) w'.token hruns hstart
      (hlike.loopMove_begin hmove hbegun) hcount (.inl ⟨by rw [hbegun]; rfl, rfl⟩)
    rwa [List.append_nil] at htour
  have hstays : ∀ l' k', w'.progress = w.progress → Tallies w' l' k' rs.length →
      Tour b l' w' k' cs rs :=
    fun l' k' hp htally' => .between hruns (hlike.loopMove hmove hp) (hp ▸ hidle) htally'
  -- How the counter relates to the runs that have ended depends on the phase, so the
  -- cases follow the loop.
  unfold Tallies at htally
  cases hmove with
  | start hphase | again hphase =>
    rw [hphase] at htally
    exact ⟨_, k, Nat.le_refl k, rfl, hcounter, hbegins rfl htally⟩
  | settle event hphase hend hne =>
    rw [hphase] at htally
    exact ⟨_, k, Nat.le_refl k, rfl, hcounter, hstays _ k rfl htally.1⟩
  | count hphase =>
    rw [hphase] at htally
    refine ⟨_, k + 1, Nat.le_succ k, rfl, ?_, hstays _ (k + 1) rfl htally⟩
    rw [UInt64.ofNat_add, ← hcounter]
    rfl
  | quit hphase hc =>
    rw [hphase] at htally
    exact ⟨_, k, Nat.le_refl k, rfl, hcounter, hstays _ k rfl ⟨htally, hc⟩⟩
  | cut hphase hend =>
    rw [hphase] at htally
    obtain ⟨-, r, hr, hne⟩ := htally
    exact absurd (Progress.ended.inj (hr.symm.trans hend)) hne
  | crash hphase hend =>
    rw [hphase] at htally
    obtain ⟨-, r, hr, -⟩ := htally
    cases hr.symm.trans hend

/-- A choice while no run is in progress. -/
lemma Tour.take_between {v : World} (hruns : Runs b cs rs v) (hlike : Like Released w v)
    (hidle : w.progress.isActive = false) (htally : Tallies w l k rs.length)
    (hl : w.loop = some l) (hcounter : l.counter = UInt64.ofNat k)
    (htake : w.take c = some w') :
    ∃ l' k', k ≤ k' ∧ Touring b w' l' k' (cs ++ [c].filter (· ≠ .loop)) rs := by
  by_cases hloop : c = .loop
  · subst hloop
    obtain ⟨l₁, hl₁, hmove⟩ := take_loop htake
    obtain rfl : l₁ = l := Option.some.inj (hl₁.symm.trans hl)
    rw [filter_loop, List.append_nil]
    exact Tour.loopMove_between hruns hlike hidle htally hcounter hmove
  -- No run is in progress to make a move.
  · rcases take_move hloop htake with hmove | ⟨hout, -, hapart⟩
    · rw [hmove.isActive] at hidle
      cases hidle
    · obtain ⟨v', htake', hlike'⟩ := take_outside_like Released.cancel hlike hout htake
      rw [filter_of_ne_loop hloop]
      refine ⟨l, k, Nat.le_refl k, hapart.loop.trans hl, hcounter,
        .between (.aside hruns hout htake') hlike' ?_ (htally.apart hapart)⟩
      rw [hapart.progress]
      exact hidle

/-- What the loop does while a run is in progress or has been cut short: it can only take
notice that the run has been cut short. -/
lemma Tour.loopMove_within {v u : World} {ds : List Choice} {token : Token}
    (hruns : Runs b cs rs v) (hrun : ({ v with token } : World).begin.follow ds = some u)
    (hlike : Like Eq w u) (hcount : k = rs.length)
    (hplace : w.progress.isActive = true ∧ l.phase = .running ∨
      w.progress = .ended (.error .cancelled) ∧ (l.phase = .running ∨ l.phase = .stopped))
    (hcounter : l.counter = UInt64.ofNat k) (hmove : LoopMove w l w') :
    w.completion? .loop = none ∧ ∃ l', Touring b w' l' k (cs ++ ds) rs := by
  -- While the run is in progress, the loop has nothing to do.
  have hcut : w.progress = .ended (.error .cancelled) := by
    rcases hplace with ⟨hactive, hrunning⟩ | ⟨hcut, -⟩
    · cases hmove with
      | settle _ _ hend | cut _ hend | crash _ hend => rw [hend] at hactive; cases hactive
      | start h | count h | quit h | again h => rw [hrunning] at h; cases h
    · exact hcut
  refine ⟨completion?_of_not_active (by rw [hcut]; rfl) _, ?_⟩
  cases hmove with
  | cut hphase =>
    exact ⟨_, rfl, hcounter,
      .within token hruns hrun (hlike.loopMove (.cut hphase hcut) rfl) hcount
      (.inr ⟨hcut, .inr rfl⟩)⟩
  | settle event hphase hend hne =>
    exact absurd (Progress.ended.inj (hend.symm.trans hcut)) hne
  | crash hphase hend => cases hend.symm.trans hcut
  | start hphase | count hphase | quit hphase | again hphase =>
    rcases hplace with ⟨-, h⟩ | ⟨-, h | h⟩ <;> rw [hphase] at h <;> cases h

/-- A run of a loop that was not cut short has gone as if it could not have been
cancelled, and is one more of the sequence. -/
lemma Tour.ended {v u : World} {ds : List Choice} {token : Token}
    {r : Except WorkflowError Outcome} (hruns : Runs b cs rs v) (hb : b.loop = none)
    (hrun : ({ v with token } : World).begin.follow ds = some u) (hlike : Like Eq w u)
    (hcount : k = rs.length) (hphase : l.phase = .running) (hend : w.progress = .ended r)
    (hr : r ≠ .error .cancelled) : Tour b l w k (cs ++ ds) (rs ++ [r]) := by
  have hreleased : Like Released ({ v with token } : World).begin
      ({ v with token := .absent } : World).begin :=
    ⟨rfl, rfl, rfl, rfl, rfl, rfl, rfl⟩
  have hend' : u.progress = .ended r := hlike.progress.trans hend
  -- Had it mattered that the run could be cancelled, it would have been cut short.
  obtain ⟨v', hfollow', hlike'⟩ :=
    follow_uncancellable (hruns.rest_without_loop hb hrun) hrun hreleased
    (by rw [hend']; exact fun h => hr (Progress.ended.inj h))
  have htoken : v'.token = .absent := hlike'.token
  refine .between (.run .absent hruns hfollow' (by simp [World.isCancelled, htoken])
    (hlike'.progress.trans hend')) ?_ (by rw [hend]; rfl) ?_
  · exact ⟨hlike'.host.trans hlike.host, hlike'.workflow.trans hlike.workflow,
      hlike'.now.trans hlike.now,
      htoken, hlike'.jobs.trans hlike.jobs, hlike'.elsewhere.trans hlike.elsewhere,
      hlike'.progress.trans hlike.progress⟩
  · unfold Tallies
    rw [hphase, List.length_append, ← hcount]
    exact ⟨rfl, r, hend, hr⟩

/-- A choice while a run is in progress or has been cut short. -/
lemma Tour.take_within {v u : World} {ds : List Choice} {token : Token}
    (hruns : Runs b cs rs v) (hb : b.loop = none)
    (hfree : ∀ s ∈ b.workflow.steps, ∀ e ∈ s.waitedFor, e.PanicFree)
    (hrun : ({ v with token } : World).begin.follow ds = some u) (hlike : Like Eq w u)
    (hcount : k = rs.length)
    (hplace : w.progress.isActive = true ∧ l.phase = .running ∨
      w.progress = .ended (.error .cancelled) ∧ (l.phase = .running ∨ l.phase = .stopped))
    (hl : w.loop = some l) (hcounter : l.counter = UInt64.ofNat k)
    (htake : w.take c = some w') :
    ∃ l', Touring b w' l' k (cs ++ ds ++ [c].filter (· ≠ .loop))
      (rs ++ (w.completion? c).toList) := by
  by_cases hloop : c = .loop
  · subst hloop
    obtain ⟨l₁, hl₁, hmove⟩ := take_loop htake
    obtain rfl : l₁ = l := Option.some.inj (hl₁.symm.trans hl)
    obtain ⟨hnone, htour⟩ :=
      Tour.loopMove_within hruns hrun hlike hcount hplace hcounter hmove
    rw [hnone, Option.toList_none, filter_loop, List.append_nil, List.append_nil]
    exact htour
  · obtain ⟨u', htake', hlike'⟩ :=
      take_like (fun _ _ h => congrArg Token.cancel h) hlike hloop htake
      (.inl hlike.isCancelled)
    have hrun' : ({ v with token } : World).begin.follow (ds ++ [c]) = some u' := by
      rw [follow_append, hrun, Option.bind_some, follow, htake']
      rfl
    rw [filter_of_ne_loop hloop, List.append_assoc]
    refine ⟨l, (take_keeps_loop hloop htake).trans hl, hcounter, ?_⟩
    have hstays : w'.progress.isActive = true ∧ l.phase = .running ∨
        w'.progress = .ended (.error .cancelled) ∧
          (l.phase = .running ∨ l.phase = .stopped) →
        w.completion? c = none →
        Tour b l w' k (cs ++ (ds ++ [c])) (rs ++ (w.completion? c).toList) := by
      intro hplace' hnone
      rw [hnone, Option.toList_none, List.append_nil]
      exact .within token hruns hrun' hlike' hcount hplace'
    -- Unless the run ends here, and not as cut short, the tour stays within its run and
    -- nothing is completed.
    rcases hplace with ⟨hactive, hrunning⟩ | ⟨hcut, hphase⟩
    · have hgoes : w'.progress.PanicFree := by
        rw [← hlike'.progress]
        exact follow_panicFree (hruns.rest_without_loop hb hrun') hrun'
          (hruns.begin_panicFree hfree token)
      cases hp : w'.progress with
      | idle | crashed => rw [hp] at hgoes; exact hgoes.elim
      | acting | calling | joining =>
        have hactive' : w'.progress.isActive = true := by rw [hp]; rfl
        exact hstays (.inl ⟨hactive', hrunning⟩)
          (completion?_of_active htake (.inl hactive'))
      | ended r =>
        by_cases hr : r = .error .cancelled
        · subst hr
          exact hstays (.inr ⟨hp, .inl hrunning⟩) (completion?_of_active htake (.inr hp))
        · rw [completion?_of_ended hactive htake hp hr]
          exact Tour.ended hruns hb hrun' hlike' hcount hrunning hp hr
    · have hsame : w'.progress = w.progress := by
        rcases take_move hloop htake with hmove | ⟨-, -, hapart⟩
        · exact absurd hcut (hmove.not_ended _)
        · exact hapart.progress
      exact hstays (.inr ⟨hsame.trans hcut, hphase⟩)
        (completion?_of_not_active (by rw [hcut]; rfl) c)

/-- Every choice keeps a loop in step with a sequence of runs, and takes back nothing that
it counted. -/
lemma Touring.take (h : Touring b w l k cs rs) (hb : b.loop = none)
    (hfree : ∀ s ∈ b.workflow.steps, ∀ e ∈ s.waitedFor, e.PanicFree)
    (htake : w.take c = some w') :
    ∃ l' k', k ≤ k' ∧
      Touring b w' l' k' (cs ++ [c].filter (· ≠ .loop))
        (rs ++ (w.completion? c).toList) := by
  obtain ⟨hl, hcounter, htour⟩ := h
  cases htour with
  | between hruns hlike hidle htally =>
    rw [completion?_of_not_active hidle, Option.toList_none, List.append_nil]
    exact Tour.take_between hruns hlike hidle htally hl hcounter htake
  | within token hruns hrun hlike hcount hplace =>
    obtain ⟨l', h'⟩ :=
      Tour.take_within hruns hb hfree hrun hlike hcount hplace hl hcounter htake
    exact ⟨l', k, Nat.le_refl k, h'⟩

lemma Touring.follow {ds : List Choice} (h : Touring b w l k cs rs) (hb : b.loop = none)
    (hfree : ∀ s ∈ b.workflow.steps, ∀ e ∈ s.waitedFor, e.PanicFree)
    (hfollow : w.follow ds = some w') :
    ∃ l' k', k ≤ k' ∧ Touring b w' l' k' (cs ++ ds.filter (· ≠ .loop))
      (rs ++ w.completions ds) := by
  induction ds generalizing w l k cs rs with
  | nil =>
    obtain rfl := Option.some.inj hfollow
    rw [List.filter_nil, List.append_nil, completions, record_nil, List.append_nil]
    exact ⟨l, k, Nat.le_refl k, h⟩
  | cons c rest ih =>
    obtain ⟨w₁, htake, hrest⟩ := follow_cons hfollow
    obtain ⟨l₁, k₁, hk₁, h₁⟩ := h.take hb hfree htake
    obtain ⟨l', k', hk', h'⟩ := ih h₁ hrest
    refine ⟨l', k', Nat.le_trans hk₁ hk', ?_⟩
    rw [completions, record_cons completion? htake, ← List.append_assoc]
    rw [show c :: rest = [c] ++ rest from rfl, List.filter_append, ← List.append_assoc]
    exact h'

end

/-! ## Behind a failed run -/

section

variable {w w' : World} {l : Loop}

lemma take_loop_of_counting (hl : w.loop = some l) (hphase : l.phase = .counting) :
    w.take .loop = some (w.loopTo { l with counter := l.counter + 1 }
      (.resting (l.pause.map (w.now + ·)))) := by
  simp only [take, stepLoop, hl, hphase]

lemma take_loop_of_due {wake : Option Nat} (hl : w.loop = some l)
    (hphase : l.phase = .resting wake) (hlive : w.isCancelled = false)
    (hdue : wake.any (· ≤ w.now) = true) :
    w.take .loop = some (w.begin.loopTo l .running) := by
  simp [take, stepLoop, hl, hphase, hlive, hdue]

/-- A loop takes notice of a run that has ended otherwise than cut short, and
counts it next. -/
lemma take_loop_of_ended {r : Except WorkflowError Outcome} (hl : w.loop = some l)
    (hphase : l.phase = .running) (hend : w.progress = .ended r)
    (hne : r ≠ .error .cancelled) :
    ∃ event, w.take .loop = some ((w.report event).loopTo l .counting) := by
  cases r with
  | ok outcome => exact ⟨_, by simp only [take, stepLoop, hl, hphase, hend]; rfl⟩
  | error e =>
    cases e with
    | cancelled => exact absurd rfl hne
    | executor | iterationSource | loopTask =>
      exact ⟨_, by simp only [take, stepLoop, hl, hphase, hend]; rfl⟩

/-- A failed run does not end the loop: it is counted, and after the pause the next
run begins. -/
lemma follow_after_failure {e : WorkflowError} {pause : Nat} (hl : w.loop = some l)
    (hphase : l.phase = .running) (hend : w.progress = .ended (.error e))
    (hne : e ≠ .cancelled) (hlive : w.isCancelled = false) (hpause : l.pause = some pause) :
    ∃ w', w.follow [.loop, .loop, .pass pause, .loop] = some w' ∧
      w'.progress = .acting 0 w.workflow.nextRun ∧
      w'.loop = some { l with counter := l.counter + 1 } := by
  obtain ⟨event, hsettle⟩ := take_loop_of_ended hl hphase hend (by simpa using hne)
  -- The loop settles the failed run, counts it, lets the pause go by, and begins
  -- the next one.
  let w₁ : World := (w.report event).loopTo l .counting
  let l₂ : Loop := { l with phase := .counting, counter := l.counter + 1 }
  let w₂ : World := w₁.loopTo l₂ (.resting (some (w.now + pause)))
  let w₃ : World := { w₂ with now := w.now + pause }
  have hcount : w₁.take .loop = some w₂ := by
    have hl₁ : w₁.loop = some { l with phase := .counting } := rfl
    rw [take_loop_of_counting hl₁ rfl]
    show some (w₁.loopTo l₂ (.resting (l.pause.map (w.now + ·)))) = some w₂
    rw [hpause]
    rfl
  have hpass : w₂.take (.pass pause) = some w₃ := rfl
  have hl₃ : w₃.loop = some { l₂ with phase := .resting (some (w.now + pause)) } := rfl
  have hagain := take_loop_of_due hl₃ rfl hlive (decide_eq_true (Nat.le_refl _))
  refine ⟨w₃.begin.loopTo l₂ .running, ?_, rfl, ?_⟩
  · simp only [follow, hsettle, Option.bind_some]
    rw [hcount, Option.bind_some, hpass, Option.bind_some, hagain, Option.bind_some]
    rfl
  · show some ({ l₂ with phase := .running } : Loop) =
      some { l with counter := l.counter + 1 }
    rw [← hphase]

end

/-! ## What a loop amounts to -/

/-- The choices of some runs, in sequence, and at most of one more that is cut short, lead
from the world `b` to what the world `w` has around its loop. -/
def Sequence (b : World) (cs : List Choice) (rs : List (Except WorkflowError Outcome))
    (w : World) : Prop :=
  ∃ ds es v, cs = ds ++ es ∧ Runs b ds rs v ∧
    (es = [] ∧ Like Released w v ∨
      ∃ token u, ({ v with token } : World).begin.follow es = some u ∧
        u.progress = .ended (.error .cancelled) ∧ Like Eq w u)

section

variable {b w : World} {l : Loop} {k : Nat} {cs : List Choice}
  {rs : List (Except WorkflowError Outcome)}

/-- The count is never ahead of the runs that have ended, and at most one behind. -/
lemma Tour.counts (h : Tour b l w k cs rs) : k ≤ rs.length ∧ rs.length ≤ k + 1 := by
  cases h with
  | within token hruns hrun hlike hcount hplace => omega
  | between hruns hlike hidle htally =>
    unfold Tallies at htally
    cases hphase : l.phase with
    | starting | resting | counting => rw [hphase] at htally; dsimp only at htally; omega
    | running | stopped => rw [hphase] at htally; have := htally.1; omega
    | crashed => rw [hphase] at htally; exact htally.elim

/-- A loop that waits for a run has begun one. -/
lemma Tour.begun (h : Tour b l w k cs rs) (hrunning : l.phase = .running) :
    w.progress ≠ .idle := by
  intro hidle
  cases h with
  | within token hruns hrun hlike hcount hplace =>
    rw [hidle] at hplace
    rcases hplace with ⟨hactive, -⟩ | ⟨hend, -⟩
    · cases hactive
    · cases hend
  | between hruns hlike _ htally =>
    unfold Tallies at htally
    rw [hrunning] at htally
    obtain ⟨-, r, hr, -⟩ := htally
    cases hr.symm.trans hidle

/-- A loop that is over has been stopped, and after a cancellation. -/
lemma Tour.over (h : Tour b l w k cs rs) (hb : b.loop = none)
    (hover : l.phase.isOver = true) :
    l.phase = .stopped ∧ w.isCancelled = true := by
  cases h with
  | within token hruns hrun hlike hcount hplace =>
    rcases hplace with ⟨-, hphase⟩ | ⟨hend, hphase | hphase⟩
    · rw [hphase] at hover
      cases hover
    · rw [hphase] at hover
      cases hover
    · -- As far as the run is concerned, the loop might as well not have noticed yet.
      have hrunning : Tour b { l with phase := .running } w k _ rs :=
        .within token hruns hrun hlike hcount (.inr ⟨hend, .inl rfl⟩)
      exact ⟨hphase, hrunning.isCancelled hb hend rfl⟩
  | between hruns hlike hidle htally =>
    unfold Tallies at htally
    cases hphase : l.phase with
    | starting | running | counting | resting => rw [hphase] at hover; cases hover
    | stopped => rw [hphase] at htally; exact ⟨rfl, htally.2⟩
    | crashed => rw [hphase] at htally; exact htally.elim

/-- What a loop on a tour shows. -/
lemma Touring.shows (h : Touring b w l k cs rs) : l.Shows k rs.length := by
  refine ⟨?_, h.tour.counts⟩
  rw [Loop.iterations, h.counter, UInt64.toNat_ofNat']

/-- A stopped loop has counted all runs that ended, and leaves what they leave in
sequence. -/
lemma Tour.sequence (h : Tour b l w k cs rs) (hstopped : l.phase = .stopped) :
    k = rs.length ∧ Sequence b cs rs w := by
  cases h with
  | within token hruns hrun hlike hcount hplace =>
    rcases hplace with ⟨-, hphase⟩ | ⟨hend, -⟩
    · rw [hstopped] at hphase
      cases hphase
    · exact ⟨hcount, _, _, _, rfl, hruns,
        .inr ⟨token, _, hrun, hlike.progress.trans hend, hlike⟩⟩
  | between hruns hlike hidle htally =>
    unfold Tallies at htally
    rw [hstopped] at htally
    exact ⟨htally.1, _, _, _, (List.append_nil _).symm, hruns, .inl ⟨rfl, hlike⟩⟩

/-- Whoever waits for the end of a loop is handed the number of the runs that have ended,
and the world that these leave in sequence. -/
lemma Touring.hands (h : Touring b w l k cs rs) (hb : b.loop = none)
    {answer : Except WorkflowError (UInt64 × World)} (hend : w.loopEnd? = some answer) :
    answer = .ok (UInt64.ofNat rs.length, { w with loop := none }) ∧
      Sequence b cs rs w := by
  obtain ⟨hl, hcounter, htour⟩ := h
  unfold loopEnd? at hend
  rw [hl] at hend
  have hover : l.phase.isOver = true := by
    obtain ⟨pause, counter, phase⟩ := l
    cases phase with
    | stopped | crashed => rfl
    | starting | running | counting | resting => cases hend
  obtain ⟨hstopped, -⟩ := htour.over hb hover
  obtain ⟨rfl, hsequence⟩ := htour.sequence hstopped
  refine ⟨?_, hsequence⟩
  obtain ⟨pause, counter, phase⟩ := l
  obtain rfl : phase = .stopped := hstopped
  obtain rfl : counter = UInt64.ofNat rs.length := hcounter
  exact (Option.some.inj hend).symm

end

/-- What is handed over, once the loop that began in a world is over: the number of the
runs that have ended along the schedule otherwise than cut short, and the world that these
runs leave in sequence, followed by at most one run that is cut short. -/
def Hands (w : World) (pause : Option Nat) (cs : List Choice) (w' : World)
    (answer : Except WorkflowError (UInt64 × World)) : Prop :=
  answer = .ok (UInt64.ofNat ((w.startLoop pause).completions cs).length,
    { w' with loop := none }) ∧
    Sequence { w with token := .absent, loop := none } (cs.filter (· ≠ .loop))
      ((w.startLoop pause).completions cs) w'

section

variable {w w' : World} {pause : Option Nat} {cs : List Choice}

/-- A loop that begins is on a tour. -/
lemma touring_startLoop (pause : Option Nat) (hidle : w.progress.isActive = false)
    (hfree : ∀ s ∈ w.workflow.steps, ∀ e ∈ s.waitedFor, e.PanicFree)
    (hfollow : (w.startLoop pause).follow cs = some w') :
    ∃ l k, Touring { w with token := .absent, loop := none } w' l k (cs.filter (· ≠ .loop))
      ((w.startLoop pause).completions cs) := by
  have hstart : Touring { w with token := .absent, loop := none }
      (w.startLoop pause) { pause } 0 [] [] :=
    ⟨rfl, rfl, .between .none ⟨rfl, rfl, rfl, rfl, rfl, rfl, rfl⟩ hidle rfl⟩
  obtain ⟨l, k, -, h⟩ := hstart.follow rfl hfree hfollow
  exact ⟨l, k, h⟩

/-- A loop that is over has something to hand over. -/
lemma exists_loopEnd {l : Loop} (hl : w.loop = some l) (hover : l.phase.isOver = true) :
    ∃ answer, w.loopEnd? = some answer := by
  unfold loopEnd?
  rw [hl]
  obtain ⟨pause, counter, phase⟩ := l
  cases phase with
  | stopped | crashed => exact ⟨_, rfl⟩
  | starting | running | counting | resting => cases hover

/-- A world on a tour that has been cancelled. -/
structure Ending (b w : World) : Prop where
  cancelled : w.isCancelled = true
  touring : ∃ l k cs rs, Touring b w l k cs rs

variable {b : World}

lemma Ending.take {c : Choice} (h : Ending b w) (hb : b.loop = none)
    (hfree : ∀ s ∈ b.workflow.steps, ∀ e ∈ s.waitedFor, e.PanicFree)
    (htake : w.take c = some w') :
    Ending b w' := by
  obtain ⟨hc, l, k, cs, rs, htouring⟩ := h
  obtain ⟨l', k', -, htouring'⟩ := htouring.take hb hfree htake
  exact ⟨choice_isCancelled htake hc, l', k', _, _, htouring'⟩

/-- The loop of such a world is over, or it or its run can act at once. -/
lemma Ending.own (h : Ending b w) : (∃ answer, w.loopEnd? = some answer) ∨
    ∃ c w', c.isOutside = false ∧ w.take c = some w' := by
  obtain ⟨hc, l, k, cs, rs, htouring⟩ := h
  cases hover : l.phase.isOver with
  | true => exact .inl (exists_loopEnd htouring.loop hover)
  | false => exact .inr (exists_own hc htouring.loop hover htouring.tour.begun)

lemma Ending.acc (h : Ending b w) : Acc Onward w := by
  obtain ⟨hc, l, k, cs, rs, htouring⟩ := h
  exact acc_onward hc htouring.loop

/-- From such a world some schedule leads to the end of the loop. -/
lemma Ending.exists_end (h : Ending b w) (hb : b.loop = none)
    (hfree : ∀ s ∈ b.workflow.steps, ∀ e ∈ s.waitedFor, e.PanicFree) :
    ∃ ds w' answer, w.follow ds = some w' ∧ w'.loopEnd? = some answer := by
  obtain ⟨ds, w', hfollow, answer, hend⟩ := World.exists_end (P := Ending b)
    (Q := fun v => ∃ answer, v.loopEnd? = some answer) h.acc h fun v hv => hv.own.imp_right
      fun ⟨c, v', hown, htake⟩ => ⟨c, v', hown, htake, hv.take hb hfree htake⟩
  exact ⟨ds, w', answer, hfollow, hend⟩

/-- On every endless course that is fair to the loop it comes to its end. -/
lemma Ending.ends (h : Ending b w) (hb : b.loop = none)
    (hfree : ∀ s ∈ b.workflow.steps, ∀ e ∈ s.waitedFor, e.PanicFree) {ω : Nat → World}
    {σ : Nat → Choice} (hω : ω 0 = w) (hcourse : Course ω σ) (hfair : Fair ω σ) :
    ∃ i answer, (ω i).loopEnd? = some answer := by
  have hending : ∀ i, Ending b (ω i) := by
    intro i
    induction i with
    | zero => rwa [hω]
    | succ i ih => exact ih.take hb hfree (hcourse i)
  exact hcourse.ends (Q := fun v => ∃ answer, v.loopEnd? = some answer) hfair
    (hending 0).acc fun i => (hending i).own

/-- So does the orderly schedule, after so many choices. -/
lemma Ending.settles (h : Ending b w) (hb : b.loop = none)
    (hfree : ∀ s ∈ b.workflow.steps, ∀ e ∈ s.waitedFor, e.PanicFree) :
    ∃ n, ∀ choices, n ≤ choices → ∃ ds v answer, w.follow ds = some v ∧
      v = w.settle { isDone := loopIsOver } choices ∧ v.loopEnd? = some answer := by
  have hP : ∀ v, Ending b v → v.isCancelled = true ∧
      ∃ l, v.loop = some l ∧ (l.phase = .running → v.progress ≠ .idle) :=
    fun v ⟨hc, l, k, cs, rs, htouring⟩ => ⟨hc, l, htouring.loop, htouring.tour.begun⟩
  obtain ⟨n, hn⟩ := settle_ends hP (fun v c v' hv htake => hv.take hb hfree htake) h
  refine ⟨n, fun choices hle => ?_⟩
  obtain ⟨ds, hds⟩ := settle_follows { isDone := loopIsOver } choices w
  obtain ⟨-, l, k, cs, rs, htouring⟩ :=
    follow_preserves (P := Ending b) (fun _ _ _ _ htake hv => hv.take hb hfree htake) hds h
  have hover : l.phase.isOver = true := by
    simpa [loopIsOver, htouring.loop] using hn choices hle
  obtain ⟨answer, hend⟩ := exists_loopEnd htouring.loop hover
  exact ⟨ds, _, answer, hds, rfl, hend⟩

end

/-- Loops, on every schedule.  A loop ends only by being stopped, and only when it has
been cancelled; a failed run is counted and followed by the next one after the pause.
Once the loop is cancelled, a run that has not begun a step begins none, calls nothing and
leaves the prompt alone.  The count that the loop shows is never ahead of the runs that
have ended otherwise than cut short, at most one behind them, and never goes back.

When a loop is over, whoever waits for it is handed the number of exactly those runs, and
the workflow as they leave it in sequence, followed by at most one run that is cut short.
It can be stopped at any time: behind the cancellation, from wherever things have come
some schedule leads to the end, every endless course leads to it that is fair to the loop,
and so does the orderly schedule. -/
theorem loop_repeats_runs {w w' : World} {pause : Option Nat} {cs : List Choice}
    (hidle : w.progress.isActive = false)
    (hfree : ∀ s ∈ w.workflow.steps, ∀ e ∈ s.waitedFor, e.PanicFree)
    (hfollow : (w.startLoop pause).follow cs = some w') :
    ∃ l k, w'.loop = some l ∧
      (l.phase.isOver = true → l.phase = .stopped ∧ w'.isCancelled = true) ∧
      (∀ e t, l.phase = .running → w'.progress = .ended (.error e) →
        w'.isCancelled = false →
        pause = some t → ∃ w₂, w'.follow [.loop, .loop, .pass t, .loop] = some w₂ ∧
          w₂.progress = .acting 0 w'.workflow.nextRun ∧
          w₂.loop = some { l with counter := l.counter + 1 }) ∧
      (w'.isCancelled = true →
        (w'.progress.isActive = false ∨ w'.progress = .acting 0 w'.workflow.nextRun) →
        ∀ ds w₂, w'.follow ds = some w₂ → w'.entrances ds = [] ∧ w₂.calls = w'.calls ∧
          w₂.workflow.prompt = w'.workflow.prompt) ∧
      l.Shows k ((w.startLoop pause).completions cs).length ∧
      (∀ ds w₂, w'.follow ds = some w₂ → ∃ l₂ k₂, w₂.loop = some l₂ ∧ k ≤ k₂ ∧
        l₂.Shows k₂ ((w.startLoop pause).completions (cs ++ ds)).length) ∧
      (∀ answer, w'.loopEnd? = some answer → w.Hands pause cs w' answer) ∧
      (∀ ds w₂, w'.follow (.cancel :: ds) = some w₂ →
        (∀ answer, w₂.loopEnd? = some answer →
          w.Hands pause (cs ++ .cancel :: ds) w₂ answer) ∧
        ∃ es w₃ answer, w₂.follow es = some w₃ ∧ w₃.loopEnd? = some answer) ∧
      (∀ ω σ, ω 0 = w'.cancelNow → Course ω σ → Fair ω σ →
        ∃ i answer, (ω i).loopEnd? = some answer ∧
          w.Hands pause (cs ++ .cancel :: (List.range i).map σ) (ω i) answer) ∧
      ∃ n, ∀ choices, n ≤ choices → ∃ ds w₂ count left,
        w'.follow (.cancel :: ds) = some w₂ ∧ w₂.loopEnd? = some (.ok (count, left)) ∧
          w.Hands pause (cs ++ .cancel :: ds) w₂ (.ok (count, left)) ∧
          w'.stopWithin choices = (.ok count.toNat, left) := by
  obtain ⟨l, k, htouring⟩ := touring_startLoop pause hidle hfree hfollow
  -- A loop can be cancelled from outside, and stays so.
  have hcancelled : w'.cancelNow.isCancelled = true := by
    have htoken : w'.token ≠ .absent := follow_cancellable hfollow (by simp [startLoop])
    unfold cancelNow World.isCancelled
    cases ht : w'.token with
    | absent => exact absurd ht htoken
    | live | cancelled => rfl
  have hcancel : w'.take .cancel = some w'.cancelNow := rfl
  have hending : Ending { w with token := .absent, loop := none } w'.cancelNow := by
    obtain ⟨l₁, k₁, -, htouring₁⟩ := htouring.take rfl hfree hcancel
    exact ⟨hcancelled, l₁, k₁, _, _, htouring₁⟩
  have hthen : ∀ ds w₂, w'.cancelNow.follow ds = some w₂ →
      (w.startLoop pause).follow (cs ++ .cancel :: ds) = some w₂ ∧
        w'.follow (.cancel :: ds) = some w₂ := by
    intro ds w₂ hds
    rw [follow_append, hfollow, Option.bind_some, World.follow, hcancel, Option.bind_some]
    exact ⟨hds, hds⟩
  have hhands : ∀ ds w₂, (w.startLoop pause).follow ds = some w₂ → ∀ answer,
      w₂.loopEnd? = some answer → w.Hands pause ds w₂ answer := by
    intro ds w₂ hds answer hend
    obtain ⟨l₂, k₂, htouring₂⟩ := touring_startLoop pause hidle hfree hds
    exact htouring₂.hands rfl hend
  refine ⟨l, k, htouring.loop, fun hover => htouring.tour.over rfl hover,
    fun e t hrunning hend hlive hpause => ?_, fun hc hplace ds w₂ hfollow₂ => ?_,
    htouring.shows,
    fun ds w₂ hfollow₂ => ?_, hhands cs w' hfollow, fun ds w₂ hfollow₂ => ?_,
    fun ω σ hω hcourse hfair => ?_, ?_⟩
  -- Only a cancelled run fails as cut short, so that this failure is counted.
  · have hne : e ≠ .cancelled := by
      rintro rfl
      rw [htouring.tour.isCancelled rfl hend hrunning] at hlive
      cases hlive
    have hkept : l.pause = pause := follow_pauses (l := { pause }) rfl hfollow htouring.loop
    exact follow_after_failure htouring.loop hrunning hend hne hlive (hkept.trans hpause)
  -- A run that is about to begin has not entered a step.
  · have hplace' : w'.progress.isActive = false ∨
        ∃ step run, w'.progress = .acting step run ∧ run.Idle :=
      hplace.imp id fun hbegun => ⟨_, _, hbegun, w'.workflow.nextRun_idle⟩
    exact follow_silent hfollow₂ ⟨hc, hplace'⟩
  · obtain ⟨l₂, k₂, hle, htouring₂⟩ := htouring.follow rfl hfree hfollow₂
    have hshows := htouring₂.shows
    refine ⟨l₂, k₂, htouring₂.loop, hle, ?_⟩
    rw [completions, record_append completion? hfollow]
    exact hshows
  · rw [World.follow, hcancel, Option.bind_some] at hfollow₂
    have hending₂ :=
      follow_preserves (P := Ending { w with token := .absent, loop := none })
      (fun _ _ _ _ htake hv => hv.take rfl hfree htake) hfollow₂ hending
    exact ⟨hhands _ w₂ (hthen ds w₂ hfollow₂).1, hending₂.exists_end rfl hfree⟩
  · obtain ⟨i, answer, hend⟩ := hending.ends rfl hfree hω hcourse hfair
    have hi := hcourse.follow i
    rw [hω] at hi
    exact ⟨i, answer, hend, hhands _ _ (hthen _ _ hi).1 answer hend⟩
  -- To stop the loop is to cancel it and to let it settle.
  · obtain ⟨n, hn⟩ := hending.settles rfl hfree
    refine ⟨n, fun choices hle => ?_⟩
    obtain ⟨ds, w₂, answer, hds, hsettle, hend⟩ := hn choices hle
    obtain ⟨hfollow₂, hfollow₂'⟩ := hthen ds w₂ hds
    have hanswer := hhands _ w₂ hfollow₂ answer hend
    obtain rfl := hanswer.1
    refine ⟨ds, w₂, _, _, hfollow₂', hend, hanswer, ?_⟩
    rw [stopWithin, ← hsettle]
    simp only [hend]

/-- A world with one step, which fails. -/
def failingWorld : World where
  host := fun _ _ => .refused "no program"
  workflow :=
    { name := "failing", prompt := none
      steps := [
        { action := .sequence [(ExecutorSpec.fail "no").toExecutor 0],
          description := "fail" }] }

/-- A loop whose first run fails and whose second run has begun, but no step yet. -/
def failingSchedule : List Choice :=
  .loop :: List.replicate 7 .run ++ [.loop, .loop, .pass 5, .loop]

/-- How such a loop ends when it is stopped then. -/
def stoppingSchedule : List Choice :=
  [.cancel, .run, .loop]

/-- Whoever stops this loop is told of one run, and finds what one run leaves. -/
theorem loop_repeats_runs_failing :
    ∃ w' w₂ l k, (failingWorld.startLoop (some 5)).follow failingSchedule = some w' ∧
      w'.loop = some l ∧ l.iterations = 1 ∧ l.Shows k 1 ∧
      w'.follow stoppingSchedule = some w₂ ∧
      failingWorld.Hands (some 5) (failingSchedule ++ stoppingSchedule) w₂
        (.ok (1, { w₂ with loop := none })) ∧
      w'.stopLoop = (.ok 1, { w₂ with loop := none }) := by
  have hfree : ∀ s ∈ failingWorld.workflow.steps, ∀ e ∈ s.waitedFor, e.PanicFree := by
    intro s hs e he
    obtain rfl : s = _ := List.mem_singleton.mp hs
    obtain rfl : e = _ := List.mem_singleton.mp he
    exact fun _ => trivial
  obtain ⟨w', w₂, hfollow, hloop, hended, hstop, hend, hfuel⟩ :
      ∃ w' w₂, (failingWorld.startLoop (some 5)).follow failingSchedule = some w' ∧
        w'.loop = some ⟨some 5, 1, .running⟩ ∧
        ((failingWorld.startLoop (some 5)).completions failingSchedule).length = 1 ∧
        w'.follow stoppingSchedule = some w₂ ∧
        w₂.loopEnd? = some (.ok (1, { w₂ with loop := none })) ∧
        w'.stopLoop = (.ok 1, { w₂ with loop := none }) :=
    ⟨_, _, rfl, rfl, rfl, rfl, rfl, rfl⟩
  obtain ⟨l, k, hl, -, -, -, hshows, -, -, hstops, -⟩ := loop_repeats_runs rfl hfree hfollow
  obtain rfl : ⟨some 5, 1, .running⟩ = l := Option.some.inj (hloop.symm.trans hl)
  rw [hended] at hshows
  exact ⟨w', w₂, _, k, hfollow, hl, rfl, hshows, hstop, (hstops _ w₂ hstop).1 _ hend, hfuel⟩

end World
end Workplan
