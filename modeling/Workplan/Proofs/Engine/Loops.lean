import Mathlib.Tactic.Lemma
import Workplan.Proofs.Engine.Completion

/-!
# The loop's own actions

A loop begins a run, looks how it ended, counts it, rests and begins again (`LoopMove`).
Whatever it does, it leaves the store, the prompt, the started calls and the clock alone,
and a run in progress too (`LoopMove.aside`).  What the other files say about the choices
of runs and calls therefore holds of all choices (`choice_isCancelled`, `choice_kept`,
`choice_isCoherent`).
-/

namespace Workplan

/-- Whether a run is going on. -/
def Progress.isActive : Progress → Bool
  | acting _ _ | calling _ _ _ | joining _ _ _ _ _ => true
  | idle | ended _ | crashed _ => false

namespace World

/-- A run makes moves only while it is in progress. -/
theorem RunMove.isActive {w w' : World} {c : Choice} {x : Option Exchange}
    (h : RunMove w c x w') :
    w.progress.isActive = true := by
  cases h with
  | finish hp | enter hp | refuse hp | log hp | setPrompt hp | readStore hp
  | call hp | fanOut hp
  | work hp | wake hp | abandon hp | exit hp | answer hp | crash hp | gather hp
  | park hp | leave hp
  | collect hp | failure hp => rw [hp]; rfl

/-- Everything that a loop can do by itself. -/
inductive LoopMove (w : World) (l : Loop) : World → Prop where
  | start : l.phase = .starting →
      LoopMove w l ((w.report (.loopStarted w.workflow.name)).begin.loopTo l .running)
  | settle {result} (event) : l.phase = .running → w.progress = .ended result →
      result ≠ .error .cancelled → LoopMove w l ((w.report event).loopTo l .counting)
  | cut : l.phase = .running → w.progress = .ended (.error .cancelled) →
      LoopMove w l (w.endLoop l)
  | crash {report} : l.phase = .running → w.progress = .crashed report →
      LoopMove w l (w.loopTo l (.crashed report))
  | count : l.phase = .counting →
      LoopMove w l
        (w.loopTo { l with counter := l.counter + 1 } (.resting (l.pause.map (w.now + ·))))
  | quit {wake} : l.phase = .resting wake → w.isCancelled = true →
      LoopMove w l (w.endLoop l)
  | again {wake} : l.phase = .resting wake → w.isCancelled = false →
      wake.any (· ≤ w.now) = true →
      LoopMove w l (w.begin.loopTo l .running)

/-- A choice of the loop is one of its moves. -/
theorem take_loop {w w' : World} (h : w.take .loop = some w') :
    ∃ l, w.loop = some l ∧ LoopMove w l w' := by
  simp only [take, stepLoop] at h
  cases hloop : w.loop with
  | none => rw [hloop] at h; cases h
  | some l =>
    rw [hloop] at h
    refine ⟨l, rfl, ?_⟩
    dsimp only at h
    -- One move for each phase; in the running phase, one for each way in which the run
    -- can be over.
    split at h
    · next hphase =>
      obtain rfl := Option.some.inj h
      exact .start hphase
    · next hphase =>
      split at h
      · next outcome hp =>
        obtain rfl := Option.some.inj h
        exact .settle _ hphase hp (by simp)
      · next hp =>
        obtain rfl := Option.some.inj h
        exact .cut hphase hp
      · next e hne hp =>
        obtain rfl := Option.some.inj h
        exact .settle _ hphase hp fun he => hne (Except.error.inj he)
      · next report hp =>
        obtain rfl := Option.some.inj h
        exact .crash hphase hp
      · cases h
    · next hphase =>
      obtain rfl := Option.some.inj h
      exact .count hphase
    · next wake hphase =>
      cases hc : w.isCancelled with
      | true =>
        rw [if_pos hc] at h
        obtain rfl := Option.some.inj h
        exact .quit hphase hc
      | false =>
        rw [if_neg (by simp [hc])] at h
        split at h
        · next hdue =>
          obtain rfl := Option.some.inj h
          exact .again hphase hc hdue
        · cases h
    · cases h

/-! ## What the loop leaves alone -/

/-- A change that leaves the surroundings of the run and the loop as they are. -/
structure Aside (w w' : World) : Prop where
  host : w'.host = w.host
  workflow : w'.workflow = w.workflow
  now : w'.now = w.now
  token : w'.token = w.token
  jobs : w'.jobs = w.jobs
  elsewhere : w'.elsewhere = w.elsewhere
  calls : w'.calls = w.calls

/-- An action of the loop leaves its surroundings as they are. -/
theorem LoopMove.aside {w w' : World} {l : Loop} (h : LoopMove w l w') : Aside w w' := by
  cases h with
  | start | settle => exact ⟨rfl, rfl, rfl, rfl, rfl, rfl, calls_report w _⟩
  | cut | quit => exact ⟨rfl, rfl, rfl, rfl, rfl, rfl, calls_report w _⟩
  | crash | count | again => exact ⟨rfl, rfl, rfl, rfl, rfl, rfl, rfl⟩

/-- An action of the loop leaves the run in progress as it is, or begins one. -/
theorem LoopMove.progress {w w' : World} {l : Loop} (h : LoopMove w l w') :
    w'.progress = w.progress ∨ w'.progress = .acting 0 w.workflow.nextRun ∧
      (l.phase = .starting ∨ w.isCancelled = false ∧ ∃ wake, l.phase = .resting wake) := by
  cases h with
  | start hphase => exact .inr ⟨rfl, .inl hphase⟩
  | again hphase hc => exact .inr ⟨rfl, .inr ⟨hc, _, hphase⟩⟩
  | settle | cut | crash | count | quit => exact .inl rfl

/-- A loop stays, with its pause. -/
lemma LoopMove.pauses {w w' : World} {l : Loop} (h : LoopMove w l w') :
    ∃ l', w'.loop = some l' ∧ l'.pause = l.pause := by
  cases h with
  | start | settle | cut | crash | count | quit | again => exact ⟨_, rfl, rfl⟩

/-! ## All choices -/

/-- A choice that is not the loop's leaves the loop as it is. -/
theorem take_keeps_loop {w w' : World} {c : Choice} (hloop : c ≠ .loop)
    (h : w.take c = some w') :
    w'.loop = w.loop := by
  rcases take_move hloop h with hmove | ⟨-, -, hapart⟩
  · exact hmove.loop
  · exact hapart.loop

theorem follow_keeps_loop {cs : List Choice} {w w' : World} (hloop : .loop ∉ cs)
    (h : w.follow cs = some w') : w'.loop = w.loop :=
  follow_preserves (P := fun v => v.loop = w.loop)
    (fun _ hmem _ _ htake hu =>
      (take_keeps_loop (ne_of_mem_of_not_mem hmem hloop) htake).trans hu) h rfl

/-- No choice makes a loop go away or changes its pause. -/
lemma choice_pauses {w w' : World} {c : Choice} {l : Loop} (hl : w.loop = some l)
    (h : w.take c = some w') : ∃ l', w'.loop = some l' ∧ l'.pause = l.pause := by
  by_cases hc : c = .loop
  · subst hc
    obtain ⟨l₁, hl₁, hmove⟩ := take_loop h
    obtain rfl : l₁ = l := Option.some.inj (hl₁.symm.trans hl)
    exact hmove.pauses
  · exact ⟨l, (take_keeps_loop hc h).trans hl, rfl⟩

/-- A loop rests equally long between any two runs. -/
theorem follow_pauses {cs : List Choice} {w w' : World} {l l' : Loop} (hl : w.loop = some l)
    (h : w.follow cs = some w') (hl' : w'.loop = some l') : l'.pause = l.pause := by
  obtain ⟨l₂, hl₂, hpause⟩ := follow_preserves
    (P := fun v => ∃ l₁, v.loop = some l₁ ∧ l₁.pause = l.pause) (fun c _ u v htake hu => by
      obtain ⟨l₁, hl₁, hpause₁⟩ := hu
      obtain ⟨l₂, hl₂, hpause₂⟩ := choice_pauses hl₁ htake
      exact ⟨l₂, hl₂, hpause₂.trans hpause₁⟩) h ⟨l, hl, rfl⟩
  obtain rfl : l₂ = l' := Option.some.inj (hl₂.symm.trans hl')
  exact hpause

/-- Nobody takes a cancellation back, not even a loop. -/
theorem choice_isCancelled {w w' : World} {c : Choice} (h : w.take c = some w')
    (hc : w.isCancelled = true) : w'.isCancelled = true := by
  by_cases hloop : c = .loop
  · subst hloop
    obtain ⟨l, -, hmove⟩ := take_loop h
    rw [isCancelled, hmove.aside.token]
    exact hc
  · exact take_isCancelled hloop h hc

/-- Nobody changes a token but by cancelling. -/
theorem choice_token {w w' : World} {c : Choice} (h : w.take c = some w') :
    w'.token = w.token ∨ w'.token = w.token.cancel := by
  -- Of all actions, only that of a task that cancels touches the token.
  have hperform : ∀ t, (w.perform t).2.token = w.token ∨
      (w.perform t).2.token = w.token.cancel := by
    intro t
    cases t with
    | cancel next => exact .inr rfl
    | write store key value next => exact .inl (w.written store key value).token
    | _ => exact .inl rfl
  by_cases hloop : c = .loop
  · subst hloop
    obtain ⟨l, -, hmove⟩ := take_loop h
    exact .inl hmove.aside.token
  · rcases take_move hloop h with hmove | ⟨hout, -, -⟩
    · generalize w.exchange? c = x at hmove
      cases hmove with
      | work hp => exact hperform _
      | _ => exact .inl rfl
    · cases take_outside hout h with
      | @act n job a w₁ hjob hadv =>
        generalize job.activity = activity at hadv
        cases advance_eq_some_iff.mp hadv with
        | act task => exact hperform task
        | wake hdue => exact .inl rfl
      | exit | pass => exact .inl rfl
      | cancel => exact .inr rfl

/-- What could be cancelled at one time, can always be cancelled. -/
theorem follow_cancellable {cs : List Choice} {w w' : World} (h : w.follow cs = some w')
    (hw : w.token ≠ .absent) : w'.token ≠ .absent := by
  refine follow_preserves (P := fun v => v.token ≠ .absent)
    (fun c _ u v htake hu => ?_) h hw
  rcases choice_token htake with hsame | hcancel
  · rwa [hsame]
  · rw [hcancel]
    cases ht : u.token with
    | absent => exact absurd ht hu
    | live | cancelled => simp [Token.cancel]

/-- The calls that a world has seen are those of the dialogue; a loop makes none. -/
theorem choice_calls {w w' : World} {c : Choice} (h : w.take c = some w') :
    w'.calls = w.calls ++ (w.exchange? c).toList.flatMap Exchange.calls := by
  by_cases hloop : c = .loop
  · subst hloop
    obtain ⟨l, -, hmove⟩ := take_loop h
    rw [hmove.aside.calls]
    exact (List.append_nil w.calls).symm
  · exact take_calls hloop h

theorem choice_kept {w w' : World} {c : Choice} (h : w.take c = some w') : Kept w w' := by
  by_cases hloop : c = .loop
  · subst hloop
    obtain ⟨l, -, hmove⟩ := take_loop h
    exact .of_jobs_eq hmove.aside.jobs
  · exact take_kept hloop h

/-- Every choice leaves a run coherent. -/
theorem choice_isCoherent {w w' : World} {c : Choice} (h : w.take c = some w')
    (hw : w.IsCoherent) : w'.IsCoherent := by
  by_cases hloop : c = .loop
  · subst hloop
    obtain ⟨l, -, hmove⟩ := take_loop h
    intro step awake first results rest hp
    rcases hmove.progress with hsame | ⟨hbegun, -⟩
    · exact (hw _ _ _ _ _ (hsame ▸ hp)).kept (choice_kept h)
    · rw [hbegun] at hp
      cases hp
  · exact take_isCoherent hloop h hw

/-! ## What no choice changes -/

/-- The surroundings that a life has from its beginning: the steps of the workflow, the
handle on its store, and what launching a program comes to. -/
structure SameSetup (w w' : World) : Prop where
  host : w'.host = w.host
  steps : w'.workflow.steps = w.workflow.steps
  handle : w'.workflow.handle = w.workflow.handle

theorem SameSetup.trans {w₁ w₂ w₃ : World} (h₁ : SameSetup w₁ w₂) (h₂ : SameSetup w₂ w₃) :
    SameSetup w₁ w₃ :=
  ⟨h₂.host.trans h₁.host, h₂.steps.trans h₁.steps, h₂.handle.trans h₁.handle⟩

lemma perform_setup (w : World) (t : Task) : SameSetup w (w.perform t).2 := by
  refine ⟨?_, by rw [(perform_apart w t).workflow], by rw [(perform_apart w t).workflow]⟩
  cases t with
  | write store key value next => exact (w.written store key value).host
  | _ => rfl

lemma advance_setup {w w' : World} {a a' : Activity} (h : w.advance a = some (a', w')) :
    SameSetup w w' := by
  cases advance_eq_some_iff.mp h with
  | act task => exact perform_setup w task
  | wake hdue => exact ⟨rfl, rfl, rfl⟩

theorem RunMove.setup {w w' : World} {c : Choice} {x : Option Exchange}
    (h : RunMove w c x w') :
    SameSetup w w' := by
  cases h with
  | @work step task rest hp =>
    have hsame := perform_setup w task
    exact ⟨hsame.host, hsame.steps, hsame.handle⟩
  | _ => exact ⟨rfl, rfl, rfl⟩

/-- No choice changes the surroundings. -/
theorem choice_setup {w w' : World} {c : Choice} (h : w.take c = some w') :
    SameSetup w w' := by
  by_cases hloop : c = .loop
  · subst hloop
    obtain ⟨l, -, hmove⟩ := take_loop h
    exact ⟨hmove.aside.host, by rw [hmove.aside.workflow], by rw [hmove.aside.workflow]⟩
  · rcases take_move hloop h with hmove | ⟨hout, -, -⟩
    · exact hmove.setup
    · cases take_outside hout h with
      | @act n job a w₁ hjob hadv =>
        have hsame : SameSetup w w₁ := advance_setup hadv
        exact ⟨hsame.host, hsame.steps, hsame.handle⟩
      | exit | cancel | pass => exact ⟨rfl, rfl, rfl⟩

theorem follow_setup {cs : List Choice} {w w' : World} (h : w.follow cs = some w') :
    SameSetup w w' :=
  follow_preserves (P := SameSetup w)
    (fun _ _ _ _ htake hu => hu.trans (choice_setup htake)) h ⟨rfl, rfl, rfl⟩

end World
end Workplan
