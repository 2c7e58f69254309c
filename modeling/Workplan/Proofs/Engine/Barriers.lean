import Mathlib.Tactic.Lemma
import Workplan.Proofs.Engine.Loops
import Workplan.Proofs.Engine.Sequences

/-!
# Prompt steps are barriers

A prompt step drops the value that enters it, and a run carries nothing else from one step
to the next but the prompt and the store.  A plan may therefore be cut in front of a
prompt step: to run the whole plan comes to the same as to run the first part and, if that
ends well, the second part on the same workflow (`World.prompt_cuts_plan`).

Up to the cut the run of the whole plan and the run of the first part resemble each other,
and there they part (`cutLikeness`): the one begins the prompt step, while the other has
nothing more to do but to look at the store and to end (`Progress.Closing`).  Behind the
cut the run of the whole plan resembles the run of the second part, whatever value it has
brought along (`Run.resembles_behind`).
-/

namespace Workplan

/-- The same outcome of a run before which some steps have already been executed. -/
def Outcome.behind (done : Nat) (o : Outcome) : Outcome :=
  { o with steps := done + o.steps }

/-- The same end of a run before which some steps have already been executed. -/
def Progress.behind (done : Nat) : Progress → Progress
  | ended r => ended (r.map (Outcome.behind done))
  | p => p

/-! ## Runs that have nothing more to do -/

/-- A run whose steps are all done: it still reports that, looks at the store and ends
well. -/
inductive Progress.Closing (output : Option Json) (total : Nat) : Progress → Prop where
  | report {n event} :
      Closing output total
        (.acting n
          (.log event (.readStore fun store => .finish (.ok ⟨output, store, total⟩))))
  | look {n} : Closing output total
    (.acting n (.readStore fun store => .finish (.ok ⟨output, store, total⟩)))
  | finish {n store} :
      Closing output total (.acting n (.finish (.ok ⟨output, store, total⟩)))
  | ended {store} : Closing output total (.ended (.ok ⟨output, store, total⟩))

namespace World

section

variable {output : Option Json} {total : Nat} {w w' v : World}

/-- Whatever happens while a run is closing, it stays closing, and in a world abreast the
same can happen without any action of the run there. -/
lemma take_closing {c : Choice} (h : w.progress.Closing output total)
    (habreast : w.Abreast v) (hloop : c ≠ .loop) (htake : w.take c = some w') :
    w'.progress.Closing output total ∧ ∃ ds v', v.follow ds = some v' ∧
      ds.filter (· ≠ .run) = [c].filter (· ≠ .run) ∧ v'.progress = v.progress ∧
      w'.Abreast v' := by
  rcases take_move hloop htake with hmove | ⟨hout, -, hapart⟩
  · generalize w.exchange? c = x at hmove
    -- The run does nothing that could be seen from outside.
    cases hmove with
    | finish hp =>
      rw [hp] at h; cases h; exact ⟨.ended, [], v, rfl, rfl, rfl, habreast.goToLeft _⟩
    | log hp =>
      rw [hp] at h; cases h
      exact ⟨.look, [], v, rfl, rfl, rfl, (habreast.reportLeft _).goToLeft _⟩
    | readStore hp =>
      rw [hp] at h; cases h; exact ⟨.finish, [], v, rfl, rfl, rfl, habreast.goToLeft _⟩
    | enter hp | refuse hp | setPrompt hp | call hp | fanOut hp | work hp | wake hp
    | abandon hp | exit hp
    | answer hp | crash hp | gather hp | park hp | leave hp | collect hp | failure hp =>
      rw [hp] at h; cases h
  · obtain ⟨v', htake', hafter⟩ := habreast.take hout htake
    refine ⟨by rw [hapart.progress]; exact h, [c], v', ?_, rfl,
      (take_apart hout htake').progress, hafter⟩
    rw [follow, htake']
    rfl

lemma follow_closing {cs : List Choice} (h : w.progress.Closing output total)
    (habreast : w.Abreast v) (hloop : .loop ∉ cs) (hfollow : w.follow cs = some w') :
    w'.progress.Closing output total ∧ ∃ ds v', v.follow ds = some v' ∧
      ds.filter (· ≠ .run) = cs.filter (· ≠ .run) ∧ v'.progress = v.progress ∧
      w'.Abreast v' := by
  -- The second world follows with the same choices, less those that the closing run makes
  -- for itself.
  induction cs generalizing w v with
  | nil =>
    obtain rfl := Option.some.inj hfollow
    exact ⟨h, [], v, rfl, rfl, rfl, habreast⟩
  | cons c rest ih =>
    obtain ⟨w₁, htake, hrest⟩ := follow_cons hfollow
    rw [List.mem_cons, not_or] at hloop
    obtain ⟨h₁, ds, v₁, hds, hsame, hstays, habreast₁⟩ :=
      take_closing h habreast (Ne.symm hloop.1) htake
    obtain ⟨h', es, v', hes, hsame', hstays', habreast'⟩ := ih h₁ habreast₁ hloop.2 hrest
    refine ⟨h', ds ++ es, v', ?_, ?_, hstays'.trans hstays, habreast'⟩
    · rw [follow_append, hds, Option.bind_some, hes]
    · rw [List.filter_append, hsame, hsame', ← List.filter_append]
      rfl

/-- A closing run can end, and nothing else changes meanwhile. -/
lemma closing_ends {n : Nat} {event : Event}
    (hp : w.progress =
      .acting n
        (.log event (.readStore fun store => .finish (.ok ⟨output, store, total⟩)))) :
    ∃ w', w.follow [.run, .run, .run] = some w' ∧
      w'.progress = .ended (.ok ⟨output, w.workflow.store, total⟩) ∧ w.Abreast w' := by
  refine ⟨(w.report event).goTo (.ended (.ok ⟨output, w.workflow.store, total⟩)), ?_, rfl,
    rfl, rfl, rfl, rfl, rfl, rfl, rfl, rfl, rfl⟩
  rw [follow, take_acting hp]
  rfl

/-- A closing run ends well. -/
lemma of_closing_ended {r : Except WorkflowError Outcome}
    (h : (Progress.ended r).Closing output total) :
    ∃ store, r = .ok ⟨output, store, total⟩ := by
  cases h
  exact ⟨_, rfl⟩

end

end World

/-! ## The two parts of a plan -/

/-- The run of a whole plan and the run of its first part: they go on in the same way and
end with the same failures, and they part where the first part is done. -/
def cutLikeness (total front : Nat) (back : List Step) : Likeness where
  lax := False
  parts := fun _ run run' => ∃ v event output, run = Run.steps total (front + 1) back v ∧
    run' = .log event (.readStore fun store => .finish (.ok ⟨output, store, front⟩))
  results := fun _ r r' => r' = r ∧ ∃ e, r = .error e

/-- Behind the cut it does not matter that steps have been executed before, nor which
value they have left. -/
theorem Run.resembles_behind {s : Step} {text : String} (hs : s.action = .prompt text)
    (back : List Step) (done : Nat) (v v' : Json) :
    (Run.steps (s :: back).length 1 (s :: back) v).Resembles
      (behaviour (Outcome.behind done)) 0
      (Run.steps (done + (s :: back).length) (done + 1) (s :: back) v') := by
  have hk : Run.ResembleOn (behaviour (Outcome.behind done)) 1
      (Run.after (s :: back).length 1 back)
      (Run.after (done + (s :: back).length) (done + 1) back) :=
        Run.resembles_after fun _ _ => rfl
  have hdispatch : ∀ input k, s.dispatch input k = .setPrompt text
      (k (.ok (.str text))) := fun input k => by
    rw [Step.dispatch, hs]
  rw [Run.steps_cons, Run.steps_cons, Step.run_eq, Step.run_eq, hdispatch, hdispatch]
  exact .enter (.log (.setPrompt ((hk.settle rfl rfl).ok _)))

namespace World

/-- Up to the cut the run of the first part goes like the run of the whole plan. -/
lemma begin_resembles_cut (w : World) (front : List Step) {back : List Step}
    (hne : back ≠ []) :
    (w.withSteps (front ++ back)).begin.Resembles
      (cutLikeness (front ++ back).length front.length back)
      (w.withSteps front).begin where
  abreast := ⟨rfl, rfl, rfl, rfl, rfl, rfl, rfl, rfl, rfl⟩
  progress := by
    rw [begin_withSteps w (List.append_ne_nil_of_right_ne_nil _ hne)]
    by_cases hfront : front = []
    · -- A run without steps is closing from the beginning.
      subst hfront
      exact .acting (.part ⟨_, .emptyPlan, none, rfl, rfl⟩)
    · rw [begin_withSteps w hfront]
      have happend :=
        @Run.resembles_append (cutLikeness (front ++ back).length front.length back)
        (front ++ back).length front.length 0 0 front back []
          (w.workflow.prompt.elim .null .str)
        (fun v => .part ⟨v, .runComplete front.length, some v, by rw [Nat.zero_add], rfl⟩)
        fun _ e _ _ _ => ⟨rfl, e, rfl⟩
      rw [List.append_nil] at happend
      exact .acting happend

/-- Behind the cut the run of the second part goes like the run of the whole plan. -/
lemma begin_resembles_behind {u v : World} (habreast : v.Abreast u)
    {s : Step} {text : String} (hs : s.action = .prompt text) {back : List Step}
    {done n : Nat} {value : Json}
    (hu : u.progress = .acting n
      (Run.steps (done + (s :: back).length) (done + 1) (s :: back) value)) :
    (v.withSteps (s :: back)).begin.Resembles (behaviour (Outcome.behind done)) u where
  abreast :=
    ⟨habreast.host, habreast.prompt, habreast.store, habreast.handle, habreast.elsewhere,
    habreast.now, habreast.token, habreast.jobs, habreast.deeds⟩
  progress := by
    rw [begin_withSteps v (List.cons_ne_nil s back), hu]
    exact .acting (Run.resembles_behind hs back done _ value)

/-- A run of the steps `p` and, if it ends well, after it a run of the steps `q` on what
it has left of the workflow, none of them cancelled: the choices that are made, the end to
which it comes, with the steps of both runs counted, and the world in which it ends. -/
inductive InTurn (w : World) (p q : List Step) : List Choice → Progress → World → Prop where
  | first {cs v} : (w.withSteps p).begin.follow cs = some v → v.isCancelled = false →
      v.progress.isOver = true →
      (∀ o, v.progress ≠ .ended (.ok o)) → InTurn w p q cs v.progress v
  | both {cs v o ds v'} : (w.withSteps p).begin.follow cs = some v →
      v.progress = .ended (.ok o) →
      (v.withSteps q).begin.follow ds = some v' → v'.isCancelled = false →
      v'.progress.isOver = true →
      InTurn w p q (cs ++ ds) (v'.progress.behind o.steps) v'

section

variable {w v w' : World} {p q : List Step} {s : Step} {text : String} {cs : List Choice}

/-- A run that is over has ended or crashed. -/
lemma of_isOver {p : Progress} (h : p.isOver = true) :
    (∃ r, p = .ended r) ∨ ∃ report, p = .crashed report := by
  cases p with
  | ended r => exact .inl ⟨r, rfl⟩
  | crashed report => exact .inr ⟨report, rfl⟩
  | idle | acting | calling | joining => cases h

/-- Where a run imitates another one that comes to its end, it comes to an end as well. -/
lemma Imitates.over {R : Except WorkflowError Outcome → Except WorkflowError Outcome → Prop}
    (h : v.Imitates R w) (hfollow : w.follow cs = some w') (hlive : w'.isCancelled = false)
    (hover : w'.progress.isOver = true) :
    ∃ cs' v', v.follow cs' = some v' ∧ cs'.filter (· ≠ .run) = cs.filter (· ≠ .run) ∧
      w'.Abreast v' ∧
      ((∃ r r', w'.progress = .ended r ∧ v'.progress = .ended r' ∧ R r r') ∨
        ∃ report, w'.progress = .crashed report ∧ v'.progress = .crashed report) := by
  obtain ⟨cs', v', hv, hsame, -, habreast, hended, hcrashed⟩ := h cs w' hfollow hlive
  refine ⟨cs', v', hv, hsame, habreast, ?_⟩
  rcases of_isOver hover with ⟨r, hr⟩ | ⟨report, hcrash⟩
  · obtain ⟨r', hr', hR⟩ := hended r hr
    exact .inl ⟨r, r', hr, hr', hR⟩
  · exact .inr ⟨report, hcrash, hcrashed report hcrash⟩

lemma InTurn.isCancelled {end_ : Progress} (h : w.InTurn p q cs end_ v) :
    v.isCancelled = false := by
  cases h with
  | first _ hlive => exact hlive
  | both _ _ _ hlive => exact hlive

/-- Two ends that differ at most in the number of steps. -/
lemma behind_of_ends {done : Nat} {e e' : Progress}
    (h : (∃ r r', e = .ended r ∧ e' = .ended r' ∧ r = r'.map (Outcome.behind done)) ∨
      ∃ report, e = .crashed report ∧ e' = .crashed report) :
    e = e'.behind done ∧ e'.isOver = true := by
  rcases h with ⟨r, r', rfl, rfl, rfl⟩ | ⟨report, rfl, rfl⟩ <;> exact ⟨rfl, rfl⟩

/-- What the run of the whole plan does, the runs of the two parts do in turn. -/
lemma InTurn.of_whole (hnone : w.loop = none) (hs : s.action = .prompt text)
    (hfollow : (w.withSteps (p ++ s :: q)).begin.follow cs = some w')
    (hlive : w'.isCancelled = false) (hover : w'.progress.isOver = true) :
    ∃ cs' v, w.InTurn p (s :: q) cs' w'.progress v ∧
      cs'.filter (· ≠ .run) = cs.filter (· ≠ .run) ∧
      w'.Abreast v := by
  have hloop : .loop ∉ cs :=
    follow_without_loop (w := (w.withSteps (p ++ s :: q)).begin) hnone hfollow
  have hres := begin_resembles_cut w p (List.cons_ne_nil s q)
  rcases hres.follow hloop hfollow hlive with hmatch | ⟨ds, es, u, rfl, hds, hes, hmatch⟩
  · -- The first part is never done, so its run ends as the run of the whole plan does.
    obtain ⟨cs', v, ⟨hsame, -⟩, hv, -, habreast, hprogress⟩ := hmatch
    have hlive' : v.isCancelled = false := habreast.isCancelled.trans hlive
    refine ⟨cs', v, ?_, hsame, habreast⟩
    rcases of_isOver hover with ⟨r, hr⟩ | ⟨report, hcrash⟩
    · obtain ⟨-, r', hr', rfl, e, rfl⟩ := of_ended (hr ▸ hprogress)
      rw [hr, ← hr']
      exact .first hv hlive' (by rw [hr']; rfl) fun o ho => by rw [hr'] at ho; cases ho
    · have hcrash' := of_crashed (hcrash ▸ hprogress)
      rw [hcrash, ← hcrash']
      exact .first hv hlive' (by rw [hcrash']; rfl) fun o ho => by
        rw [hcrash'] at ho; cases ho
  · -- Where they part, the run of the first part still ends, and the second part begins.
    obtain ⟨ds', v, ⟨hsame, -⟩, hv, -, habreast, n, n', -, -, hu, hp, value, event,
      output, rfl, rfl⟩ := hmatch
    obtain ⟨v₁, hends, hend, habreast₁⟩ := closing_ends hp
    have hnone_u : u.loop = none := by
      rw [List.mem_append, not_or] at hloop
      exact (follow_keeps_loop hloop.1 hds).trans hnone
    have hturn : (w.withSteps p).begin.follow (ds' ++ [.run, .run, .run]) = some v₁ := by
      rw [follow_append, hv, Option.bind_some, hends]
    have hnone₁ : v₁.loop = none :=
      (follow_keeps_loop (follow_without_loop (w := (w.withSteps p).begin) hnone hturn)
        hturn).trans hnone
    rw [List.length_append] at hu
    have hbehind := begin_resembles_behind (habreast.trans habreast₁).symm hs hu
    obtain ⟨es', v₂, hv₂, hsame', habreast₂, hends₂⟩ :=
      (hbehind.behavesLike hnone₁ hnone_u).2.over hes hlive hover
    obtain ⟨hbehind₂, hover₂⟩ := behind_of_ends hends₂
    rw [hbehind₂]
    refine ⟨_, v₂, .both hturn hend hv₂ (habreast₂.isCancelled.trans hlive) hover₂, ?_,
      habreast₂⟩
    have hsilent : [Choice.run, .run, .run].filter (· ≠ .run) = [] := rfl
    rw [List.filter_append, List.filter_append, List.filter_append ds, hsame, hsame',
      hsilent, List.append_nil]

/-- When the run of the first part is over, then either it has not ended well, and the run
of the whole plan can have gone in the same way and be over as well; or it has ended well,
and the run of the whole plan can be at the cut. -/
lemma whole_of_first {back : List Step} (hnone : w.loop = none) (hne : back ≠ [])
    (hfollow : (w.withSteps p).begin.follow cs = some v) (hlive : v.isCancelled = false)
    (hover : v.progress.isOver = true) :
    ∃ cs' u, (w.withSteps (p ++ back)).begin.follow cs' = some u ∧
      cs'.filter (· ≠ .run) = cs.filter (· ≠ .run) ∧ v.Abreast u ∧
      ((∀ o, v.progress ≠ .ended (.ok o)) ∧ u.progress = v.progress ∨
        (∃ output store, v.progress = .ended (.ok ⟨output, store, p.length⟩)) ∧
          ∃ n value, u.progress = .acting n
            (Run.steps (p.length + back.length) (p.length + 1) back value)) := by
  have hloop : .loop ∉ cs := follow_without_loop (w := (w.withSteps p).begin) hnone hfollow
  rcases (begin_resembles_cut w p hne).flip.follow hloop hfollow hlive with
    hmatch | ⟨ds, es, u, rfl, -, hes, hmatch⟩
  · obtain ⟨cs', u, ⟨hsame, -⟩, hu, -, habreast, hprogress⟩ := hmatch
    refine ⟨cs', u, hu, hsame, habreast, .inl ?_⟩
    rcases of_isOver hover with ⟨r, hr⟩ | ⟨report, hcrash⟩
    · obtain ⟨-, r', hr', -, rfl, e, rfl⟩ := of_ended (hr ▸ hprogress)
      rw [hr, hr']
      exact ⟨nofun, rfl⟩
    · rw [hcrash] at hprogress ⊢
      exact ⟨nofun, of_crashed hprogress⟩
  · obtain ⟨ds', u', ⟨hsame, -⟩, hu', -, habreast, n, n', -, -, hp, hp', -, value, event,
      output, rfl, rfl⟩ := hmatch
    -- What is left of the first run can happen while the run of the whole plan stays
    -- at the cut.
    have hclosing : u.progress.Closing output p.length := by
      rw [hp]
      exact .report
    rw [List.mem_append, not_or] at hloop
    obtain ⟨hended, es', v', hv', hsame', hstays, habreast'⟩ :=
      follow_closing hclosing habreast hloop.2 hes
    refine ⟨ds' ++ es', v', ?_, ?_, habreast', .inr ⟨?_, n', value, ?_⟩⟩
    · rw [follow_append, hu', Option.bind_some, hv']
    · rw [List.filter_append, List.filter_append, hsame, hsame']
    · rcases of_isOver hover with ⟨r, hr⟩ | ⟨report, hcrash⟩
      · rw [hr] at hended ⊢
        obtain ⟨store, rfl⟩ := of_closing_ended hended
        exact ⟨output, store, rfl⟩
      · rw [hcrash] at hended
        cases hended
    · rw [hstays, hp', List.length_append]

/-- What the runs of the two parts do in turn, the run of the whole plan does. -/
lemma InTurn.to_whole {end_ : Progress} (hnone : w.loop = none)
    (hs : s.action = .prompt text) (h : w.InTurn p (s :: q) cs end_ v) :
    ∃ cs' w', (w.withSteps (p ++ s :: q)).begin.follow cs' = some w' ∧
      cs'.filter (· ≠ .run) = cs.filter (· ≠ .run) ∧ w'.progress = end_ ∧ v.Abreast w' := by
  cases h with
  | first hfollow hlive hover hbad =>
    obtain ⟨cs', u, hu, hsame, habreast, hends⟩ :=
      whole_of_first hnone (List.cons_ne_nil s q) hfollow hlive hover
    rcases hends with ⟨-, hend⟩ | ⟨⟨output, store, hend⟩, -⟩
    · exact ⟨cs', u, hu, hsame, hend, habreast⟩
    · exact absurd hend (hbad _)
  | @both cs v o ds v₂ hfollow hend hfollow₂ hlive₂ hover₂ =>
    have hnone₁ : v.loop = none :=
      (follow_keeps_loop (follow_without_loop (w := (w.withSteps p).begin) hnone hfollow)
        hfollow).trans hnone
    have hloop₂ : .loop ∉ ds :=
      follow_without_loop (w := (v.withSteps (s :: q)).begin) hnone₁ hfollow₂
    have hlive : v.isCancelled = false :=
      follow_live (w := (v.withSteps (s :: q)).begin) hloop₂ hfollow₂ hlive₂
    obtain ⟨cs', u, hu, hsame, habreast, hends⟩ :=
      whole_of_first hnone (List.cons_ne_nil s q) hfollow hlive (by rw [hend]; rfl)
    rcases hends with ⟨hbad, -⟩ | ⟨⟨output, store, hend'⟩, n, value, hp⟩
    · exact absurd hend (hbad o)
    · obtain rfl : o = ⟨output, store, p.length⟩ :=
        Except.ok.inj (Progress.ended.inj (hend.symm.trans hend'))
      have hnone_u : u.loop = none :=
        (follow_keeps_loop
          (follow_without_loop (w := (w.withSteps (p ++ s :: q)).begin) hnone hu)
          hu).trans hnone
      -- At the cut both runs have the same steps before them, so the second run can be
      -- imitated from there.
      have hbehind := begin_resembles_behind habreast hs hp
      obtain ⟨ds', u', hu', hsame', habreast', hends'⟩ :=
        (hbehind.behavesLike hnone₁ hnone_u).1.over hfollow₂ hlive₂ hover₂
      refine ⟨cs' ++ ds', u', ?_, ?_, ?_, habreast'⟩
      · rw [follow_append, hu, Option.bind_some, hu']
      · rw [List.filter_append, List.filter_append, hsame, hsame']
      · rcases hends' with ⟨r, r', hr, hr', rfl⟩ | ⟨report, hr, hr'⟩ <;>
          rw [hr, hr'] <;> rfl

/-- A plan may be cut in front of a prompt step.  Whatever the steps before and behind it
are, and whatever happens around the runs: what an uncancelled run of the whole plan does
until it is over, a run of the first part does, and after it, if that has ended well, a
run of the prompt step and the steps behind it on the same workflow; and what these two do
in turn, the run of the whole plan does.  The same calls are made on the same inputs, the
same failure or output is the end, with the steps of both runs counted, and the same
prompt and store are left.  If the first part fails, the second run never begins, so
nothing is called for it. -/
theorem prompt_cuts_plan (hnone : w.loop = none) (hs : s.action = .prompt text)
    (p q : List Step) :
    (∀ cs w', (w.withSteps (p ++ s :: q)).begin.follow cs = some w' →
      w'.isCancelled = false →
      w'.progress.isOver = true →
      ∃ cs' v, w.InTurn p (s :: q) cs' w'.progress v ∧
        cs'.filter (· ≠ .run) = cs.filter (· ≠ .run) ∧
        w'.Abreast v ∧ v.calls = w'.calls) ∧
    ∀ cs end_ v, w.InTurn p (s :: q) cs end_ v →
      ∃ cs' w', (w.withSteps (p ++ s :: q)).begin.follow cs' = some w' ∧
        w'.isCancelled = false ∧
        cs'.filter (· ≠ .run) = cs.filter (· ≠ .run) ∧ w'.progress = end_ ∧ v.Abreast w' ∧
        w'.calls = v.calls := by
  constructor
  · intro cs w' hfollow hlive hover
    obtain ⟨cs', v, hturn, hsame, habreast⟩ := InTurn.of_whole hnone hs hfollow hlive hover
    exact ⟨cs', v, hturn, hsame, habreast, habreast.calls⟩
  · intro cs end_ v hturn
    obtain ⟨cs', w', hw', hsame, hend, habreast⟩ := hturn.to_whole hnone hs
    exact ⟨cs', w', hw', habreast.isCancelled.trans hturn.isCancelled, hsame, hend,
      habreast, habreast.calls⟩

end

/-- A step that fails and hands its failure to a handler. -/
def rescuedStep : Step where
  action := .sequence [(ExecutorSpec.fail "no").toExecutor 0]
  description := "fail"
  onFail := some (ExecutorSpec.echo.toExecutor 1)

/-- A prompt step whose output a handler replaces. -/
def restatedStep : Step where
  action := .prompt "again"
  description := "prompt"
  onSuccess := some ((ExecutorSpec.template "and again").toExecutor 2)

/-- The failure of the first part is handled, and the second part goes on from
the prompt. -/
theorem prompt_cuts_plan_rescued :
    ∃ cs v, echoWorld.InTurn [rescuedStep] [restatedStep, rescuedStep] cs
        (.ended (.ok ⟨some (.str "no"), .empty, 3⟩)) v ∧
      v.workflow.prompt = some "again" ∧ v.calls.length = 5 := by
  obtain ⟨w', hfollow, hlive, hend, hprompt, hcalls⟩ :
      ∃ w',
        (echoWorld.withSteps
          ([rescuedStep] ++ restatedStep :: [rescuedStep])).begin.follow
          (List.replicate 30 .run) = some w' ∧ w'.isCancelled = false ∧
        w'.progress = .ended (.ok ⟨some (.str "no"), .empty, 3⟩) ∧
        w'.workflow.prompt = some "again" ∧
        w'.calls.length = 5 :=
    ⟨_, rfl, rfl, rfl, rfl, rfl⟩
  have hover : w'.progress.isOver = true := by rw [hend]; rfl
  obtain ⟨hdoes, -⟩ := prompt_cuts_plan (w := echoWorld)
    (s := restatedStep) rfl rfl [rescuedStep] [rescuedStep]
  obtain ⟨cs, v, hturn, -, habreast, hsame⟩ := hdoes _ w' hfollow hlive hover
  refine ⟨cs, v, ?_, habreast.prompt.trans hprompt, by rw [hsame, hcalls]⟩
  rw [← hend]
  exact hturn

end World
end Workplan
