import Mathlib.Tactic.Lemma
import Workplan.Proofs.Engine.Protocol

/-!
# Runs that resemble each other

Two plans that differ in a place may still behave alike.  A `Likeness` says how far their
runs may differ: where they may part, which results may stand for each other, and whether
one of them may report more than the other.  `Run.Resembles` says of two trees that they
make the same calls and ask the same questions, and go on alike on every answer.

Two worlds stand *abreast* when they agree on everything that an executor can see and on
everything that has been done so far, reports apart.  Where the trees resemble each other,
a schedule of the one world can be made in the other one, up to the place where the two
part (`World.Resembles.follow`).

The rest of the file is about steps: runs of plans that agree on their first steps
resemble each other as soon as the runs of the remaining steps do
(`Run.resembles_append`).
-/

namespace Workplan

/-- How far two runs may differ. -/
structure Likeness where
  /-- Whether one of them may report more, and begin more steps, than the other. -/
  lax : Prop
  /-- Where the two may part, while the first one is in the step with a number. -/
  parts : Nat → Run → Run → Prop
  /-- The results that may stand for each other, when the first run ends in the step
  with a number. -/
  results : Nat → Except WorkflowError Outcome → Except WorkflowError Outcome → Prop

/-- Two runs take the same actions and resemble each other on every answer, up to what the
likeness leaves open.  What they report, and how they number their steps, may always
differ.  The number is that of the step that the first run is in. -/
inductive Run.Resembles (L : Likeness) : Nat → Run → Run → Prop where
  | part {n run run'} : L.parts n run run' → Resembles L n run run'
  | finish {n r r'} : L.results n r r' → Resembles L n (.finish r) (.finish r')
  | enter {n m m' rest rest'} : Resembles L m rest rest' → Resembles L n (.enter m rest)
      (.enter m' rest')
  | log {n e e' rest rest'} : Resembles L n rest rest' → Resembles L n (.log e rest)
      (.log e' rest')
  | setPrompt {n text rest rest'} : Resembles L n rest rest' →
      Resembles L n (.setPrompt text rest) (.setPrompt text rest')
  | readStore {n rest rest'} : (∀ store, Resembles L n (rest store) (rest' store)) →
      Resembles L n (.readStore rest) (.readStore rest')
  | call {n e input rest rest'} : (∀ answer, Resembles L n (rest answer) (rest' answer)) →
      Resembles L n (.call e input rest) (.call e input rest')
  | fanOut {n calls rest rest'} : (∀ answer, Resembles L n (rest answer) (rest' answer)) →
      Resembles L n (.fanOut calls rest) (.fanOut calls rest')
  | enterLeft {n m rest run'} : L.lax → Resembles L m rest run' →
      Resembles L n (.enter m rest) run'
  | enterRight {n m run rest'} : L.lax → Resembles L n run rest' →
      Resembles L n run (.enter m rest')
  | logLeft {n e rest run'} : L.lax → Resembles L n rest run' →
      Resembles L n (.log e rest) run'
  | logRight {n e run rest'} : L.lax → Resembles L n run rest' →
      Resembles L n run (.log e rest')

/-- The same likeness, seen from the second run. -/
def Likeness.flip (L : Likeness) : Likeness where
  lax := L.lax
  parts := fun _ run' run => ∃ n, L.parts n run run'
  results := fun _ r' r => ∃ n, L.results n r r'

/-- Resemblance can be read backwards. -/
lemma Run.Resembles.flip {L : Likeness} {n : Nat} {run run' : Run}
    (h : run.Resembles L n run') (m : Nat) :
    run'.Resembles L.flip m run := by
  induction h generalizing m with
  | part h => exact .part ⟨_, h⟩
  | finish h => exact .finish ⟨_, h⟩
  | enter _ ih => exact .enter (ih _)
  | log _ ih => exact .log (ih m)
  | setPrompt _ ih => exact .setPrompt (ih m)
  | readStore _ ih => exact .readStore fun store => ih store m
  | call _ ih => exact .call fun answer => ih answer m
  | fanOut _ ih => exact .fanOut fun answer => ih answer m
  | enterLeft hlax _ ih => exact .enterRight hlax (ih m)
  | enterRight hlax _ ih => exact .enterLeft hlax (ih _)
  | logLeft hlax _ ih => exact .logRight hlax (ih m)
  | logRight hlax _ ih => exact .logLeft hlax (ih m)

/-! ## Worlds abreast -/

/-- Whether something was done and not only reported. -/
def Entry.isDeed : Entry → Bool
  | reported _ => false
  | _ => true

/-- The call that something is, if it is one. -/
def Entry.call? : Entry → Option (Executor × Json)
  | called e input => some (e, input)
  | _ => none

namespace World

/-- What has been done in a world, the latest first. -/
def deeds (w : World) : List Entry :=
  w.journal.filter Entry.isDeed

lemma deeds_note {w v : World} (h : v.deeds = w.deeds) (e : Entry) :
    (v.note e).deeds = (w.note e).deeds := by
  simp only [deeds, note, List.filter_cons] at h ⊢
  rw [h]

/-- The calls that have been made are among what has been done. -/
lemma calls_eq (w : World) : w.calls = (w.deeds.filterMap Entry.call?).reverse := by
  rw [calls, deeds, List.filterMap_filter]
  congr 2
  funext e
  cases e <;> rfl

/-- Two worlds that agree on all that an executor can see, on all calls that have been
started and on all that has been done. -/
structure Abreast (w v : World) : Prop where
  host : v.host = w.host
  prompt : v.workflow.prompt = w.workflow.prompt
  store : v.workflow.store = w.workflow.store
  handle : v.workflow.handle = w.workflow.handle
  elsewhere : v.elsewhere = w.elsewhere
  now : v.now = w.now
  token : v.token = w.token
  jobs : v.jobs = w.jobs
  deeds : v.deeds = w.deeds

namespace Abreast

variable {w v w' : World}

theorem symm (h : w.Abreast v) : v.Abreast w :=
  ⟨h.host.symm, h.prompt.symm, h.store.symm, h.handle.symm,
    h.elsewhere.symm, h.now.symm, h.token.symm, h.jobs.symm, h.deeds.symm⟩

theorem trans {u : World} (h : w.Abreast v) (h' : v.Abreast u) : w.Abreast u :=
  ⟨h'.host.trans h.host, h'.prompt.trans h.prompt, h'.store.trans h.store,
    h'.handle.trans h.handle, h'.elsewhere.trans h.elsewhere, h'.now.trans h.now,
    h'.token.trans h.token, h'.jobs.trans h.jobs, h'.deeds.trans h.deeds⟩

theorem calls (h : w.Abreast v) : v.calls = w.calls := by
  rw [calls_eq, calls_eq, h.deeds]

theorem isCancelled (h : w.Abreast v) : v.isCancelled = w.isCancelled := by
  rw [World.isCancelled, World.isCancelled, h.token]

lemma jobEnd? (h : w.Abreast v) (n : Nat) : v.jobEnd? n = w.jobEnd? n := by
  rw [World.jobEnd?, World.jobEnd?, h.jobs]

lemma goTo (h : w.Abreast v) (p p' : Progress) : (w.goTo p).Abreast (v.goTo p') :=
  ⟨h.host, h.prompt, h.store, h.handle, h.elsewhere, h.now, h.token, h.jobs, h.deeds⟩

/-- The first world may go on without the second one, if it only changes its place. -/
theorem goToLeft (h : w.Abreast v) (p : Progress) : (w.goTo p).Abreast v :=
  ⟨h.host, h.prompt, h.store, h.handle, h.elsewhere, h.now, h.token, h.jobs, h.deeds⟩

lemma note (h : w.Abreast v) (e : Entry) : (w.note e).Abreast (v.note e) :=
  ⟨h.host, h.prompt, h.store, h.handle, h.elsewhere, h.now, h.token, h.jobs,
    deeds_note h.deeds e⟩

/-- What is only reported does not count. -/
theorem reportLeft (h : w.Abreast v) (e : Event) : (w.report e).Abreast v :=
  ⟨h.host, h.prompt, h.store, h.handle, h.elsewhere, h.now, h.token, h.jobs, h.deeds⟩

lemma report (h : w.Abreast v) (e e' : Event) : (w.report e).Abreast (v.report e') :=
  ⟨h.host, h.prompt, h.store, h.handle, h.elsewhere, h.now, h.token, h.jobs, h.deeds⟩

lemma setPrompt (h : w.Abreast v) (text : String) :
    ({ w with workflow := { w.workflow with prompt := some text } } : World).Abreast
      { v with workflow := { v.workflow with prompt := some text } } :=
  ⟨h.host, rfl, h.store, h.handle, h.elsewhere, h.now, h.token, h.jobs, h.deeds⟩

lemma start (h : w.Abreast v) (calls : List (Executor × Json)) :
    (w.start calls).Abreast (v.start calls) := by
  refine ⟨h.host, h.prompt, h.store, h.handle, h.elsewhere, h.now, h.token, ?_, ?_⟩
  · rw [World.start, World.start, h.jobs]
  · have hdeeds := h.deeds
    simp only [World.deeds, World.start, List.filter_append] at hdeeds ⊢
    rw [hdeeds]

lemma storeAt (h : w.Abreast v) (store : StoreHandle) :
    v.storeAt store = w.storeAt store := by
  rw [World.storeAt, World.storeAt, h.handle, h.store, h.elsewhere]

/-- A write goes to the same store in both worlds. -/
lemma write (h : w.Abreast v) (store : StoreHandle) (key : String) (value : Json) :
    (w.write store key value).Abreast (v.write store key value) := by
  unfold World.write
  rw [h.handle, h.elsewhere]
  split
  · exact ⟨h.host, h.prompt, congrArg (fun store => store.set key value) h.store,
      h.handle, rfl, h.now, h.token, h.jobs, deeds_note h.deeds _⟩
  · exact ⟨h.host, h.prompt, h.store, h.handle, rfl, h.now, h.token, h.jobs, h.deeds⟩

/-- An action of a task goes the same way in both worlds. -/
lemma perform (h : w.Abreast v) (t : Task) :
    (v.perform t).1 = (w.perform t).1 ∧ (w.perform t).2.Abreast (v.perform t).2 := by
  cases t with
  | finish | panic => exact ⟨rfl, h⟩
  | read store key next => exact ⟨by simp only [World.perform, h.storeAt], h⟩
  | write store key value next => exact ⟨rfl, h.write store key value⟩
  | sleep ms next => exact ⟨by simp only [World.perform, h.now], h⟩
  | launch command stdin next => exact ⟨by simp only [World.perform, h.host], h⟩
  | cancel next =>
    exact ⟨rfl, h.host, h.prompt, h.store, h.handle, h.elsewhere, h.now,
      congrArg Token.cancel h.token, h.jobs, h.deeds⟩
  | trace name input next => exact ⟨rfl, h.note _⟩
  | log event next => exact ⟨rfl, h.report _ _⟩

/-- A call goes on in the same way on both sides. -/
lemma advance (h : w.Abreast v) {a a' : Activity} (hadv : w.advance a = some (a', w')) :
    ∃ v', v.advance a = some (a', v') ∧ w'.Abreast v' := by
  cases advance_eq_some_iff.mp hadv with
  | act task =>
    obtain ⟨hsame, habreast⟩ := h.perform task
    exact ⟨(v.perform task).2, congrArg some (Prod.ext hsame rfl), habreast⟩
  | wake hdue => exact ⟨v, by rw [World.advance, h.now, if_pos hdue], h⟩

lemma setActivity (h : w.Abreast v) (n : Nat) (job : Job) (a : Activity) :
    (w.setActivity n job a).Abreast (v.setActivity n job a) :=
  ⟨h.host, h.prompt, h.store, h.handle, h.elsewhere, h.now, h.token,
    congrArg (fun jobs => jobs.set n { job with activity := a }) h.jobs, h.deeds⟩

/-- What happens apart from the run can happen in both worlds. -/
theorem take (h : w.Abreast v) {c : Choice} (hc : c.isOutside = true)
    (htake : w.take c = some w') :
    ∃ v', v.take c = some v' ∧ w'.Abreast v' := by
  cases take_outside hc htake with
  | @act n job a w₁ hjob hadv =>
    obtain ⟨v₁, hadv', habreast⟩ := h.advance hadv
    exact ⟨v₁.setActivity n job a, by simp only [World.take, stepJob, h.jobs, hjob, hadv'],
      habreast.setActivity n job a⟩
  | @exit n job hjob hawaits =>
    exact ⟨v.setActivity n job job.activity.released,
      by simp only [World.take, h.jobs, hjob, if_pos hawaits], h.setActivity n job _⟩
  | cancel =>
    exact ⟨_, rfl, h.host, h.prompt, h.store, h.handle, h.elsewhere, h.now,
      congrArg Token.cancel h.token, h.jobs, h.deeds⟩
  | pass ms =>
    exact ⟨_, rfl, h.host, h.prompt, h.store, h.handle, h.elsewhere,
      congrArg (· + ms) h.now, h.token, h.jobs, h.deeds⟩

end Abreast
end World

/-! ## Schedules that stand for each other -/

/-- A schedule that stands for another one: the same, or where one run may report more
than the other, the same up to choices of the run. -/
def Likeness.Alike (L : Likeness) (cs cs' : List Choice) : Prop :=
  cs'.filter (· ≠ .run) = cs.filter (· ≠ .run) ∧ (L.lax ∨ cs' = cs)

namespace World

/-- Some schedule that stands for `cs` has the dialogue `xs` and leads to a world of
which `Q` holds. -/
def Matches (L : Likeness) (v : World) (cs : List Choice) (xs : List Exchange)
    (Q : World → Prop) : Prop :=
  ∃ cs' v', L.Alike cs cs' ∧ v.follow cs' = some v' ∧ v.exchanges cs' = xs ∧ Q v'

theorem exchanges_append {w w' : World} {cs : List Choice} (h : w.follow cs = some w')
    (ds : List Choice) :
    w.exchanges (cs ++ ds) = w.exchanges cs ++ w'.exchanges ds :=
  record_append exchange? h ds

section

variable {L : Likeness} {v v' : World} {cs ds : List Choice} {xs ys : List Exchange}
  {Q Q' : World → Prop}

lemma Matches.here (hQ : Q v) : v.Matches L [] [] Q :=
  ⟨[], v, ⟨rfl, .inr rfl⟩, rfl, rfl, hQ⟩

/-- A choice matches itself. -/
lemma Matches.take (v' : World) {c : Choice} {x : Option Exchange}
    (htake : v.take c = some v') (hx : v.exchange? c = x) (hQ : Q v') :
    v.Matches L [c] x.toList Q := by
  refine ⟨[c], v', ⟨rfl, .inr rfl⟩, by rw [follow, htake]; rfl, ?_, hQ⟩
  rw [exchanges_cons htake, hx]
  simp [exchanges]

/-- What follows may be matched on its own. -/
lemma Matches.append (h : v.Matches L cs xs Q) (hQ : ∀ u, Q u → u.Matches L ds ys Q') :
    v.Matches L (cs ++ ds) (xs ++ ys) Q' := by
  obtain ⟨cs', v', ⟨hcs, hsame⟩, hfollow, rfl, h⟩ := h
  obtain ⟨ds', v'', ⟨hds, hsame'⟩, hfollow', rfl, h'⟩ := hQ v' h
  refine ⟨cs' ++ ds', v'', ⟨?_, ?_⟩, ?_, exchanges_append hfollow ds', h'⟩
  · rw [List.filter_append, List.filter_append, hcs, hds]
  · rcases hsame with hlax | rfl
    · exact .inl hlax
    · exact hsame'.imp_right fun h => by rw [h]
  · rw [follow_append, hfollow, Option.bind_some, hfollow']

/-- A run that may report more than the other takes an action of its own. -/
lemma Matches.ahead (hlax : L.lax) (htake : v.take .run = some v')
    (hx : v.exchange? .run = none) (h : v'.Matches L cs xs Q) : v.Matches L cs xs Q := by
  obtain ⟨cs', v'', ⟨hcs, -⟩, hfollow, hxs, hQ⟩ := h
  exact ⟨.run :: cs', v'', ⟨hcs, .inl hlax⟩, by rw [follow, htake]; exact hfollow,
    by rw [exchanges_cons htake, hx, hxs]; rfl, hQ⟩

/-- The first run takes an action of its own. -/
lemma Matches.behind (hlax : L.lax) (hQ : Q v) : v.Matches L [.run] [] Q :=
  ⟨[], v, ⟨rfl, .inl hlax⟩, rfl, rfl, hQ⟩

end
end World

/-! ## Worlds that resemble each other -/

/-- Two runs are at the same place and resemble each other from there. -/
inductive Progress.Resembles (L : Likeness) : Progress → Progress → Prop where
  | acting {n n' run run'} : run.Resembles L n run' → Resembles L (.acting n run)
      (.acting n' run')
  | calling {n n' activity rest rest'} :
      (∀ answer, (rest answer).Resembles L n (rest' answer)) →
      Resembles L (.calling n activity rest) (.calling n' activity rest')
  | joining {n n' awake first results rest rest'} :
      (∀ answer, (rest answer).Resembles L n (rest' answer)) →
      Resembles L (.joining n awake first results rest)
        (.joining n' awake first results rest')
  | ended {n r r'} : L.results n r r' → Resembles L (.ended r) (.ended r')
  | crashed {report} : Resembles L (.crashed report) (.crashed report)

lemma Progress.Resembles.flip {L : Likeness} {p p' : Progress} (h : p.Resembles L p') :
    p'.Resembles L.flip p := by
  cases h with
  | acting h => exact .acting (h.flip _)
  | calling h => exact .calling fun answer => (h answer).flip _
  | joining h => exact .joining fun answer => (h answer).flip _
  | @ended n _ _ h => exact .ended (n := n) ⟨n, h⟩
  | crashed => exact .crashed

namespace World

/-- Two worlds stand abreast, and their runs resemble each other from where they are. -/
structure Resembles (L : Likeness) (w v : World) : Prop where
  abreast : w.Abreast v
  progress : w.progress.Resembles L v.progress

theorem Resembles.flip {L : Likeness} {w v : World} (h : w.Resembles L v) :
    v.Resembles L.flip w :=
  ⟨h.abreast.symm, h.progress.flip⟩

/-- Two worlds stand abreast, and their runs part. -/
structure Parts (L : Likeness) (w v : World) : Prop where
  abreast : w.Abreast v
  progress : ∃ n n' run run', w.progress = .acting n run ∧ v.progress = .acting n' run' ∧
    L.parts n run run'

section

variable {L : Likeness} {w v w' : World}

theorem take_acting {n : Nat} {run : Run} (h : w.progress = .acting n run) :
    w.take .run = some (w.act n run) := by
  rw [take, stepRun, h]

lemma act_enter (hlive : w.isCancelled = false) {n m : Nat} {rest : Run} :
    w.act n (.enter m rest) = w.goTo (.acting m rest) := by
  rw [act, if_neg (by simp [hlive])]

/-- An action of the first run: the second one can take it as well, or the two
part before it. -/
lemma act_resembles {n n' : Nat} {run run' : Run} (h : run.Resembles L n run')
    (habreast : w.Abreast v) (hw : w.progress = .acting n run)
    (hv : v.progress = .acting n' run') (hlive : w.isCancelled = false)
    (htake : w.take .run = some w') :
    v.Matches L [] [] (w.Parts L) ∨ v.Matches L [.run] (w.exchange? .run).toList
      (w'.Resembles L) := by
  have hlive' : v.isCancelled = false := habreast.isCancelled.trans hlive
  obtain rfl : w.act n run = w' := Option.some.inj ((take_acting hw).symm.trans htake)
  -- Each action that only the second run takes is one step of the induction; it ends
  -- where both act, where only the first one acts, or where they part.
  induction h generalizing v n' with
  | part hparts => exact .inl (.here ⟨habreast, _, _, _, _, hw, hv, hparts⟩)
  | finish hr =>
    exact .inr (.take _ (take_acting hv) (by simp only [exchange?, hw, hv])
      ⟨habreast.goTo _ _, .ended hr⟩)
  | enter hrest =>
    refine .inr (.take _ (take_acting hv) (by simp only [exchange?, hw, hv]) ?_)
    rw [act_enter hlive, act_enter hlive']
    exact ⟨habreast.goTo _ _, .acting hrest⟩
  | log hrest =>
    exact .inr (.take _ (take_acting hv) (by simp only [exchange?, hw, hv])
      ⟨(habreast.report _ _).goTo _ _, .acting hrest⟩)
  | setPrompt hrest =>
    exact .inr (.take _ (take_acting hv) (by simp only [exchange?, hw, hv])
      ⟨(habreast.setPrompt _).goTo _ _, .acting hrest⟩)
  | readStore hrest =>
    refine .inr
      (.take _ (take_acting hv) (by simp only [exchange?, hw, hv, habreast.store]) ?_)
    rw [act, act, habreast.store]
    exact ⟨habreast.goTo _ _, .acting (hrest _)⟩
  | call hrest =>
    exact .inr (.take _ (take_acting hv) (by simp only [exchange?, hw, hv])
      ⟨(habreast.note _).goTo _ _, .calling hrest⟩)
  | fanOut hrest =>
    refine .inr (.take _ (take_acting hv) (by simp only [exchange?, hw, hv]) ?_)
    rw [act, act, habreast.jobs]
    exact ⟨(habreast.start _).goTo _ _, .joining hrest⟩
  | enterLeft hlax hrest =>
    rw [show w.exchange? .run = none by simp only [exchange?, hw], act_enter hlive]
    exact .inr (.behind hlax ⟨habreast.goToLeft _, by rw [hv]; exact .acting hrest⟩)
  | logLeft hlax hrest =>
    rw [show w.exchange? .run = none by simp only [exchange?, hw]]
    exact .inr
      (.behind hlax ⟨(habreast.reportLeft _).goToLeft _, by rw [hv]; exact .acting hrest⟩)
  | enterRight hlax _ ih =>
    have hx : v.exchange? .run = none := by simp only [exchange?, hv]
    have hnext := (take_acting hv).trans (congrArg some (act_enter hlive'))
    exact (ih (habreast.symm.goToLeft _).symm hw rfl hlive' htake).imp
      (.ahead hlax hnext hx) (.ahead hlax hnext hx)
  | logRight hlax _ ih =>
    have hx : v.exchange? .run = none := by simp only [exchange?, hv]
    exact (ih ((habreast.symm.reportLeft _).goToLeft _).symm hw rfl hlive' htake).imp
      (.ahead hlax (take_acting hv) hx) (.ahead hlax (take_acting hv) hx)

end

section

variable {L : Likeness} {n : Nat} {p : Progress}

/-- What resembles a run that acts acts, too. -/
theorem of_acting {run : Run} (h : (Progress.acting n run).Resembles L p) :
    ∃ n' run', p = .acting n' run' ∧ run.Resembles L n run' := by
  cases h with
  | acting h => exact ⟨_, _, rfl, h⟩

lemma of_calling {activity : Activity} {rest : Except ExecutorError Json → Run}
    (h : (Progress.calling n activity rest).Resembles L p) :
    ∃ n' rest', p = .calling n' activity rest' ∧ ∀ answer, (rest answer).Resembles L n
      (rest' answer) := by
  cases h with
  | calling h => exact ⟨_, _, rfl, h⟩

/-- What resembles a run that waits for started calls waits for the same ones. -/
lemma of_joining {awake : Bool} {first : Nat} {results : List (Option Json)}
    {rest : Except ExecutorError (List Json) → Run}
    (h : (Progress.joining n awake first results rest).Resembles L p) :
    ∃ n' rest', p = .joining n' awake first results rest' ∧
      ∀ answer, (rest answer).Resembles L n (rest' answer) := by
  cases h with
  | joining h => exact ⟨_, _, rfl, h⟩

/-- What resembles a run that has ended has ended, with a result that fits. -/
theorem of_ended {r : Except WorkflowError Outcome} (h : (Progress.ended r).Resembles L p) :
    ∃ n r', p = .ended r' ∧ L.results n r r' := by
  cases h with
  | ended h => exact ⟨_, _, rfl, h⟩

theorem of_crashed {report : String} (h : (Progress.crashed report).Resembles L p) :
    p = .crashed report := by
  cases h
  rfl

end

section

variable {L : Likeness} {w v w' : World}

/-- A choice in the first world can be made in the second one as well, or their runs
part before it. -/
lemma Resembles.take {c : Choice} (h : w.Resembles L v) (hloop : c ≠ .loop)
    (htake : w.take c = some w') (hlive : w'.isCancelled = false) :
    (c = .run ∧ v.Matches L [] [] (w.Parts L)) ∨
      v.Matches L [c] (w.exchange? c).toList (w'.Resembles L) := by
  obtain ⟨habreast, hprogress⟩ := h
  have hlive₀ : w.isCancelled = false :=
    Bool.eq_false_iff.mpr fun hc => by simp [take_isCancelled hloop htake hc] at hlive
  have hlive' : v.isCancelled = false := habreast.isCancelled.trans hlive₀
  -- Inside a call and among started calls both runs make the same move.  Only where the
  -- first one acts can the second one be ahead or behind, or can they part.
  rcases take_move hloop htake with hmove | ⟨hout, hx, hapart⟩
  · obtain ⟨x, hx⟩ : ∃ x, w.exchange? c = x := ⟨_, rfl⟩
    rw [hx] at hmove
    cases hmove with
    | refuse hw hc | abandon hw hc | leave hw hc =>
      exact absurd (hc.symm.trans hlive₀) (by simp)
    | finish hw | enter hw _ | log hw | setPrompt hw | readStore hw | call hw | fanOut hw =>
      obtain ⟨n', run', hv, hrun⟩ := of_acting (hw ▸ hprogress)
      exact (act_resembles hrun habreast hw hv hlive₀ htake).imp_left fun hparts =>
        ⟨rfl, hparts⟩
    | work hw =>
      obtain ⟨n', rest', hv, hrest⟩ := of_calling (hw ▸ hprogress)
      obtain ⟨hsame, hafter⟩ := habreast.perform _
      refine .inr
        (.take _ (by rw [World.take, stepRun, hv]) (by simp only [exchange?, hw, hv])
        ⟨hafter.goTo _ _, ?_⟩)
      rw [hsame]
      exact .calling hrest
    | @wake _ f task _ hw _ =>
      obtain ⟨n', rest', hv, hrest⟩ := of_calling (hw ▸ hprogress)
      have hdue : (Activity.waiting f task).isDue w.now = true := by
        cases hdue : (Activity.waiting f task).isDue w.now with
        | true => rfl
        | false => simp [World.take, stepRun, hw, hlive₀, hdue] at htake
      exact .inr (.take (v.goTo (.calling n' (.ready task) rest'))
        (by simp [World.take, stepRun, hv, hlive', habreast.now, hdue])
          (by simp only [exchange?, hw, hv])
        ⟨habreast.goTo _ _, .calling hrest⟩)
    | exit hw =>
      obtain ⟨n', rest', hv, hrest⟩ := of_calling (hw ▸ hprogress)
      exact .inr (.take (v.goTo (.calling n' (.waiting .nothing _) rest'))
        (by simp only [World.take, hv]) rfl ⟨habreast.goTo _ _, .calling hrest⟩)
    | answer hw =>
      obtain ⟨n', rest', hv, hrest⟩ := of_calling (hw ▸ hprogress)
      exact .inr
        (.take _ (by rw [World.take, stepRun, hv]) (by simp only [exchange?, hw, hv])
        ⟨habreast.goTo _ _, .acting (hrest _)⟩)
    | crash hw =>
      obtain ⟨n', rest', hv, hrest⟩ := of_calling (hw ▸ hprogress)
      exact .inr
        (.take _ (by rw [World.take, stepRun, hv]) (by simp only [exchange?, hw, hv])
        ⟨habreast.goTo _ _, .crashed⟩)
    | gather hw hc =>
      obtain ⟨n', rest', hv, hrest⟩ := of_joining (hw ▸ hprogress)
      exact .inr (.take (v.goTo (.acting n' (rest' _)))
        (by simp only [World.take, stepRun, hv, hc]) (by simp only [exchange?, hw, hv])
        ⟨habreast.goTo _ _, .acting (hrest _)⟩)
    | park hw hc =>
      obtain ⟨n', rest', hv, hrest⟩ := of_joining (hw ▸ hprogress)
      exact .inr (.take (v.goTo (.joining n' false _ _ rest'))
        (by simp only [World.take, stepRun, hv, hc]) (by simp only [exchange?, hw, hv])
        ⟨habreast.goTo _ _, .joining hrest⟩)
    | collect hw hslot _ hend =>
      obtain ⟨n', rest', hv, hrest⟩ := of_joining (hw ▸ hprogress)
      exact .inr (.take (v.goTo (.joining n' true _ (List.set _ _ _) rest'))
        (by simp [World.take, World.collect, hv, hslot, habreast.jobEnd?, hend, hlive'])
        (by simp only [exchange?, hw, hv, habreast.isCancelled, habreast.jobEnd?])
        ⟨habreast.goTo _ _, .joining hrest⟩)
    | failure hw hslot _ hend he =>
      obtain ⟨n', rest', hv, hrest⟩ := of_joining (hw ▸ hprogress)
      refine .inr (.take (v.goTo (.acting n' (rest' (.error _)))) ?_
        (by simp only [exchange?, hw, hv, habreast.isCancelled, habreast.jobEnd?])
        ⟨habreast.goTo _ _, .acting (hrest _)⟩)
      rcases he with rfl | ⟨report, rfl, rfl⟩ <;>
        simp [World.take, World.collect, hv, hslot, habreast.jobEnd?, hend, hlive']
  · obtain ⟨v', htake', hafter⟩ := habreast.take hout htake
    have hx' : v.exchange? c = none := by cases c <;> first | rfl | cases hout
    refine .inr (.take v' htake' (hx'.trans hx.symm) ⟨hafter, ?_⟩)
    rw [hapart.progress, (take_apart hout htake').progress]
    exact hprogress

/-- A schedule of the first world can be made in the second one as well, up to the place,
if there is one, where their runs part. -/
theorem Resembles.follow {cs : List Choice} (h : w.Resembles L v) (hloop : .loop ∉ cs)
    (hfollow : w.follow cs = some w') (hlive : w'.isCancelled = false) :
    v.Matches L cs (w.exchanges cs) (w'.Resembles L) ∨
      ∃ ds es u, cs = ds ++ .run :: es ∧ w.follow ds = some u ∧
        u.follow (.run :: es) = some w' ∧
        v.Matches L ds (w.exchanges ds) (u.Parts L) := by
  -- By induction on the schedule: a choice is made in both worlds before the next one
  -- is looked at.
  induction cs generalizing w v with
  | nil =>
    obtain rfl := Option.some.inj hfollow
    exact .inl (.here h)
  | cons c rest ih =>
    obtain ⟨w₁, htake, hrest⟩ := follow_cons hfollow
    rw [List.mem_cons, not_or] at hloop
    rcases h.take (Ne.symm hloop.1) htake (follow_live hloop.2 hrest hlive) with ⟨rfl,
      hparts⟩ | hmatch
    · exact .inr ⟨[], rest, w, rfl, rfl, hfollow, hparts⟩
    · obtain ⟨cs₁, v₁, hcs₁, hfollow₁, hx₁, h₁⟩ := hmatch
      have hstep : v.Matches L [c] (w.exchange? c).toList (· = v₁) :=
        ⟨cs₁, v₁, hcs₁, hfollow₁, hx₁, rfl⟩
      rcases ih h₁ hloop.2 hrest with hmatch | ⟨ds, es, u, rfl, hds, hes, hmatch⟩
      · rw [exchanges_cons htake]
        exact .inl (hstep.append fun u hu => hu ▸ hmatch)
      · refine .inr ⟨c :: ds, es, u, rfl,
          by rw [World.follow, htake, Option.bind_some, hds], hes, ?_⟩
        rw [exchanges_cons htake]
        exact hstep.append fun u hu => hu ▸ hmatch

end
end World

/-! ## Steps that resemble each other -/

/-- Two ways to go on resemble each other on everything that a step may come to. -/
structure Run.ResembleOn (L : Likeness) (n : Nat)
    (k k' : Except WorkflowError Json → Run) : Prop where
  ok : ∀ v, (k (.ok v)).Resembles L n (k' (.ok v))
  error : ∀ e, e.isAbsorbable = true → (k (.error e)).Resembles L n (k' (.error e))

section

variable {L : Likeness} {n number number' : Nat} {k k' : Except WorkflowError Json → Run}
  {s s' : Step}

/-- Links make no difference. -/
theorem Run.ResembleOn.chain (hk : ResembleOn L n k k') (executors : List Executor)
    (input : Json) :
    (Run.chain k executors input).Resembles L n (Run.chain k' executors input) := by
  induction executors generalizing input with
  | nil => exact hk.ok input
  | cons e rest ih =>
    refine .call fun answer => ?_
    cases answer with
    | ok v => exact ih v
    | error error => exact hk.error _ rfl

lemma Run.ResembleOn.gather (hk : ResembleOn L n k k') (calls : List (Executor × Json)) :
    (Run.gather calls k).Resembles L n (Run.gather calls k') := by
  refine .fanOut fun answer => ?_
  cases answer with
  | ok values => exact hk.ok _
  | error error => exact hk.error _ rfl

/-- Two steps with one action do the same with an input. -/
theorem Step.resembles_dispatch (haction : s'.action = s.action)
    (hk : Run.ResembleOn L n k k') (input : Json) :
    (s.dispatch input k).Resembles L n (s'.dispatch input k') := by
  unfold Step.dispatch
  rw [haction]
  cases s.action with
  | prompt text => exact .setPrompt (hk.ok _)
  | sequence executors => exact hk.chain executors input
  | parallel executors => exact hk.gather _
  | iterate source agent =>
    have hspread : ∀ items, (Step.spread items agent k).Resembles L n
        (Step.spread items agent k') :=
      fun items => .log (hk.gather _)
    cases source with
    | items items => exact hspread items
    | storeKey key =>
      refine .readStore fun store => ?_
      split
      · exact hspread _
      · exact hk.error _ rfl
      · exact hk.error _ rfl

/-- How a step goes on after its action. -/
def Step.settle (s : Step) (number : Nat) (k : Except WorkflowError Json → Run) :
    Except WorkflowError Json → Run
  | .ok output => s.conclude number k output
  | .error error => s.recover number k error

theorem Step.run_eq (s : Step) (number : Nat) (input : Json)
    (k : Except WorkflowError Json → Run) :
    s.run number input k = s.dispatch input (s.settle number k) := rfl

theorem Step.recover_of_none (hfail : s.onFail = none) (e : WorkflowError) :
    s.recover number k e = .log (.stepFailed number s.kind e.message) (k (.error e)) := by
  rw [Step.recover, hfail]

/-- A handler of failures is called on the message. -/
theorem Step.recover_of_some {h : Executor} (hfail : s.onFail = some h) {e : WorkflowError}
    (he : e.isAbsorbable = true) :
    s.recover number k e = .log (.stepFailed number s.kind e.message)
      (.log (.failureHandled number h.name)
        (.call h (.str e.message) fun answer => k (answer.mapError .executor))) := by
  simp only [Step.recover, hfail, he, if_true]

/-- Two steps with one handler of failures recover in the same way. -/
theorem Step.resembles_recover (hfail : s'.onFail = s.onFail) (hk : Run.ResembleOn L n k k')
    {e : WorkflowError} (he : e.isAbsorbable = true) :
    (s.recover number k e).Resembles L n (s'.recover number' k' e) := by
  cases hs : s.onFail with
  | none =>
    rw [Step.recover_of_none hs, Step.recover_of_none (hfail.trans hs)]
    exact .log (hk.error e he)
  | some handler =>
    rw [Step.recover_of_some hs he, Step.recover_of_some (hfail.trans hs) he]
    refine .log (.log (.call fun answer => ?_))
    cases answer with
    | ok v => exact hk.ok v
    | error error => exact hk.error _ rfl

/-- Steps with the same success handler go on alike after their actions, if they do
when they fail. -/
theorem Step.resembles_settle (hsuccess : s'.onSuccess = s.onSuccess)
    (hok : ∀ v, (k (.ok v)).Resembles L n (k' (.ok v)))
    (hrecover : ∀ e, e.isAbsorbable = true →
      (s.recover number k e).Resembles L n (s'.recover number' k' e)) :
    Run.ResembleOn L n (s.settle number k) (s'.settle number' k') := by
  refine ⟨fun v => ?_, hrecover⟩
  show (s.conclude number k v).Resembles L n (s'.conclude number' k' v)
  unfold Step.conclude
  rw [hsuccess]
  cases s.onSuccess with
  | none => exact hok v
  | some handler =>
    refine .log (.call fun answer => ?_)
    cases answer with
    | ok v => exact hok v
    | error error => exact hrecover _ rfl

/-- Steps with the same handlers go on alike after their actions. -/
theorem Run.ResembleOn.settle (hk : ResembleOn L n k k')
    (hsuccess : s'.onSuccess = s.onSuccess) (hfail : s'.onFail = s.onFail) :
    ResembleOn L n (s.settle number k) (s'.settle number' k') :=
  Step.resembles_settle hsuccess hk.ok fun _ => Step.resembles_recover hfail hk

end

namespace Run

variable {L : Likeness} {total total' n n' : Nat}

/-- Runs resemble each other that begin with the same steps, if they do afterwards. -/
theorem resembles_append {front rest rest' : List Step} {current : Json}
    (hrest : ∀ v, (Run.steps total (n + front.length + 1) rest v).Resembles L
      (n + front.length) (Run.steps total' (n' + front.length + 1) rest' v))
    (herror : ∀ m e, n < m → m ≤ n + front.length → e.isAbsorbable = true →
      L.results m (.error e) (.error e)) :
    (Run.steps total (n + 1) (front ++ rest) current).Resembles L n
      (Run.steps total' (n' + 1) (front ++ rest') current) := by
  -- The first step is the same in both plans, and behind it there is one step
  -- less in common.
  induction front generalizing n n' current with
  | nil => exact hrest current
  | cons s front ih =>
    have hlength : ∀ m, m + (s :: front).length = m + 1 + front.length := fun m => by
      rw [List.length_cons]
      omega
    rw [hlength] at herror
    simp only [hlength] at hrest
    have hk : ResembleOn L (n + 1) (after total (n + 1) (front ++ rest))
        (after total' (n' + 1) (front ++ rest')) :=
      ⟨fun v => ih hrest fun m e hm => herror m e (by omega),
        fun e he => .finish (herror _ _ (by omega) (by omega) he)⟩
    rw [List.cons_append, List.cons_append, steps_cons, steps_cons]
    exact .enter (.log (Step.resembles_dispatch rfl (hk.settle rfl rfl) current))

/-- Behind their last step two runs end with results that fit. -/
lemma resembles_done {number number' : Nat} {current : Json}
    (hdone : ∀ store, L.results n (.ok ⟨some current, store, total⟩)
      (.ok ⟨some current, store, total'⟩)) :
    (Run.steps total number [] current).Resembles L n
      (Run.steps total' number' [] current) :=
  .log (.readStore fun store => .finish (hdone store))

/-- Runs of the same steps resemble each other. -/
theorem resembles_steps {steps : List Step} {current : Json}
    (hdone : ∀ v store, L.results (n + steps.length) (.ok ⟨v, store, total⟩)
      (.ok ⟨v, store, total'⟩))
    (herror : ∀ m e, n < m → m ≤ n + steps.length → e.isAbsorbable = true →
      L.results m (.error e) (.error e)) :
    (Run.steps total (n + 1) steps current).Resembles L n
      (Run.steps total' (n' + 1) steps current) := by
  rw [← List.append_nil steps]
  exact resembles_append (fun v => resembles_done (hdone _)) herror

end Run

namespace World

/-- The same world with other steps in its workflow. -/
def withSteps (w : World) (steps : List Step) : World :=
  { w with workflow := { w.workflow with steps } }

theorem begin_withSteps (w : World) {steps : List Step} (hne : steps ≠ []) :
    (w.withSteps steps).begin.progress =
      .acting 0 (Run.steps steps.length 1 steps (w.workflow.prompt.elim .null .str)) :=
  congrArg (Progress.acting 0) (nextRun_of_steps (w := (w.withSteps steps).workflow) hne)

/-- Runs that begin in the same world, on plans that begin with the same steps. -/
theorem begin_resembles {L : Likeness} (w : World) {front rest rest' : List Step}
    (hne : rest ≠ []) (hne' : rest' ≠ [])
    (hrest : ∀ v,
      (Run.steps (front ++ rest).length (front.length + 1) rest v).Resembles L front.length
        (Run.steps (front ++ rest').length (front.length + 1) rest' v))
    (herror : ∀ m e, 0 < m → m ≤ front.length → e.isAbsorbable = true →
      L.results m (.error e) (.error e)) :
    (w.withSteps (front ++ rest)).begin.Resembles L
      (w.withSteps (front ++ rest')).begin where
  abreast := ⟨rfl, rfl, rfl, rfl, rfl, rfl, rfl, rfl, rfl⟩
  progress := by
    rw [begin_withSteps w (List.append_ne_nil_of_right_ne_nil _ hne),
      begin_withSteps w (List.append_ne_nil_of_right_ne_nil _ hne')]
    rw [← Nat.zero_add front.length] at hrest herror
    exact .acting (Run.resembles_append hrest herror)

end World
end Workplan
