import Mathlib.Tactic.Lemma
import Workplan.Proofs.Engine.Protocol

/-!
# Fan-outs

What becomes of calls that are started at once, whatever the order in which they act, end
and are observed.  A fan-out goes through four stages (`Stage`): it has not started its
calls, it collects their results, it has been answered, or its run was cancelled.  While
it collects, the results observed so far are the values of as many different calls, each
kept in the slot of its call (`Gathering`).

`World.step_gathers` puts this together for a step: which calls it starts, what it is
answered when all of them end in values, and what when one of them fails or panics.
-/

namespace Workplan

/-- The calls that an action starts at once, on the store and the input that it finds. -/
def Action.startedCalls? (store : Store) (input : Json) :
    Action → Option (List (Executor × Json))
  | .prompt _ | .sequence _ => none
  | .parallel executors => some (executors.map fun e => (e, input))
  | .iterate (.items items) agent => some (items.map fun item => (agent, item))
  | .iterate (.storeKey key) agent =>
    match store.get? key with
    | some (.arr items) => some (items.map fun item => (agent, item))
    | _ => none

/-- What an action does before it starts its calls. -/
def Action.looks (store : Store) : Action → List Exchange
  | .iterate (.storeKey _) _ => [.looked store]
  | _ => []

/-- The failure that a call which ended means for its fan-out, if it is one. -/
def CallEnd.failure? : CallEnd → Option ExecutorError
  | returned (.ok _) => none
  | returned (.error e) => some e
  | panicked report => some (.panicked report)

/-- A run that starts these calls next, apart from reports, and goes on with what
they come to. -/
def Run.FansOut (calls : List (Executor × Json)) (k : Except WorkflowError Json → Run) :
    Run → Prop
  | log _ run => run.FansOut calls k
  | fanOut calls' rest => calls' = calls ∧ ∀ answer, rest answer = k (gathered answer)
  | _ => False

lemma Run.fansOut_gather (calls : List (Executor × Json))
    (k : Except WorkflowError Json → Run) :
    (Run.gather calls k).FansOut calls k :=
  ⟨rfl, fun answer => by cases answer <;> rfl⟩

namespace World

/-! ## Observed results -/

/-- The result that a choice takes from a started call, with the position of the call. -/
def observation? (w : World) : Choice → Option (Nat × CallEnd)
  | .collect call =>
    match w.progress with
    | .joining _ awake first _ _ =>
      if !awake && w.isCancelled then none
      else (w.jobEnd? (first + call)).map fun r => (call, r)
    | _ => none
  | _ => none

/-- The results that the runs in progress take along a schedule, the earliest first. -/
def observed (w : World) (cs : List Choice) : List (Nat × CallEnd) :=
  w.record observation? cs

lemma observation?_of_not_joining {w : World} (c : Choice)
    (h : ∀ step awake first results rest, w.progress ≠
      .joining step awake first results rest) :
    w.observation? c = none := by
  cases c with
  | collect call =>
    unfold observation?
    dsimp only
    split
    · next hp => exact absurd hp (h _ _ _ _ _)
    · rfl
  | _ => rfl

/-! ## The stages of a fan-out -/

/-- What a fan-out holds while it collects: a slot for each call, all calls started on
their inputs, and in the slots exactly the values that have been observed. -/
structure Gathering (calls : List (Executor × Json)) (first : Nat)
    (results : List (Option Json)) (obs : List (Nat × CallEnd)) (w : World) : Prop where
  length : results.length = calls.length
  started : ∀ i c, calls[i]? = some c →
    ∃ a, w.jobs[first + i]? = some ⟨c.1, c.2, a⟩ ∧ ∀ r, a.EndsIn r → (c.1.run c.2).EndsIn r
  filled : ∀ i v, results[i]? = some (some v) ↔ (i, CallEnd.returned (.ok v)) ∈ obs
  ends : ∀ x ∈ obs, ∃ v, x.2 = .returned (.ok v) ∧ w.jobEnd? (first + x.1) = some x.2
  nodup : (obs.map Prod.fst).Nodup

/-- What has been gathered stays gathered while calls go on. -/
lemma Gathering.kept {calls : List (Executor × Json)} {first : Nat}
    {results : List (Option Json)} {obs : List (Nat × CallEnd)} {w w' : World}
    (h : Gathering calls first results obs w) (hk : Kept w w') :
    Gathering calls first results obs w' where
  length := h.length
  started := by
    intro i c hc
    obtain ⟨a, hjob, hmay⟩ := h.started i c hc
    obtain ⟨a', hjob', -, hmay'⟩ := hk _ _ hjob
    exact ⟨a', hjob', fun r hr => hmay r (hmay' r hr)⟩
  filled := h.filled
  ends := by
    intro x hx
    obtain ⟨v, hv, hend⟩ := h.ends x hx
    exact ⟨v, hv, hk.jobEnd? hend⟩
  nodup := h.nodup

/-- An empty slot is one whose call has not been observed. -/
lemma Gathering.not_mem {calls : List (Executor × Json)} {first : Nat}
    {results : List (Option Json)} {obs : List (Nat × CallEnd)} {w : World}
    (h : Gathering calls first results obs w) {i : Nat} (hslot : results[i]? = some none) :
    i ∉ obs.map Prod.fst := by
  intro hi
  obtain ⟨⟨j, r⟩, hx, rfl⟩ := List.mem_map.mp hi
  obtain ⟨v, rfl, -⟩ := h.ends _ hx
  have hfull := (h.filled j v).mpr hx
  rw [hslot] at hfull
  cases hfull

/-- Observing the value of another call fills its slot. -/
lemma Gathering.collect {calls : List (Executor × Json)} {first : Nat}
    {results : List (Option Json)} {obs : List (Nat × CallEnd)} {w : World}
    (h : Gathering calls first results obs w) {i : Nat} {v : Json}
    (hslot : results[i]? = some none)
    (hend : w.jobEnd? (first + i) = some (.returned (.ok v))) :
    Gathering calls first (results.set i (some v)) (obs ++ [(i, .returned (.ok v))]) w where
  length := by rw [List.length_set, h.length]
  started := h.started
  filled := by
    intro j u
    have hlt : i < results.length := (List.getElem?_eq_some_iff.mp hslot).1
    rw [List.mem_append, List.mem_singleton, ← h.filled]
    by_cases hij : i = j
    · subst hij
      rw [List.getElem?_set_self hlt, hslot]
      simp [eq_comm]
    · simp [List.getElem?_set_ne hij, Ne.symm hij]
  ends := by
    intro x hx
    rcases List.mem_append.mp hx with hx | hx
    · exact h.ends x hx
    · obtain rfl := List.mem_singleton.mp hx
      exact ⟨v, rfl, hend⟩
  nodup := by
    -- The slot was empty, so that this call has not been observed yet.
    have hnew := h.not_mem hslot
    rw [List.map_append, List.nodup_append]
    refine ⟨h.nodup, by simp, fun j hj j' hj' => ?_⟩
    obtain rfl : j' = i := by simpa using hj'
    rintro rfl
    exact hnew hj

/-- The values of all calls are there when each call has been observed. -/
lemma Gathering.complete {calls : List (Executor × Json)} {first : Nat}
    {results : List (Option Json)} {obs : List (Nat × CallEnd)} {w : World}
    {values : List Json} (h : Gathering calls first results obs w)
    (hv : complete? results = some values) :
    values.length = calls.length ∧ ∀ i v, values[i]? = some v →
      (i, CallEnd.returned (.ok v)) ∈ obs ∧
        w.jobEnd? (first + i) = some (.returned (.ok v)) := by
  obtain rfl := complete?_eq_some_iff.mp hv
  refine ⟨by simpa using h.length, fun i v hi => ?_⟩
  have hmem := (h.filled i v).mp (by simp [hi])
  obtain ⟨-, -, hend⟩ := h.ends _ hmem
  exact ⟨hmem, hend⟩

/-- How far a fan-out has come, with the dialogue and the observations since it was
about to start. -/
inductive Stage (calls : List (Executor × Json)) (n first : Nat)
    (k : Except WorkflowError Json → Run) :
    List Exchange → List (Nat × CallEnd) → World → Prop where
  | before {w run} : w.progress = .acting n run → run.FansOut calls k →
      w.jobs.length = first →
      Stage calls n first k [] [] w
  | collecting {w awake results rest obs} :
      w.progress = .joining n awake first results rest →
      (∀ answer, rest answer = k (gathered answer)) → Gathering calls first results obs w →
      w.IsCoherent → Stage calls n first k [.spawned calls] obs w
  | answered {w answer t obs} :
      Stage calls n first k (.spawned calls :: .gathered answer :: t) obs w
  | cancelled {w results obs} : w.progress = .ended (.error .cancelled) →
      w.isCancelled = true →
      Gathering calls first results obs w → Stage calls n first k [.spawned calls] obs w

section

variable {calls : List (Executor × Json)} {n first : Nat}
  {k : Except WorkflowError Json →
    Run} {xs : List Exchange} {obs : List (Nat × CallEnd)} {w w' : World}

/-- A fan-out that starts its calls holds nothing yet. -/
lemma start_gathering (w : World) (calls : List (Executor × Json)) (p : Progress) :
    Gathering calls w.jobs.length (calls.map fun _ => none) []
      ((w.start calls).goTo p) where
  length := List.length_map _
  started := by
    intro i c hc
    refine ⟨.ready (c.1.run c.2), ?_, fun r hr => hr⟩
    -- The new jobs stand behind those there were.
    show (w.jobs ++ calls.map fun c =>
      (⟨c.1, c.2, .ready (c.1.run c.2)⟩ : Job))[w.jobs.length + i]? = _
    rw [List.getElem?_append_right (by omega), Nat.add_sub_cancel_left,
      List.getElem?_map, hc]
    rfl
  filled := by
    intro i v
    rw [List.getElem?_map]
    cases calls[i]? <;> simp
  ends := by simp
  nodup := by simp

/-- A run that is about to start its calls reports something, or starts them. -/
lemma Stage.of_fansOut {c : Choice} {x : Option Exchange} {run : Run}
    (hrun : run.FansOut calls k) (hp : w.progress = .acting n run)
    (hmove : RunMove w c x w') (hcoherent : w.IsCoherent → w'.IsCoherent) :
    Stage calls n w.jobs.length k x.toList [] w' := by
  cases hmove with
  | log hp' =>
    rw [hp] at hp'
    cases hp'
    exact .before rfl hrun rfl
  | @fanOut step calls' rest hp' =>
    rw [hp] at hp'
    cases hp'
    obtain ⟨rfl, hrest⟩ := hrun
    have hw : w.IsCoherent := fun _ _ _ _ _ hj => by rw [hp] at hj; cases hj
    exact .collecting rfl hrest (start_gathering w _ _) (hcoherent hw)
  -- In front of its calls a fan-out only reports, so no other action can be its next.
  | finish hp' | enter hp' | refuse hp' | setPrompt hp' | readStore hp' | call hp' =>
    rw [hp] at hp'
    cases hp'
    exact hrun.elim
  | work hp' | wake hp' | abandon hp' | exit hp' | answer hp' | crash hp'
  | gather hp' | park hp'
  | leave hp' | collect hp' | failure hp' =>
    rw [hp] at hp'
    cases hp'

/-- A run that collects goes on with an answer, waits, gives up as cancelled, or fills
one more slot. -/
lemma Gathering.runMove {c : Choice} {x : Option Exchange} {awake : Bool}
    {results : List (Option Json)} {rest : Except ExecutorError (List Json) → Run}
    (hg : Gathering calls first results obs w)
    (hp : w.progress = .joining n awake first results rest)
    (hrest : ∀ answer, rest answer = k (gathered answer)) (hmove : RunMove w c x w')
    (hw' : w'.IsCoherent) :
    Stage calls n first k (.spawned calls :: x.toList)
      (obs ++ (w.observation? c).toList) w' := by
  cases hmove with
  | gather hp' | failure hp' =>
    rw [hp] at hp'
    cases hp'
    exact .answered
  | park hp' hv =>
    rw [hp] at hp'
    cases hp'
    have hobs : w.observation? .run = none := rfl
    rw [hobs, Option.toList_none, Option.toList_none, List.append_nil]
    exact .collecting rfl hrest (hg.kept (.of_jobs_eq rfl)) hw'
  | leave hp' hc =>
    rw [hp] at hp'
    cases hp'
    -- A run that has been cancelled takes no result any more, even if the choice is
    -- to take one.
    have hobs : w.observation? c = none := by
      cases c with
      | collect call => simp [observation?, hp, hc]
      | _ => rfl
    rw [hobs, Option.toList_none, Option.toList_none, List.append_nil]
    exact .cancelled rfl hc (hg.kept (.of_jobs_eq rfl))
  | @collect _ _ _ _ _ call v hp' hslot hlive hend =>
    rw [hp] at hp'
    cases hp'
    have hstays : (!awake && w.isCancelled) = false := by
      rcases hlive with rfl | hlive
      · rfl
      · rw [hlive, Bool.and_false]
    have hobs : w.observation? (.collect call) = some (call, .returned (.ok v)) := by
      simp [observation?, hp, hstays, hend]
    rw [hobs, Option.toList_none, Option.toList_some]
    exact .collecting rfl hrest ((hg.collect hslot hend).kept (.of_jobs_eq rfl)) hw'
  | finish hp' | enter hp' | refuse hp' | log hp' | setPrompt hp' | readStore hp' | call hp'
  | fanOut hp' | work hp' | wake hp' | abandon hp' | exit hp' | answer hp' | crash hp' =>
    rw [hp] at hp'
    cases hp'

/-- What the run in progress does takes its fan-out from one stage to another. -/
lemma Stage.runMove {c : Choice} {x : Option Exchange} (h : Stage calls n first k xs obs w)
    (hmove : RunMove w c x w') (hcoherent : w.IsCoherent → w'.IsCoherent) :
    Stage calls n first k (xs ++ x.toList) (obs ++ (w.observation? c).toList) w' := by
  cases h with
  | before hp hrun hfirst =>
    have hobs : w.observation? c = none := observation?_of_not_joining c (by simp [hp])
    subst hfirst
    rw [hobs]
    exact .of_fansOut hrun hp hmove hcoherent
  | collecting hp hrest hg hw => exact hg.runMove hp hrest hmove (hcoherent hw)
  | answered => exact .answered
  | cancelled hp => exact absurd hp (hmove.not_ended _)

/-- Whatever happens next, a fan-out is in one of its stages. -/
lemma Stage.take {c : Choice} (h : Stage calls n first k xs obs w) (hloop : c ≠ .loop)
    (htake : w.take c = some w') :
    Stage calls n first k (xs ++ (w.exchange? c).toList)
      (obs ++ (w.observation? c).toList) w' := by
  have hcoherent : w.IsCoherent → w'.IsCoherent := take_isCoherent hloop htake
  have hkept := take_kept hloop htake
  rcases take_move hloop htake with hmove | ⟨hout, hx, hapart⟩
  · exact h.runMove hmove hcoherent
  -- Results are observed by the run only.
  · have hobs : w.observation? c = none := by
      cases c with
      | collect => cases hout
      | _ => rfl
    have hlen := take_outside_length hout htake
    rw [hx, hobs, Option.toList_none, Option.toList_none, List.append_nil, List.append_nil]
    cases h with
    | before hp hrun hfirst =>
      exact .before (hapart.progress.trans hp) hrun (hlen.trans hfirst)
    | collecting hp hrest hg hw =>
      exact .collecting (hapart.progress.trans hp) hrest (hg.kept hkept) (hcoherent hw)
    | answered => exact .answered
    | cancelled hp hc hg =>
      exact .cancelled (hapart.progress.trans hp) (hapart.cancelled hc) (hg.kept hkept)

/-- On every schedule, a fan-out is in one of its stages. -/
lemma Stage.follow {cs : List Choice} (h : Stage calls n first k xs obs w)
    (hloop : .loop ∉ cs) (hfollow : w.follow cs = some w') :
    Stage calls n first k (xs ++ w.exchanges cs) (obs ++ w.observed cs) w' := by
  induction cs generalizing w xs obs with
  | nil =>
    obtain rfl := Option.some.inj hfollow
    simpa [exchanges, observed] using h
  | cons c rest ih =>
    obtain ⟨w₁, htake, hrest⟩ := follow_cons hfollow
    rw [List.mem_cons, not_or] at hloop
    have hnext := ih (h.take (Ne.symm hloop.1) htake) hloop.2 hrest
    rwa [exchanges_cons htake, observed, record_cons observation? htake,
      ← List.append_assoc, ← List.append_assoc]

/-- What is known of the calls while none of the results has been an answer: each has been
started on its input and comes to an end of its executor; what has been observed are
values, of different calls. -/
structure Pending (calls : List (Executor × Json)) (first : Nat)
    (obs : List (Nat × CallEnd)) (w : World) : Prop where
  started : ∀ i c, calls[i]? = some c →
    ∃ a, w.jobs[first + i]? = some ⟨c.1, c.2, a⟩ ∧ ∀ r, a.EndsIn r → (c.1.run c.2).EndsIn r
  nodup : (obs.map Prod.fst).Nodup
  values : ∀ x ∈ obs, x.1 < calls.length ∧ ∃ v, x.2 = .returned (.ok v) ∧
    w.jobEnd? (first + x.1) = some x.2

lemma Gathering.pending {results : List (Option Json)}
    (h : Gathering calls first results obs w) :
    Pending calls first obs w where
  started := h.started
  nodup := h.nodup
  values := by
    rintro ⟨i, r⟩ hx
    obtain ⟨v, rfl, hend⟩ := h.ends _ hx
    have hslot := (h.filled i v).mpr hx
    have hlt := (List.getElem?_eq_some_iff.mp hslot).1
    exact ⟨h.length ▸ hlt, v, rfl, hend⟩

/-- What an answer, got by a choice, says about the calls.  Values are those of the calls,
in the order of the calls, and each has been observed.  A failure is that of the call
whose result the choice takes. -/
def Justified (calls : List (Executor × Json)) (first : Nat) (obs : List (Nat × CallEnd))
    (c : Choice) (w : World) : Except ExecutorError (List Json) → Prop
  | .ok values => values.length = calls.length ∧ ∀ i v, values[i]? = some v →
      (i, CallEnd.returned (.ok v)) ∈ obs ∧ w.jobEnd? (first + i) = some (.returned (.ok v))
  | .error e => ∃ i r, c = .collect i ∧ i < calls.length ∧ i ∉ obs.map Prod.fst ∧
      w.jobEnd? (first + i) = some r ∧ r.failure? = some e

/-- A justified answer holds values exactly when all calls have ended in values. -/
lemma Justified.ok_iff {c : Choice} {answer : Except ExecutorError (List Json)}
    (h : Justified calls first obs c w answer) :
    (∃ values, answer = .ok values) ↔
      ∀ i < calls.length, ∃ v, w.jobEnd? (first + i) = some (.returned (.ok v)) := by
  cases answer with
  | ok values =>
    obtain ⟨hlen, hvalues⟩ := h
    refine ⟨fun _ i hi => ?_, fun _ => ⟨values, rfl⟩⟩
    have hget : values[i]? = some values[i] := List.getElem?_eq_getElem (by omega)
    exact ⟨_, (hvalues i _ hget).2⟩
  -- The call whose failure was observed has ended in that failure, not in a value.
  | error e =>
    obtain ⟨i, r, -, hi, -, hend, hfail⟩ := h
    refine ⟨fun ⟨_, hok⟩ => (by cases hok), fun hall => ?_⟩
    obtain ⟨v, hv⟩ := hall i hi
    obtain rfl := Option.some.inj (hend.symm.trans hv)
    cases hfail

/-- What is added to the dialogue of a fan-out that collects is an answer, and the run
goes on with it. -/
lemma Stage.answer {c : Choice} {x : Exchange}
    (h : Stage calls n first k [.spawned calls] obs w) (hloop : c ≠ .loop)
    (htake : w.take c = some w') (hx : w.exchange? c = some x) :
    ∃ answer, x = .gathered answer ∧ w'.progress = .acting n (k (gathered answer)) ∧
      Justified calls first obs c w' answer := by
  rcases take_move hloop htake with hmove | ⟨-, hnone, -⟩
  · rw [hx] at hmove
    cases h with
    | cancelled hp => exact absurd hp (hmove.not_ended _)
    -- A run that collects says something only with the last value or with a failure.
    | collecting hp hrest hg hw =>
      have hkept : Kept w w' := take_kept hloop htake
      cases hmove with
      | gather hp' hv =>
        rw [hp] at hp'
        cases hp'
        obtain ⟨hlen, hvalues⟩ := (hg.kept hkept).complete hv
        exact ⟨_, rfl, by rw [← hrest]; rfl, hlen, hvalues⟩
      | @failure _ _ _ _ _ i r e hp' hslot hlive hend he =>
        rw [hp] at hp'
        cases hp'
        have hlt : i < calls.length := hg.length ▸ (List.getElem?_eq_some_iff.mp hslot).1
        have hfail : r.failure? = some e := by
          rcases he with rfl | ⟨report, rfl, rfl⟩ <;> rfl
        exact ⟨_, rfl, by rw [← hrest]; rfl, i, r, rfl, hlt, hg.not_mem hslot,
          hkept.jobEnd? hend, hfail⟩
      | setPrompt hp' | readStore hp' | call hp' | fanOut hp' | answer hp' =>
        rw [hp] at hp'
        cases hp'
  · rw [hnone] at hx
    cases hx

/-- A fan-out has two exchanges: its calls are started, and there is an answer. -/
lemma Stage.exchanges (h : Stage calls n first k xs obs w) :
    xs = [] ∨ xs = [.spawned calls] ∨
      ∃ answer t, xs = .spawned calls :: .gathered answer :: t := by
  cases h with
  | before => exact .inl rfl
  | collecting => exact .inr (.inl rfl)
  | answered => exact .inr (.inr ⟨_, _, rfl⟩)
  | cancelled => exact .inr (.inl rfl)

lemma Stage.pending (h : Stage calls n first k [.spawned calls] obs w) :
    Pending calls first obs w := by
  cases h with
  | collecting _ _ hg _ => exact hg.pending
  | cancelled _ _ hg => exact hg.pending

/-- A fan-out that collects can be carried to its answer, unless its run is cancelled. -/
lemma Stage.ends (h : Stage calls n first k [.spawned calls] obs w) :
    ∃ ds w₂, w.follow ds = some w₂ ∧
      ((∃ answer, w₂.progress = .acting n (k (gathered answer))) ∨
      w₂.progress = .ended (.error .cancelled) ∧ w₂.isCancelled = true) := by
  cases h with
  | collecting hp hrest hg hw =>
    obtain ⟨w₂, ⟨ds, -, hfollow⟩, ⟨answer, hanswer⟩ | hcancelled⟩ := joining_ends hp hw
    · exact ⟨ds, w₂, hfollow, .inl ⟨answer, by rw [hanswer, hrest]⟩⟩
    · exact ⟨ds, w₂, hfollow, .inr hcancelled⟩
  | cancelled hp hc _ => exact ⟨[], w, rfl, .inr ⟨hp, hc⟩⟩

/-! ## The fan-out of a step -/

/-- A step that finds its calls is, from its first action on, in a stage of its fan-out. -/
lemma dispatch_stage {s : Step} {input : Json} {cs : List Choice}
    (hp : w.progress = .acting n (s.dispatch input k))
    (hcalls : s.action.startedCalls? w.workflow.store input = some calls)
    (hloop : .loop ∉ cs) (hfollow : w.follow (.run :: cs) = some w') :
    ∃ t, w.exchanges (.run :: cs) = s.action.looks w.workflow.store ++ t ∧
      Stage calls n w.jobs.length k t (w.observed (.run :: cs)) w' := by
  have hloop' : .loop ∉ Choice.run :: cs := by simpa using hloop
  unfold Step.dispatch at hp
  cases haction : s.action with
  | prompt text => rw [haction] at hcalls; cases hcalls
  | sequence executors => rw [haction] at hcalls; cases hcalls
  | parallel executors =>
    rw [haction] at hp hcalls
    obtain rfl := Option.some.inj hcalls
    have hstage := Stage.before hp (Run.fansOut_gather _ k) rfl
    exact ⟨_, rfl, hstage.follow hloop' hfollow⟩
  | iterate source agent =>
    rw [haction] at hp hcalls
    cases source with
    | items items =>
      obtain rfl := Option.some.inj hcalls
      have hstage := Stage.before hp (show (Step.spread items agent k).FansOut _ k from
        Run.fansOut_gather (items.map fun item => (agent, item)) k) rfl
      exact ⟨_, rfl, hstage.follow hloop' hfollow⟩
    | storeKey key =>
      -- The step looks at the store first; what it finds there fixes the calls.
      obtain ⟨w₁, htake, hfollow₁⟩ := follow_cons hfollow
      simp only [Action.startedCalls?] at hcalls
      split at hcalls
      · next items hitems =>
        obtain rfl := Option.some.inj hcalls
        have htake' : w.take .run =
            some (w.goTo (.acting n (Step.spread items agent k))) := by
          simp only [take, stepRun, hp, act, hitems]
        obtain rfl := Option.some.inj (htake.symm.trans htake')
        have hx : w.exchange? .run = some (.looked w.workflow.store) := by
          simp only [exchange?, hp]
        have hfans : (Step.spread items agent k).FansOut
            (items.map fun item => (agent, item)) k :=
          Run.fansOut_gather _ k
        have hstage :=
          Stage.before (w := w.goTo (.acting n (Step.spread items agent k))) rfl hfans rfl
        refine ⟨(w.goTo (.acting n (Step.spread items agent k))).exchanges cs, ?_, ?_⟩
        · rw [exchanges_cons htake, hx]
          rfl
        · have hobs : w.observation? .run = none := rfl
          rw [observed, record_cons observation? htake, hobs]
          exact hstage.follow hloop hfollow₁
      · cases hcalls

/-- The fan-out of a step, on every schedule.  A step that iterates over a key under which
no array is found fails with that key and starts nothing.  Otherwise the step starts the
calls that its input and the store at its first action determine, and nothing else before
it is answered.  Until then every observed result is the value of a call of its own; an
answer is either the values of all calls in their order, or the failure of the call that
is observed last, and it holds values exactly when all calls ended in values.  An answer
can always be reached, unless the run is cancelled. -/
theorem step_gathers {s : Step} {input : Json} (hnone : w.loop = none)
    (hp : w.progress = .acting n (s.dispatch input k)) :
    (∀ key agent, s.action = .iterate (.storeKey key) agent →
      s.action.startedCalls? w.workflow.store input = none →
      w.take .run = some (w.goTo (.acting n (k (.error (.iterationSource key
        (foundKind (w.workflow.store.get? key)))))))) ∧
    ∀ calls, s.action.startedCalls? w.workflow.store input = some calls →
      ∀ cs w₁, w.follow (.run :: cs) = some w₁ →
        (∃ t, w.exchanges (.run :: cs) = s.action.looks w.workflow.store ++ t ∧
          (t = [] ∨ t = [.spawned calls] ∨
            ∃ answer t', t = .spawned calls :: .gathered answer :: t')) ∧
        (w.exchanges (.run :: cs) = s.action.looks w.workflow.store ++ [.spawned calls] →
          Pending calls w.jobs.length (w.observed (.run :: cs)) w₁ ∧
          (∀ c x w₂, w₁.take c = some w₂ → w₁.exchange? c = some x →
            ∃ answer, x = .gathered answer ∧ w₂.progress = .acting n (k (gathered answer)) ∧
              Justified calls w.jobs.length (w.observed (.run :: cs)) c w₂ answer ∧
              ((∃ values, answer = .ok values) ↔
                ∀ i < calls.length, ∃ v, w₂.jobEnd? (w.jobs.length + i) =
                  some (.returned (.ok v)))) ∧
          ∃ ds w₂, w₁.follow ds = some w₂ ∧
            ((∃ answer, w₂.progress = .acting n (k (gathered answer))) ∨
              w₂.progress = .ended (.error .cancelled) ∧ w₂.isCancelled = true)) := by
  constructor
  · intro key agent haction hmissing
    unfold Step.dispatch at hp
    rw [haction] at hp hmissing
    simp only [Action.startedCalls?] at hmissing
    simp only [take, stepRun, hp, act]
    cases hv : w.workflow.store.get? key with
    | none => rfl
    | some v =>
      rw [hv] at hmissing
      cases v with
      | arr items => cases hmissing
      | _ => rfl
  · intro calls hcalls cs w₁ hfollow
    have hloop : .loop ∉ Choice.run :: cs := follow_without_loop hnone hfollow
    have hloop' : .loop ∉ cs := fun h => hloop (List.mem_cons_of_mem _ h)
    obtain ⟨t, ht, hstage⟩ := dispatch_stage hp hcalls hloop' hfollow
    refine ⟨⟨t, ht, ?_⟩, fun hspawned => ?_⟩
    · exact hstage.exchanges
    · obtain rfl : t = [.spawned calls] := List.append_cancel_left (ht.symm.trans hspawned)
      refine ⟨hstage.pending, fun c x w₂ htake hx => ?_, hstage.ends⟩
      have hc : c ≠ .loop := by
        rintro rfl
        cases hx
      obtain ⟨answer, hanswer, hprogress, hjust⟩ := hstage.answer hc htake hx
      exact ⟨answer, hanswer, hprogress, hjust, hjust.ok_iff⟩

end

/-- A step that calls two executors at once. -/
def pairStep : Step where
  action :=
    .parallel [ExecutorSpec.echo.toExecutor 0,
      (ExecutorSpec.storeSet "seen").toExecutor 1]
  description := "pair"

/-- A world whose run is about to take that step. -/
def pairWorld : World where
  host := fun _ _ => .refused "no program"
  workflow := { name := "pair", prompt := none, steps := [pairStep] }
  progress :=
    .acting 1 (pairStep.dispatch (.str "x") fun r =>
      .finish (r.map fun v => ⟨some v, .empty, 1⟩))

/-- The second call ends and is observed before the first. -/
theorem step_gathers_pair :
    ∃ w₁ w₂ answer, pairWorld.follow [.run, .job 1, .job 1, .collect 1, .job 0,
      .collect 0] = some w₁ ∧
      w₁.take .run = some w₂ ∧
      w₂.progress = .acting 1
        (.finish ((gathered answer).map fun v => ⟨some v, .empty, 1⟩)) ∧
      Justified [(ExecutorSpec.echo.toExecutor 0, .str "x"),
        ((ExecutorSpec.storeSet "seen").toExecutor 1, .str "x")] 0
        [(1, .returned (.ok (.str "x"))),
          (0, .returned (.ok (.str "x")))] .run w₂ answer := by
  obtain ⟨-, hcalls⟩ := step_gathers (w := pairWorld) rfl rfl
  obtain ⟨w₁, hfollow, w₂, htake, x, hx⟩ :
      ∃ w₁, pairWorld.follow [.run, .job 1, .job 1, .collect 1, .job 0,
        .collect 0] = some w₁ ∧
        ∃ w₂, w₁.take .run = some w₂ ∧ ∃ x, w₁.exchange? .run = some x :=
          ⟨_, rfl, _, rfl, _, rfl⟩
  obtain ⟨-, hanswered⟩ := hcalls _ rfl _ w₁ hfollow
  obtain ⟨-, hanswer, -⟩ := hanswered rfl
  obtain ⟨answer, -, hprogress, hjust, -⟩ := hanswer .run x w₂ htake hx
  exact ⟨w₁, w₂, answer, hfollow, htake, hprogress, hjust⟩

end World
end Workplan
