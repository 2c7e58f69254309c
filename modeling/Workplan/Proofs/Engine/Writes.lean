import Mathlib.Tactic.Lemma
import Workplan.Proofs.Engine.Ledgers

/-!
# What is written to the store

The store changes in one way only: a call, of the run itself or started by it, makes a
write.  The journal notes each of them (`World.writes`), so that the store is at every
moment the first store with the noted writes made in it, one after another
(`History.live_wrote`).

Where the writes come from is said by `Accounted`: every call is one of an executor of the
workflow, each noted write lies in the task of a call that has been made, and a call that
begins with a write has made it unless it has not acted at all.
-/

namespace Workplan

/-! ## Writes -/

/-- The write to the store that a handle is on, if a task makes one next. -/
def Task.write? (own : StoreHandle) : Task → Option (String × Json)
  | write store key value _ => if store = own then some (key, value) else none
  | _ => none

/-- The write to the store that a handle is on, if a call makes one next. -/
def Activity.write? (own : StoreHandle) : Activity → Option (String × Json)
  | ready task => task.write? own
  | _ => none

/-- The write to the workflow's own store that a choice makes. -/
def World.write? (w : World) : Choice → Option (String × Json)
  | .run =>
    match w.progress with
    | .calling _ activity _ => activity.write? w.workflow.handle
    | _ => none
  | .job n => w.jobs[n]?.bind fun job => job.activity.write? w.workflow.handle
  | _ => none

/-- The write that is made by what happens. -/
def Happening.write? (w : World) : Happening → Option (String × Json)
  | choose c => w.write? c
  | _ => none

namespace World

/-- The writes to the workflow's own store that have been made, the earliest first. -/
def writes (w : World) : List (String × Json) :=
  (w.journal.filterMap fun | .stored key value => some (key, value) | _ => none).reverse

/-- A change of the world in which some writes are made, and the store does not
change otherwise. -/
structure Wrote (w w' : World) (made : List (String × Json)) : Prop where
  store : w'.workflow.store = w.workflow.store.setAll made
  writes : w'.writes = w.writes ++ made

@[simp] theorem writes_report (w : World) (e : Event) : (w.report e).writes = w.writes := by
  simp [writes, report, note]

@[simp] theorem writes_note_called (w : World) (e : Executor) (input : Json) :
    (w.note (.called e input)).writes = w.writes := by
  simp [writes, note]

@[simp] theorem writes_goTo (w : World) (p : Progress) : (w.goTo p).writes = w.writes := rfl

@[simp] theorem writes_start (w : World) (cs : List (Executor × Json)) :
    (w.start cs).writes = w.writes := by
  -- Starting calls notes each of them, which is no write.
  have hcs : ((cs.map fun c => Entry.called c.1 c.2).reverse).filterMap
      (fun | .stored key value => some (key, value) | _ => none) =
        ([] : List (String × Json)) := by
    rw [List.filterMap_eq_nil_iff]
    intro entry hentry
    obtain ⟨c, -, rfl⟩ := List.mem_map.mp (List.mem_reverse.mp hentry)
    rfl
  simp only [writes, start, List.filterMap_append, hcs, List.nil_append]

section

variable {w w' : World}

lemma Wrote.none (hstore : w'.workflow.store = w.workflow.store)
    (hwrites : w'.writes = w.writes) :
    Wrote w w' [] :=
  ⟨hstore, by rw [hwrites, List.append_nil]⟩

lemma Wrote.trans {w₁ w₂ w₃ : World} {made made' : List (String × Json)}
    (h : Wrote w₁ w₂ made) (h' : Wrote w₂ w₃ made') : Wrote w₁ w₃ (made ++ made') where
  store := by
    rw [h'.store, h.store, Store.setAll, Store.setAll, Store.setAll, List.foldl_append]
  writes := by rw [h'.writes, h.writes, List.append_assoc]

/-- An action of a task makes the write that it is, or none. -/
lemma perform_wrote (w : World) (t : Task) :
    Wrote w (w.perform t).2 (t.write? w.workflow.handle).toList := by
  cases t with
  | write store key value next =>
    have hwritten := w.written store key value
    rw [perform]
    generalize w.write store key value = w' at hwritten
    cases hwritten with
    | own hown =>
      rw [Task.write?, if_pos hown]
      exact ⟨rfl, by simp [writes, note]⟩
    | elsewhere hother =>
      rw [Task.write?, if_neg hother]
      exact .none rfl rfl
  | finish | panic | read | sleep | cancel | launch => exact .none rfl rfl
  | trace name input next => exact .none rfl (by simp [writes, perform, note])
  | log event next => exact .none rfl (writes_report w event)

/-- A call that goes on makes the write that comes next, or none. -/
lemma advance_wrote {a a' : Activity} (h : w.advance a = some (a', w')) :
    Wrote w w' (a.write? w.workflow.handle).toList := by
  cases advance_eq_some_iff.mp h with
  | act task => exact perform_wrote w task
  | wake hdue => exact .none rfl rfl

/-- The run itself makes a write only inside a call of its own. -/
lemma RunMove.wrote {c : Choice} {x : Option Exchange} (h : RunMove w c x w')
    (hc : c.isOutside = false) :
    Wrote w w' (w.write? c).toList := by
  cases h with
  -- This is the only move in which the run acts in a task.
  | @work step task rest hp =>
    have hwrote := perform_wrote w task
    simp only [write?, hp]
    exact ⟨hwrote.store, hwrote.writes⟩
  | call hp | fanOut hp | log hp | refuse hp | abandon hp =>
    simp only [write?, hp]
    exact .none rfl (by simp [endCancelled])
  | finish hp | enter hp | setPrompt hp | readStore hp | wake hp | answer hp | crash hp
  | gather hp | park hp =>
    simp only [write?, hp]
    exact .none rfl rfl
  | exit | collect | failure => exact .none rfl rfl
  | @leave step first results rest c hp =>
    have hnone : w.write? c = none := by
      cases c with
      | run => simp only [write?, hp]
      | collect | exitOfRun | loop | cancel | pass => rfl
      | job | exitOfJob => cases hc
    rw [hnone]
    exact .none rfl (by simp [endCancelled])

/-- A choice makes the write that it is, or none, and the store changes only by
that write. -/
lemma take_wrote {c : Choice} (h : w.take c = some w') :
    Wrote w w' (w.write? c).toList := by
  cases c with
  | run => exact (stepRun_move h).wrote rfl
  | collect call => exact (collect_move h).wrote rfl
  -- The end of a program of the run is a move of the run.
  | exitOfRun =>
    rcases take_move (by simp) h with hmove | ⟨hout, -⟩
    · exact hmove.wrote rfl
    · cases hout
  | job n =>
    obtain ⟨job, a, w₁, hjob, hadv, rfl⟩ := take_job h
    have hwrote := advance_wrote hadv
    simp only [write?, hjob, Option.bind_some]
    exact ⟨hwrote.store, hwrote.writes⟩
  | exitOfJob n =>
    obtain ⟨job, -, -, rfl⟩ := take_exitOfJob h
    exact .none rfl rfl
  | loop =>
    obtain ⟨l, -, hmove⟩ := take_loop h
    refine .none (by rw [hmove.aside.workflow]) ?_
    cases hmove with
    -- What the loop reports is an event, not a write.
    | start | settle | cut | quit => exact writes_report w _
    | crash | count | again => rfl
  | cancel => obtain rfl := Option.some.inj h; exact .none rfl rfl
  | pass ms => obtain rfl := Option.some.inj h; exact .none rfl rfl

end

end World

namespace History

variable {H H' : History}

/-- What happens makes one write at most. -/
theorem next_wrote {h : Happening} (hnext : H.next h = some H') :
    World.Wrote H.world H'.world (h.write? H.world).toList := by
  cases h with
  | choose c =>
    obtain ⟨w, htake, rfl⟩ := next_choose hnext
    exact World.take_wrote htake
  | run token =>
    obtain ⟨-, -, rfl⟩ := next_run hnext
    exact .none rfl rfl
  | startLoop pause =>
    obtain ⟨-, -, rfl⟩ := next_startLoop hnext
    exact .none rfl rfl
  | endLoop =>
    obtain ⟨-, rfl⟩ := next_endLoop hnext
    exact .none rfl rfl

/-- Nothing that happens changes the steps of a workflow or the handle on its store. -/
lemma next_setup {h : Happening} (hnext : H.next h = some H') :
    World.SameSetup H.world H'.world := by
  cases h with
  | choose c =>
    obtain ⟨w, htake, rfl⟩ := next_choose hnext
    exact World.choice_setup htake
  | run token =>
    obtain ⟨-, -, rfl⟩ := next_run hnext
    exact ⟨rfl, rfl, rfl⟩
  | startLoop pause =>
    obtain ⟨-, -, rfl⟩ := next_startLoop hnext
    exact ⟨rfl, rfl, rfl⟩
  | endLoop =>
    obtain ⟨-, rfl⟩ := next_endLoop hnext
    exact ⟨rfl, rfl, rfl⟩

/-- A life does not change the steps of the workflow or the handle on its store. -/
theorem live_setup {hs : List Happening} (hlive : H.live hs = some H') :
    World.SameSetup H.world H'.world :=
  live_preserves (P := fun G => World.SameSetup H.world G.world)
    (fun _ _ _ hnext hG => hG.trans (next_setup hnext)) hlive ⟨rfl, rfl, rfl⟩

/-- In a life the store is written to and otherwise stays as it is. -/
theorem live_wrote {hs : List Happening} (hlive : H.live hs = some H') :
    ∃ made, World.Wrote H.world H'.world made :=
  live_preserves (P := fun G => ∃ made, World.Wrote H.world G.world made)
    (fun _ _ _ hnext ⟨_, hmade⟩ => ⟨_, hmade.trans (next_wrote hnext)⟩) hlive
      ⟨[], .none rfl rfl⟩

end History

/-! ## Stores after several writes -/

/-- A name stands for what was last written under it, or for what it stood for before. -/
theorem Store.get?_setAll (s : Store) (key : String) (entries : List (String × Json)) :
    (∀ e ∈ entries, e.1 ≠ key) ∧ (s.setAll entries).get? key = s.get? key ∨
      ∃ front value back, entries = front ++ (key, value) :: back ∧
        (∀ e ∈ back, e.1 ≠ key) ∧
        (s.setAll entries).get? key = some value := by
  induction entries generalizing s with
  | nil => exact .inl ⟨by simp, rfl⟩
  | cons e rest ih =>
    -- Later writes count more, so the first one counts only if there is no other
    -- under its name.
    rcases ih (s.set e.1 e.2) with ⟨hrest, hget⟩ | ⟨front, value, back, rfl, hback, hget⟩
    · by_cases hkey : e.1 = key
      · refine .inr ⟨[], e.2, rest, by rw [← hkey]; rfl, hrest, hget.trans ?_⟩
        rw [← hkey, get?_set_self]
      · exact .inl ⟨List.forall_mem_cons.mpr ⟨hkey, hrest⟩,
          hget.trans (s.get?_set_of_ne e.2 (Ne.symm hkey))⟩
    · exact .inr ⟨e :: front, value, back, rfl, hback, hget⟩

/-! ## Where the writes come from -/

/-- Each write that lies in a task is of a kind; the kind may also depend on what
comes behind it. -/
def Task.WritesOnly (kind : StoreHandle → String → Json → Task → Prop) : Task → Prop
  | finish _ | panic _ => True
  | read _ _ next => ∀ v, (next v).WritesOnly kind
  | write store key value next => kind store key value next ∧ next.WritesOnly kind
  | launch _ _ next => ∀ left, (next left).WritesOnly kind
  | sleep _ next | cancel next | trace _ _ next | log _ next => next.WritesOnly kind

/-- Each write that a call may still make is of a kind. -/
def Activity.WritesOnly (kind : StoreHandle → String → Json → Task → Prop) : Activity → Prop
  | ready task | waiting _ task => task.WritesOnly kind
  | ended _ => True

section

variable {kind : StoreHandle → String → Json → Task → Prop}

/-- An action of a task leaves no other writes to be made than there were. -/
lemma World.perform_writesOnly (w : World) {t : Task} (h : t.WritesOnly kind) :
    (w.perform t).1.WritesOnly kind := by
  cases t with
  | finish | panic => trivial
  | read => exact h _
  | write => exact h.2
  | sleep ms next =>
    simp only [perform]
    split <;> exact h
  | launch command stdin next =>
    simp only [perform]
    split <;> exact h _
  | cancel | trace | log => exact h

/-- A call makes no other writes than those that lie in its task. -/
theorem Task.Reaches.writesOnly {t : Task} {a : Activity} (h : t.Reaches a)
    (ht : t.WritesOnly kind) :
    a.WritesOnly kind := by
  induction h with
  | start => exact ht
  | act w _ ih => exact w.perform_writesOnly ih
  | wake _ ih | exit _ ih => exact ih

end

/-- The calls of a run are calls of some executors. -/
def callRule (executors : List Executor) : Rule where
  call _ e _ := e ∈ executors
  fanOut _ calls := ∀ c ∈ calls, c.1 ∈ executors

/-- The run of a workflow calls the executors of its steps only. -/
lemma Workflow.nextRun_calls (f : Workflow) :
    f.nextRun.Obeys (callRule f.executors) 0 none := by
  apply Workflow.nextRun_obeys
  intro i s hs
  have hstep : ∀ e ∈ s.executors, e ∈ f.executors := fun e he =>
    List.mem_flatMap.mpr ⟨s, List.mem_of_getElem? hs, he⟩
  have haction : ∀ e ∈ s.action.executors, e ∈ f.executors := fun e he =>
    hstep e (List.mem_append_left _ he)
  have hhandler : ∀ e ∈ s.handlers, e ∈ f.executors :=
    fun e he => hstep e (List.mem_append_right _ he)
  -- In turn: the calls of a sequence, of a parallel step, of an iterate step, and of the
  -- two kinds of handlers.
  refine ⟨?_, ?_, ?_, ?_, ?_⟩
  · intro executors hsequence e he input
    exact haction e (by rw [hsequence]; exact he)
  · intro executors hparallel input c hc
    obtain ⟨e, he, rfl⟩ := List.mem_map.mp hc
    exact haction e (by rw [hparallel]; exact he)
  · intro source agent hiterate items c hc
    obtain ⟨item, -, rfl⟩ := List.mem_map.mp hc
    exact haction agent (by rw [hiterate]; exact List.mem_singleton_self agent)
  · intro e he input
    exact hhandler e (by simp [Step.handlers, he])
  · intro e he input
    exact hhandler e (by simp [Step.handlers, he])

namespace World

/-- A call is ready to go on with a task, and does so by a choice.  It is the run's own,
which is the last call that has been made, or a started one. -/
inductive Ready (w : World) (c : Executor × Json) (task : Task) : Choice → Prop where
  | own {step rest} : w.calls.getLast? = some c →
      w.progress = .calling step (.ready task) rest →
      Ready w c task .run
  | started {n : Nat} {job : Job} : w.jobs[n]? = some job → job.call = c →
      job.activity = .ready task →
      Ready w c task (.job n)

/-- A call has not acted yet. -/
def Awaits (w : World) (c : Executor × Json) : Prop :=
  ∃ choice, w.Ready c (c.1.run c.2) choice

/-- What holds of calls and writes at every moment of a life. -/
structure Accounted (w : World) : Prop where
  known : ∀ c ∈ w.calls, c.1 ∈ w.workflow.executors
  started : ∀ c ∈ w.jobs.map Job.call, c ∈ w.calls
  /-- The run's own call goes through its task. -/
  own : ∀ step activity rest, w.progress = .calling step activity rest →
    ∃ c, w.calls.getLast? = some c ∧ (c.1.run c.2).Reaches activity
  rule : ∃ seen, w.progress.Obeys (callRule w.workflow.executors) seen
  /-- Each write lies in the task of a call. -/
  source : ∀ e ∈ w.writes, ∃ c ∈ w.calls, ∃ next,
    (c.1.run c.2).Reaches (.ready (.write w.workflow.handle e.1 e.2 next))
  /-- A call that begins with a write has made it, or has not acted at all. -/
  written : ∀ c ∈ w.calls, ∀ key value next, c.1.run c.2 =
    .write w.workflow.handle key value next →
    (key, value) ∈ w.writes ∨ w.Awaits c

section

variable {w w' : World} {c : Choice} {call : Executor × Json}

/-- What a call that is ready writes, its choice writes. -/
lemma Ready.write? {key : String} {value : Json} {next : Task}
    (h : w.Ready call (.write w.workflow.handle key value next) c) :
    w.write? c = some (key, value) := by
  cases h with
  | own _ hp => simp only [World.write?, hp, Activity.write?, Task.write?, if_true]
  | started hjob _ hready =>
    simp only [World.write?, hjob, Option.bind_some, hready, Activity.write?,
      Task.write?, if_true]

/-- A call stays ready until it acts. -/
lemma Ready.stays {task : Task} {c' : Choice} (h : w.Ready call task c)
    (hwaits : w.LoopWaits) (htake : w.take c' = some w') (hne : c' ≠ c) :
    w'.Ready call task c := by
  cases h with
  | @own step rest hlast hp =>
    by_cases hloop : c' = .loop
    · subst hloop
      obtain ⟨l, hl, hmove⟩ := take_loop htake
      rcases hmove.begins hl hwaits with hsame | ⟨hidle, -⟩
      · exact .own (by rw [hmove.aside.calls]; exact hlast) (hsame.trans hp)
      · rw [hp] at hidle
        cases hidle
    · rcases take_move hloop htake with hmove | ⟨-, -, hapart⟩
      · -- While its own call is ready, the run does nothing but act in it.
        generalize w.exchange? c' = x at hmove
        cases hmove with
        | work => exact absurd rfl hne
        | finish hp' | enter hp' | refuse hp' | log hp' | setPrompt hp' | readStore hp'
        | call hp'
        | fanOut hp' | wake hp' | abandon hp' | exit hp' | answer hp' | crash hp'
        | gather hp' | park hp'
        | leave hp' | collect hp' | failure hp' => rw [hp] at hp'; cases hp'
      · exact .own (by rw [hapart.calls]; exact hlast) (hapart.progress.trans hp)
  | @started n job hjob hcall hready =>
    refine .started (take_leaves_job htake hjob hne ?_) hcall hready
    -- A call that is ready does not wait for a program that could exit.
    rintro rfl
    obtain ⟨job', hjob', hawaits, -⟩ := take_exitOfJob htake
    obtain rfl := Option.some.inj (hjob.symm.trans hjob')
    rw [hready] at hawaits
    cases hawaits

namespace Accounted

/-- Where a write comes from that is made by a choice: from the task of a call that acts. -/
theorem writer (h : Accounted w)
    (hexecuting : ∀ job ∈ w.jobs, (job.executor.run job.input).Reaches job.activity)
    {key : String} {value : Json} (hwrite : w.write? c = some (key, value)) :
    ∃ call ∈ w.calls, ∃ next,
      (call.1.run call.2).Reaches (.ready (.write w.workflow.handle key value next)) ∧
      w.Ready call (.write w.workflow.handle key value next) c := by
  have hactivity : ∀ a : Activity, a.write? w.workflow.handle = some (key, value) →
      ∃ next, a = .ready (.write w.workflow.handle key value next) := by
    intro a ha
    unfold Activity.write? Task.write? at ha
    split at ha
    · split at ha
      · obtain ⟨rfl, hwrite⟩ := Option.ite_none_right_eq_some.mp ha
        obtain ⟨rfl, rfl⟩ := Prod.mk.inj (Option.some.inj hwrite)
        exact ⟨_, rfl⟩
      · cases ha
    · cases ha
  -- It is the call of the run itself that acts, or a started one.
  unfold World.write? at hwrite
  split at hwrite
  · split at hwrite
    · next step activity rest hp =>
      obtain ⟨call, hlast, hreaches⟩ := h.own step activity rest hp
      obtain ⟨next, rfl⟩ := hactivity activity hwrite
      exact ⟨call, List.mem_of_getLast? hlast, next, hreaches, .own hlast hp⟩
    · cases hwrite
  · next n =>
    obtain ⟨job, hjob, hwrite⟩ := Option.bind_eq_some_iff.mp hwrite
    have hmem : job ∈ w.jobs := List.mem_of_getElem? hjob
    obtain ⟨next, hready⟩ := hactivity job.activity hwrite
    have hreaches := hexecuting job hmem
    rw [hready] at hreaches
    exact ⟨job.call, h.started _ (List.mem_map_of_mem hmem), next, hreaches,
      .started hjob rfl hready⟩
  · cases hwrite

/-- The calls that the run makes are those that its tree allows. -/
lemma asks (h : Accounted w) (htake : w.take c = some w') :
    ∀ call ∈ (w.exchange? c).toList.flatMap Exchange.calls,
      call.1 ∈ w.workflow.executors := by
  intro call hcall
  by_cases hloop : c = .loop
  · subst hloop
    cases hcall
  rcases take_move hloop htake with hmove | ⟨-, hnone, -⟩
  · obtain ⟨seen, hobeys⟩ := h.rule
    generalize w.exchange? c = x at hmove hcall
    -- Only a call and a fan-out ask for calls; the rule that the run obeys names them.
    cases hmove with
    | call hp =>
      obtain rfl := List.mem_singleton.mp (by simpa [Exchange.calls] using hcall)
      rw [hp] at hobeys
      exact hobeys.1
    | fanOut hp =>
      rw [hp] at hobeys
      exact hobeys.1 call (by simpa [Exchange.calls] using hcall)
    | _ => simp [Exchange.calls] at hcall
  · rw [hnone] at hcall
    cases hcall

lemma take_known (h : Accounted w) (htake : w.take c = some w') :
    ∀ call ∈ w'.calls, call.1 ∈ w.workflow.executors := by
  intro call hcall
  rw [choice_calls htake] at hcall
  rcases List.mem_append.mp hcall with hold | hnew
  · exact h.known call hold
  · exact h.asks htake call hnew

/-- The run's own call stays on the way through its task. -/
lemma take_own (h : Accounted w) (htake : w.take c = some w') {step : Nat}
    {activity : Activity} {rest : Except ExecutorError Json → Run}
    (hp' : w'.progress = .calling step activity rest) :
    ∃ call, w'.calls.getLast? = some call ∧ (call.1.run call.2).Reaches activity := by
  by_cases hloop : c = .loop
  · subst hloop
    obtain ⟨l, -, hmove⟩ := take_loop htake
    rcases hmove.progress with hsame | ⟨hbegun, -⟩
    · rw [hmove.aside.calls]
      exact h.own step activity rest (hsame ▸ hp')
    · rw [hbegun] at hp'
      cases hp'
  · have hcalls := take_calls hloop htake
    rcases take_move hloop htake with hmove | ⟨-, -, hapart⟩
    · generalize w.exchange? c = x at hmove hcalls
      -- One move makes a new call, and three go on with the one that is there; behind all
      -- others there is none.
      cases hmove with
      | @call step e input rest hp =>
        cases hp'
        exact ⟨(e, input), by simp, .start⟩
      | work hp =>
        cases hp'
        obtain ⟨call, hlast, hreaches⟩ := h.own _ _ _ hp
        exact ⟨call, by simpa [Exchange.calls, hcalls] using hlast, .act w hreaches⟩
      | wake hp =>
        cases hp'
        obtain ⟨call, hlast, hreaches⟩ := h.own _ _ _ hp
        exact ⟨call, hlast, .wake hreaches⟩
      | exit hp =>
        cases hp'
        obtain ⟨call, hlast, hreaches⟩ := h.own _ _ _ hp
        exact ⟨call, hlast, .exit hreaches⟩
      | _ => cases hp'
    · rw [hapart.calls]
      exact h.own step activity rest (hapart.progress ▸ hp')

lemma take_rule (h : Accounted w) (htake : w.take c = some w') :
    ∃ seen, w'.progress.Obeys (callRule w.workflow.executors) seen := by
  obtain ⟨seen, hobeys⟩ := h.rule
  by_cases hloop : c = .loop
  · subst hloop
    obtain ⟨l, -, hmove⟩ := take_loop htake
    rcases hmove.progress with hsame | ⟨hbegun, -⟩
    · exact ⟨seen, by rw [hsame]; exact hobeys⟩
    · exact ⟨none, by rw [hbegun]; exact w.workflow.nextRun_calls⟩
  · rcases take_move hloop htake with hmove | ⟨-, -, hapart⟩
    · obtain ⟨seen', hobeys', -⟩ := hmove.obeys hobeys
      exact ⟨seen', hobeys'⟩
    · exact ⟨seen, by rw [hapart.progress]; exact hobeys⟩

lemma take_started (h : Accounted w) (htake : w.take c = some w') :
    ∀ call ∈ w'.jobs.map Job.call, call ∈ w'.calls := by
  intro call hcall
  rw [choice_calls htake]
  have hjobs := take_jobsMove htake
  generalize w.exchange? c = x, w'.jobs = jobs at hjobs hcall
  by_cases hx : ∃ calls, x = some (.spawned calls)
  · obtain ⟨calls, rfl⟩ := hx
    cases hjobs with
    | same hnone => exact absurd rfl (hnone calls)
    -- The calls that are new have just been entered as made, and the others were
    -- made before.
    | spawn =>
      have hsplit : (w.start calls).jobs.map Job.call = w.jobs.map Job.call ++ calls := by
        simp [start, Job.call, Function.comp_def]
      rw [hsplit] at hcall
      rcases List.mem_append.mp hcall with hold | hnew
      · exact List.mem_append_left _ (h.started call hold)
      · exact List.mem_append_right _ (by simpa [Exchange.calls] using hnew)
  · rw [hjobs.calls fun calls hspawned => hx ⟨calls, hspawned⟩] at hcall
    exact List.mem_append_left _ (h.started call hcall)

/-- All writes still lie in tasks of calls. -/
lemma take_source (h : Accounted w)
    (hexecuting : ∀ job ∈ w.jobs, (job.executor.run job.input).Reaches job.activity)
    (htake : w.take c = some w') (hcalls : w.calls ⊆ w'.calls) :
    ∀ e ∈ w'.writes, ∃ call ∈ w'.calls, ∃ next,
      (call.1.run call.2).Reaches (.ready (.write w.workflow.handle e.1 e.2 next)) := by
  intro e he
  rw [(take_wrote htake).writes] at he
  rcases List.mem_append.mp he with hold | hnew
  · obtain ⟨call, hcall, hreaches⟩ := h.source e hold
    exact ⟨call, hcalls hcall, hreaches⟩
  · obtain ⟨call, hcall, next, hreaches, -⟩ :=
      h.writer hexecuting (Option.mem_toList.mp hnew)
    exact ⟨call, hcalls hcall, next, hreaches⟩

end Accounted

/-- A call that has just been made has not acted yet. -/
lemma take_awaits (htake : w.take c = some w') :
    ∀ call ∈ (w.exchange? c).toList.flatMap Exchange.calls, w'.Awaits call := by
  intro call hcall
  by_cases hloop : c = .loop
  · subst hloop
    cases hcall
  rcases take_move hloop htake with hmove | ⟨-, hnone, -⟩
  · generalize w.exchange? c = x at hmove hcall
    cases hmove with
    | @call step e input rest hp =>
      obtain rfl := List.mem_singleton.mp (by simpa [Exchange.calls] using hcall)
      exact ⟨.run, .own (by simp) rfl⟩
    | @fanOut step calls rest hp =>
      -- The new jobs stand behind the old ones, in the order of their calls.
      obtain ⟨i, hi⟩ :=
        List.mem_iff_getElem?.mp (show call ∈ calls by simpa [Exchange.calls] using hcall)
      have hjob : (w.start calls).jobs[w.jobs.length + i]? =
          some ⟨call.1, call.2, .ready (call.1.run call.2)⟩ := by
        rw [start, List.getElem?_append_right (Nat.le_add_right _ i),
          Nat.add_sub_cancel_left, List.getElem?_map, hi]
        rfl
      exact ⟨.job (w.jobs.length + i), .started hjob rfl rfl⟩
    | _ => simp [Exchange.calls] at hcall
  · rw [hnone] at hcall
    cases hcall

namespace Accounted

/-- A call that begins with a write has made it after a choice, or still awaits it. -/
lemma take_written (h : Accounted w) (hwaits : w.LoopWaits) (htake : w.take c = some w') :
    ∀ call ∈ w'.calls, ∀ key value next, call.1.run call.2 =
      .write w.workflow.handle key value next →
      (key, value) ∈ w'.writes ∨ w'.Awaits call := by
  intro call hcall key value next hrun
  rw [choice_calls htake] at hcall
  rcases List.mem_append.mp hcall with hold | hnew
  · rw [(take_wrote htake).writes]
    rcases h.written call hold key value next hrun with hwritten | ⟨c', hready⟩
    · exact .inl (List.mem_append_left _ hwritten)
    · -- Until the choice is made for which the call is ready, it stays ready; that choice
      -- makes the write.
      by_cases heq : c = c'
      · subst heq
        rw [hrun] at hready
        exact .inl (List.mem_append_right _ (Option.mem_toList.mpr hready.write?))
      · exact .inr ⟨c', hready.stays hwaits htake heq⟩
  · exact .inr (take_awaits htake call hnew)

/-- Every choice keeps calls and writes accounted for. -/
lemma take {L : Ledger} (h : Accounted w) (hbooks : Books L w)
    (htake : w.take c = some w') :
    Accounted w' := by
  have hexecutors : w'.workflow.executors = w.workflow.executors := by
    rw [Workflow.executors, (choice_setup htake).steps, Workflow.executors]
  have hcalls : w.calls ⊆ w'.calls := by
    rw [choice_calls htake]
    exact List.subset_append_left _ _
  exact {
    known := by rw [hexecutors]; exact h.take_known htake
    started := h.take_started htake
    own := fun step activity rest hp => h.take_own htake hp
    rule := by rw [hexecutors]; exact h.take_rule htake
    source := by
      rw [(choice_setup htake).handle]; exact h.take_source hbooks.executing htake hcalls
    written := by
      rw [(choice_setup htake).handle]; exact h.take_written hbooks.waits htake }

/-- Where nothing has been called or written, there is nothing to account for. -/
theorem new (hjobs : w.jobs = []) (hidle : w.progress = .idle)
    (hjournal : w.journal = []) : Accounted w where
  known := by simp [World.calls, hjournal]
  started := by simp [hjobs]
  own := fun _ _ _ hp => by rw [hidle] at hp; cases hp
  rule := ⟨none, by rw [hidle]; trivial⟩
  source := by simp [writes, hjournal]
  written := by simp [World.calls, hjournal]

/-- A run that begins where none is going on keeps calls and writes accounted for. -/
lemma begin (h : Accounted w) (hidle : w.progress.isActive = false) (token : Token) :
    Accounted ({ w with token } : World).begin where
  known := h.known
  started := h.started
  own := fun _ _ _ hp => by cases hp
  rule := ⟨none, w.workflow.nextRun_calls⟩
  source := h.source
  written := by
    intro call hcall key value next hrun
    rcases h.written call hcall key value next hrun with hwritten | ⟨c, hready⟩
    · exact .inl hwritten
    · -- Between two runs only started calls are left.
      cases hready with
      | own _ hp => rw [hp] at hidle; cases hidle
      | started hjob hcall hready => exact .inr ⟨_, .started hjob hcall hready⟩

/-- Another loop keeps calls and writes accounted for. -/
lemma setLoop (h : Accounted w) (loop : Option Loop) (token : Token) :
    Accounted { w with loop, token } where
  known := h.known
  started := h.started
  own := h.own
  rule := h.rule
  source := h.source
  written := by
    intro call hcall key value next hrun
    rcases h.written call hcall key value next hrun with hwritten | ⟨c, hready⟩
    · exact .inl hwritten
    · cases hready with
      | own hlast hp => exact .inr ⟨_, .own hlast hp⟩
      | started hjob hcall hready => exact .inr ⟨_, .started hjob hcall hready⟩

end Accounted

end

end World

namespace History

variable {H H' : History}

lemma next_accounted {h : Happening} (hnext : H.next h = some H')
    (hbooks : Books H.ledger H.world) (hw : World.Accounted H.world) :
    World.Accounted H'.world := by
  cases h with
  | choose c =>
    obtain ⟨w, htake, rfl⟩ := next_choose hnext
    exact hw.take hbooks htake
  | run token =>
    obtain ⟨hrests, -, rfl⟩ := next_run hnext
    exact hw.begin hrests token
  | startLoop pause =>
    obtain ⟨-, -, rfl⟩ := next_startLoop hnext
    exact hw.setLoop _ _
  | endLoop =>
    obtain ⟨-, rfl⟩ := next_endLoop hnext
    exact hw.setLoop _ _

/-- All calls and writes are accounted for at every moment of a life. -/
theorem live_accounted {hs : List Happening} (hlive : H.live hs = some H')
    (hbooks : Books H.ledger H.world) (hw : World.Accounted H.world) :
    World.Accounted H'.world :=
  (live_preserves (P := fun G => Books G.ledger G.world ∧ World.Accounted G.world)
    (fun _ _ _ hnext hG => ⟨next_books hnext hG.1, next_accounted hnext hG.1 hG.2⟩) hlive
      ⟨hbooks, hw⟩).2

end History

end Workplan
