import Mathlib.Tactic.Lemma
import Workplan.Proofs.Engine.Completion
import Workplan.Proofs.Engine.Rules

/-!
# The protocol of steps and handlers

What a run may say and hear, told step by step and without the tree: every step
contributes one *block* of exchanges.  First come those of its action (`Dispatched`), then
the success handler if there is one and the action went well, then the failure handler if
there is one and the action or the success handler failed.  What a block comes to enters
the next one, and the first block that comes to a failure is the last (`Follows`).

`Run.plays_steps_iff` shows that a run of steps plays exactly these dialogues, and
`World.run_follows_protocol` that this is what happens in a world, on every schedule.
-/

namespace Workplan

/-! ## Actions -/

/-- The dialogue of executors called one after another, and what it comes to: each is
asked with the value of the one before, and the first failure is the end. -/
inductive Chained : List Executor → Json → List Exchange → Except WorkflowError Json →
    Prop where
  | done (input) : Chained [] input [] (.ok input)
  | next {e rest input v t o} : e.Gives input (.ok v) → Chained rest v t o →
      Chained (e :: rest) input (.asked e input :: .answered (.ok v) :: t) o
  | stop {e rest input} (error) : e.Gives input (.error error) →
      Chained (e :: rest) input [.asked e input, .answered (.error error)]
        (.error (.executor error))

/-- The array of the values of a fan-out, or its failure. -/
def gathered (answer : Except ExecutorError (List Json)) : Except WorkflowError Json :=
  match answer with
  | .ok values => .ok (.arr values)
  | .error error => .error (.executor error)

/-- The kind of value that is found under a key. -/
def foundKind (found : Option Json) : String :=
  match found with
  | some v => v.kindName
  | none => "no value"

/-- The dialogue of an action on an input, and what it comes to. -/
inductive Dispatched : Action → Json → List Exchange → Except WorkflowError Json →
    Prop where
  | prompt (text input) : Dispatched (.prompt text) input [.prompted text] (.ok (.str text))
  | sequence {executors input t o} : Chained executors input t o →
      Dispatched (.sequence executors) input t o
  | parallel (executors input answer) :
      Dispatched (.parallel executors) input
        [.spawned (executors.map fun e => (e, input)), .gathered answer] (gathered answer)
  | iterate (items agent input answer) :
      Dispatched (.iterate (.items items) agent) input
        [.spawned (items.map fun item => (agent, item)), .gathered answer] (gathered answer)
  | iterateKey {key agent input store items} (answer) : store.get? key = some (.arr items) →
      Dispatched (.iterate (.storeKey key) agent) input
        [.looked store, .spawned (items.map fun item => (agent, item)), .gathered answer]
        (gathered answer)
  | noItems {key agent input store} : (∀ items, store.get? key ≠ some (.arr items)) →
      Dispatched (.iterate (.storeKey key) agent) input [.looked store]
        (.error (.iterationSource key (foundKind (store.get? key))))

/-! ## Blocks -/

/-- A call of a handler with its answer. -/
structure HandlerCall where
  handler : Executor
  input : Json
  answer : Except ExecutorError Json

namespace HandlerCall

/-- The exchanges of a handler's call. -/
def exchanges (h : HandlerCall) : List Exchange :=
  [.asked h.handler h.input, .answered h.answer]

/-- What a handler's call comes to. -/
def result (h : HandlerCall) : Except WorkflowError Json :=
  h.answer.mapError .executor

/-- The calls made of a handler: one, if there are a handler and an input for it, else
none. -/
def Made (handler : Option Executor) (input : Option Json) (c : Option HandlerCall) :
    Prop :=
  match handler, input with
  | some e, some v => ∃ answer, e.Gives v answer ∧ c = some ⟨e, v, answer⟩
  | _, _ => c = none

@[simp] theorem made_none_left {input : Option Json} {c : Option HandlerCall} :
    Made none input c ↔ c = none := by
  cases input <;> rfl

@[simp] theorem made_none_right {handler : Option Executor} {c : Option HandlerCall} :
    Made handler none c ↔ c = none := by
  cases handler <;> rfl

@[simp] theorem made_some {e : Executor} {v : Json} {c : Option HandlerCall} :
    Made (some e) (some v) c ↔ ∃ answer, e.Gives v answer ∧ c = some ⟨e, v, answer⟩ :=
  Iff.rfl

end HandlerCall

/-- What happens in one step. -/
structure Block where
  input : Json
  /-- The exchanges of the action. -/
  dispatch : List Exchange
  /-- What the action comes to. -/
  outcome : Except WorkflowError Json
  onSuccess : Option HandlerCall
  onFail : Option HandlerCall

namespace Block

/-- The exchanges of a block in their order. -/
def exchanges (b : Block) : List Exchange :=
  b.dispatch ++ (b.onSuccess.elim [] HandlerCall.exchanges ++ b.onFail.elim
    [] HandlerCall.exchanges)

/-- What a block comes to before its failure handler. -/
def attempt (b : Block) : Except WorkflowError Json :=
  b.onSuccess.elim b.outcome HandlerCall.result

/-- What a block comes to: the result of the failure handler if that was called, else of
the success handler if that was called, else of the action. -/
def output (b : Block) : Except WorkflowError Json :=
  b.onFail.elim b.attempt HandlerCall.result

/-- The failure in a result, if it is one. -/
def failure? {α : Type} : Except WorkflowError α → Option WorkflowError
  | .ok _ => none
  | .error e => some e

/-- A block is one that a step may have on an input.  The success handler is called once,
with the value of the action, if and only if the step has one and the action went well;
the failure handler is called once, with the text of the failure, if and only if the step
has one and the action or the success handler failed. -/
structure Fits (s : Step) (input : Json) (b : Block) : Prop where
  input : b.input = input
  dispatch : Dispatched s.action b.input b.dispatch b.outcome
  onSuccess : HandlerCall.Made s.onSuccess b.outcome.toOption b.onSuccess
  onFail : HandlerCall.Made s.onFail ((failure? b.attempt).map fun e =>
    .str e.message) b.onFail

end Block

/-- The blocks of steps on an input, and what they come to: what a block comes to enters
the next one, and the first that comes to a failure is the last. -/
inductive Follows : List Step → Json → List Block → Except WorkflowError Json → Prop where
  | done (current) : Follows [] current [] (.ok current)
  | next {s rest current b v bs o} : b.Fits s current → b.output = .ok v →
      Follows rest v bs o →
      Follows (s :: rest) current (b :: bs) o
  | stop {s rest current b e} : b.Fits s current → b.output = .error e →
      Follows (s :: rest) current [b] (.error e)

/-! ## What the tree of a step plays

Each part of a step is written with the rest of the run behind it.  It plays its own
dialogue first and then whatever the rest plays on what the part came to. -/

section

variable {t : List Exchange} {r : Except WorkflowError Outcome}
  {k : Except WorkflowError Json → Run}

theorem Run.plays_log_iff {e : Event} {rest : Run} :
    (Run.log e rest).Plays t r ↔ rest.Plays t r :=
  ⟨fun h => by cases h with | log h => exact h, .log⟩

theorem Run.plays_call_iff {e : Executor} {input : Json}
    {rest : Except ExecutorError Json → Run} :
    (Run.call e input rest).Plays t r ↔
      ∃ answer t₂, e.Gives input answer ∧ t = .asked e input :: .answered answer :: t₂ ∧
        (rest answer).Plays t₂ r := by
  constructor
  · intro h
    cases h with
    | call answer hg h => exact ⟨answer, _, hg, rfl, h⟩
  · rintro ⟨answer, t₂, hg, rfl, h⟩
    exact .call answer hg h

/-- Links are called one after the other, up to the first failure. -/
lemma Run.plays_chain_iff {executors : List Executor} {input : Json} :
    (Run.chain k executors input).Plays t r ↔
      ∃ t₁ t₂ o, Chained executors input t₁ o ∧ t = t₁ ++ t₂ ∧ (k o).Plays t₂ r := by
  induction executors generalizing input t with
  | nil =>
    constructor
    · intro h
      exact ⟨[], t, .ok input, .done input, rfl, h⟩
    · rintro ⟨t₁, t₂, o, hc, rfl, hk⟩
      cases hc
      exact hk
  | cons e rest ih =>
    rw [Run.chain, Run.plays_call_iff]
    constructor
    · rintro ⟨answer, t', hg, rfl, h⟩
      -- A value enters the next executor, and a failure ends the chain.
      cases answer with
      | ok v =>
        obtain ⟨t₁, t₂, o, hc, rfl, hk⟩ := ih.mp h
        exact ⟨_, t₂, o, .next hg hc, rfl, hk⟩
      | error error => exact ⟨_, t', _, .stop error hg, rfl, h⟩
    · rintro ⟨t₁, t₂, o, hc, rfl, hk⟩
      cases hc with
      | @next _ _ _ v t' _ hg hc =>
        exact ⟨.ok v, _, hg, rfl, ih.mpr ⟨t', t₂, o, hc, rfl, hk⟩⟩
      | stop error hg => exact ⟨.error error, t₂, hg, rfl, hk⟩

/-- Calls that are gathered are started at once, and there is one answer. -/
lemma Run.plays_gather_iff {calls : List (Executor × Json)} :
    (Run.gather calls k).Plays t r ↔
      ∃ answer t₂, t = .spawned calls :: .gathered answer :: t₂ ∧
        (k (gathered answer)).Plays t₂ r := by
  constructor
  · intro h
    cases h with
    | @fanOut _ _ t₂ _ answer h => cases answer <;> exact ⟨_, t₂, rfl, h⟩
  · rintro ⟨answer, t₂, rfl, h⟩
    refine .fanOut answer ?_
    cases answer <;> exact h

/-- Items are spread over as many calls of one agent. -/
lemma Step.plays_spread_iff {items : List Json} {agent : Executor} :
    (Step.spread items agent k).Plays t r ↔
      ∃ answer t₂, t = .spawned (items.map fun item => (agent, item)) ::
        .gathered answer :: t₂ ∧
        (k (gathered answer)).Plays t₂ r := by
  rw [Step.spread, Run.plays_log_iff, Run.plays_gather_iff]

/-- A step over a key looks at the store, and goes on with the array that it finds there,
or else with a failure that says what it has found. -/
lemma Step.plays_storeKey_iff {s : Step} {input : Json} {key : String} {agent : Executor}
    (hs : s.action = .iterate (.storeKey key) agent) :
    (s.dispatch input k).Plays t r ↔
      ∃ store t', t = .looked store :: t' ∧
        ((∃ items, store.get? key = some (.arr items) ∧
          (Step.spread items agent k).Plays t' r) ∨
          ((∀ items, store.get? key ≠ some (.arr items)) ∧
            (k (.error (.iterationSource key (foundKind (store.get? key))))).Plays
              t' r)) := by
  unfold Step.dispatch
  rw [hs]
  -- Of all values only an array is gone through, so what is found has to be taken apart
  -- in both directions.
  constructor
  · intro h
    cases h with
    | @readStore _ t' _ store h =>
      refine ⟨store, t', rfl, ?_⟩
      dsimp only at h
      cases hv : store.get? key with
      | none =>
        rw [hv] at h
        exact .inr ⟨by simp, h⟩
      | some v =>
        rw [hv] at h
        cases v with
        | arr items => exact .inl ⟨items, rfl, h⟩
        | _ => exact .inr ⟨by simp, h⟩
  · rintro ⟨store, t', rfl, hgoes⟩
    refine .readStore store ?_
    rcases hgoes with ⟨items, hitems, h⟩ | ⟨hnone, h⟩
    · rw [hitems]
      exact h
    · cases hv : store.get? key with
      | none => rw [hv] at h; exact h
      | some v =>
        rw [hv] at h
        cases v with
        | arr items => exact absurd hv (hnone items)
        | _ => exact h

/-- The action of a step plays its own dialogue, and then the rest plays on what
it came to. -/
lemma Step.plays_dispatch_iff {s : Step} {input : Json} :
    (s.dispatch input k).Plays t r ↔
      ∃ t₁ t₂ o, Dispatched s.action input t₁ o ∧ t = t₁ ++ t₂ ∧ (k o).Plays t₂ r := by
  obtain ⟨action, description, onSuccess, onFail⟩ := s
  constructor
  · intro h
    cases action with
    | prompt text =>
      cases h with
      | setPrompt h => exact ⟨_, _, _, .prompt text input, rfl, h⟩
    | sequence executors =>
      obtain ⟨t₁, t₂, o, hc, rfl, hk⟩ := Run.plays_chain_iff.mp h
      exact ⟨t₁, t₂, o, .sequence hc, rfl, hk⟩
    | parallel executors =>
      obtain ⟨answer, t₂, rfl, hk⟩ := Run.plays_gather_iff.mp h
      exact ⟨_, t₂, _, .parallel executors input answer, rfl, hk⟩
    | iterate source agent =>
      cases source with
      | items items =>
        obtain ⟨answer, t₂, rfl, hk⟩ := Step.plays_spread_iff.mp h
        exact ⟨_, t₂, _, .iterate items agent input answer, rfl, hk⟩
      | storeKey key =>
        obtain ⟨store, t', rfl, ⟨items, hitems, hspread⟩ | ⟨hno, hk⟩⟩ :=
          (Step.plays_storeKey_iff rfl).mp h
        · obtain ⟨answer, t₂, rfl, hk⟩ := Step.plays_spread_iff.mp hspread
          exact ⟨_, t₂, _, .iterateKey answer hitems, rfl, hk⟩
        · exact ⟨_, t', _, .noItems hno, rfl, hk⟩
  · rintro ⟨t₁, t₂, o, hd, rfl, h⟩
    cases hd with
    | prompt => exact .setPrompt h
    | sequence hc => exact Run.plays_chain_iff.mpr ⟨t₁, t₂, o, hc, rfl, h⟩
    | parallel _ _ answer => exact Run.plays_gather_iff.mpr ⟨answer, t₂, rfl, h⟩
    | iterate _ _ _ answer => exact Step.plays_spread_iff.mpr ⟨answer, t₂, rfl, h⟩
    | @iterateKey _ _ _ store items answer hitems =>
      refine (Step.plays_storeKey_iff rfl).mpr ⟨store, _, rfl, .inl ⟨items, hitems, ?_⟩⟩
      exact Step.plays_spread_iff.mpr ⟨answer, t₂, rfl, h⟩
    | @noItems _ _ _ store hno =>
      exact (Step.plays_storeKey_iff rfl).mpr ⟨store, t₂, rfl, .inr ⟨hno, h⟩⟩

/-- What a link fails with may be handled. -/
lemma Chained.isAbsorbable {executors : List Executor} {input : Json}
    {o : Except WorkflowError Json} {e : WorkflowError} (h : Chained executors input t o)
    (ho : o = .error e) :
    e.isAbsorbable = true := by
  induction h with
  | done => cases ho
  | next _ _ ih => exact ih ho
  | stop error _ => obtain rfl := Except.error.inj ho; rfl

/-- No action is ever cancelled by itself. -/
theorem Dispatched.isAbsorbable {a : Action} {input : Json} {o : Except WorkflowError Json}
    {e : WorkflowError} (h : Dispatched a input t o) (ho : o = .error e) :
    e.isAbsorbable = true := by
  have hgathered : ∀ answer, gathered answer = .error e → e.isAbsorbable = true := by
    intro answer ha
    cases answer with
    | ok values => cases ha
    | error error => obtain rfl := Except.error.inj ha; rfl
  cases h with
  | prompt => cases ho
  | sequence hc => exact hc.isAbsorbable ho
  | noItems => obtain rfl := Except.error.inj ho; rfl
  | parallel _ _ answer => exact hgathered answer ho
  | iterate _ _ _ answer => exact hgathered answer ho
  | iterateKey answer => exact hgathered answer ho

/-- A failed step plays its failure handler, if it has one, on the text of the failure. -/
lemma Step.plays_recover_iff {number : Nat} {s : Step} {e : WorkflowError}
    (he : e.isAbsorbable = true) :
    (s.recover number k e).Plays t r ↔
      ∃ c t₂, HandlerCall.Made s.onFail (some (.str e.message)) c ∧
        t = c.elim [] HandlerCall.exchanges ++ t₂ ∧
        (k (c.elim (.error e) HandlerCall.result)).Plays t₂ r := by
  rw [Step.recover, Run.plays_log_iff]
  cases s.onFail with
  | none =>
    simp only [HandlerCall.made_none_left]
    constructor
    · intro h
      exact ⟨none, t, rfl, rfl, h⟩
    · rintro ⟨_, t₂, rfl, rfl, hk⟩
      exact hk
  | some handler =>
    simp only [he, if_true, Run.plays_log_iff, Run.plays_call_iff, HandlerCall.made_some]
    constructor
    · rintro ⟨answer, t₂, hg, rfl, hk⟩
      exact ⟨_, t₂, ⟨answer, hg, rfl⟩, rfl, hk⟩
    · rintro ⟨_, t₂, ⟨answer, hg, rfl⟩, rfl, hk⟩
      exact ⟨answer, t₂, hg, rfl, hk⟩

/-- A step whose action went well plays its success handler, if it has one, on the value
of the action; when that fails, it goes on like a step that failed. -/
lemma Step.plays_conclude_iff {number : Nat} {s : Step} {v : Json} :
    (s.conclude number k v).Plays t r ↔
      ∃ c t₂, HandlerCall.Made s.onSuccess (some v) c ∧
        t = c.elim [] HandlerCall.exchanges ++ t₂ ∧
        (match c.elim (Except.ok v) HandlerCall.result with
          | .ok v' => k (.ok v')
          | .error e => s.recover number k e).Plays t₂ r := by
  rw [Step.conclude]
  cases s.onSuccess with
  | none =>
    simp only [HandlerCall.made_none_left]
    constructor
    · intro h
      exact ⟨none, t, rfl, rfl, h⟩
    · rintro ⟨_, t₂, rfl, rfl, hk⟩
      exact hk
  | some handler =>
    simp only [Run.plays_log_iff, Run.plays_call_iff, HandlerCall.made_some]
    constructor
    · rintro ⟨answer, t₂, hg, rfl, hk⟩
      refine ⟨_, t₂, ⟨answer, hg, rfl⟩, rfl, ?_⟩
      cases answer <;> exact hk
    · rintro ⟨_, t₂, ⟨answer, hg, rfl⟩, rfl, hk⟩
      refine ⟨answer, t₂, hg, rfl, ?_⟩
      cases answer <;> exact hk

/-- What a step plays once its action and its success handler have come to something. -/
lemma Step.plays_attempt_iff {number : Nat} {s : Step} {o : Except WorkflowError Json}
    (ho : ∀ e, o = .error e → e.isAbsorbable = true) :
    (match o with
      | .ok v => k (.ok v)
      | .error e => s.recover number k e).Plays t r ↔
      ∃ c t₂, HandlerCall.Made s.onFail ((Block.failure? o).map fun e => .str e.message) c ∧
        t = c.elim [] HandlerCall.exchanges ++ t₂ ∧
        (k (c.elim o HandlerCall.result)).Plays t₂ r := by
  cases o with
  | ok v =>
    -- What went well calls for no failure handler.
    simp only [Block.failure?, Option.map_none, HandlerCall.made_none_right]
    constructor
    · intro h
      exact ⟨none, t, rfl, rfl, h⟩
    · rintro ⟨_, t₂, rfl, rfl, hk⟩
      exact hk
  | error e => exact Step.plays_recover_iff (ho e rfl)

/-- Nor does a success handler ever come to a cancellation. -/
lemma HandlerCall.isAbsorbable {c : Option HandlerCall} {v : Json} {e : WorkflowError}
    (h : c.elim (.ok v) HandlerCall.result = .error e) : e.isAbsorbable = true := by
  obtain _ | ⟨handler, input, answer⟩ := c
  · cases h
  · cases answer with
    | ok v => cases h
    | error error => obtain rfl := Except.error.inj h; rfl

/-- A step plays one block that fits it, and then the rest plays on what the block came
to. -/
lemma Step.plays_run_iff {number : Nat} {s : Step} {input : Json} :
    (s.run number input k).Plays t r ↔
      ∃ b t₂, Block.Fits s input b ∧ t = b.exchanges ++ t₂ ∧ (k b.output).Plays t₂ r := by
  rw [Step.run, Step.plays_dispatch_iff]
  constructor
  · rintro ⟨t₁, t₂, o, hd, rfl, hk⟩
    -- A failed action leaves out the success handler.
    cases o with
    | ok v =>
      obtain ⟨cs, t₃, hs, rfl, hattempt⟩ := Step.plays_conclude_iff.mp hk
      obtain ⟨cf, t₄, hf, rfl, hout⟩ :=
        (Step.plays_attempt_iff fun _ => HandlerCall.isAbsorbable).mp hattempt
      exact ⟨⟨input, t₁, .ok v, cs, cf⟩, t₄, ⟨rfl, hd, hs, hf⟩,
        by simp [Block.exchanges], hout⟩
    | error e =>
      obtain ⟨cf, t₃, hf, rfl, hout⟩ := (Step.plays_recover_iff (hd.isAbsorbable rfl)).mp hk
      exact ⟨⟨input, t₁, .error e, none, cf⟩, t₃,
        ⟨rfl, hd, HandlerCall.made_none_right.mpr rfl, hf⟩,
        by simp [Block.exchanges], hout⟩
  · rintro ⟨⟨_, t₁, o, cs, cf⟩, t₂, ⟨rfl, hd, hs, hf⟩, rfl, hk⟩
    refine ⟨t₁, _, o, hd, List.append_assoc _ _ _, ?_⟩
    cases o with
    | ok v =>
      refine Step.plays_conclude_iff.mpr ⟨cs, _, hs, List.append_assoc _ _ _, ?_⟩
      exact (Step.plays_attempt_iff fun _ => HandlerCall.isAbsorbable).mpr
        ⟨cf, t₂, hf, rfl, hk⟩
    | error e =>
      obtain rfl := HandlerCall.made_none_right.mp hs
      exact (Step.plays_recover_iff (hd.isAbsorbable rfl)).mpr ⟨cf, t₂, hf, rfl, hk⟩

end

/-! ## What a run plays -/

/-- How a run ends on what its last block came to: with that as its output, the store as
it is found and the number of steps, or with the failure. -/
inductive Closes (total : Nat) :
    Except WorkflowError Json → List Exchange → Except WorkflowError Outcome → Prop where
  | finished (v store) : Closes total (.ok v) [.looked store] (.ok ⟨some v, store, total⟩)
  | failed (e) : Closes total (.error e) [] (.error e)

/-- A run of steps plays exactly the dialogues that the protocol allows: the blocks of its
steps, and then its end. -/
theorem Run.plays_steps_iff {total number : Nat} {steps : List Step} {current : Json}
    {t : List Exchange} {r : Except WorkflowError Outcome} :
    (Run.steps total number steps current).Plays t r ↔
      ∃ bs o t₂, Follows steps current bs o ∧ t = bs.flatMap Block.exchanges ++ t₂ ∧
        Closes total o t₂ r := by
  induction steps generalizing number current t with
  | nil =>
    rw [Run.steps, Run.plays_log_iff]
    constructor
    · intro h
      cases h with
      | readStore store h =>
        cases h
        exact ⟨[], _, _, .done current, rfl, .finished current store⟩
    · rintro ⟨bs, o, t₂, hf, rfl, hc⟩
      cases hf
      cases hc with
      | finished _ store => exact .readStore store (.finish _)
  | cons s rest ih =>
    -- Neither to enter a step nor to report is part of the dialogue.
    have henter : (Run.steps total number (s :: rest) current).Plays t r ↔
        (s.run number current (Run.after total number rest)).Plays t r :=
      ⟨fun h => by cases h with | enter h => exact Run.plays_log_iff.mp h,
        fun h => .enter (.log h)⟩
    rw [henter, Step.plays_run_iff]
    constructor
    · rintro ⟨b, t₂, hb, rfl, hk⟩
      -- What the block comes to enters the other steps, or is the end.
      cases ho : b.output with
      | ok v =>
        rw [ho] at hk
        obtain ⟨bs, o, t₃, hf, rfl, hc⟩ := ih.mp hk
        exact ⟨b :: bs, o, t₃, .next hb ho hf, by simp, hc⟩
      | error e =>
        rw [ho] at hk
        cases hk
        exact ⟨[b], .error e, [], .stop hb ho, by simp, .failed e⟩
    · rintro ⟨bs, o, t₂, hf, rfl, hc⟩
      cases hf with
      | @next _ _ _ b v bs' _ hb ho hf =>
        refine ⟨b, bs'.flatMap Block.exchanges ++ t₂, hb, by simp, ?_⟩
        rw [ho]
        exact ih.mpr ⟨bs', o, t₂, hf, rfl, hc⟩
      | @stop _ _ _ b e hb ho =>
        refine ⟨b, t₂, hb, by simp, ?_⟩
        rw [ho]
        cases hc
        exact .finish _

/-! ## Runs without panic -/

/-- The executors that a step calls inside the run and not as started calls. -/
def Step.waitedFor (s : Step) : List Executor :=
  (match s.action with
    | .sequence executors => executors
    | _ => []) ++ s.onSuccess.toList ++ s.onFail.toList

/-- To wait for no call that can panic.  Any calls may be started. -/
def Rule.panicFree : Rule where
  call := fun _ e input => (e.run input).PanicFree
  fanOut := fun _ _ => True

/-- A step cannot panic if none of those that it waits for can. -/
lemma Step.obeys_panicFree {s : Step} {number : Nat} (hs : ∀ e ∈ s.waitedFor, e.PanicFree) :
    s.Obeys .panicFree number where
  sequence _ haction e he := hs e (by simp [waitedFor, haction, he])
  parallel _ _ _ := trivial
  iterate _ _ _ _ := trivial
  onSuccess e hsuccess := hs e (by simp [waitedFor, hsuccess])
  onFail e hfail := hs e (by simp [waitedFor, hfail])

lemma Run.Obeys.panicFree {run : Run} {n : Nat} {seen : Option Store}
    (h : run.Obeys .panicFree n seen) :
    run.PanicFree := by
  induction run generalizing n seen with
  | finish => trivial
  | enter _ _ ih | log _ _ ih | setPrompt _ _ ih => exact ih h
  | readStore _ ih => exact fun store => ih store (h store)
  | call _ _ _ ih => exact ⟨h.1, fun answer => ih answer (h.2 answer)⟩
  | fanOut _ _ ih => exact fun answer => ih answer (h.2 answer)

/-- The next run cannot crash if none of the executors that it waits for panics. -/
theorem Workflow.nextRun_panicFree {f : Workflow}
    (hfree : ∀ s ∈ f.steps, ∀ e ∈ s.waitedFor, e.PanicFree) : f.nextRun.PanicFree :=
  (nextRun_obeys fun _ _ hi =>
    Step.obeys_panicFree (hfree _ (List.mem_of_getElem? hi))).panicFree

/-! ## Whole runs -/

namespace World

/-- The next run of a workflow with steps. -/
theorem nextRun_of_steps {w : Workflow} (hne : w.steps ≠ []) :
    w.nextRun = Run.steps w.steps.length 1 w.steps (w.prompt.elim .null .str) := by
  have hinput : w.firstInput = w.prompt.elim .null .str := by
    unfold Workflow.firstInput Json.ofOption
    cases w.prompt <;> rfl
  unfold Workflow.nextRun
  rw [← hinput]
  split
  · next h => exact absurd h hne
  · rfl

/-- The protocol of a run, on every schedule that leaves it uncancelled.  When the run
has ended, what it has said and heard is one block for each step, in their order, up to
the first block that comes to a failure; the prompt, or null, enters the first block, and
what a block comes to enters the next one.  The executor calls that were made are exactly
those of the blocks.  The run never crashes, and from wherever it has come it can be
carried to its end. -/
theorem run_follows_protocol {w w' : World} {cs : List Choice} (hne : w.workflow.steps ≠ [])
    (hfree : ∀ s ∈ w.workflow.steps, ∀ e ∈ s.waitedFor, e.PanicFree) (hnone : w.loop = none)
    (hfollow : w.begin.follow cs = some w') (hlive : w'.isCancelled = false) :
    w'.calls = w.calls ++ (w.begin.exchanges cs).flatMap Exchange.calls ∧
    (∀ r, w'.progress = .ended r →
      ∃ blocks o t, Follows w.workflow.steps (w.workflow.prompt.elim .null .str) blocks o ∧
        w.begin.exchanges cs = blocks.flatMap Block.exchanges ++ t ∧
        Closes w.workflow.steps.length o t r) ∧
    (∀ report, w'.progress ≠ .crashed report) ∧
    ∃ ds w₂ r, w'.follow ds = some w₂ ∧ w₂.progress = .ended r := by
  have hloop : .loop ∉ cs := follow_without_loop (w := w.begin) hnone hfollow
  have hbegin : w.begin.progress =
      .acting 0 (Run.steps w.workflow.steps.length 1 w.workflow.steps
        (w.workflow.prompt.elim .null .str)) := by
    rw [← nextRun_of_steps hne]
    rfl
  have hfree' : w'.progress.PanicFree :=
    follow_panicFree hloop hfollow (Workflow.nextRun_panicFree hfree)
  have hcoherent : w.begin.IsCoherent := fun _ _ _ _ _ hp => by rw [hbegin] at hp; cases hp
  refine ⟨follow_calls hloop hfollow, fun r hr => ?_, fun report hcrashed => ?_, ?_⟩
  · have hplays := follow_plays hloop hfollow hlive hr
    rw [hbegin] at hplays
    cases hplays with
    | acting hplays => exact Run.plays_steps_iff.mp hplays
  · rw [hcrashed] at hfree'
    exact hfree'
  · have hbegun : w'.progress ≠ .idle := fun hidle => by rw [hidle] at hfree'; exact hfree'
    -- A run that has begun can be finished, and to a result because nothing in it panics.
    obtain ⟨w₂, ⟨ds, -, hfollow₂⟩, -, hresult⟩ :=
      progress_finishes (follow_isCoherent hloop hfollow hcoherent) hbegun
    obtain ⟨r, hr⟩ := hresult hfree'
    exact ⟨ds, w₂, r, hfollow₂, hr⟩

/-- A world with one step, which echoes its input, and a success handler that fails. -/
def echoWorld : World where
  host := fun _ _ => .refused "no program"
  workflow :=
    { name := "echo", prompt := some "hello"
      steps := [
        { action := .sequence [ExecutorSpec.echo.toExecutor 0], description := "echo"
          onSuccess := some ((ExecutorSpec.fail "no").toExecutor 1)
          onFail := some (ExecutorSpec.echo.toExecutor 2) }] }

/-- A run of one step that echoes follows the protocol to its end. -/
theorem run_follows_protocol_echo :
    ∃ w', echoWorld.begin.follow (List.replicate 17 .run) = some w' ∧
      w'.isCancelled = false ∧
      ∃ r blocks o t, w'.progress = .ended r ∧
        Follows echoWorld.workflow.steps (.str "hello") blocks o ∧
        echoWorld.begin.exchanges (List.replicate 17 .run) =
          blocks.flatMap Block.exchanges ++ t ∧
        Closes 1 o t r := by
  have hfree : ∀ s ∈ echoWorld.workflow.steps, ∀ e ∈ s.waitedFor, e.PanicFree := by
    intro s hs e he
    obtain rfl : s = _ := List.mem_singleton.mp hs
    simp only [Step.waitedFor, Option.toList_some, List.cons_append, List.nil_append,
      List.mem_cons, List.not_mem_nil, or_false] at he
    rcases he with rfl | rfl | rfl <;> exact fun _ => trivial
  have hfollow : ∃ w', echoWorld.begin.follow (List.replicate 17 .run) = some w' ∧
      w'.isCancelled = false ∧ ∃ r, w'.progress = .ended r := ⟨_, rfl, rfl, _, rfl⟩
  obtain ⟨w', hfollow, hlive, r, hr⟩ := hfollow
  obtain ⟨-, hended, -⟩ :=
    run_follows_protocol (by simp [echoWorld]) hfree rfl hfollow hlive
  obtain ⟨blocks, o, t, h⟩ := hended r hr
  exact ⟨w', hfollow, hlive, r, blocks, o, t, hr, h⟩

end World
end Workplan
